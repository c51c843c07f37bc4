import WiotaDev.LineFraming
import WiotaDev.WordBytes
import Mathlib.Data.List.GetD
import Mathlib.Data.List.TakeWhile
import Mathlib.Logic.Function.Basic
import Mathlib.Tactic.SplitIfs

/-! # The transparent mode of the AT module

Each line that is received is sent as one message, until a line ends with the end string. A line that
is too long for a message is reported, and what is received then is discarded until there is silence. -/

namespace WiotaDev.TransparentMode
open LineFraming WordBytes

def WIOTA_TRANS_END_STRING : List Byte := [0x45, 0x4F, 0x46]
def WIOTA_TRANS_MAX_LEN : ℕ := 310
def WIOTA_TRANS_END_STRING_MAX : ℕ := 8
def CRC16_LEN : ℕ := 2
def WIOTA_TRANS_BUFF : ℕ := WIOTA_TRANS_MAX_LEN + WIOTA_TRANS_END_STRING_MAX + CRC16_LEN + 1

def CR : Byte := 0x0D
def LF : Byte := 0x0A

/-- A string of one to eight characters; it is what `at_wiotatrans_process` takes for the end. -/
structure EndString where
  chars : List Byte
  pos : 1 ≤ chars.length
  le : chars.length ≤ WIOTA_TRANS_END_STRING_MAX
  noCr : CR ∉ chars
  noLf : LF ∉ chars

/-- The characters of the argument before the first line break, or else the default, as
`at_wiotatrans_setup` and the first lines of `at_wiotatrans_process` choose it. -/
def transStrEnd (parsed : List Byte) : List Byte :=
  let strEnd := (parsed.take WIOTA_TRANS_END_STRING_MAX).takeWhile fun c => c ≠ CR ∧ c ≠ LF ∧ c ≠ 0
  if strEnd = [] then WIOTA_TRANS_END_STRING else strEnd

/-- The main loop, the loop that discards after a report, the one that discards at the end, and behind
it. -/
inductive Mode
  | receiving | discarding | leaving | left
  deriving DecidableEq

/-- `pBuff` and `nSeekRx` where a character is waited for, and the messages that have been sent. -/
structure Trans where
  pBuff : ℕ → Byte
  nSeekRx : ℕ
  mode : Mode
  sent : List (List Byte)

def Trans.start : Trans := ⟨fun _ => 0, 0, .receiving, []⟩

/-- The test for `CR` and `LF`, on the position behind the last character. -/
def crLf (pBuff : ℕ → Byte) (nSeekRx : ℕ) : Prop :=
  nSeekRx > 2 ∧ LF = pBuff (nSeekRx - 1) ∧ CR = pBuff (nSeekRx - 2)

instance (pBuff : ℕ → Byte) (nSeekRx : ℕ) : Decidable (crLf pBuff nSeekRx) :=
  inferInstanceAs (Decidable (_ ∧ _))

/-- The test for the end string before a position. -/
def strEndAt (strEnd : List Byte) (pBuff : ℕ → Byte) (nSeekRx : ℕ) : Prop :=
  (nSeekRx ≥ strEnd.length ∧ pBuff (nSeekRx - 1) = strEnd.getD (strEnd.length - 1) 0) ∧
    ∀ i < strEnd.length, pBuff (nSeekRx - strEnd.length + i) = strEnd.getD i 0

instance (strEnd : List Byte) (pBuff : ℕ → Byte) (nSeekRx : ℕ) :
    Decidable (strEndAt strEnd pBuff nSeekRx) := inferInstanceAs (Decidable (_ ∧ _))

/-- One turn of the main loop. -/
def received (strEnd : List Byte) (t : Trans) (c : Byte) : Trans :=
  let nLenEnd := strEnd.length
  let pBuff := Function.update t.pBuff t.nSeekRx c
  let nSeekRx := t.nSeekRx + 1
  let nSendFlag := crLf pBuff nSeekRx
  let nSeekRx := if nSendFlag then nSeekRx - 2 else nSeekRx
  let found := nSendFlag ∧ strEndAt strEnd pBuff nSeekRx
  let nSeekRx := if found then nSeekRx - nLenEnd else nSeekRx
  if nSeekRx > WIOTA_TRANS_MAX_LEN + nLenEnd + 2 ∨ (nSendFlag ∧ nSeekRx > WIOTA_TRANS_MAX_LEN) then
    { t with pBuff, nSeekRx, mode := .discarding }
  else if nSendFlag then
    let nSeekRx := if nSeekRx > WIOTA_TRANS_MAX_LEN then WIOTA_TRANS_MAX_LEN else nSeekRx
    { pBuff := fun _ => 0
      nSeekRx := 0
      mode := if found then .leaving else .receiving
      sent := if nSeekRx > 0 then t.sent ++ [(List.range nSeekRx).map pBuff] else t.sent }
  else
    { t with pBuff, nSeekRx }

/-- A character arrives, or none does for the 200 ms after which the discarding ends. -/
inductive Event
  | char (c : Byte)
  | silence

def Trans.next (strEnd : List Byte) (t : Trans) : Event → Trans
  | .char c =>
    match t.mode with
    | .receiving => received strEnd t c
    | .discarding | .leaving => { t with pBuff := Function.update t.pBuff 0 c }
    | .left => t
  | .silence =>
    match t.mode with
    | .discarding => { t with pBuff := fun _ => 0, nSeekRx := 0, mode := .receiving }
    | .leaving => { t with mode := .left }
    | .receiving | .left => t

/-- Where the next character is written. -/
def Trans.writeIndex (t : Trans) : ℕ := if t.mode = .receiving then t.nSeekRx else 0

/-- The run, and what the main loop has received: a report is a cut. -/
structure Session where
  trans : Trans
  items : List (Item Byte)

def Session.start : Session := ⟨Trans.start, []⟩

/-- What an event adds to what has been received. -/
def itemsOf (t t' : Trans) : Event → List (Item Byte)
  | .char c =>
    if t.mode = .receiving then
      if t'.mode = .discarding then [.byte c, .cut] else [.byte c]
    else []
  | .silence => []

def Session.next (strEnd : List Byte) (s : Session) (e : Event) : Session :=
  ⟨s.trans.next strEnd e, s.items ++ itemsOf s.trans (s.trans.next strEnd e) e⟩

/-- The lines that have been received. -/
def Session.read (s : Session) : Lines Byte := LineFraming.read CR LF s.items

/-- A line without the end string, if it has it at its end. -/
def content (strEnd line : List Byte) : List Byte :=
  if strEnd <:+ line then line.take (line.length - strEnd.length) else line

/-- The messages that belong to some lines. -/
def messages (strEnd : List Byte) (lines : List (List Byte)) : List (List Byte) :=
  (lines.map (content strEnd)).filter fun m => 1 ≤ m.length ∧ m.length ≤ WIOTA_TRANS_MAX_LEN

/-- More has been received of a line than fits in a message. -/
def OverLong (strEnd : List Byte) (l : Lines Byte) : Prop :=
  WIOTA_TRANS_MAX_LEN < l.cur.length ∨
    l.cur = [] ∧ ∃ line ∈ l.lines.getLast?, WIOTA_TRANS_MAX_LEN < (content strEnd line).length

/-- Only what does not fit is reported. -/
def Justified (strEnd : List Byte) (items : List (Item Byte)) : Prop :=
  ∀ pre, pre ++ [.cut] <+: items → OverLong strEnd (LineFraming.read CR LF pre)

/-- There is a line that ends the mode: it fits, and has the end string at its end. -/
def Ends (strEnd : List Byte) (lines : List (List Byte)) : Prop :=
  ∃ line ∈ lines, strEnd <:+ line ∧ (content strEnd line).length ≤ WIOTA_TRANS_MAX_LEN

/-- The characters stay in the buffer. The messages are the lines that are not empty and fit in one,
without their line breaks; only lines that do not fit are reported; and a line with the end string that
fits leaves the mode. -/
structure Framed (strEnd : List Byte) (s : Session) : Prop where
  index : s.trans.writeIndex < WIOTA_TRANS_BUFF
  sent : s.trans.sent = messages strEnd s.read.lines
  bounds : ∀ m ∈ s.trans.sent, (1 ≤ m.length ∧ m.length ≤ WIOTA_TRANS_MAX_LEN) ∧ ¬ [CR, LF] <:+: m
  reports : Justified strEnd s.items
  leaves : s.trans.mode = .leaving ∨ s.trans.mode = .left ↔ Ends strEnd s.read.lines

/-- A character does not complete a line that fits in a message directly behind an empty line. -/
def NotBehindEmpty (strEnd : List Byte) (s : Session) : Event → Prop
  | .char c => s.trans.mode = .receiving → s.read.behindEmpty = true →
      Completes CR LF s.read.cur c →
        WIOTA_TRANS_MAX_LEN < (content strEnd s.read.cur.dropLast).length
  | .silence => True

/-- What the buffer holds behind an empty line: its line break has not been found. -/
def leftover (behindEmpty : Bool) : List Byte := if behindEmpty then [CR, LF] else []

/-- The first `nSeekRx` characters. -/
def Trans.held (t : Trans) : List Byte := (List.range t.nSeekRx).map t.pBuff

/-- The buffer holds the line in progress behind what is left over, and has room for more; after a
report a new line begins. -/
structure Mirrors (strEnd : List Byte) (s : Session) : Prop where
  held : s.trans.mode = .receiving → s.trans.held = leftover s.read.behindEmpty ++ s.read.cur
  room : s.trans.mode = .receiving → s.trans.nSeekRx ≤ WIOTA_TRANS_MAX_LEN + strEnd.length + 2
  cut : s.trans.mode = .discarding → s.read.cur = [] ∧ s.read.behindEmpty = false

/-- The end string that a call of `at_wiotatrans_setup` leads to. -/
def transEndString (parsed : List Byte) : EndString :=
  have hmem : ∀ c ∈ transStrEnd parsed, c ≠ CR ∧ c ≠ LF := by
    intro c hc
    simp only [transStrEnd] at hc
    split at hc
    · revert c
      decide
    · have hkept := List.mem_takeWhile_imp hc
      simp only [decide_eq_true_eq] at hkept
      exact ⟨hkept.1, hkept.2.1⟩
  { chars := transStrEnd parsed
    pos := by
      simp only [transStrEnd]
      split
      · decide
      · rename_i hne
        exact List.length_pos_iff.mpr hne
    le := by
      simp only [transStrEnd]
      split
      · decide
      · exact (List.takeWhile_prefix _).length_le.trans (List.length_take_le _ _)
    noCr := fun h => (hmem CR h).1 rfl
    noLf := fun h => (hmem LF h).2 rfl }

section Buffer
variable {strEnd : List Byte} {t : Trans} {c : Byte}

@[simp] theorem length_held (t : Trans) : t.held.length = t.nSeekRx := by
  rw [Trans.held, List.length_map, List.length_range]

theorem held_update (t : Trans) (c : Byte) :
    (List.range (t.nSeekRx + 1)).map (Function.update t.pBuff t.nSeekRx c) = t.held ++ [c] := by
  rw [List.range_succ, List.map_append, List.map_singleton, Function.update_self, Trans.held]
  congr 1
  apply List.map_congr_left
  intro i hi
  exact Function.update_of_ne (List.mem_range.mp hi).ne ..

theorem take_map_range (f : ℕ → Byte) {k n : ℕ} (h : k ≤ n) :
    ((List.range n).map f).take k = (List.range k).map f := by
  rw [← List.map_take, List.take_range, Nat.min_eq_left h]

theorem strEndAt_iff (hpos : 1 ≤ strEnd.length) (f : ℕ → Byte) (n : ℕ) :
    strEndAt strEnd f n ↔ strEnd <:+ (List.range n).map f := by
  have hbyte : ∀ i (hi : i < strEnd.length), strEnd.length ≤ n →
      (((List.range n).map f)[i + n - strEnd.length]? = some strEnd[i] ↔
        f (n - strEnd.length + i) = strEnd.getD i 0) := by
    intro i hi hle
    have hindex : i + n - strEnd.length = n - strEnd.length + i := by omega
    rw [hindex, List.getElem?_map, List.getElem?_range (by omega), Option.map_some, Option.some.injEq,
      List.getD_eq_getElem _ 0 hi]
  simp only [List.suffix_iff_getElem?, strEndAt, List.length_map, List.length_range]
  constructor
  · rintro ⟨⟨hle, -⟩, hall⟩
    exact ⟨hle, fun i hi => (hbyte i hi hle).mpr (hall i hi)⟩
  · rintro ⟨hle, hall⟩
    have hall' : ∀ i < strEnd.length, f (n - strEnd.length + i) = strEnd.getD i 0 :=
      fun i hi => (hbyte i hi hle).mp (hall i hi)
    refine ⟨⟨hle, ?_⟩, hall'⟩
    have hlast : n - 1 = n - strEnd.length + (strEnd.length - 1) := by omega
    rw [hlast]
    exact hall' _ (by omega)

/-- The line break is found unless it stands at the very front of the buffer. -/
theorem crLf_iff (t : Trans) (c : Byte) :
    crLf (Function.update t.pBuff t.nSeekRx c) (t.nSeekRx + 1) ↔
      2 ≤ t.nSeekRx ∧ Completes CR LF t.held c := by
  rw [crLf, Completes, Nat.add_sub_cancel, Function.update_self]
  have hlast : 2 ≤ t.nSeekRx →
      (CR = Function.update t.pBuff t.nSeekRx c (t.nSeekRx + 1 - 2) ↔ t.held.getLast? = some CR) := by
    intro h
    rw [Function.update_of_ne (by omega), List.getLast?_eq_getElem?, length_held, Trans.held,
      List.getElem?_map, List.getElem?_range (by omega), Option.map_some, Option.some.injEq, eq_comm]
    have hindex : t.nSeekRx + 1 - 2 = t.nSeekRx - 1 := by omega
    rw [hindex]
  constructor
  · rintro ⟨hn, hlf, hcr⟩
    exact ⟨by omega, hlf.symm, (hlast (by omega)).mp hcr⟩
  · rintro ⟨hn, hlf, hcr⟩
    exact ⟨by omega, hlf.symm, (hlast hn).mpr hcr⟩

theorem length_content_le (strEnd line : List Byte) :
    (content strEnd line).length ≤ line.length := by
  rw [content]
  split_ifs
  · exact List.length_take_le' _ _
  · exact le_rfl

theorem prefix_content (strEnd line : List Byte) : content strEnd line <+: line := by
  rw [content]
  split_ifs
  · exact List.take_prefix _ _
  · exact List.prefix_rfl

/-- A turn of the main loop without a line break. -/
theorem received_goes_on (strEnd : List Byte) (h : ¬ (2 ≤ t.nSeekRx ∧ Completes CR LF t.held c)) :
    (received strEnd t c).sent = t.sent ∧ (received strEnd t c).held = t.held ++ [c] ∧
      (received strEnd t c).nSeekRx = t.nSeekRx + 1 ∧
      (received strEnd t c).mode =
        if t.nSeekRx + 1 > WIOTA_TRANS_MAX_LEN + strEnd.length + 2 then .discarding else t.mode := by
  have hflag := mt (crLf_iff t c).mp h
  simp only [received, hflag, if_false, false_and, or_false]
  split_ifs with hlong
  · exact ⟨rfl, held_update t c, rfl, rfl⟩
  · exact ⟨rfl, held_update t c, rfl, rfl⟩

/-- A turn of the main loop that finds a line break. -/
theorem received_breaks (hpos : 1 ≤ strEnd.length) (h : 2 ≤ t.nSeekRx ∧ Completes CR LF t.held c) :
    if WIOTA_TRANS_MAX_LEN < (content strEnd t.held.dropLast).length then
      (received strEnd t c).mode = .discarding ∧ (received strEnd t c).sent = t.sent
    else
      (received strEnd t c).nSeekRx = 0 ∧
      (received strEnd t c).mode = (if strEnd <:+ t.held.dropLast then .leaving else .receiving) ∧
      (received strEnd t c).sent = if 0 < (content strEnd t.held.dropLast).length then
        t.sent ++ [content strEnd t.held.dropLast] else t.sent := by
  have hflag := (crLf_iff t c).mpr h
  have hline : (List.range (t.nSeekRx - 1)).map (Function.update t.pBuff t.nSeekRx c) =
      t.held.dropLast := by
    rw [← take_map_range _ (show t.nSeekRx - 1 ≤ t.nSeekRx + 1 by omega), held_update,
      List.take_append_of_le_length (by rw [length_held]; omega), List.dropLast_eq_take, length_held]
  have hlen : t.held.dropLast.length = t.nSeekRx - 1 := by rw [List.length_dropLast, length_held]
  have hsub : t.nSeekRx + 1 - 2 = t.nSeekRx - 1 := by omega
  have hfound : strEndAt strEnd (Function.update t.pBuff t.nSeekRx c) (t.nSeekRx - 1) ↔
      strEnd <:+ t.held.dropLast := by rw [strEndAt_iff hpos, hline]
  have hcount : (if strEnd <:+ t.held.dropLast then t.nSeekRx - 1 - strEnd.length
      else t.nSeekRx - 1) = (content strEnd t.held.dropLast).length := by
    rw [content]
    split_ifs
    · rw [List.length_take, hlen]
      omega
    · exact hlen.symm
  simp only [received, hflag, if_true, true_and, hsub, hfound, hcount]
  by_cases hlong : WIOTA_TRANS_MAX_LEN < (content strEnd t.held.dropLast).length
  · rw [if_pos hlong, if_pos (Or.inr hlong)]
    exact ⟨rfl, rfl⟩
  · have hshort : ¬ ((content strEnd t.held.dropLast).length > WIOTA_TRANS_MAX_LEN + strEnd.length + 2 ∨
        (content strEnd t.held.dropLast).length > WIOTA_TRANS_MAX_LEN) := by
      rintro (hgt | hgt) <;> omega
    have hle : (content strEnd t.held.dropLast).length ≤ t.nSeekRx - 1 :=
      hlen ▸ length_content_le strEnd t.held.dropLast
    have hcontent : (List.range (content strEnd t.held.dropLast).length).map
        (Function.update t.pBuff t.nSeekRx c) = content strEnd t.held.dropLast := by
      rw [← take_map_range _ hle, hline]
      exact (List.prefix_iff_eq_take.mp (prefix_content strEnd t.held.dropLast)).symm
    rw [if_neg hlong, if_neg hshort]
    simp only [if_neg hlong, gt_iff_lt, hcontent]
    exact ⟨trivial, trivial, trivial⟩

/-- The end string stands behind what is left over, as it has no `LF`. -/
theorem suffix_leftover_iff (endString : EndString) (b : Bool) (line : List Byte) :
    endString.chars <:+ leftover b ++ line ↔ endString.chars <:+ line := by
  refine ⟨fun h => ?_, List.suffix_append_of_suffix⟩
  have hline : line <:+ leftover b ++ line := List.suffix_append _ _
  rcases Nat.le_total endString.chars.length line.length with hle | hle
  · exact List.suffix_of_suffix_length_le h hline hle
  · obtain ⟨front, hfront⟩ := List.suffix_of_suffix_length_le hline h hle
    rw [← hfront, List.suffix_append_self_iff] at h
    have hnil : front = [] := by
      have hlf : LF ∉ front := fun hmem => endString.noLf (hfront ▸ List.mem_append_left line hmem)
      cases b with
      | false => exact List.suffix_nil.mp h
      | true =>
        rcases List.suffix_cons_iff.mp h with rfl | h
        · exact absurd (List.mem_cons_of_mem _ (List.mem_singleton_self LF)) hlf
        rcases List.suffix_cons_iff.mp h with rfl | h
        · exact absurd (List.mem_singleton_self LF) hlf
        · exact List.suffix_nil.mp h
    rw [← hfront, hnil]
    exact List.suffix_rfl

theorem content_leftover (endString : EndString) (b : Bool) (line : List Byte) :
    content endString.chars (leftover b ++ line) = leftover b ++ content endString.chars line := by
  rw [content, content]
  by_cases h : endString.chars <:+ line
  · rw [if_pos h, if_pos ((suffix_leftover_iff endString b line).mpr h), List.length_append,
      Nat.add_sub_assoc h.length_le, List.take_length_add_append]
  · rw [if_neg h, if_neg (mt (suffix_leftover_iff endString b line).mp h)]

end Buffer

end WiotaDev.TransparentMode
