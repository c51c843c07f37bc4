import WiotaDev.SkippedSeparators
import WiotaDev.WordBytes
import Mathlib.Data.Nat.Digits.Defs
import Mathlib.Logic.Function.Basic
import Mathlib.Tactic.SplitIfs

/-! # The frequency list of the scan command

`convert_string_to_freq_array` reads numbers between commas: the frequencies in decimal, and then the
subsystems in hexadecimal. A pointer is the memory from where it points on. -/

namespace WiotaDev.ScanList
open SkippedSeparators WordBytes

abbrev Word := BitVec 32

def SCAN_MODE_NORMAL : Byte := 0
def SCAN_MODE_SUBSYSID : Byte := 1
def SCAN_MODE_ONLY_FAST : Byte := 2

def comma : Byte := 0x2C

/-- `uc_freq_scan_req_dyn_t` without what fills it up. -/
structure FreqReq where
  subSysId : Word
  freqIdx : Byte
  deriving DecidableEq

def nthPower (num : Word) : ℕ → Word
  | 0 => 1
  | n + 1 => nthPower num n * num

/-- The value of a character in `convert_string_to_int`. -/
def digit (c : Byte) : Option Byte :=
  if c ≥ 0x30 ∧ c ≤ 0x39 then some (c - 0x30)
  else if c ≥ 0x41 ∧ c ≤ 0x46 then some (c - 0x41 + 10)
  else if c ≥ 0x61 ∧ c ≤ 0x66 then some (c - 0x61 + 10)
  else none

/-- The loop of `convert_string_to_int` with `nth` characters to go; `none` is a read behind the end of
the memory. -/
def convertLoop (scale : Word) : ℕ → List Byte → Word → Option Word
  | 0, _, numValue => some numValue
  | _ + 1, [], _ => none
  | nth + 1, c :: pStart, numValue =>
    match digit c with
    | some temp => convertLoop scale nth pStart (numValue + nthPower scale nth * temp.setWidth 32)
    | none => some numValue

/-- `convert_string_to_int`; there is no number where its buffer cannot be allocated. -/
def convertStringToInt (allocated : Bool) (numLen : ℕ) (pStart : List Byte) (scale : Word) :
    Option Word :=
  if allocated then convertLoop scale numLen pStart 0 else some 0

/-- The variables of `convert_string_to_freq_array` beside `pEnd`. -/
structure Scan where
  pStart : List Byte
  num : ℕ
  numLen : ℕ
  array : ℕ → FreqReq

/-- A store to the array; `none` is one outside of it. -/
def storeAt (freqNum : ℕ) (array : ℕ → FreqReq) (i : ℕ) (entry : FreqReq) : Option (ℕ → FreqReq) :=
  if i < freqNum then some (Function.update array i entry) else none

section Code
variable (alloc : ℕ → Bool) (freqNum : ℕ)

/-- The number that has been delimited is stored; `alloc` says for which of them there is memory. -/
def storeNumber (s : Scan) : Option (ℕ → FreqReq) :=
  if s.num < freqNum then
    (convertStringToInt (alloc s.num) s.numLen s.pStart 10).bind fun value =>
      storeAt freqNum s.array s.num { s.array s.num with freqIdx := value.setWidth 8 }
  else if s.num < freqNum * 2 % 2 ^ 32 then
    (convertStringToInt (alloc s.num) s.numLen s.pStart 16).bind fun value =>
      storeAt freqNum s.array (s.num - freqNum)
        { s.array (s.num - freqNum) with subSysId := value }
  else some s.array

/-- The inner loop from a `pEnd` on. -/
def innerLoop : List Byte → Scan → Option (List Byte × Scan)
  | [], _ => none
  | c :: pEnd, s =>
    if c = 0 then some (c :: pEnd, s)
    else if c = comma then
      -- the character behind a comma is passed over
      match pEnd with
      | [] => none
      | d :: pEnd => (storeNumber alloc freqNum s).bind fun array =>
        innerLoop pEnd ⟨d :: pEnd, (s.num + 1) % 2 ^ 32, 1, array⟩
    else innerLoop pEnd { s with numLen := (s.numLen + 1) % 2 ^ 32 }

/-- The outer loop, which ends after one turn, as the inner one ends at the terminator. -/
def outerLoop (string : List Byte) (array : ℕ → FreqReq) : Option (ℕ × (ℕ → FreqReq)) :=
  match string with
  | [] => none
  | c :: _ =>
    if c = 0 then some (0, array)
    else (innerLoop alloc freqNum string ⟨string, 0, 0, array⟩).bind fun r =>
      (storeNumber alloc freqNum r.2).map fun array => ((r.2.num + 1) % 2 ^ 32, array)

/-- The number of texts for which the result is `TRUE`. -/
def expected (mode : Byte) : ℕ :=
  if mode = SCAN_MODE_SUBSYSID then freqNum * 2 % 2 ^ 32 else freqNum

/-- `convert_string_to_freq_array`. -/
def convertStringToFreqArray (string : List Byte) (array : ℕ → FreqReq) (mode : Byte) :
    Option (Bool × (ℕ → FreqReq)) :=
  (outerLoop alloc freqNum string array).map fun r => (decide (r.1 = expected freqNum mode), r.2)

end Code

/-- A text of the 32-bit memory, without its terminator. -/
structure Text where
  chars : List Byte
  noNul : 0 ∉ chars
  length_lt : chars.length < 2 ^ 32

/-- The text and its terminator. -/
def Text.memory (t : Text) : List Byte := t.chars ++ [0]

/-- A `freq_num` other than 0. -/
structure FreqNum where
  toNat : ℕ
  pos : 1 ≤ toNat
  lt : toNat < 2 ^ 32

/-- A number is not empty, and its digits are below the base. -/
def IsNumber (base : ℕ) (t : List Byte) : Prop := t ≠ [] ∧ ∀ c ∈ t, ∃ d ∈ digit c, d.toNat < base

def value (base : ℕ) (t : List Byte) : ℕ :=
  Nat.ofDigits base (t.reverse.map fun c => ((digit c).getD 0).toNat)

/-- How many numbers there are in a list. -/
def numbers (mode : Byte) (n : FreqNum) : ℕ := if mode = SCAN_MODE_SUBSYSID then n.toNat * 2 else n.toNat

/-- The texts are the numbers: first the decimal ones, then the hexadecimal ones. -/
structure AreNumbers (mode : Byte) (n : FreqNum) (ts : List (List Byte)) : Prop where
  length : ts.length = numbers mode n
  decimal : ∀ t ∈ ts.take n.toNat, IsNumber 10 t
  hexadecimal : ∀ t ∈ ts.drop n.toNat, IsNumber 16 t

/-- The conversion stays inside of the string and of the array; it accepts exactly the lists of numbers;
and then it stores their values. -/
structure Converts (alloc : ℕ → Bool) (mode : Byte) (n : FreqNum) (string : Text)
    (array : ℕ → FreqReq) : Prop where
  inside : convertStringToFreqArray alloc n.toNat string.memory array mode ≠ none
  accepts : ∀ isRight out,
    convertStringToFreqArray alloc n.toNat string.memory array mode = some (isRight, out) →
      (isRight = true ↔ AreNumbers mode n (string.chars.splitOn comma))
  stores : ∀ out, convertStringToFreqArray alloc n.toNat string.memory array mode = some (true, out) →
    ∀ i < n.toNat,
      (∀ t ∈ (string.chars.splitOn comma)[i]?, (out i).freqIdx = BitVec.ofNat 8 (value 10 t)) ∧
      ∀ t ∈ (string.chars.splitOn comma)[n.toNat + i]?, (out i).subSysId = BitVec.ofNat 32 (value 16 t)

/-- The texts that the code takes for numbers: what stands directly behind a comma is taken as it is. -/
def codeTexts (chars : List Byte) : Option (List (List Byte)) :=
  if chars = [] then some [] else texts comma [] chars

/-- Every text has memory to be converted, unless its value is stored as 0. -/
def HasMemory (alloc : ℕ → Bool) (n : FreqNum) (ts : List (List Byte)) : Prop :=
  ∀ i, ∀ t ∈ ts[i]?, alloc i = false →
    if i < n.toNat then value 10 t % 2 ^ 8 = 0 else value 16 t % 2 ^ 32 = 0

/-- An even number of commas stand at the end. If there are as many texts as are expected, then these are
the numbers of a list, and there is memory to convert them. -/
structure Convertible (alloc : ℕ → Bool) (mode : Byte) (n : FreqNum) (chars : List Byte) : Prop where
  even : Even (run comma chars)
  numbers : ∀ ts ∈ codeTexts chars, ts.length = expected n.toNat mode →
    AreNumbers mode n ts ∧ HasMemory alloc n ts

section Numbers
variable {scale : Word} {base : ℕ}

theorem nthPower_ofNat (base n : ℕ) :
    nthPower (BitVec.ofNat 32 base) n = BitVec.ofNat 32 (base ^ n) := by
  induction n with
  | zero => rfl
  | succ n ih => rw [nthPower, ih, pow_succ, BitVec.ofNat_mul]

theorem value_cons (base : ℕ) (c : Byte) (t : List Byte) :
    value base (c :: t) = ((digit c).getD 0).toNat * base ^ t.length + value base t := by
  rw [value, List.reverse_cons, List.map_append, List.map_singleton, Nat.ofDigits_append,
    Nat.ofDigits_singleton, List.length_map, List.length_reverse, Nat.mul_comm, Nat.add_comm]
  rfl

/-- What the loop of `convert_string_to_int` computes from a text. -/
def digitSum (scale : Word) : List Byte → Word → Word
  | [], numValue => numValue
  | c :: t, numValue =>
    match digit c with
    | some temp => digitSum scale t (numValue + nthPower scale t.length * temp.setWidth 32)
    | none => numValue

theorem convertLoop_text (scale : Word) (t tail : List Byte) (numValue : Word) :
    convertLoop scale t.length (t ++ tail) numValue = some (digitSum scale t numValue) := by
  induction t generalizing numValue with
  | nil => rfl
  | cons c t ih =>
    rw [List.length_cons, List.cons_append, convertLoop, digitSum]
    cases digit c with
    | some temp => exact ih _
    | none => rfl

/-- The sum over the powers is the value of a number. -/
theorem digitSum_number {t : List Byte} (h : ∀ c ∈ t, ∃ d ∈ digit c, d.toNat < base)
    (numValue : Word) :
    digitSum (BitVec.ofNat 32 base) t numValue = numValue + BitVec.ofNat 32 (value base t) := by
  induction t generalizing numValue with
  | nil => exact (BitVec.add_zero numValue).symm
  | cons c t ih =>
    obtain ⟨d, hd, -⟩ := h c List.mem_cons_self
    rw [Option.mem_def] at hd
    have hrest := ih fun c hc => h c (List.mem_cons_of_mem _ hc)
    rw [digitSum, hd, value_cons, hd, Option.getD_some, BitVec.ofNat_add, BitVec.ofNat_mul,
      BitVec.ofNat_toNat, nthPower_ofNat]
    refine (hrest _).trans ?_
    rw [BitVec.mul_comm, BitVec.add_assoc]

/-- The result of `convert_string_to_int` for a text. -/
def numberOf (allocated : Bool) (scale : Word) (t : List Byte) : Word :=
  if allocated then digitSum scale t 0 else 0

theorem convertStringToInt_text (allocated : Bool) (t tail : List Byte) (scale : Word) :
    convertStringToInt allocated t.length (t ++ tail) scale = some (numberOf allocated scale t) := by
  cases allocated with
  | true => exact convertLoop_text scale t tail 0
  | false => rfl

theorem numberOf_number {t : List Byte} (h : IsNumber base t) (allocated : Bool) :
    numberOf allocated (BitVec.ofNat 32 base) t =
      if allocated then BitVec.ofNat 32 (value base t) else 0 := by
  rw [numberOf, digitSum_number h.2]
  congr 1
  exact BitVec.zero_add _

end Numbers

section Stores
variable (alloc : ℕ → Bool) (freqNum : ℕ)

/-- The store of a text. -/
def storeText (num : ℕ) (array : ℕ → FreqReq) (t : List Byte) : ℕ → FreqReq :=
  if num < freqNum then
    Function.update array num
      { array num with freqIdx := (numberOf (alloc num) 10 t).setWidth 8 }
  else if num < freqNum * 2 % 2 ^ 32 then
    Function.update array (num - freqNum)
      { array (num - freqNum) with subSysId := numberOf (alloc num) 16 t }
  else array

theorem storeNumber_text (num : ℕ) (array : ℕ → FreqReq) (t tail : List Byte) :
    storeNumber alloc freqNum ⟨t ++ tail, num, t.length, array⟩ =
      some (storeText alloc freqNum num array t) := by
  rw [storeNumber, storeText]
  split_ifs with hfreq hsub
  · rw [convertStringToInt_text, Option.bind_some, storeAt, if_pos hfreq]
  · rw [convertStringToInt_text, Option.bind_some, storeAt, if_pos]
    have hle := Nat.mod_le (freqNum * 2) (2 ^ 32)
    have hnum : ¬ num < freqNum ∧ num < freqNum * 2 % 2 ^ 32 := ⟨hfreq, hsub⟩
    show num - freqNum < freqNum
    omega
  · rfl

/-- The stores of the texts, from number `num` on. -/
def stored : ℕ → (ℕ → FreqReq) → List (List Byte) → ℕ → FreqReq
  | _, array, [] => array
  | num, array, t :: ts => stored (num + 1) (storeText alloc freqNum num array t) ts

variable {alloc freqNum}

theorem stored_freqIdx_of_lt {i num : ℕ} (h : i < num) (array : ℕ → FreqReq)
    (ts : List (List Byte)) : (stored alloc freqNum num array ts i).freqIdx = (array i).freqIdx := by
  induction ts generalizing num array with
  | nil => rfl
  | cons t ts ih =>
    rw [stored, ih (by omega), storeText]
    split_ifs with hfreq hsub
    · rw [Function.update_of_ne (by omega)]
    · by_cases hi : i = num - freqNum
      · rw [hi, Function.update_self]
      · rw [Function.update_of_ne hi]
    · rfl

theorem stored_subSysId_of_lt {i num : ℕ} (h : freqNum + i < num) (array : ℕ → FreqReq)
    (ts : List (List Byte)) :
    (stored alloc freqNum num array ts i).subSysId = (array i).subSysId := by
  induction ts generalizing num array with
  | nil => rfl
  | cons t ts ih =>
    rw [stored, ih (by omega), storeText, if_neg (by omega)]
    split_ifs with hsub
    · rw [Function.update_of_ne (by omega)]
    · rfl

/-- A frequency is the number of its text. -/
theorem stored_freqIdx {num j : ℕ} (hj : num + j < freqNum) (array : ℕ → FreqReq)
    {ts : List (List Byte)} {t : List Byte} (h : ts[j]? = some t) :
    (stored alloc freqNum num array ts (num + j)).freqIdx =
      (numberOf (alloc (num + j)) 10 t).setWidth 8 := by
  induction ts generalizing num array j with
  | nil => exact absurd h (by simp)
  | cons u ts ih =>
    cases j with
    | zero =>
      obtain rfl := Option.some.inj h
      rw [Nat.add_zero] at hj ⊢
      rw [stored, stored_freqIdx_of_lt (Nat.lt_succ_self num), storeText, if_pos hj,
        Function.update_self]
    | succ j =>
      have hnext : num + (j + 1) = num + 1 + j := by omega
      rw [hnext] at hj ⊢
      exact ih hj _ h

/-- A subsystem is the number of its text. -/
theorem stored_subSysId {num j i : ℕ} (hj : num + j = freqNum + i) (hi : num + j < freqNum * 2 % 2 ^ 32)
    (array : ℕ → FreqReq) {ts : List (List Byte)} {t : List Byte} (h : ts[j]? = some t) :
    (stored alloc freqNum num array ts i).subSysId = numberOf (alloc (num + j)) 16 t := by
  induction ts generalizing num array j with
  | nil => exact absurd h (by simp)
  | cons u ts ih =>
    cases j with
    | zero =>
      obtain rfl := Option.some.inj h
      rw [Nat.add_zero] at hj hi ⊢
      have hindex : num - freqNum = i := by omega
      rw [stored, stored_subSysId_of_lt (by omega), storeText, if_neg (by omega), if_pos hi, hindex,
        Function.update_self]
    | succ j =>
      have hnext : num + (j + 1) = num + 1 + j := by omega
      rw [hnext] at hj hi ⊢
      exact ih hj hi _ h

end Stores

section Loops
variable {alloc : ℕ → Bool} {freqNum : ℕ}

theorem innerLoop_char {c : Byte} (h0 : c ≠ 0) (hc : c ≠ comma) (pEnd : List Byte) (s : Scan) :
    innerLoop alloc freqNum (c :: pEnd) s =
      innerLoop alloc freqNum pEnd { s with numLen := (s.numLen + 1) % 2 ^ 32 } := by
  cases pEnd with
  | nil => exact (if_neg h0).trans (if_neg hc)
  | cons d pEnd => exact (if_neg h0).trans (if_neg hc)

theorem innerLoop_comma (d : Byte) (pEnd : List Byte) (s : Scan) :
    innerLoop alloc freqNum (comma :: d :: pEnd) s =
      (storeNumber alloc freqNum s).bind fun array =>
        innerLoop alloc freqNum pEnd ⟨d :: pEnd, (s.num + 1) % 2 ^ 32, 1, array⟩ := rfl

variable (alloc freqNum) in
/-- What the inner loop and the store behind it do with the texts of a string. -/
theorem innerLoop_texts (part rest : List Byte) (num : ℕ) (array : ℕ → FreqReq) (hnul : 0 ∉ rest)
    (hlen : part.length + rest.length < 2 ^ 32) (hnum : 2 * num + rest.length + 2 < 2 ^ 33) :
    ((innerLoop alloc freqNum (rest ++ [0]) ⟨part ++ (rest ++ [0]), num, part.length, array⟩).bind
      fun r => (storeNumber alloc freqNum r.2).map fun array => ((r.2.num + 1) % 2 ^ 32, array)) =
      (texts comma part rest).map fun ts => (num + ts.length, stored alloc freqNum num array ts) := by
  induction part, rest using texts.induct comma generalizing num array with
  | case1 part =>
    have hinner : innerLoop alloc freqNum ([] ++ [0]) ⟨part ++ ([] ++ [0]), num, part.length, array⟩ =
      some ([0], ⟨part ++ ([] ++ [0]), num, part.length, array⟩) := rfl
    rw [hinner, Option.bind_some, storeNumber_text, texts_nil, Option.map_some, Option.map_some,
      Nat.mod_eq_of_lt]
    · rfl
    · show num + 1 < 2 ^ 32
      simp only [List.length_nil] at hnum
      omega
  | case2 part =>
    rw [texts_end, List.singleton_append, innerLoop_comma, storeNumber_text]
    rfl
  | case3 part d rest ih =>
    obtain ⟨-, hrest⟩ := List.ne_and_not_mem_of_not_mem_cons hnul
    simp only [List.length_cons] at hlen hnum
    have hwrap : (num + 1) % 2 ^ 32 = num + 1 := Nat.mod_eq_of_lt (by omega)
    have hstep := ih (num + 1) (storeText alloc freqNum num array part)
      (List.ne_and_not_mem_of_not_mem_cons hrest).2 (by simp only [List.length_singleton]; omega) (by omega)
    rw [texts_sep, Option.map_map, List.cons_append, List.cons_append, innerLoop_comma,
      storeNumber_text, Option.bind_some, hwrap]
    refine hstep.trans ?_
    congr 1
    funext ts
    rw [Function.comp_apply, List.length_cons, stored]
    congr 1
    omega
  | case4 part c rest hc ih =>
    obtain ⟨h0, hrest⟩ := List.ne_and_not_mem_of_not_mem_cons hnul
    rw [List.length_cons] at hlen hnum
    have hstep := ih num array hrest (by rw [List.length_append, List.length_singleton]; omega) (by omega)
    have hwrap : (part.length + 1) % 2 ^ 32 = part.length + 1 := Nat.mod_eq_of_lt (by omega)
    rw [texts_cons hc, List.cons_append, innerLoop_char (Ne.symm h0) hc, ← hstep, List.append_assoc,
      List.length_append]
    simp only [hwrap]
    rfl

variable (alloc freqNum) in
/-- What the conversion does: it looks for the texts, and stores them. -/
theorem convertStringToFreqArray_eq (string : Text) (array : ℕ → FreqReq) (mode : Byte) :
    convertStringToFreqArray alloc freqNum string.memory array mode =
      (codeTexts string.chars).map fun ts =>
        (decide (ts.length = expected freqNum mode), stored alloc freqNum 0 array ts) := by
  have houter : outerLoop alloc freqNum string.memory array =
      (codeTexts string.chars).map fun ts => (ts.length, stored alloc freqNum 0 array ts) := by
    obtain ⟨chars, hnul, hlen⟩ := string
    cases chars with
    | nil => rfl
    | cons c chars =>
      have hc : c ≠ 0 := Ne.symm (List.ne_and_not_mem_of_not_mem_cons hnul).1
      have hloop := innerLoop_texts alloc freqNum [] (c :: chars) 0 array hnul
        (by simpa using hlen) (by omega)
      simp only [Nat.zero_add] at hloop
      rw [codeTexts, if_neg (List.cons_ne_nil _ _), ← hloop]
      exact if_neg hc
  rw [convertStringToFreqArray, houter, Option.map_map]
  rfl

end Loops

section Conversion
variable {alloc : ℕ → Bool} {mode : Byte} {n : FreqNum} {string : Text} {array : ℕ → FreqReq}

theorem IsNumber.comma_notMem {base : ℕ} {t : List Byte} (h : IsNumber base t) : comma ∉ t := by
  intro hmem
  obtain ⟨d, hd, -⟩ := h.2 comma hmem
  have hnone : digit comma = none := by decide
  rw [hnone] at hd
  exact absurd hd (by simp)

theorem AreNumbers.exists_isNumber {ts : List (List Byte)} (h : AreNumbers mode n ts) {t : List Byte}
    (ht : t ∈ ts) : ∃ base, IsNumber base t := by
  rw [← List.take_append_drop n.toNat ts] at ht
  rcases List.mem_append.mp ht with ht | ht
  · exact ⟨10, h.decimal t ht⟩
  · exact ⟨16, h.hexadecimal t ht⟩

theorem AreNumbers.ne_nil {ts : List (List Byte)} (h : AreNumbers mode n ts) : ts ≠ [] := by
  rintro rfl
  have hlength := h.length
  have hpos := n.pos
  rw [numbers, List.length_nil] at hlength
  split at hlength <;> omega

/-- Texts that are numbers are those which the commas delimit. -/
theorem AreNumbers.splitOn_eq {ts : List (List Byte)} (hts : AreNumbers mode n ts)
    (h : codeTexts string.chars = some ts) : string.chars.splitOn comma = ts := by
  rw [codeTexts] at h
  split at h
  · exact absurd (Option.some.inj h).symm hts.ne_nil
  · refine splitOn_of_texts h fun t ht => ?_
    obtain ⟨base, hnumber⟩ := hts.exists_isNumber ht
    exact hnumber.comma_notMem

/-- The texts of a list of numbers are its numbers. -/
theorem AreNumbers.codeTexts_eq (h : AreNumbers mode n (string.chars.splitOn comma)) :
    codeTexts string.chars = some (string.chars.splitOn comma) := by
  have hne : ∀ t ∈ string.chars.splitOn comma, t ≠ [] := fun t ht => by
    obtain ⟨base, hnumber⟩ := h.exists_isNumber ht
    exact hnumber.1
  rw [codeTexts, if_neg, texts_eq_splitOn hne]
  intro hnil
  rw [hnil] at hne
  exact hne [] (by simp) rfl

/-- A list of numbers that fits in the memory has as many as the code expects. -/
theorem AreNumbers.expected_eq {ts : List (List Byte)} (hts : AreNumbers mode n ts)
    (h : codeTexts string.chars = some ts) : ts.length = expected n.toNat mode := by
  have hlength := hts.length
  rw [codeTexts] at h
  split at h
  · exact absurd (Option.some.inj h).symm hts.ne_nil
  · have hle := length_texts_le h
    have hlt := string.length_lt
    rw [numbers] at hlength
    rw [expected]
    split_ifs at hlength ⊢ with hmode
    · omega
    · exact hlength

/-- Without memory the number is 0. -/
theorem numberOf_eq_iff {base w : ℕ} (hw : w ≤ 32) {t : List Byte} (h : IsNumber base t)
    (allocated : Bool) :
    (numberOf allocated (BitVec.ofNat 32 base) t).setWidth w = BitVec.ofNat w (value base t) ↔
      (allocated = false → value base t % 2 ^ w = 0) := by
  rw [numberOf_number h]
  cases allocated with
  | true =>
    refine iff_of_true ?_ (fun h => absurd h (by decide))
    rw [if_pos rfl, BitVec.setWidth_ofNat_of_le hw]
  | false =>
    rw [if_neg (by decide), ← BitVec.toNat_inj]
    simp [eq_comm]

/-- What has been stored for a list of numbers are their values exactly if there was memory. -/
theorem stored_values_iff {ts : List (List Byte)} (hts : AreNumbers mode n ts)
    (hlength : ts.length = expected n.toNat mode) :
    (∀ i < n.toNat,
      (∀ t ∈ ts[i]?, (stored alloc n.toNat 0 array ts i).freqIdx = BitVec.ofNat 8 (value 10 t)) ∧
      ∀ t ∈ ts[n.toNat + i]?,
        (stored alloc n.toNat 0 array ts i).subSysId = BitVec.ofNat 32 (value 16 t)) ↔
      HasMemory alloc n ts := by
  have hfreq : ∀ i < n.toNat, ∀ t ∈ ts[i]?,
      ((stored alloc n.toNat 0 array ts i).freqIdx = BitVec.ofNat 8 (value 10 t) ↔
        (alloc i = false → value 10 t % 2 ^ 8 = 0)) := by
    intro i hi t ht
    have hmem : t ∈ ts.take n.toNat :=
      List.mem_of_getElem? ((List.getElem?_take_of_lt hi).trans ht)
    have hstored : (stored alloc n.toNat 0 array ts (0 + i)).freqIdx = _ :=
      stored_freqIdx (by omega) array ht
    rw [Nat.zero_add] at hstored
    rw [hstored]
    exact numberOf_eq_iff (by decide) (hts.decimal t hmem) (alloc i)
  have hlast : ∀ i, ∀ t ∈ ts[i]?, n.toNat ≤ i → i < n.toNat * 2 % 2 ^ 32 := by
    intro i t ht hi
    have hlt := (List.getElem?_eq_some_iff.mp ht).1
    have hcount := hts.length
    rw [numbers] at hcount
    rw [expected] at hlength
    split_ifs at hcount hlength <;> omega
  have hsub : ∀ i, ∀ t ∈ ts[n.toNat + i]?,
      ((stored alloc n.toNat 0 array ts i).subSysId = BitVec.ofNat 32 (value 16 t) ↔
        (alloc (n.toNat + i) = false → value 16 t % 2 ^ 32 = 0)) := by
    intro i t ht
    have hmem : t ∈ ts.drop n.toNat := List.mem_of_getElem? (List.getElem?_drop.trans ht)
    have hi := hlast _ t ht (Nat.le_add_right _ _)
    have hstored : (stored alloc n.toNat 0 array ts i).subSysId = _ :=
      stored_subSysId (Nat.zero_add (n.toNat + i)) (by omega) array ht
    rw [Nat.zero_add] at hstored
    rw [hstored, ← BitVec.setWidth_eq (numberOf _ _ _)]
    exact numberOf_eq_iff le_rfl (hts.hexadecimal t hmem) (alloc (n.toNat + i))
  constructor
  · intro h i t ht hnone
    split_ifs with hi
    · exact (hfreq i hi t ht).mp ((h i hi).1 t ht) hnone
    · have hlt := hlast i t ht (by omega)
      have hindex : i = n.toNat + (i - n.toNat) := by omega
      have hmod := Nat.mod_le (n.toNat * 2) (2 ^ 32)
      rw [hindex] at ht hnone
      exact (hsub _ t ht).mp ((h _ (by omega)).2 t ht) hnone
  · intro h i hi
    refine ⟨fun t ht => (hfreq i hi t ht).mpr fun hnone => ?_,
      fun t ht => (hsub i t ht).mpr fun hnone => ?_⟩
    · have hzero := h i t ht hnone
      rwa [if_pos hi] at hzero
    · have hzero := h _ t ht hnone
      rwa [if_neg (by omega)] at hzero

/-- A conversion is right exactly if the string is convertible. -/
theorem converts_iff_convertible (alloc : ℕ → Bool) (mode : Byte) (n : FreqNum) (string : Text)
    (array : ℕ → FreqReq) :
    Converts alloc mode n string array ↔ Convertible alloc mode n string.chars := by
  have hconvert := convertStringToFreqArray_eq alloc n.toNat string array mode
  have hsome : (codeTexts string.chars).isSome ↔ Even (run comma string.chars) := by
    rw [codeTexts]
    split_ifs with hnil
    · rw [hnil]
      exact iff_of_true rfl Even.zero
    · exact texts_isSome_iff [] string.chars
  constructor
  · rintro ⟨hinside, haccepts, hstores⟩
    have hcode : (codeTexts string.chars).isSome := by
      rw [hconvert, ne_eq, Option.map_eq_none_iff] at hinside
      exact Option.isSome_iff_ne_none.mpr hinside
    refine ⟨hsome.mp hcode, fun ts hts hlength => ?_⟩
    rw [Option.mem_def] at hts
    rw [hts, Option.map_some, decide_eq_true hlength] at hconvert
    have hnumbers := (haccepts true _ hconvert).mp rfl
    obtain rfl := Option.some.inj (hnumbers.codeTexts_eq.symm.trans hts)
    exact ⟨hnumbers, (stored_values_iff hnumbers hlength).mp (hstores _ hconvert)⟩
  · rintro ⟨heven, hnumbers⟩
    obtain ⟨ts, hts⟩ := Option.isSome_iff_exists.mp (hsome.mpr heven)
    rw [hts, Option.map_some] at hconvert
    refine ⟨?_, fun isRight out hout => ?_, fun out hout => ?_⟩
    · rw [hconvert]
      exact Option.some_ne_none _
    · rw [hconvert, Option.some.injEq, Prod.mk.injEq] at hout
      rw [← hout.1, decide_eq_true_eq]
      constructor
      · intro hlength
        have hare := (hnumbers ts hts hlength).1
        rw [hare.splitOn_eq hts]
        exact hare
      · intro hare
        obtain rfl := Option.some.inj (hare.codeTexts_eq.symm.trans hts)
        exact hare.expected_eq hts
    · rw [hconvert, Option.some.injEq, Prod.mk.injEq] at hout
      have hlength := of_decide_eq_true hout.1
      obtain ⟨hare, hmemory⟩ := hnumbers ts hts hlength
      rw [hare.splitOn_eq hts, ← hout.2]
      exact (stored_values_iff hare hlength).mpr hmemory

/-- `12,` and its terminator: the loop goes on behind it. -/
def trailingComma : Text := ⟨[0x31, 0x32, comma], by decide, by decide⟩

theorem converts_reads_behind_terminator : ¬ ∀ (alloc : ℕ → Bool) (mode : Byte) (n : FreqNum)
    (string : Text) (array : ℕ → FreqReq), Converts alloc mode n string array := by
  intro h
  refine (h (fun _ => true) SCAN_MODE_NORMAL ⟨2, by decide, by decide⟩ trailingComma
    fun _ => ⟨0, 0⟩).inside ?_
  rfl

end Conversion

end WiotaDev.ScanList
