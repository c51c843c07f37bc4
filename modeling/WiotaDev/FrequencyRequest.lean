import Mathlib.Data.List.Basic
import Mathlib.Data.Nat.Basic
import Mathlib.Tactic.IntervalCases

/-! # The frequencies of `AT+FREQ`

The text of the command is cut into numbers, and the numbers are turned into channels of one spectrum
(`str_to_int_array` and `at_get_freq_list`). The C code computes with 32-bit words. -/

namespace WiotaDev.SimplifiedConfig

/-- `is_space`. -/
def isSpace (c : Char) : Bool :=
  c = ' ' ∨ c = '\t' ∨ c = '\n' ∨ c = '\r' ∨ c = '\u000b' ∨ c = '\u000c'

/-- Without the spaces at both ends. -/
def trim (s : List Char) : List Char := ((s.dropWhile isSpace).reverse.dropWhile isSpace).reverse

/-- The number that a text of digits stands for. -/
def decimal (s : List Char) : ℕ := s.foldl (fun num c => num * 10 + (c.toNat - '0'.toNat)) 0

/-- -1 as it is stored in an `unsigned int`. -/
def minusOne : ℕ := 4294967295

/-- `str_to_int`. -/
def strToInt (s : List Char) : ℕ :=
  if s.all Char.isDigit then decimal s % 4294967296 else minusOne

/-- The parts between the commas that are not empty. -/
def segments (s : List Char) : List (List Char) :=
  (((trim s).splitOn ',').map trim).filter fun seg => seg ≠ []

/-- The loop of `str_to_int_array` with `out` in `out_array`. -/
def collect : List (List Char) → List ℕ → Option (List ℕ)
  | [], out => some out
  | seg :: segs, out =>
    if out.length ≥ 16 then none
    else if strToInt seg = minusOne then none
    else collect segs (out ++ [strToInt seg])

/-- `str_to_int_array`; `none` for all its errors. -/
def strToIntArray (s : List Char) : Option (List ℕ) :=
  if trim s = [] then none else collect (segments s) []

/-- The numbers that a command asks for. -/
def requested (s : List Char) : List ℕ := (segments s).map decimal

def DEFAULE_BW_HZ : ℕ := 200000

/-- `FREQ_RANGES`. -/
def FREQ_RANGES : List (ℕ × ℕ) :=
  [(223000000, 235000000), (400000000, 440000000), (433050000, 434790000), (470000000, 510000000),
    (779000000, 787000000), (840000000, 845000000), (863000000, 870000000), (902000000, 928000000)]

/-- `g_max_freq_num_table`. -/
def gMaxFreqNumTable : List ℕ := [60, 200, 8, 200, 40, 25, 35, 130]

def rangeLow (spectrumIdx : ℕ) : ℕ := (FREQ_RANGES.getD spectrumIdx (0, 0)).1
def rangeHigh (spectrumIdx : ℕ) : ℕ := (FREQ_RANGES.getD spectrumIdx (0, 0)).2

/-- `at_get_max_freq_num`. -/
def atGetMaxFreqNum (spectrumIdx : ℕ) : ℕ :=
  if spectrumIdx ≥ 8 then 0 else gMaxFreqNumTable.getD spectrumIdx 0

/-- `FREQ_TO_INDEX`, on `unsigned int`s. -/
def freqToIndex (freq baseFreq : ℕ) : ℕ := (freq + 4294967296 - baseFreq) % 4294967296 / DEFAULE_BW_HZ

/-- `INDEX_TO_FREQ`, on `unsigned int`s. -/
def indexToFreq (index baseFreq : ℕ) : ℕ := (DEFAULE_BW_HZ * index + baseFreq) % 4294967296

/-- The spectrum that the search for a frequency meets first, the last of the table coming first. -/
def spectrumOf (freq : ℕ) : Option ℕ :=
  (List.range 8).reverse.find? fun i => rangeLow i ≤ freq ∧ freq ≤ rangeHigh i

/-- What `at_get_base_freq_and_spectrum_idx` returns and stores. -/
structure Located where
  baseFreq : ℕ
  spectrumIdx : ℕ
  actualFreq : ℕ
deriving DecidableEq

/-- `at_get_base_freq_and_spectrum_idx`, which stores nothing for a frequency that is in no range. -/
def atGetBaseFreqAndSpectrumIdx (freq : ℕ) (before : Located) : Located :=
  match spectrumOf freq with
  | some i =>
    let baseFreq := rangeLow i
    let diffFreqHz := freq - baseFreq
    ⟨baseFreq, i,
      if diffFreqHz % DEFAULE_BW_HZ ≠ 0 then baseFreq + diffFreqHz / DEFAULE_BW_HZ * DEFAULE_BW_HZ
      else freq⟩
  | none => { before with baseFreq := 1 }

/-- What `at_get_freq_list` stores: the channels of the list, behind which a terminator is put where there
is room for it, the spectrum and its base frequency. -/
structure FreqRequest where
  freqList : List ℕ
  spectrumIdx : ℕ
  baseFreq : ℕ
deriving DecidableEq

/-- The loop of `at_get_freq_list`; the base frequency is that of the last turn. -/
def freqLoop : List ℕ → Located → List ℕ → Except ℕ FreqRequest
  | [], at', list => .ok ⟨list, at'.spectrumIdx, at'.baseFreq⟩
  | freq :: freqs, at', list =>
    let located := atGetBaseFreqAndSpectrumIdx freq at'
    if at'.baseFreq > 0 ∧ located.baseFreq ≠ at'.baseFreq then .error 2
    else
      let index := freqToIndex located.actualFreq located.baseFreq % 256
      if index > atGetMaxFreqNum located.spectrumIdx then .error 3
      else freqLoop freqs located (list ++ [index])

/-- `at_get_freq_list`: its error, or what it stores. -/
def atGetFreqList (freqStr : List Char) : Except ℕ FreqRequest :=
  match strToIntArray freqStr with
  | none => .error 1
  | some freqArray => if freqArray.length > 16 then .error 1 else freqLoop freqArray ⟨0, 0, 0⟩ []

/-- The channel of a frequency in a spectrum. -/
def channel (spectrumIdx freq : ℕ) : ℕ := (freq - rangeLow spectrumIdx) / DEFAULE_BW_HZ

/-- A frequency lies in a spectrum. -/
def InRange (spectrumIdx freq : ℕ) : Prop := rangeLow spectrumIdx ≤ freq ∧ freq ≤ rangeHigh spectrumIdx

instance (spectrumIdx freq : ℕ) : Decidable (InRange spectrumIdx freq) :=
  inferInstanceAs (Decidable (_ ∧ _))

theorem strToInt_eq {seg : List Char} (h : strToInt seg ≠ minusOne) :
    strToInt seg = decimal seg % 4294967296 := by
  rw [strToInt] at h ⊢
  split
  · rfl
  · rename_i hnot
    rw [if_neg hnot] at h
    exact absurd rfl h

theorem collect_eq {segs : List (List Char)} {out arr : List ℕ} (h : collect segs out = some arr)
    (hlen : out.length ≤ 16) :
    arr = out ++ segs.map (fun seg => decimal seg % 4294967296) ∧ arr.length ≤ 16 := by
  induction segs generalizing out with
  | nil =>
    cases h
    exact ⟨(List.append_nil _).symm, hlen⟩
  | cons seg segs ih =>
    rw [collect] at h
    split at h
    · cases h
    · rename_i hroom
      split at h
      · cases h
      · rename_i hnum
        have hlong : (out ++ [strToInt seg]).length ≤ 16 := by
          rw [List.length_append, List.length_singleton]
          omega
        obtain ⟨harr, hle⟩ := ih h hlong
        refine ⟨?_, hle⟩
        rw [harr, strToInt_eq hnum, List.append_assoc]
        rfl

/-- What is put into the array are the numbers of the command, as they fit into a word. -/
theorem strToIntArray_eq {s : List Char} {arr : List ℕ} (h : strToIntArray s = some arr) :
    arr = (requested s).map (· % 4294967296) ∧ arr.length ≤ 16 := by
  rw [strToIntArray] at h
  split at h
  · cases h
  · obtain ⟨harr, hle⟩ := collect_eq h (Nat.zero_le 16)
    refine ⟨?_, hle⟩
    rw [harr, requested, List.map_map]
    rfl

theorem spectrumOf_eq_some {freq i : ℕ} (h : spectrumOf freq = some i) : i < 8 ∧ InRange i freq := by
  have hmem := List.mem_of_find?_eq_some h
  have hrange := List.find?_some h
  exact ⟨List.mem_range.mp (List.mem_reverse.mp hmem), of_decide_eq_true hrange⟩

theorem range_table : ∀ i < 8, 1 < rangeLow i ∧ rangeHigh i < 4294967296 ∧
    rangeLow i + atGetMaxFreqNum i * DEFAULE_BW_HZ + DEFAULE_BW_HZ > rangeHigh i ∧
    atGetMaxFreqNum i < 255 := by
  decide

theorem rangeLow_injective : ∀ i < 8, ∀ j < 8, rangeLow i = rangeLow j → i = j := by
  decide

/-- The channel of a frequency in its spectrum is one of those that the spectrum has. -/
theorem channel_le {i freq : ℕ} (hi : i < 8) (h : InRange i freq) :
    channel i freq ≤ atGetMaxFreqNum i := by
  obtain ⟨-, -, hmax, -⟩ := range_table i hi
  have hlt : freq - rangeLow i < (atGetMaxFreqNum i + 1) * DEFAULE_BW_HZ := by
    have := h.1
    have := h.2
    rw [Nat.add_mul]
    omega
  exact Nat.le_of_lt_succ (Nat.div_lt_of_lt_mul (Nat.mul_comm _ _ ▸ hlt))

/-- The index that is computed from the corrected frequency. -/
theorem freqToIndex_located {i freq : ℕ} (h : spectrumOf freq = some i) (before : Located) :
    freqToIndex (atGetBaseFreqAndSpectrumIdx freq before).actualFreq
      (atGetBaseFreqAndSpectrumIdx freq before).baseFreq = channel i freq := by
  obtain ⟨hi, hrange⟩ := spectrumOf_eq_some h
  obtain ⟨-, hhigh, -⟩ := range_table i hi
  have hle := hrange.1
  have hle' := hrange.2
  rw [atGetBaseFreqAndSpectrumIdx, h]
  dsimp only
  rw [freqToIndex, channel]
  have hdiv : (freq - rangeLow i) / DEFAULE_BW_HZ * DEFAULE_BW_HZ ≤ freq - rangeLow i :=
    Nat.div_mul_le_self _ _
  have hpos : 0 < DEFAULE_BW_HZ := by decide
  split
  · have hword : (rangeLow i + (freq - rangeLow i) / DEFAULE_BW_HZ * DEFAULE_BW_HZ + 4294967296 -
        rangeLow i) % 4294967296 = (freq - rangeLow i) / DEFAULE_BW_HZ * DEFAULE_BW_HZ := by
      omega
    rw [hword, Nat.mul_div_cancel _ hpos]
  · have hword : (freq + 4294967296 - rangeLow i) % 4294967296 = freq - rangeLow i := by
      omega
    rw [hword]

/-- Nothing has been located, or something in a spectrum. -/
def Located.Sound (l : Located) : Prop :=
  l = ⟨0, 0, 0⟩ ∨ l.spectrumIdx < 8 ∧ l.baseFreq = rangeLow l.spectrumIdx

theorem located_of_some {freq i : ℕ} (h : spectrumOf freq = some i) (before : Located) :
    (atGetBaseFreqAndSpectrumIdx freq before).spectrumIdx = i ∧
      (atGetBaseFreqAndSpectrumIdx freq before).baseFreq = rangeLow i := by
  rw [atGetBaseFreqAndSpectrumIdx, h]
  exact ⟨rfl, rfl⟩

theorem located_of_none {freq : ℕ} (h : spectrumOf freq = none) (before : Located) :
    atGetBaseFreqAndSpectrumIdx freq before = { before with baseFreq := 1 } := by
  rw [atGetBaseFreqAndSpectrumIdx, h]

/-- A turn that goes on meets a frequency of the spectrum of the others. -/
theorem freqLoop_cons {freq : ℕ} {freqs : List ℕ} {l : Located} {list : List ℕ} {r : FreqRequest}
    (hl : l.Sound) (h : freqLoop (freq :: freqs) l list = .ok r) :
    ∃ i, spectrumOf freq = some i ∧ (l.baseFreq = 0 ∨ l.baseFreq = rangeLow i) ∧
      freqLoop freqs (atGetBaseFreqAndSpectrumIdx freq l) (list ++ [channel i freq]) = .ok r := by
  rw [freqLoop] at h
  dsimp only at h
  split at h
  · cases h
  · rename_i hbase
    split at h
    · cases h
    · rename_i hmax
      cases hspec : spectrumOf freq with
      | none =>
        rw [located_of_none hspec] at hbase hmax
        rcases hl with rfl | ⟨hlt, hlow⟩
        · have hindex : freqToIndex 0 1 % 256 > atGetMaxFreqNum 0 := by decide
          exact absurd hindex hmax
        · have hone := (range_table _ hlt).1
          exact absurd ⟨by omega, fun heq => by dsimp only at heq; omega⟩ hbase
      | some i =>
        obtain ⟨hi, hrange⟩ := spectrumOf_eq_some hspec
        have hle := channel_le hi hrange
        have hbyte := (range_table i hi).2.2.2
        rw [freqToIndex_located hspec, Nat.mod_eq_of_lt (by omega)] at h
        refine ⟨i, rfl, ?_, h⟩
        rw [(located_of_some hspec l).2] at hbase
        by_cases hzero : l.baseFreq = 0
        · exact .inl hzero
        · exact .inr (not_not.mp fun hne => hbase ⟨Nat.pos_of_ne_zero hzero, Ne.symm hne⟩)

/-- What is accepted is in one spectrum, and what is stored are its channels there. -/
theorem freqLoop_ok {freqs : List ℕ} {l : Located} {list : List ℕ} {r : FreqRequest}
    (hl : l.Sound) (h : freqLoop freqs l list = .ok r) (hne : freqs ≠ []) :
    r.spectrumIdx < 8 ∧ r.baseFreq = rangeLow r.spectrumIdx ∧
      (l.baseFreq = 0 ∨ l.baseFreq = r.baseFreq) ∧ (∀ freq ∈ freqs, InRange r.spectrumIdx freq) ∧
      r.freqList = list ++ freqs.map (channel r.spectrumIdx) := by
  induction freqs generalizing l list with
  | nil => exact absurd rfl hne
  | cons freq freqs ih =>
    obtain ⟨i, hspec, hbase, hrest⟩ := freqLoop_cons hl h
    obtain ⟨hi, hrange⟩ := spectrumOf_eq_some hspec
    obtain ⟨hidx, hlow⟩ := located_of_some hspec l
    cases freqs with
    | nil =>
      cases hrest
      rw [hidx, hlow]
      exact ⟨hi, rfl, hbase, fun f hf => List.mem_singleton.mp hf ▸ hrange, rfl⟩
    | cons next freqs =>
      have hsound : (atGetBaseFreqAndSpectrumIdx freq l).Sound := .inr (by rw [hidx]; exact ⟨hi, hlow⟩)
      obtain ⟨hlt, hr, hsame, hall, hlist⟩ := ih hsound hrest (List.cons_ne_nil _ _)
      have hone := (range_table i hi).1
      have heq : i = r.spectrumIdx := by
        refine rangeLow_injective i hi _ hlt ?_
        rw [← hr, ← hlow]
        exact hsame.resolve_left (by omega)
      rw [← heq] at hall hlist hr ⊢
      refine ⟨hi, hr, hr ▸ hbase, List.forall_mem_cons.mpr ⟨hrange, hall⟩, ?_⟩
      rw [hlist, List.append_assoc]
      rfl

/-- What `at_get_freq_list` stores: nothing for no frequency, and else the channels of the frequencies
in their spectrum. -/
theorem atGetFreqList_ok {text : List Char} {r : FreqRequest} (h : atGetFreqList text = .ok r) :
    (requested text).length ≤ 16 ∧
      (requested text = [] ∧ r = ⟨[], 0, 0⟩ ∨
        requested text ≠ [] ∧ r.spectrumIdx < 8 ∧ r.baseFreq = rangeLow r.spectrumIdx ∧
          (∀ freq ∈ requested text, InRange r.spectrumIdx (freq % 4294967296)) ∧
          r.freqList = (requested text).map fun freq => channel r.spectrumIdx (freq % 4294967296)) := by
  rw [atGetFreqList] at h
  cases harr : strToIntArray text with
  | none =>
    rw [harr] at h
    cases h
  | some arr =>
    obtain ⟨rfl, hlen⟩ := strToIntArray_eq harr
    rw [harr] at h
    dsimp only at h
    rw [if_neg (Nat.not_lt.mpr hlen)] at h
    rw [List.length_map] at hlen
    refine ⟨hlen, ?_⟩
    by_cases hnil : requested text = []
    · rw [hnil] at h
      cases h
      exact .inl ⟨hnil, rfl⟩
    · have hne : (requested text).map (· % 4294967296) ≠ [] := fun hmap => hnil (List.map_eq_nil_iff.mp hmap)
      obtain ⟨hlt, hbase, -, hall, hlist⟩ := freqLoop_ok (.inl rfl) h hne
      refine .inr ⟨hnil, hlt, hbase, fun f hf => hall _ (List.mem_map_of_mem hf), ?_⟩
      rw [hlist, List.map_map]
      rfl

end WiotaDev.SimplifiedConfig
