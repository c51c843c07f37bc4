import WiotaDev.FrequencyRequest
import WiotaDev.SeparatedText

/-! # Which frequency lists `at_get_freq_list` takes

`str_to_int_array` character by character, with its errors, and `at_get_freq_list` with the variables
that its pointers name. Against them stands the list that the command is for: 1 to 16 numbers between
commas, all in the same highest range. -/

namespace WiotaDev.SimplifiedConfig
open SeparatedText

def FREQ_LIST_NUM : ℕ := 16
def INVALID_FREQ : ℕ := 0xFF

/-- The end of a segment in `str_to_int_array`. -/
def endSegment (seg : List Char) (outArray : List ℕ) : Except ℤ (List ℕ) :=
  if trim seg = [] then .ok outArray
  else if outArray.length ≥ FREQ_LIST_NUM then .error (-2)
  else if strToInt (trim seg) = minusOne then .error (-3)
  else .ok (outArray ++ [strToInt (trim seg)])

/-- The loop of `str_to_int_array`; `seg` are the characters since the last comma. -/
def charLoop : List Char → List Char → List ℕ → Except ℤ (List ℕ)
  | [], seg, outArray => endSegment seg outArray
  | c :: cs, seg, outArray =>
    if c = ',' then
      match endSegment seg outArray with
      | .ok outArray => charLoop cs [] outArray
      | .error e => .error e
    else charLoop cs (seg ++ [c]) outArray

/-- `str_to_int_array` with its errors. -/
def scanIntArray (inputStr : List Char) : Except ℤ (List ℕ) :=
  if trim inputStr = [] then .error (-1) else charLoop (trim inputStr) [] []

/-- The variables that `at_get_freq_list` stores to, with the memory at `freq_list`. -/
structure FreqVars where
  freqList : ℕ → ℕ
  freqNum : ℕ
  spectrumIdx : ℕ
  baseFreq : ℕ

/-- The loop of `at_get_freq_list` from entry `i` on, with the memory at `freq_list`. -/
def storeLoop : List ℕ → ℕ → Located → (ℕ → ℕ) → Except ℕ Located × (ℕ → ℕ)
  | [], _, at', freqList => (.ok at', freqList)
  | freq :: freqs, i, at', freqList =>
    let located := atGetBaseFreqAndSpectrumIdx freq at'
    if at'.baseFreq > 0 ∧ located.baseFreq ≠ at'.baseFreq then (.error 2, freqList)
    else
      let index := freqToIndex located.actualFreq located.baseFreq % 256
      let freqList := Function.update freqList i index
      if index > atGetMaxFreqNum located.spectrumIdx then (.error 3, freqList)
      else storeLoop freqs (i + 1) located freqList

/-- `at_get_freq_list`. -/
def atGetFreqListInto (freqStr : List Char) (vars : FreqVars) : ℕ × FreqVars :=
  match scanIntArray freqStr with
  | .error _ => (1, vars)
  | .ok freqArray =>
    if freqArray.length > FREQ_LIST_NUM then (1, vars)
    else
      match storeLoop freqArray 0 ⟨0, 0, 0⟩ vars.freqList with
      | (.error e, freqList) => (e, { vars with freqList := freqList })
      | (.ok located, freqList) =>
        let freqList :=
          if freqArray.length < FREQ_LIST_NUM then
            Function.update freqList freqArray.length INVALID_FREQ
          else freqList
        (0, ⟨freqList, freqArray.length, located.spectrumIdx, located.baseFreq⟩)

section Scan
variable {s : List Char} {seg : List Char}

theorem isSpace_comma : isSpace ',' = false := by decide

theorem trim_eq_strip (s : List Char) : trim s = strip isSpace s := rfl

theorem segments_eq_items (s : List Char) : segments s = items isSpace ',' s := by
  rw [← items_strip isSpace_comma, ← trim_eq_strip]
  rfl

/-- What follows the end of a segment goes on with what the segment adds. -/
theorem endSegment_bind (seg : List Char) (outArray : List ℕ) (parts : List (List Char))
    (rest : List ℕ → Option (List ℕ))
    (hrest : ∀ out, rest out = collect ((parts.map trim).filter fun part => part ≠ []) out) :
    (endSegment seg outArray).toOption.bind rest =
      collect (((seg :: parts).map trim).filter fun part => part ≠ []) outArray := by
  rw [endSegment, List.map_cons]
  by_cases hblank : trim seg = []
  · rw [if_pos hblank, List.filter_cons_of_neg (by simpa using hblank)]
    exact hrest outArray
  · rw [if_neg hblank, List.filter_cons_of_pos (by simpa using hblank), collect, FREQ_LIST_NUM]
    split
    · rfl
    · split
      · rfl
      · exact hrest _

/-- The loop over the characters collects the segments that are left. -/
theorem charLoop_toOption (cs : List Char) (outArray : List ℕ) (hseg : ',' ∉ seg) :
    (charLoop cs seg outArray).toOption =
      collect ((((seg ++ cs).splitOn ',').map trim).filter fun part => part ≠ []) outArray := by
  induction cs generalizing seg outArray with
  | nil =>
    rw [charLoop, List.append_nil, List.splitOn_eq_singleton hseg,
      ← endSegment_bind seg outArray [] some fun out => rfl]
    cases endSegment seg outArray <;> rfl
  | cons c cs ih =>
    rw [charLoop]
    by_cases hc : c = ','
    · subst hc
      rw [if_pos rfl, List.splitOn_append_cons_self_of_not_mem hseg,
        ← endSegment_bind seg outArray (cs.splitOn ',') (fun out => (charLoop cs [] out).toOption)
          fun out => ih out List.not_mem_nil]
      cases endSegment seg outArray <;> rfl
    · have hmem : ',' ∉ seg ++ [c] := by
        simp only [List.mem_append, List.mem_singleton, not_or]
        exact ⟨hseg, Ne.symm hc⟩
      rw [if_neg hc, ih outArray hmem, List.append_assoc]
      rfl

theorem scanIntArray_toOption (s : List Char) : (scanIntArray s).toOption = strToIntArray s := by
  rw [scanIntArray, strToIntArray, segments]
  by_cases h : trim s = []
  · rw [if_pos h, if_pos h]
    rfl
  · rw [if_neg h, if_neg h]
    exact charLoop_toOption (trim s) [] List.not_mem_nil

end Scan

/-- `i` is the highest of the spectra that hold `freq`. -/
def Highest (i freq : ℕ) : Prop := i < 8 ∧ InRange i freq ∧ ∀ j, i < j → j < 8 → ¬ InRange j freq

theorem Highest.unique {i j freq : ℕ} (hi : Highest i freq) (hj : Highest j freq) : i = j := by
  rcases Nat.lt_trichotomy i j with hlt | heq | hlt
  · exact absurd hj.2.1 (hi.2.2 j hlt hj.1)
  · exact heq
  · exact absurd hi.2.1 (hj.2.2 i hlt hi.1)

/-- The search from the top of the table finds the highest spectrum. -/
theorem highest_of_spectrumOf {freq i : ℕ} (h : spectrumOf freq = some i) : Highest i freq := by
  obtain ⟨hi, hrange⟩ := spectrumOf_eq_some h
  refine ⟨hi, hrange, fun j hij hj hin => ?_⟩
  obtain ⟨-, above, below, hsplit, hfree⟩ := List.find?_eq_some_iff_append.mp h
  have hsorted : ((List.range 8).reverse).Pairwise (· > ·) := by decide
  have hmem : j ∈ (List.range 8).reverse := List.mem_reverse.mpr (List.mem_range.mpr hj)
  rw [hsplit] at hmem hsorted
  rcases List.mem_append.mp hmem with habove | hbelow
  · have hno := hfree j habove
    rw [Bool.not_eq_true', decide_eq_false_iff_not] at hno
    exact hno hin
  · rcases List.mem_cons.mp hbelow with rfl | hbelow
    · exact Nat.lt_irrefl _ hij
    · have hlt := (List.pairwise_cons.mp (List.pairwise_append.mp hsorted).2.1).1 j hbelow
      omega

theorem spectrumOf_eq_some_iff {freq i : ℕ} : spectrumOf freq = some i ↔ Highest i freq := by
  constructor
  · exact highest_of_spectrumOf
  · intro h
    cases hspec : spectrumOf freq with
    | none =>
      have hno := List.find?_eq_none.mp hspec i (List.mem_reverse.mpr (List.mem_range.mpr h.1))
      exact absurd (decide_eq_true h.2.1) hno
    | some j => rw [(highest_of_spectrumOf hspec).unique h]

section Loop
variable {freqs : List ℕ} {l : Located} {list : List ℕ} {r : FreqRequest} {i : ℕ}

/-- A frequency of the spectrum at hand takes the loop a turn further. -/
theorem freqLoop_cons_of_highest {freq : ℕ} (h : Highest i freq)
    (hl : l.baseFreq = 0 ∨ l.baseFreq = rangeLow i) :
    freqLoop (freq :: freqs) l list =
      freqLoop freqs (atGetBaseFreqAndSpectrumIdx freq l) (list ++ [channel i freq]) := by
  have hspec := spectrumOf_eq_some_iff.mpr h
  obtain ⟨hidx, hlow⟩ := located_of_some hspec l
  have hle := channel_le h.1 h.2.1
  have hbyte := (range_table i h.1).2.2.2
  rw [freqLoop]
  dsimp only
  rw [freqToIndex_located hspec, Nat.mod_eq_of_lt (by omega), hlow, hidx, if_neg (by omega),
    if_neg (by omega)]

/-- Frequencies of one spectrum are taken. -/
theorem freqLoop_of_highest (h : ∀ freq ∈ freqs, Highest i freq)
    (hl : l.baseFreq = 0 ∨ l.baseFreq = rangeLow i) : ∃ r, freqLoop freqs l list = .ok r := by
  induction freqs generalizing l list with
  | nil => exact ⟨_, rfl⟩
  | cons freq freqs ih =>
    obtain ⟨hfreq, hrest⟩ := List.forall_mem_cons.mp h
    rw [freqLoop_cons_of_highest hfreq hl]
    exact ih hrest (.inr (located_of_some (spectrumOf_eq_some_iff.mpr hfreq) l).2)

/-- What is taken has the stored spectrum as its highest. -/
theorem highest_of_freqLoop (hl : l.Sound) (h : freqLoop freqs l list = .ok r) :
    ∀ freq ∈ freqs, Highest r.spectrumIdx freq := by
  induction freqs generalizing l list with
  | nil => nofun
  | cons freq freqs ih =>
    obtain ⟨i, hspec, -, hrest⟩ := freqLoop_cons hl h
    have hfreq := spectrumOf_eq_some_iff.mp hspec
    obtain ⟨hidx, hlow⟩ := located_of_some hspec l
    have hsound : (atGetBaseFreqAndSpectrumIdx freq l).Sound :=
      .inr ⟨hidx ▸ hfreq.1, by rw [hidx]; exact hlow⟩
    have heq : i = r.spectrumIdx := by
      by_cases hne : freqs = []
      · subst hne
        cases hrest
        exact hidx.symm
      · obtain ⟨hlt, hbase, hsame, -⟩ := freqLoop_ok hsound hrest hne
        have hone := (range_table i hfreq.1).1
        rw [hlow, hbase] at hsame
        exact rangeLow_injective i hfreq.1 _ hlt (hsame.resolve_left (by omega))
    exact List.forall_mem_cons.mpr ⟨heq ▸ hfreq, ih hsound hrest⟩

end Loop

section Store
variable {text : List Char} {vars : FreqVars} {r : FreqRequest}

/-- The entries of a list stand in the memory. -/
def Holds (freqList : ℕ → ℕ) (list : List ℕ) : Prop :=
  ∀ k (h : k < list.length), freqList k = list[k]

theorem holds_update {freqList : ℕ → ℕ} {list : List ℕ} (h : Holds freqList list) (index : ℕ) :
    Holds (Function.update freqList list.length index) (list ++ [index]) := by
  intro k hk
  rw [List.length_append, List.length_singleton] at hk
  rcases Nat.lt_succ_iff_lt_or_eq.mp hk with hlt | rfl
  · rw [Function.update_of_ne (by omega), List.getElem_append_left hlt]
    exact h k hlt
  · rw [Function.update_self, List.getElem_append_right (Nat.le_refl _)]
    simp

/-- Where the loop over the list ends well, the loop over the memory stores the list. -/
theorem storeLoop_ok {freqs : List ℕ} {l : Located} {list : List ℕ} {freqList : ℕ → ℕ}
    (h : freqLoop freqs l list = .ok r) (hmem : Holds freqList list) :
    ∃ located freqList', storeLoop freqs list.length l freqList = (.ok located, freqList') ∧
      located.spectrumIdx = r.spectrumIdx ∧ located.baseFreq = r.baseFreq ∧
        Holds freqList' r.freqList := by
  induction freqs generalizing l list freqList with
  | nil =>
    cases h
    exact ⟨l, freqList, rfl, rfl, rfl, hmem⟩
  | cons freq freqs ih =>
    rw [freqLoop] at h
    rw [storeLoop]
    dsimp only at h ⊢
    split at h
    · cases h
    · rename_i hbase
      split at h
      · cases h
      · rename_i hmax
        have hnext := ih h (holds_update hmem _)
        rw [List.length_append, List.length_singleton] at hnext
        rw [if_neg hbase, if_neg hmax]
        exact hnext

/-- Where it ends with an error, so does the loop over the memory. -/
theorem storeLoop_error {freqs : List ℕ} {l : Located} {list : List ℕ} {e : ℕ} (freqList : ℕ → ℕ)
    (h : freqLoop freqs l list = .error e) :
    e ≠ 0 ∧ ∃ freqList', storeLoop freqs list.length l freqList = (.error e, freqList') := by
  induction freqs generalizing l list freqList with
  | nil => cases h
  | cons freq freqs ih =>
    rw [freqLoop] at h
    rw [storeLoop]
    dsimp only at h ⊢
    split at h
    · rename_i hbase
      cases h
      rw [if_pos hbase]
      exact ⟨by decide, _, rfl⟩
    · rename_i hbase
      rw [if_neg hbase]
      split at h
      · rename_i hmax
        cases h
        rw [if_pos hmax]
        exact ⟨by decide, _, rfl⟩
      · rename_i hmax
        rw [if_neg hmax]
        have hnext (memory : ℕ → ℕ) := ih memory h
        simp only [List.length_append, List.length_singleton] at hnext
        exact hnext _

/-- What a call that succeeds leaves in the variables. -/
structure Stored (r : FreqRequest) (vars : FreqVars) : Prop where
  holds : Holds vars.freqList r.freqList
  ended : r.freqList.length < FREQ_LIST_NUM → vars.freqList r.freqList.length = INVALID_FREQ
  freqNum : vars.freqNum = r.freqList.length
  spectrumIdx : vars.spectrumIdx = r.spectrumIdx
  baseFreq : vars.baseFreq = r.baseFreq

theorem atGetFreqListInto_error (vars : FreqVars) {e : ℕ} (h : atGetFreqList text = .error e) :
    (atGetFreqListInto text vars).1 ≠ 0 ∧
      ∃ freqList, (atGetFreqListInto text vars).2 = { vars with freqList := freqList } := by
  rw [atGetFreqList, ← scanIntArray_toOption] at h
  rw [atGetFreqListInto]
  cases hscan : scanIntArray text with
  | error code => exact ⟨Nat.one_ne_zero, _, rfl⟩
  | ok freqArray =>
    rw [hscan] at h
    dsimp only [Except.toOption] at h
    dsimp only
    by_cases hlen : freqArray.length > FREQ_LIST_NUM
    · rw [if_pos hlen]
      exact ⟨Nat.one_ne_zero, _, rfl⟩
    · rw [if_neg hlen]
      rw [FREQ_LIST_NUM] at hlen
      rw [if_neg hlen] at h
      obtain ⟨hne, freqList, hloop⟩ := storeLoop_error vars.freqList h
      rw [List.length_nil] at hloop
      rw [hloop]
      exact ⟨hne, _, rfl⟩

theorem freqLoop_length {freqs : List ℕ} {l : Located} {list : List ℕ}
    (h : freqLoop freqs l list = .ok r) : r.freqList.length = list.length + freqs.length := by
  induction freqs generalizing l list with
  | nil =>
    cases h
    rfl
  | cons freq freqs ih =>
    rw [freqLoop] at h
    dsimp only at h
    split at h
    · cases h
    · split at h
      · cases h
      · rw [ih h, List.length_append, List.length_singleton, List.length_cons]
        omega

theorem atGetFreqListInto_ok (h : atGetFreqList text = .ok r) :
    (atGetFreqListInto text vars).1 = 0 ∧ Stored r (atGetFreqListInto text vars).2 := by
  rw [atGetFreqList, ← scanIntArray_toOption] at h
  rw [atGetFreqListInto]
  cases hscan : scanIntArray text with
  | error code =>
    rw [hscan] at h
    cases h
  | ok freqArray =>
    rw [hscan] at h
    dsimp only [Except.toOption] at h
    dsimp only
    split at h
    · cases h
    · rename_i hlen
      have hnum : ¬ freqArray.length > FREQ_LIST_NUM := hlen
      rw [if_neg hnum]
      have hempty : Holds vars.freqList [] := fun _ hi => absurd hi (Nat.not_lt_zero _)
      obtain ⟨located, freqList, hloop, hidx, hbase, hholds⟩ := storeLoop_ok h hempty
      have hlength : r.freqList.length = freqArray.length := by
        rw [freqLoop_length h, List.length_nil, Nat.zero_add]
      rw [List.length_nil] at hloop
      rw [hloop]
      refine ⟨rfl, ?_, fun hshort => ?_, hlength.symm, hidx, hbase⟩
      · intro k hk
        dsimp only
        split
        · rw [Function.update_of_ne (by omega)]
          exact hholds k hk
        · exact hholds k hk
      · rw [hlength] at hshort ⊢
        dsimp only
        rw [if_pos hshort, Function.update_self]

end Store

/-- A text of digits with its value. -/
def IsNumber (digits : List Char) (value : ℕ) : Prop :=
  digits ≠ [] ∧ (∀ c ∈ digits, c.isDigit = true) ∧ value = decimal digits

/-- The text is a list between commas of the decimal numbers `fs`, where blanks count for nothing. -/
def FreqText (text : List Char) (fs : List ℕ) : Prop := Separated isSpace ',' IsNumber text fs

/-- The lists that the command is for: 1 to 16 numbers with the same highest spectrum. -/
def OneSpectrum (i : ℕ) (fs : List ℕ) : Prop :=
  1 ≤ fs.length ∧ fs.length ≤ 16 ∧ ∀ f ∈ fs, Highest i f

/-- The variables describe the frequencies: each lies behind its entry, the list is ended where there is
room, and the spectrum is that of all. -/
structure Describes (vars : FreqVars) (i : ℕ) (fs : List ℕ) : Prop where
  entries : ∀ k (h : k < fs.length), rangeLow i + 200000 * vars.freqList k ≤ fs[k] ∧
    fs[k] < rangeLow i + 200000 * (vars.freqList k + 1)
  ended : fs.length < 16 → vars.freqList fs.length = 0xFF
  freqNum : vars.freqNum = fs.length
  spectrumIdx : vars.spectrumIdx = i
  baseFreq : vars.baseFreq = rangeLow i

/-- What `at_get_freq_list` is to do with a text. -/
structure ParsesWell (text : List Char) (vars : FreqVars) : Prop where
  succeeds : (atGetFreqListInto text vars).1 = 0 ↔ ∃ fs i, FreqText text fs ∧ OneSpectrum i fs
  stores : (atGetFreqListInto text vars).1 = 0 → ∃ fs i, FreqText text fs ∧ OneSpectrum i fs ∧
    Describes (atGetFreqListInto text vars).2 i fs
  untouched : (atGetFreqListInto text vars).1 ≠ 0 →
    (atGetFreqListInto text vars).2.spectrumIdx = vars.spectrumIdx ∧
      (atGetFreqListInto text vars).2.freqNum = vars.freqNum ∧
      (atGetFreqListInto text vars).2.baseFreq = vars.baseFreq

/-- The text is not one of commas alone, and its numbers do not need more than 32 bits where what is left
of them would be taken. -/
structure ReadsExactly (text : List Char) : Prop where
  listed : (∀ c ∈ text, isSpace c = true ∨ c = ',') → ',' ∉ text
  fits : ∀ fs, FreqText text fs → (∃ f ∈ fs, 2 ^ 32 ≤ f) → fs.length ≤ 16 →
    ¬ ∃ i, ∀ f ∈ fs, Highest i (f % 2 ^ 32)

section Text
variable {text : List Char} {fs : List ℕ} {vars : FreqVars}

theorem isSpace_of_isDigit {c : Char} (h : c.isDigit = true) : isSpace c = false := by
  by_contra hspace
  rw [Bool.not_eq_false] at hspace
  rcases of_decide_eq_true hspace with rfl | rfl | rfl | rfl | rfl | rfl <;>
    exact absurd h (by decide)

theorem forall₂_isNumber {segs : List (List Char)} : List.Forall₂ IsNumber segs fs ↔
    (∀ seg ∈ segs, seg ≠ [] ∧ ∀ c ∈ seg, c.isDigit = true) ∧ fs = segs.map decimal := by
  induction segs generalizing fs with
  | nil => simp [List.forall₂_nil_left_iff]
  | cons seg segs ih =>
    rw [List.forall₂_cons_left_iff, List.forall_mem_cons, List.map_cons]
    constructor
    · rintro ⟨value, rest, ⟨hne, hdigits, rfl⟩, hrest, rfl⟩
      obtain ⟨hall, rfl⟩ := ih.mp hrest
      exact ⟨⟨⟨hne, hdigits⟩, hall⟩, rfl⟩
    · rintro ⟨⟨⟨hne, hdigits⟩, hall⟩, rfl⟩
      exact ⟨_, _, ⟨hne, hdigits, rfl⟩, ih.mpr ⟨hall, rfl⟩, rfl⟩

/-- The numbers of a list are those that its segments stand for. -/
theorem freqText_iff : FreqText text fs ↔
    (∀ seg ∈ segments text, ∀ c ∈ seg, c.isDigit = true) ∧ fs = requested text := by
  have hnumber (t : List Char) (v : ℕ) (h : IsNumber t v) :
      t ≠ [] ∧ ',' ∉ t ∧ ∀ c ∈ t, isSpace c = false :=
    ⟨h.1, fun hc => absurd (h.2.1 ',' hc) (by decide), fun c hc => isSpace_of_isDigit (h.2.1 c hc)⟩
  have hne (seg : List Char) (hseg : seg ∈ segments text) : seg ≠ [] :=
    of_decide_eq_true (List.mem_filter.mp hseg).2
  rw [FreqText, separated_iff isSpace_comma hnumber, ← segments_eq_items, requested,
    forall₂_isNumber]
  refine and_congr_left fun _ => forall₂_congr fun seg hseg => ?_
  exact and_iff_right (hne seg hseg)

theorem FreqText.unique {fs' : List ℕ} (h : FreqText text fs) (h' : FreqText text fs') : fs = fs' :=
  (freqText_iff.mp h).2.trans (freqText_iff.mp h').2.symm

theorem strToInt_ne_minusOne_iff {seg : List Char} : strToInt seg ≠ minusOne ↔
    (∀ c ∈ seg, c.isDigit = true) ∧ decimal seg % 4294967296 ≠ minusOne := by
  rw [strToInt]
  by_cases h : seg.all Char.isDigit = true
  · rw [if_pos h]
    exact (and_iff_right (List.all_eq_true.mp h)).symm
  · rw [if_neg h]
    exact iff_of_false (not_not.mpr rfl) fun hand => h (List.all_eq_true.mpr hand.1)

theorem collect_forall {segs : List (List Char)} {out arr : List ℕ} (h : collect segs out = some arr) :
    ∀ seg ∈ segs, strToInt seg ≠ minusOne := by
  induction segs generalizing out with
  | nil => nofun
  | cons seg segs ih =>
    rw [collect] at h
    split at h
    · cases h
    · split at h
      · cases h
      · rename_i hnum
        exact List.forall_mem_cons.mpr ⟨hnum, ih h⟩

theorem collect_of_forall {segs : List (List Char)} {out : List ℕ}
    (h : ∀ seg ∈ segs, strToInt seg ≠ minusOne) (hlen : out.length + segs.length ≤ 16) :
    ∃ arr, collect segs out = some arr := by
  induction segs generalizing out with
  | nil => exact ⟨out, rfl⟩
  | cons seg segs ih =>
    obtain ⟨hnum, hrest⟩ := List.forall_mem_cons.mp h
    rw [List.length_cons] at hlen
    rw [collect, if_neg (by omega), if_neg hnum]
    exact ih hrest (by rw [List.length_append, List.length_singleton]; omega)

/-- All numbers of a list that is taken have the stored spectrum as their highest. -/
theorem highest_of_atGetFreqList {r : FreqRequest} (h : atGetFreqList text = .ok r) :
    ∀ f ∈ requested text, Highest r.spectrumIdx (f % 4294967296) := by
  rw [atGetFreqList] at h
  cases harr : strToIntArray text with
  | none =>
    rw [harr] at h
    cases h
  | some arr =>
    obtain ⟨rfl, hle⟩ := strToIntArray_eq harr
    rw [harr] at h
    dsimp only at h
    rw [if_neg (Nat.not_lt.mpr hle)] at h
    exact List.forall_mem_map.mp (highest_of_freqLoop (.inl rfl) h)

/-- A list that is taken is a list of numbers, in a text that is not blank. -/
theorem freqText_of_atGetFreqList {r : FreqRequest} (h : atGetFreqList text = .ok r) :
    trim text ≠ [] ∧ FreqText text (requested text) := by
  rw [atGetFreqList] at h
  cases harr : strToIntArray text with
  | none =>
    rw [harr] at h
    cases h
  | some arr =>
    rw [strToIntArray] at harr
    split at harr
    · cases harr
    · rename_i htrim
      refine ⟨htrim, freqText_iff.mpr ⟨fun seg hseg => ?_, rfl⟩⟩
      exact (strToInt_ne_minusOne_iff.mp (collect_forall harr seg hseg)).1

/-- At most 16 numbers are taken if they have the same highest spectrum as they fit into a word. -/
theorem atGetFreqList_of_highest {i : ℕ} (htrim : trim text ≠ []) (htext : FreqText text fs)
    (hlen : fs.length ≤ 16) (hall : ∀ f ∈ fs, Highest i (f % 4294967296)) :
    ∃ r, atGetFreqList text = .ok r := by
  obtain ⟨hdigits, rfl⟩ := freqText_iff.mp htext
  have hhigh : ∀ i < 8, rangeHigh i < minusOne := by decide
  have hnum : ∀ seg ∈ segments text, strToInt seg ≠ minusOne := by
    intro seg hseg
    obtain ⟨hi, hrange, -⟩ := hall _ (List.mem_map_of_mem hseg)
    refine strToInt_ne_minusOne_iff.mpr ⟨hdigits seg hseg, Nat.ne_of_lt ?_⟩
    exact Nat.lt_of_le_of_lt hrange.2 (hhigh i hi)
  rw [requested, List.length_map] at hlen
  have hroom : ([] : List ℕ).length + (segments text).length ≤ 16 := by
    rwa [List.length_nil, Nat.zero_add]
  obtain ⟨arr, harr⟩ := collect_of_forall hnum hroom
  have harr' : strToIntArray text = some arr := by rw [strToIntArray, if_neg htrim, harr]
  obtain ⟨rfl, hle⟩ := strToIntArray_eq harr'
  rw [atGetFreqList, harr']
  dsimp only
  rw [if_neg (Nat.not_lt.mpr hle)]
  exact freqLoop_of_highest (List.forall_mem_map.mpr hall) (.inl rfl)

theorem atGetFreqListInto_eq_zero_iff :
    (atGetFreqListInto text vars).1 = 0 ↔ ∃ r, atGetFreqList text = .ok r := by
  cases h : atGetFreqList text with
  | error e => exact iff_of_false (atGetFreqListInto_error vars h).1 (by simp)
  | ok r => exact iff_of_true (atGetFreqListInto_ok h).1 ⟨r, rfl⟩

/-- What is stored for frequencies of one spectrum describes them. -/
theorem describes_of_ok {r : FreqRequest} {i : ℕ} (h : atGetFreqList text = .ok r)
    (hone : OneSpectrum i (requested text)) (hstored : Stored r vars) :
    Describes vars i (requested text) := by
  obtain ⟨hpos, -, hall⟩ := hone
  have hne : requested text ≠ [] := List.ne_nil_of_length_pos hpos
  have hword : ∀ f ∈ requested text, f % 4294967296 = f := by
    intro f hf
    obtain ⟨hi, hrange, -⟩ := hall f hf
    exact Nat.mod_eq_of_lt (Nat.lt_of_le_of_lt hrange.2 (range_table i hi).2.1)
  obtain ⟨f, hf⟩ := List.exists_mem_of_ne_nil _ hne
  have hhigh := highest_of_atGetFreqList h f hf
  rw [hword f hf] at hhigh
  obtain rfl := hhigh.unique (hall f hf)
  obtain ⟨hnil, -⟩ | ⟨-, hi, hbase, -, hlist⟩ := (atGetFreqList_ok h).2
  · exact absurd hnil hne
  · have hmap : r.freqList = (requested text).map (channel r.spectrumIdx) := by
      rw [hlist]
      exact List.map_congr_left fun f hf => by rw [hword f hf]
    have hlength : r.freqList.length = (requested text).length := by
      rw [hmap, List.length_map]
    refine ⟨fun k hk => ?_, fun hshort => ?_, hstored.freqNum.trans hlength, hstored.spectrumIdx,
      hstored.baseFreq.trans hbase⟩
    · have hentry : vars.freqList k = channel r.spectrumIdx ((requested text)[k]) := by
        rw [hstored.holds k (by omega)]
        simp [hmap]
      obtain ⟨-, hrange, -⟩ := hall _ (List.getElem_mem hk)
      have hlow := hrange.1
      have hdiv := Nat.div_add_mod ((requested text)[k] - rangeLow r.spectrumIdx) DEFAULE_BW_HZ
      have hrest := Nat.mod_lt ((requested text)[k] - rangeLow r.spectrumIdx)
        (show 0 < DEFAULE_BW_HZ by decide)
      rw [hentry, channel]
      rw [DEFAULE_BW_HZ] at hdiv hrest ⊢
      omega
    · rw [← hlength]
      exact hstored.ended (by rw [hlength]; exact hshort)

theorem freqText_nil_iff : FreqText text [] ↔ ∀ c ∈ text, isSpace c = true ∨ c = ',' := by
  have hitems : items isSpace ',' text = [] ↔ ∀ c ∈ text, isSpace c = true ∨ c = ',' := items_eq_nil_iff
  rw [← hitems, ← segments_eq_items, freqText_iff, requested]
  constructor
  · rintro ⟨-, hnil⟩
    exact List.map_eq_nil_iff.mp hnil.symm
  · intro hnil
    rw [hnil]
    exact ⟨fun _ hseg => absurd hseg List.not_mem_nil, rfl⟩

theorem trim_ne_nil_of_comma (h : ',' ∈ text) : trim text ≠ [] := by
  rw [trim_eq_strip]
  intro hnil
  exact absurd (strip_eq_nil_iff.mp hnil ',' h) (by decide)

/-- What is taken of a text that is read exactly is a list that the command is for. -/
theorem oneSpectrum_of_ok {r : FreqRequest} (hread : ReadsExactly text)
    (h : atGetFreqList text = .ok r) : OneSpectrum r.spectrumIdx (requested text) := by
  obtain ⟨htrim, htext⟩ := freqText_of_atGetFreqList h
  have hlen := (atGetFreqList_ok h).1
  have hall := highest_of_atGetFreqList h
  have hfits : ∀ f ∈ requested text, f < 4294967296 := by
    intro f hf
    by_contra hbig
    exact hread.fits _ htext ⟨f, hf, Nat.le_of_not_lt hbig⟩ hlen ⟨_, hall⟩
  refine ⟨?_, hlen, fun f hf => ?_⟩
  · by_contra hshort
    have hnil : requested text = [] := List.length_eq_zero_iff.mp (by omega)
    rw [hnil] at htext
    have hchars := freqText_nil_iff.mp htext
    have hblank : ∀ c ∈ text, isSpace c = true := fun c hc =>
      (hchars c hc).resolve_right fun hcomma => hread.listed hchars (hcomma ▸ hc)
    exact htrim (strip_eq_nil_iff.mpr hblank)
  · have hf' := hall f hf
    rwa [Nat.mod_eq_of_lt (hfits f hf)] at hf'

/-- A list that the command is for is taken. -/
theorem ok_of_oneSpectrum {i : ℕ} (htext : FreqText text fs) (hone : OneSpectrum i fs) :
    ∃ r, atGetFreqList text = .ok r := by
  have hword : ∀ f ∈ fs, f % 4294967296 = f := by
    intro f hf
    obtain ⟨hi, hrange, -⟩ := hone.2.2 f hf
    exact Nat.mod_eq_of_lt (Nat.lt_of_le_of_lt hrange.2 (range_table i hi).2.1)
  have htrim : trim text ≠ [] := by
    intro hnil
    have hitems : FreqText text [] := freqText_nil_iff.mpr fun c hc =>
      .inl (strip_eq_nil_iff.mp hnil c hc)
    exact absurd hone.1 (by rw [htext.unique hitems]; decide)
  refine atGetFreqList_of_highest (i := i) htrim htext hone.2.1 fun f hf => ?_
  rw [hword f hf]
  exact hone.2.2 f hf

end Text

/-- `at_get_freq_list` does what it is to do exactly with the texts that it reads exactly. -/
theorem parses_well_iff (text : List Char) (vars : FreqVars) :
    ParsesWell text vars ↔ ReadsExactly text := by
  constructor
  · intro h
    refine ⟨fun hchars hcomma => ?_, fun fs htext ⟨f, hf, hbig⟩ hlen ⟨i, hall⟩ => ?_⟩
    · have hnil := freqText_nil_iff.mpr hchars
      have hok := atGetFreqList_of_highest (i := 0) (trim_ne_nil_of_comma hcomma) hnil (by decide) nofun
      obtain ⟨fs, i, htext, hone⟩ := h.succeeds.mp (atGetFreqListInto_eq_zero_iff.mpr hok)
      exact absurd hone.1 (by rw [htext.unique hnil]; decide)
    · have htrim : trim text ≠ [] := by
        intro hblank
        have hnil := freqText_nil_iff.mpr fun c hc => .inl (strip_eq_nil_iff.mp hblank c hc)
        rw [htext.unique hnil] at hf
        exact absurd hf List.not_mem_nil
      have hok := atGetFreqList_of_highest htrim htext hlen hall
      obtain ⟨fs', i', htext', hone⟩ := h.succeeds.mp (atGetFreqListInto_eq_zero_iff.mpr hok)
      obtain rfl := htext'.unique htext
      obtain ⟨hi, hrange, -⟩ := hone.2.2 f hf
      have htop := (range_table i' hi).2.1
      have hle := hrange.2
      omega
  · intro h
    refine ⟨⟨fun hzero => ?_, fun ⟨fs, i, htext, hone⟩ => ?_⟩, fun hzero => ?_, fun hfail => ?_⟩
    · obtain ⟨r, hok⟩ := atGetFreqListInto_eq_zero_iff.mp hzero
      exact ⟨_, _, (freqText_of_atGetFreqList hok).2, oneSpectrum_of_ok h hok⟩
    · exact atGetFreqListInto_eq_zero_iff.mpr (ok_of_oneSpectrum htext hone)
    · obtain ⟨r, hok⟩ := atGetFreqListInto_eq_zero_iff.mp hzero
      have hone := oneSpectrum_of_ok h hok
      exact ⟨_, _, (freqText_of_atGetFreqList hok).2, hone,
        describes_of_ok hok hone (atGetFreqListInto_ok hok).2⟩
    · cases hres : atGetFreqList text with
      | ok r => exact absurd (atGetFreqListInto_ok hres).1 hfail
      | error e =>
        obtain ⟨freqList, hvars⟩ := (atGetFreqListInto_error vars hres).2
        rw [hvars]
        exact ⟨rfl, rfl, rfl⟩

/-- A number that is 470000000 in 32 bits, and more than that. -/
def wrappingText : List Char := ['4', '7', '6', '4', '9', '6', '7', '2', '9', '6']

/-- A number of more than 32 bits is taken for what is left of it. -/
theorem wrapping_number_is_taken :
    ¬ ∀ (text : List Char) (vars : FreqVars), ParsesWell text vars := by
  intro h
  have hwell := h wrappingText ⟨fun _ => 0, 0, 0, 0⟩
  obtain ⟨fs, i, htext, hone⟩ := hwell.succeeds.mp (by decide)
  obtain ⟨-, rfl⟩ := freqText_iff.mp htext
  obtain ⟨hi, hrange, -⟩ := hone.2.2 4764967296 (by decide)
  exact absurd (Nat.le_trans hrange.2 (Nat.le_of_lt (range_table i hi).2.1)) (by decide)

end WiotaDev.SimplifiedConfig
