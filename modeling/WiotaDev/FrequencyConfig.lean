import WiotaDev.SimplifiedConfig

/-! # The frequencies that a command has set

`AT+FREQ` stores a list in the stack, and `at_wiota_run` puts the channel of the current frequency in its
place. -/

namespace WiotaDev.SimplifiedConfig
open PrefixRuns

/-- The list of the stack is that of the channels of some frequencies in the spectrum of the module,
followed by a terminator. -/
structure Configured (freqs : List ℕ) (m : Module) : Prop where
  nonempty : freqs ≠ []
  base : m.own.baseFreq = rangeLow m.own.spectrumIdx
  inRange : ∀ freq ∈ freqs, InRange m.own.spectrumIdx freq
  list : freqs.map (channel m.own.spectrumIdx) ++ [0xFF] <+: m.stack.freqList
  bound : ∀ freq ∈ freqs, channel m.own.spectrumIdx freq ≤ gMaxFreqNumTable.getD m.own.spectrumIdx 0

/-- What the last command that was answered with OK has asked for is configured. -/
def FreqsKept (s : Session) : Prop := ∀ freqs, s.freqs = some freqs → Configured freqs s.module

/-- A command that is accepted asks for one frequency at least and for less than 16, the numbers fit into
a word, and in another spectrum than the present one it asks for the channel alone that the current
frequency has above the new base frequency. -/
def TakesEffect (s : Session) (text : List Char) : Prop :=
  ∀ r, atGetFreqList text = .ok r → requested text ≠ [] ∧ (requested text).length < 16 ∧
    (∀ freq ∈ requested text, freq < 4294967296) ∧
    (r.spectrumIdx ≠ s.module.own.spectrumIdx → r.freqList = [curIndex s.module.own r.baseFreq])

/-- A command for a rate with another symbol length or ratio finds the channel of the current frequency
as the only one that has been asked for. -/
def KeepsList (s : Session) (rate : ℕ) : Prop :=
  rate ≤ 8 ∧ rate ≥ 1 → s.module.own.rateMode ≠ rate → ¬SameShape s.module.own.rateMode rate →
    ∀ freqs, s.freqs = some freqs → freqs.map (channel s.module.own.spectrumIdx) =
      [curIndex s.module.own s.module.own.baseFreq]

def KeepsFreqs (s : Session) : Event → Prop
  | .freq text => TakesEffect s text
  | .rate (some rate) => KeepsList s rate
  | .rate none | .connect .. => True

section Lists

variable {xs : List ℕ} {idx : ℕ}

/-- Of the lists of channels only one is what a restart puts into the stack. -/
theorem terminated_prefix_restart_iff (ys : List ℕ) (hne : xs ≠ []) (hlt : ∀ x ∈ xs, x < 0xFF) :
    xs ++ [0xFF] <+: idx :: 0xFF :: ys ↔ xs = [idx] := by
  constructor
  · intro h
    cases xs with
    | nil => exact absurd rfl hne
    | cons x xs =>
      obtain ⟨rfl, htail⟩ := List.cons_prefix_cons.mp h
      cases xs with
      | nil => rfl
      | cons y xs =>
        obtain ⟨hy, -⟩ := List.cons_prefix_cons.mp htail
        have hylt := hlt y (List.mem_cons_of_mem _ List.mem_cons_self)
        exact absurd hy (Nat.ne_of_lt hylt)
  · rintro rfl
    exact List.prefix_append [idx, 0xFF] ys

/-- A list that is stored is followed by a terminator if there is room. -/
theorem terminated_prefix_stored_iff (stack : Stack) :
    xs ++ [0xFF] <+: (setFreqList xs stack).freqList ↔ xs.length < 16 := by
  rw [setFreqList]
  dsimp only
  split
  · rename_i hlt
    exact iff_of_true (List.prefix_refl _) hlt
  · rename_i hge
    refine iff_of_false (fun h => ?_) hge
    have hlen := h.length_le
    rw [List.length_append, List.length_singleton] at hlen
    omega

end Lists

theorem channel_bound {i freq : ℕ} (hi : i < 8) (h : InRange i freq) :
    channel i freq ≤ gMaxFreqNumTable.getD i 0 := by
  have hle := channel_le hi h
  rwa [atGetMaxFreqNum, if_neg (Nat.not_le.mpr hi)] at hle

theorem channel_lt {i freq : ℕ} (hi : i < 8) (h : InRange i freq) : channel i freq < 0xFF :=
  Nat.lt_of_le_of_lt (channel_le hi h) (range_table i hi).2.2.2

/-- Numbers that fit into a word are read as they are. -/
theorem map_word {freqs : List ℕ} (h : ∀ freq ∈ freqs, freq < 4294967296) (i : ℕ) :
    (freqs.map fun freq => channel i (freq % 4294967296)) = freqs.map (channel i) :=
  List.map_congr_left fun freq hf => congrArg (channel i) (Nat.mod_eq_of_lt (h freq hf))

/-- A restart keeps what is configured exactly if it is the channel of the current frequency alone. -/
theorem atWiotaRun_configured_iff {freqs : List ℕ} {m : Module} (hi : m.own.spectrumIdx < 8)
    (hne : freqs ≠ []) (hbase : m.own.baseFreq = rangeLow m.own.spectrumIdx)
    (hrange : ∀ freq ∈ freqs, InRange m.own.spectrumIdx freq) :
    Configured freqs (atWiotaRun m) ↔
      freqs.map (channel m.own.spectrumIdx) = [curIndex m.own m.own.baseFreq] := by
  have hmap : freqs.map (channel m.own.spectrumIdx) ≠ [] := fun h => hne (List.map_eq_nil_iff.mp h)
  have hlt : ∀ x ∈ freqs.map (channel m.own.spectrumIdx), x < 0xFF := by
    intro x hx
    obtain ⟨freq, hf, rfl⟩ := List.mem_map.mp hx
    exact channel_lt hi (hrange freq hf)
  rw [← terminated_prefix_restart_iff (m.stack.freqList.drop 2) hmap hlt]
  exact ⟨Configured.list, fun h => ⟨hne, hbase, hrange, h, fun f hf => channel_bound hi (hrange f hf)⟩⟩

section Commands

variable {text : List Char} {r : FreqRequest} {own : Local} {stack : Stack} {freqs : List ℕ}

theorem Configured.words {m : Module} (h : Configured freqs m) (hi : m.own.spectrumIdx < 8) :
    ∀ freq ∈ freqs, freq < 4294967296 := fun freq hf =>
  Nat.lt_of_le_of_lt (h.inRange freq hf).2 (range_table _ hi).2.1

/-- A list in the spectrum of the module is stored as it is. -/
theorem stored_configured_iff (h : atGetFreqList text = .ok r) (hspec : r.spectrumIdx = own.spectrumIdx) :
    Configured (requested text) ⟨{ own with baseFreq := r.baseFreq }, setFreqList r.freqList stack⟩ ↔
      requested text ≠ [] ∧ (requested text).length < 16 ∧
        ∀ freq ∈ requested text, freq < 4294967296 := by
  rcases (atGetFreqList_ok h).2 with ⟨hnil, -⟩ | ⟨hne, hi, hbase, hrange, hlist⟩
  · exact iff_of_false (fun hc => hc.nonempty hnil) fun hc => hc.1 hnil
  · rw [hspec] at hi hbase hrange hlist
    have hstored : (∀ freq ∈ requested text, freq < 4294967296) →
        ((requested text).map (channel own.spectrumIdx) ++ [0xFF] <+:
          (setFreqList r.freqList stack).freqList ↔ (requested text).length < 16) := by
      intro hwords
      rw [hlist, map_word hwords, terminated_prefix_stored_iff, List.length_map]
    constructor
    · intro hc
      have hwords := hc.words hi
      exact ⟨hne, (hstored hwords).mp hc.list, hwords⟩
    · rintro ⟨-, hlen, hwords⟩
      have hall : ∀ freq ∈ requested text, InRange own.spectrumIdx freq := fun freq hf => by
        have hfreq := hrange freq hf
        rwa [Nat.mod_eq_of_lt (hwords freq hf)] at hfreq
      exact ⟨hne, hbase, hall, (hstored hwords).mpr hlen, fun f hf => channel_bound hi (hall f hf)⟩

/-- In another spectrum the list is that of the restart. -/
theorem restarted_configured_iff (h : atGetFreqList text = .ok r) :
    Configured (requested text) (atWiotaRun
      ⟨{ own with baseFreq := r.baseFreq, spectrumIdx := r.spectrumIdx }, setFreqList r.freqList stack⟩) ↔
      requested text ≠ [] ∧ (requested text).length < 16 ∧
        (∀ freq ∈ requested text, freq < 4294967296) ∧ r.freqList = [curIndex own r.baseFreq] := by
  rcases (atGetFreqList_ok h).2 with ⟨hnil, -⟩ | ⟨hne, hi, hbase, hrange, hlist⟩
  · exact iff_of_false (fun hc => hc.nonempty hnil) fun hc => hc.1 hnil
  · have hrun : (∀ freq ∈ requested text, freq < 4294967296) → (Configured (requested text) (atWiotaRun
        ⟨{ own with baseFreq := r.baseFreq, spectrumIdx := r.spectrumIdx }, setFreqList r.freqList stack⟩)
          ↔ r.freqList = [curIndex own r.baseFreq]) := by
      intro hwords
      have hall : ∀ freq ∈ requested text, InRange r.spectrumIdx freq := fun freq hf => by
        have hfreq := hrange freq hf
        rwa [Nat.mod_eq_of_lt (hwords freq hf)] at hfreq
      rw [hlist, map_word hwords]
      exact atWiotaRun_configured_iff hi hne hbase hall
    constructor
    · intro hc
      have hwords := hc.words hi
      have hone := (hrun hwords).mp hc
      have hlen : (requested text).length = 1 := by
        have := congrArg List.length hone
        rwa [hlist, List.length_map] at this
      exact ⟨hne, by omega, hwords, hone⟩
    · rintro ⟨-, -, hwords, hone⟩
      exact (hrun hwords).mpr hone

end Commands

theorem freqSetup_configured_iff {s : Session} {text : List Char} {r : FreqRequest}
    (h : atGetFreqList text = .ok r) :
    Configured (requested text) (atWiotaFreqSetup text s.module).2 ↔ TakesEffect s text := by
  have htakes : TakesEffect s text ↔ requested text ≠ [] ∧ (requested text).length < 16 ∧
      (∀ freq ∈ requested text, freq < 4294967296) ∧ (r.spectrumIdx ≠ s.module.own.spectrumIdx →
        r.freqList = [curIndex s.module.own r.baseFreq]) := by
    refine ⟨fun ht => ht r h, fun ht r' hr' => ?_⟩
    cases h.symm.trans hr'
    exact ht
  rw [htakes, atWiotaFreqSetup, h]
  dsimp only
  split
  · rename_i hspec
    rw [forall_prop_of_true hspec]
    exact restarted_configured_iff h
  · rename_i hspec
    rw [stored_configured_iff h (not_not.mp hspec)]
    have himp : (r.spectrumIdx ≠ s.module.own.spectrumIdx →
        r.freqList = [curIndex s.module.own r.baseFreq]) := fun hne => absurd hne hspec
    rw [and_iff_left himp]

theorem rateSetup_configured_iff {freqs : List ℕ} {m : Module} (hi : m.own.spectrumIdx < 8)
    (h : Configured freqs m) (rate : ℕ) :
    Configured freqs (atWiotaRateSetup (some rate) m).2 ↔
      (rate ≤ 8 ∧ rate ≥ 1 → m.own.rateMode ≠ rate → ¬SameShape m.own.rateMode rate →
        freqs.map (channel m.own.spectrumIdx) = [curIndex m.own m.own.baseFreq]) := by
  rw [atWiotaRateSetup]
  dsimp only
  split
  · rename_i hrange
    rw [forall_prop_of_true hrange]
    dsimp only
    split
    · rename_i hne
      rw [forall_prop_of_true hne]
      split
      · rename_i hshape
        rw [forall_prop_of_true hshape]
        exact atWiotaRun_configured_iff hi h.nonempty h.base h.inRange
      · rename_i hsame
        exact iff_of_true ⟨h.nonempty, h.base, h.inRange, h.list, h.bound⟩ fun hshape => absurd hshape hsame
    · rename_i heq
      exact iff_of_true h fun hne => absurd hne heq
  · rename_i hrange
    exact iff_of_true h fun hr => absurd hr hrange

/-- The spectrum of the module is one of the table. -/
def HasSpectrum (s : Session) : Prop := s.module.own.spectrumIdx < 8

theorem next_hasSpectrum (s : Session) (e : Event) (h : HasSpectrum s) : HasSpectrum (next s e) := by
  cases e with
  | connect freqInfo synced =>
    cases synced with
    | true | false => exact h
  | rate rate =>
    cases rate with
    | none => exact h
    | some rate =>
      show (atWiotaRateSetup (some rate) s.module).2.own.spectrumIdx < 8
      rw [atWiotaRateSetup]
      dsimp only
      split
      · dsimp only
        split
        · split
          · exact h
          · exact h
        · exact h
      · exact h
  | freq text =>
    show (atWiotaFreqSetup text s.module).2.own.spectrumIdx < 8
    rw [atWiotaFreqSetup]
    cases hr : atGetFreqList text with
    | error code => exact h
    | ok r =>
      dsimp only
      split
      · rcases (atGetFreqList_ok hr).2 with ⟨-, rfl⟩ | ⟨-, hi, -⟩
        · exact Nat.succ_pos 7
        · exact hi
      · exact h

/-- A step keeps what has been asked for exactly if a command takes effect and a restart finds the only
channel that has been asked for. -/
theorem next_freqsKept_iff {s : Session} (hi : HasSpectrum s) (h : FreqsKept s) (e : Event) :
    FreqsKept (next s e) ↔ KeepsFreqs s e := by
  cases e with
  | connect freqInfo synced =>
    refine iff_of_true (fun freqs hf => ?_) trivial
    have hc := h freqs hf
    cases synced with
    | false => exact ⟨hc.nonempty, hc.base, hc.inRange, hc.list, hc.bound⟩
    | true => exact ⟨hc.nonempty, hc.base, hc.inRange, hc.list, hc.bound⟩
  | rate rate =>
    cases rate with
    | none => exact iff_of_true h trivial
    | some rate =>
      show (∀ freqs, s.freqs = some freqs → Configured freqs (atWiotaRateSetup (some rate) s.module).2) ↔ _
      constructor
      · intro hkept hrange hne hshape freqs hf
        exact (rateSetup_configured_iff hi (h freqs hf) rate).mp (hkept freqs hf) hrange hne hshape
      · intro hkeeps freqs hf
        refine (rateSetup_configured_iff hi (h freqs hf) rate).mpr fun hrange hne hshape => ?_
        exact hkeeps hrange hne hshape freqs hf
  | freq text =>
    cases hr : atGetFreqList text with
    | error code =>
      have hrefused : atWiotaFreqSetup text s.module = (.parseFaile, s.module) := by
        rw [atWiotaFreqSetup, hr]
      refine iff_of_true ?_ fun r hok => by cases hr.symm.trans hok
      rw [next, hrefused]
      exact h
    | ok r =>
      have hok : (atWiotaFreqSetup text s.module).1 = .ok := by
        rw [atWiotaFreqSetup, hr]
      rw [KeepsFreqs, ← freqSetup_configured_iff hr, FreqsKept, next]
      dsimp only
      rw [if_pos hok]
      exact ⟨fun hkept => hkept _ rfl, fun hc freqs hf => Option.some.inj hf ▸ hc⟩

/-- From the initialisation on the list of the stack is what the last accepted `AT+FREQ` has asked for,
exactly if every accepted command takes effect and every restart for a rate finds the only channel
that has been asked for. -/
theorem freqsKept_iff_keepsFreqs (addr : ℕ) (stack : Stack) (es : List Event) :
    (∀ pre, pre <+: es → FreqsKept (pre.foldl next (.start addr stack))) ↔
      Along next KeepsFreqs (.start addr stack) es := by
  refine forall_prefix_iff_along HasSpectrum (fun _ => FreqsKept)
    (fun s e h _ => next_hasSpectrum s e h) ?_ ?_ ?_ es
  · have hdefault : (atGetBaseFreqAndSpectrumIdx 502000000 ⟨0, 0, 0⟩).spectrumIdx < 8 := by decide
    exact hdefault
  · exact fun freqs hf => by cases hf
  · exact fun pre s e hi h => next_freqsKept_iff hi h e

/-- Two channels are asked for, and a rate with another symbol length leaves the default one. -/
theorem not_freqsKept : ¬∀ (addr : ℕ) (stack : Stack) (es : List Event),
    FreqsKept (es.foldl next (.start addr stack)) := by
  intro h
  have hkept := h 0 ⟨.l256, 1, 1, 3, 160, [160, 0xFF], 354689, 0, 20, 2⟩
    [.freq ['4', '7', '0', '2', '0', '0', '0', '0', '0', ',', '4', '7', '0', '4', '0', '0', '0', '0', '0'],
      .rate (some 1)] [470200000, 470400000] (by decide)
  have hlist := hkept.list
  revert hlist
  decide

end WiotaDev.SimplifiedConfig
