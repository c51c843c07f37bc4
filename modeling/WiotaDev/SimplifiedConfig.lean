import WiotaDev.FrequencyRequest
import WiotaDev.PrefixRuns

/-! # Rate and frequencies of the simplified AT module

The module keeps its own copy of what the stack is configured with. `AT+RATE` and `AT+FREQ` change both,
some of it at once and some through `at_wiota_run`. -/

namespace WiotaDev.SimplifiedConfig
open PrefixRuns

/-- `SYMBOL_LENGTH_128` to `SYMBOL_LENGTH_1024`. -/
inductive SymbolLength where
  | l128 | l256 | l512 | l1024
deriving DecidableEq

/-- `rate_mode_t`. -/
structure RateMode where
  symbolLength : SymbolLength
  dlulRatio : ℕ
  mcs : ℕ
deriving DecidableEq

def RATE_MODE_MAP : List RateMode :=
  [⟨.l128, 1, 3⟩, ⟨.l128, 1, 2⟩, ⟨.l256, 1, 3⟩, ⟨.l256, 1, 2⟩, ⟨.l256, 1, 1⟩, ⟨.l256, 1, 0⟩,
    ⟨.l512, 1, 0⟩, ⟨.l1024, 1, 0⟩]

/-- The entry of a rate; the rates begin with 1. -/
def rateMode (rate : ℕ) : RateMode := RATE_MODE_MAP.getD (rate - 1) ⟨.l128, 0, 0⟩

/-- `at_simplified_local`; its `rate_mode_map` is `RATE_MODE_MAP`. -/
structure Local where
  addr : ℕ
  subsystemid : ℕ
  baseFreq : ℕ
  curFreq : ℕ
  spectrumIdx : ℕ
  power : ℕ
  rateMode : ℕ
deriving DecidableEq

/-- What the stack is configured with, as far as the module changes it. -/
structure Stack where
  symbolLength : SymbolLength
  dlulRatio : ℕ
  groupNumber : ℕ
  spectrumIdx : ℕ
  freqIdx : ℕ
  freqList : List ℕ
  subsystemid : ℕ
  userid : ℕ
  power : ℕ
  mcs : ℕ
deriving DecidableEq

structure Module where
  own : Local
  stack : Stack
deriving DecidableEq

/-- The channel of `cur_freq` above a base frequency, as an `unsigned char`. -/
def curIndex (own : Local) (baseFreq : ℕ) : ℕ := freqToIndex own.curFreq baseFreq % 256

/-- `at_wiota_run`. -/
def atWiotaRun (m : Module) : Module :=
  let mode := rateMode m.own.rateMode
  let freqIdx := curIndex m.own m.own.baseFreq
  { m with stack := {
      symbolLength := mode.symbolLength
      dlulRatio := mode.dlulRatio
      groupNumber := mode.dlulRatio
      spectrumIdx := m.own.spectrumIdx
      freqIdx
      freqList := freqIdx :: 0xFF :: m.stack.freqList.drop 2
      subsystemid := m.own.subsystemid
      userid := m.own.addr
      power := m.own.power
      mcs := mode.mcs } }

/-- `at_simplified_init`, on a stack with a user id. -/
def atSimplifiedInit (addr : ℕ) (stack : Stack) : Module :=
  let located := atGetBaseFreqAndSpectrumIdx 502000000 ⟨0, 0, 0⟩
  atWiotaRun ⟨⟨addr, 354689, located.baseFreq, located.actualFreq, located.spectrumIdx, 20, 4⟩, stack⟩

/-- `uc_wiota_set_freq_list`: a list of 16 leaves no room for a terminator. -/
def setFreqList (list : List ℕ) (stack : Stack) : Stack :=
  { stack with freqList := if list.length < 16 then list ++ [0xFF] else list }

/-- `AT_RESULT_OK`, `AT_RESULT_FAILE` and `AT_RESULT_PARSE_FAILE`. -/
inductive AtResult where
  | ok | faile | parseFaile
deriving DecidableEq

/-- `at_wiota_freq_setup`, on the text behind the equals sign. -/
def atWiotaFreqSetup (text : List Char) (m : Module) : AtResult × Module :=
  match atGetFreqList text with
  | .error _ => (.parseFaile, m)
  | .ok r =>
    let m' : Module := ⟨{ m.own with baseFreq := r.baseFreq }, setFreqList r.freqList m.stack⟩
    (.ok, if r.spectrumIdx ≠ m'.own.spectrumIdx then
        atWiotaRun { m' with own := { m'.own with spectrumIdx := r.spectrumIdx } }
      else m')

/-- The same symbol length and the same ratio. -/
def SameShape (rate rate' : ℕ) : Prop :=
  (rateMode rate).symbolLength = (rateMode rate').symbolLength ∧
    (rateMode rate).dlulRatio = (rateMode rate').dlulRatio

instance (rate rate' : ℕ) : Decidable (SameShape rate rate') := inferInstanceAs (Decidable (_ ∧ _))

/-- `at_wiota_rate_setup`, on the number that `parse` finds. -/
def atWiotaRateSetup (rate : Option ℕ) (m : Module) : AtResult × Module :=
  match rate with
  | none => (.parseFaile, m)
  | some rate =>
    if rate ≤ 8 ∧ rate ≥ 1 then
      (.ok, if m.own.rateMode ≠ rate then
          if ¬SameShape m.own.rateMode rate then
            atWiotaRun { m with own := { m.own with rateMode := rate } }
          else { m with stack := { m.stack with mcs := (rateMode rate).mcs } }
        else m)
    else (.faile, m)

/-- `at_wiota_rate_query`. -/
def atWiotaRateQuery (m : Module) : ℕ := m.own.rateMode

/-- An attempt of the task to connect on a channel. -/
def connect (freqInfo : ℕ) (synced : Bool) (m : Module) : Module :=
  let stack := { m.stack with freqIdx := freqInfo }
  if synced then ⟨{ m.own with curFreq := indexToFreq freqInfo m.own.baseFreq }, stack⟩
  else { m with stack }

inductive Event where
  | freq (text : List Char)
  | rate (rate : Option ℕ)
  | connect (freqInfo : ℕ) (synced : Bool)

/-- The module, the last rate that a command has set, and the frequencies of the last `AT+FREQ`, as far
as the commands were answered with OK. -/
structure Session where
  module : Module
  rate : ℕ
  freqs : Option (List ℕ)

/-- The session begins with the default rate and no command. -/
def Session.start (addr : ℕ) (stack : Stack) : Session := ⟨atSimplifiedInit addr stack, 4, none⟩

def next (s : Session) : Event → Session
  | .freq text =>
    let done := atWiotaFreqSetup text s.module
    { s with module := done.2, freqs := if done.1 = .ok then some (requested text) else s.freqs }
  | .rate rate =>
    let done := atWiotaRateSetup rate s.module
    { s with module := done.2, rate := if done.1 = .ok then rate.getD 0 else s.rate }
  | .connect freqInfo synced => { s with module := connect freqInfo synced s.module }

/-- The stack is configured for a rate, and the query reports it. -/
structure RateAgrees (m : Module) (rate : ℕ) : Prop where
  symbolLength : m.stack.symbolLength = (rateMode rate).symbolLength
  dlulRatio : m.stack.dlulRatio = (rateMode rate).dlulRatio
  mcs : m.stack.mcs = (rateMode rate).mcs
  reported : atWiotaRateQuery m = rate

/-- A command for another rate than the stored one asks for another symbol length or another ratio. -/
def ChangesShape (s : Session) : Event → Prop
  | .rate (some rate) => rate ≤ 8 ∧ rate ≥ 1 → s.module.own.rateMode ≠ rate →
      ¬SameShape s.module.own.rateMode rate
  | .freq _ | .rate none | .connect .. => True

/-- A restart configures the stack for the stored rate. -/
theorem atWiotaRun_rateAgrees (m : Module) : RateAgrees (atWiotaRun m) m.own.rateMode :=
  ⟨rfl, rfl, rfl, rfl⟩

theorem freqSetup_rateAgrees {text : List Char} {m : Module} {rate : ℕ} (h : RateAgrees m rate) :
    RateAgrees (atWiotaFreqSetup text m).2 rate := by
  have hrate : m.own.rateMode = rate := h.reported
  rw [atWiotaFreqSetup]
  split
  · exact h
  · dsimp only
    split
    · exact hrate ▸ atWiotaRun_rateAgrees _
    · exact ⟨h.symbolLength, h.dlulRatio, h.mcs, h.reported⟩

/-- A command for a rate sets it exactly if it is the stored one or changes the shape of the frames. -/
theorem rateSetup_rateAgrees_iff {m : Module} {rate : ℕ} (h : RateAgrees m m.own.rateMode)
    (hrange : rate ≤ 8 ∧ rate ≥ 1) :
    RateAgrees (atWiotaRateSetup (some rate) m).2 rate ↔
      (m.own.rateMode ≠ rate → ¬SameShape m.own.rateMode rate) := by
  rw [atWiotaRateSetup]
  dsimp only
  rw [if_pos hrange]
  dsimp only
  split
  · rename_i hne
    split
    · rename_i hshape
      exact iff_of_true (atWiotaRun_rateAgrees _) fun _ => hshape
    · rename_i hsame
      refine iff_of_false (fun hagrees => hne hagrees.reported) fun hshape => hsame (hshape hne)
  · rename_i heq
    rw [not_not] at heq
    exact iff_of_true (heq ▸ h) fun hne => absurd heq hne

/-- The stored rate agrees with the stack, and with what a restart makes of it. -/
def RateKept (s : Session) : Prop :=
  RateAgrees s.module s.rate ∧ RateAgrees (atWiotaRun s.module) s.rate

theorem rateKept_iff {s : Session} : RateKept s ↔ RateAgrees s.module s.rate := by
  refine and_iff_left_of_imp fun h => ?_
  have hrate : s.module.own.rateMode = s.rate := h.reported
  exact hrate ▸ atWiotaRun_rateAgrees s.module

theorem next_rateKept_iff {s : Session} (h : RateKept s) (e : Event) :
    RateKept (next s e) ↔ ChangesShape s e := by
  rw [rateKept_iff] at h ⊢
  have hrate : s.module.own.rateMode = s.rate := h.reported
  cases e with
  | freq text => exact iff_of_true (freqSetup_rateAgrees h) trivial
  | connect freqInfo synced =>
    refine iff_of_true ?_ trivial
    cases synced with
    | true | false => exact ⟨h.symbolLength, h.dlulRatio, h.mcs, h.reported⟩
  | rate rate =>
    cases rate with
    | none => exact iff_of_true h trivial
    | some rate =>
      by_cases hrange : rate ≤ 8 ∧ rate ≥ 1
      · have hok : (atWiotaRateSetup (some rate) s.module).1 = .ok := by
          rw [atWiotaRateSetup]
          dsimp only
          rw [if_pos hrange]
        rw [ChangesShape, forall_prop_of_true hrange, ← rateSetup_rateAgrees_iff (hrate ▸ h) hrange, next]
        dsimp only
        rw [if_pos hok]
        rfl
      · have hfaile : atWiotaRateSetup (some rate) s.module = (.faile, s.module) := if_neg hrange
        refine iff_of_true ?_ fun hr => absurd hr hrange
        rw [next, hfaile]
        exact h

/-- From the initialisation on the stack is configured for the last rate that was answered with OK, the
query reports it, and a restart keeps it, exactly if no command asks for another rate than the
stored one with the same symbol length and ratio. -/
theorem rateKept_iff_changesShape (addr : ℕ) (stack : Stack) (es : List Event) :
    (∀ pre, pre <+: es → RateKept (pre.foldl next (.start addr stack))) ↔
      Along next ChangesShape (.start addr stack) es := by
  refine forall_prefix_iff_along (fun _ => True) (fun _ => RateKept)
    (fun _ _ _ _ => trivial) trivial ?_ ?_ es
  · exact rateKept_iff.mpr (atWiotaRun_rateAgrees _)
  · exact fun pre s e _ h => next_rateKept_iff h e

/-- Rate 5 is set behind rate 4, and the query still reports 4. -/
theorem not_rateKept : ¬∀ (addr : ℕ) (stack : Stack) (es : List Event),
    RateKept (es.foldl next (.start addr stack)) := by
  intro h
  have hkept := h 0 ⟨.l256, 1, 1, 3, 160, [160, 0xFF], 354689, 0, 20, 2⟩ [.rate (some 5)]
  exact absurd hkept.1.reported (by decide)

end WiotaDev.SimplifiedConfig
