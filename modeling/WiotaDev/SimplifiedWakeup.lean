import WiotaDev.SimplifiedConfig
import Mathlib.Data.List.GetD
import Mathlib.Tactic.IntervalCases

/-! # Sleeping and waking up with the simplified AT module

A node that sleeps until it is paged, and the one that pages it, compute the wake-up id from the rate
each for itself. -/

namespace WiotaDev.SimplifiedConfig
open PrefixRuns

def MIN_SLEEP_TIME : ℕ := 100
def MAX_SLEEP_TIME : ℕ := 44000
def SLEEP_TIME_TO_SEC_DIVISOR : ℕ := 1000
def SLEEP_TIME_ROUNDING_VALUE : ℕ := 999

def SymbolLength.value : SymbolLength → ℕ
  | .l128 => 0
  | .l256 => 1
  | .l512 => 2
  | .l1024 => 3

def gMaxAwakenIdTable : List ℕ := [1023, 4095, 16383, 65535]

/-- What is read behind `rate_mode_map`, as a symbol length, and behind `g_max_awaken_id_table`. -/
structure Beyond where
  symbolLength : ℕ → ℕ
  maxAwakenId : ℕ → ℕ

/-- What `at_get_max_awaken_id` returns, and the two places that it reads. -/
structure AwakenLimit where
  maxAwakenId : ℕ
  mapIndex : ℕ
  tableIndex : ℕ
deriving DecidableEq

/-- The rate is the index: it is not counted from 0. -/
def atGetMaxAwakenId (beyond : Beyond) (own : Local) : AwakenLimit :=
  let symbolLength := if h : own.rateMode < RATE_MODE_MAP.length then
      (RATE_MODE_MAP.get ⟨own.rateMode, h⟩).symbolLength.value
    else beyond.symbolLength own.rateMode % 2 ^ 8
  { maxAwakenId := if h : symbolLength < gMaxAwakenIdTable.length then
        gMaxAwakenIdTable.get ⟨symbolLength, h⟩
      else beyond.maxAwakenId symbolLength % 2 ^ 16
    mapIndex := own.rateMode
    tableIndex := symbolLength }

/-- The fields of `uc_lpm_rx_cfg_t` that the command sets. -/
structure LpmRxCfg where
  mode : ℕ
  spectrumIdx : ℕ
  symbolLength : SymbolLength
  freq : ℕ
  detectPeriod : ℕ
  periodMultiple : ℕ
  awakenId : ℕ
  awakenIdAnother : ℕ
deriving DecidableEq

/-- The fields of `uc_lpm_tx_cfg_t` that the command sets. -/
structure LpmTxCfg where
  mode : ℕ
  spectrumIdx : ℕ
  symbolLength : SymbolLength
  freq : ℕ
  sendTime : ℕ
  awakenId : ℕ
deriving DecidableEq

/-- What the two commands make the stack do. -/
inductive LpmAct where
  | setAlarmTime (sleepTime : ℕ)
  | sleepEnter
  | pagingRx (prCfg : LpmRxCfg)
  | pagingTx (ptCfg : LpmTxCfg)
deriving DecidableEq

/-- `addr % (max_awaken_id - 1)` with unsigned numbers, kept in 16 bits. -/
def unicastId (addr maxAwakenId : ℕ) : ℕ :=
  addr % ((maxAwakenId + (2 ^ 32 - 1)) % 2 ^ 32) % 2 ^ 16

/-- `at_wiota_sleep_setup`, on the mode and the time that `parse` finds. -/
def atWiotaSleepSetup (beyond : Beyond) (m : Module) (args : Option (ℕ × ℕ)) :
    AtResult × List LpmAct :=
  match args with
  | none => (.parseFaile, [])
  | some (mode, time) =>
    if mode < 3 then
      if mode ≥ 1 ∧ (time < MIN_SLEEP_TIME ∨ time > MAX_SLEEP_TIME) then (.faile, [])
      else if mode = 0 then (.ok, [.sleepEnter])
      else if mode = 1 then
        (.ok, [.setAlarmTime ((time + SLEEP_TIME_ROUNDING_VALUE) / SLEEP_TIME_TO_SEC_DIVISOR),
          .sleepEnter])
      else
        let maxAwakenId := (atGetMaxAwakenId beyond m.own).maxAwakenId
        (.ok, [.pagingRx {
          mode := 1
          spectrumIdx := m.stack.spectrumIdx
          symbolLength := m.stack.symbolLength
          freq := m.stack.freqIdx
          detectPeriod := time
          periodMultiple := 1
          awakenId := unicastId m.own.addr maxAwakenId
          awakenIdAnother := maxAwakenId }])
    else (.faile, [])

/-- `at_wiota_wakeup_setup`, on the address and the time that `parse` finds. -/
def atWiotaWakeupSetup (beyond : Beyond) (m : Module) (args : Option (ℕ × ℕ)) :
    AtResult × List LpmAct :=
  match args with
  | none => (.parseFaile, [])
  | some (addr, time) =>
    if time ≥ MIN_SLEEP_TIME ∧ time ≤ MAX_SLEEP_TIME then
      let maxAwakenId := (atGetMaxAwakenId beyond m.own).maxAwakenId
      (.ok, [.pagingTx {
        mode := 1
        spectrumIdx := m.stack.spectrumIdx
        symbolLength := m.stack.symbolLength
        freq := m.stack.freqIdx
        sendTime := time + 100
        awakenId := if addr = 0 then maxAwakenId else unicastId addr maxAwakenId }])
    else (.faile, [])

/-- The same configuration on a node with another address. -/
def Module.withAddr (m : Module) (addr : ℕ) : Module :=
  { m with own := { m.own with addr } }

/-- The largest id for the symbol length that the stack is configured with. -/
def Module.idLimit (m : Module) : ℕ := gMaxAwakenIdTable.getD m.stack.symbolLength.value 0

/-- A time that both commands accept. -/
def SleepTime (time : ℕ) : Prop := MIN_SLEEP_TIME ≤ time ∧ time ≤ MAX_SLEEP_TIME

/-- A node with the address sleeps on the ids that a node of the same configuration pages, both ids can
be carried, and the two differ. -/
def Reaches (beyond : Beyond) (m : Module) (addr time time' : ℕ) : Prop :=
  ∃ prCfg unicast broadcast,
    atWiotaSleepSetup beyond (m.withAddr addr) (some (2, time)) = (.ok, [.pagingRx prCfg]) ∧
    atWiotaWakeupSetup beyond m (some (addr, time')) = (.ok, [.pagingTx unicast]) ∧
    atWiotaWakeupSetup beyond m (some (0, time')) = (.ok, [.pagingTx broadcast]) ∧
    prCfg.awakenId = unicast.awakenId ∧ prCfg.awakenIdAnother = broadcast.awakenId ∧
    unicast.awakenId ≤ m.idLimit ∧ broadcast.awakenId ≤ m.idLimit ∧
    unicast.awakenId ≠ broadcast.awakenId

/-- Every address is reached, and the tables are read where they have entries. -/
structure WakesUp (beyond : Beyond) (m : Module) : Prop where
  reaches : ∀ addr time time', addr ≠ 0 → addr < 2 ^ 32 → SleepTime time → SleepTime time' →
    Reaches beyond m addr time time'
  mapIndex : (atGetMaxAwakenId beyond m.own).mapIndex < RATE_MODE_MAP.length
  tableIndex : (atGetMaxAwakenId beyond m.own).tableIndex < gMaxAwakenIdTable.length

/-- The rates whose ids fit the symbol length that they configure. -/
def FittingRate (rate : ℕ) : Prop := rate = 1 ∨ rate = 3 ∨ rate = 4 ∨ rate = 5

instance (rate : ℕ) : Decidable (FittingRate rate) := inferInstanceAs (Decidable (_ ∨ _))

/-- A command for a rate that becomes the stored one asks for a fitting one. -/
def StoresFitting (s : Session) : Event → Prop
  | .rate (some rate) => rate ≤ 8 ∧ rate ≥ 1 → ¬SameShape s.module.own.rateMode rate →
      FittingRate rate
  | .freq _ | .rate none | .connect .. => True

/-- The stored rate is one of the eight, and the stack has its symbol length. -/
structure ShapeKept (m : Module) : Prop where
  range : m.own.rateMode ≤ 8 ∧ m.own.rateMode ≥ 1
  symbolLength : m.stack.symbolLength = (rateMode m.own.rateMode).symbolLength

theorem unicastId_eq (addr : ℕ) {maxAwakenId : ℕ} (h : 1 < maxAwakenId) (h' : maxAwakenId < 2 ^ 16) :
    unicastId addr maxAwakenId = addr % (maxAwakenId - 1) := by
  have hsub : (maxAwakenId + (2 ^ 32 - 1)) % 2 ^ 32 = maxAwakenId - 1 := by omega
  have hlt : addr % (maxAwakenId - 1) < maxAwakenId - 1 := Nat.mod_lt _ (by omega)
  rw [unicastId, hsub, Nat.mod_eq_of_lt (by omega)]

theorem SymbolLength.value_lt (l : SymbolLength) : l.value < gMaxAwakenIdTable.length := by
  cases l with
  | l128 | l256 | l512 | l1024 => decide

/-- The largest id for the symbol length of a rate. -/
def limitOf (rate : ℕ) : ℕ := gMaxAwakenIdTable.getD (rateMode rate).symbolLength.value 0

theorem limitOf_bounds (rate : ℕ) : 1 < limitOf rate ∧ limitOf rate < 2 ^ 16 := by
  rw [limitOf]
  cases (rateMode rate).symbolLength with
  | l128 | l256 | l512 | l1024 => decide

/-- What is read is the entry of the next rate. -/
theorem atGetMaxAwakenId_of_lt (beyond : Beyond) {own : Local} (h : own.rateMode < 8) :
    atGetMaxAwakenId beyond own = ⟨limitOf (own.rateMode + 1), own.rateMode,
      (rateMode (own.rateMode + 1)).symbolLength.value⟩ := by
  have hmap : own.rateMode < RATE_MODE_MAP.length := h
  have hentry : RATE_MODE_MAP.get ⟨own.rateMode, hmap⟩ = rateMode (own.rateMode + 1) := by
    rw [rateMode, Nat.add_sub_cancel]
    exact (List.getD_eq_getElem _ _ hmap).symm
  have hvalue := SymbolLength.value_lt (rateMode (own.rateMode + 1)).symbolLength
  simp only [atGetMaxAwakenId, dif_pos hmap, hentry, dif_pos hvalue]
  rw [limitOf, List.getD_eq_getElem _ _ hvalue]
  rfl

/-- The tables are read at the same places whatever the address is. -/
theorem atGetMaxAwakenId_withAddr (beyond : Beyond) (m : Module) (addr : ℕ) :
    atGetMaxAwakenId beyond (m.withAddr addr).own = atGetMaxAwakenId beyond m.own := rfl

theorem sleepSetup_paging (beyond : Beyond) (m : Module) {time : ℕ} (h : SleepTime time) :
    ∃ prCfg, atWiotaSleepSetup beyond m (some (2, time)) = (.ok, [.pagingRx prCfg]) ∧
      prCfg.awakenId = unicastId m.own.addr (atGetMaxAwakenId beyond m.own).maxAwakenId ∧
      prCfg.awakenIdAnother = (atGetMaxAwakenId beyond m.own).maxAwakenId := by
  have htime : ¬ (2 ≥ 1 ∧ (time < MIN_SLEEP_TIME ∨ time > MAX_SLEEP_TIME)) := by
    rintro ⟨-, hlt | hgt⟩
    · exact absurd h.1 (not_le.mpr hlt)
    · exact absurd h.2 (not_le.mpr hgt)
  rw [atWiotaSleepSetup]
  dsimp only
  rw [if_pos (by decide), if_neg htime, if_neg (by decide), if_neg (by decide)]
  exact ⟨_, rfl, rfl, rfl⟩

theorem wakeupSetup_paging (beyond : Beyond) (m : Module) (addr : ℕ) {time : ℕ}
    (h : SleepTime time) :
    ∃ ptCfg, atWiotaWakeupSetup beyond m (some (addr, time)) = (.ok, [.pagingTx ptCfg]) ∧
      ptCfg.awakenId = if addr = 0 then (atGetMaxAwakenId beyond m.own).maxAwakenId
        else unicastId addr (atGetMaxAwakenId beyond m.own).maxAwakenId := by
  rw [atWiotaWakeupSetup]
  dsimp only
  rw [if_pos ⟨h.1, h.2⟩]
  exact ⟨_, rfl, rfl⟩

theorem ShapeKept.idLimit_eq {m : Module} (h : ShapeKept m) : m.idLimit = limitOf m.own.rateMode := by
  rw [Module.idLimit, h.symbolLength, limitOf]

/-- Where the largest id can be carried, every address is reached. -/
theorem reaches_of_le {beyond : Beyond} {m : Module} {addr time time' : ℕ}
    (hrate : m.own.rateMode < 8) (hle : limitOf (m.own.rateMode + 1) ≤ m.idLimit) (haddr : addr ≠ 0)
    (htime : SleepTime time) (htime' : SleepTime time') : Reaches beyond m addr time time' := by
  obtain ⟨prCfg, hsleep, hrx, hrx'⟩ := sleepSetup_paging beyond (m.withAddr addr) htime
  obtain ⟨unicast, hunicast, hid⟩ := wakeupSetup_paging beyond m addr htime'
  obtain ⟨broadcast, hbroadcast, hid'⟩ := wakeupSetup_paging beyond m 0 htime'
  obtain ⟨hone, hbound⟩ := limitOf_bounds (m.own.rateMode + 1)
  rw [atGetMaxAwakenId_withAddr, atGetMaxAwakenId_of_lt beyond hrate] at hrx hrx'
  rw [atGetMaxAwakenId_of_lt beyond hrate] at hid hid'
  rw [if_neg haddr] at hid
  rw [if_pos rfl] at hid'
  dsimp only at hrx hrx' hid hid'
  have hlt : addr % (limitOf (m.own.rateMode + 1) - 1) < limitOf (m.own.rateMode + 1) - 1 :=
    Nat.mod_lt _ (by omega)
  have hunicastId := unicastId_eq addr hone hbound
  refine ⟨prCfg, unicast, broadcast, hsleep, hunicast, hbroadcast, hrx.trans hid.symm,
    hrx'.trans hid'.symm, ?_, ?_, ?_⟩
  · rw [hid, hunicastId]
    omega
  · rw [hid']
    exact hle
  · rw [hid, hid', hunicastId]
    omega

theorem SleepTime.min : SleepTime MIN_SLEEP_TIME := ⟨le_rfl, by decide⟩

/-- The id for all nodes is the largest one, so it shows a limit that is too small. -/
theorem limit_le_of_wakesUp {beyond : Beyond} {m : Module} (hrate : m.own.rateMode < 8)
    (h : WakesUp beyond m) : limitOf (m.own.rateMode + 1) ≤ m.idLimit := by
  obtain ⟨-, -, broadcast, -, -, hbroadcast, -, -, -, hle, -⟩ :=
    h.reaches 1 MIN_SLEEP_TIME MIN_SLEEP_TIME Nat.one_ne_zero (by decide) SleepTime.min SleepTime.min
  obtain ⟨ptCfg, hptCfg, hid⟩ := wakeupSetup_paging beyond m 0 SleepTime.min
  rw [hptCfg] at hbroadcast
  obtain rfl : ptCfg = broadcast := by simpa using hbroadcast
  rw [if_pos rfl, atGetMaxAwakenId_of_lt beyond hrate] at hid
  rwa [hid] at hle

theorem limitOf_succ_le_iff {rate : ℕ} (hrange : rate < 8 ∧ rate ≥ 1) :
    limitOf (rate + 1) ≤ limitOf rate ↔ FittingRate rate := by
  obtain ⟨hlt, hge⟩ := hrange
  interval_cases rate <;> decide

/-- The ids fit exactly for the rates 1, 3, 4 and 5. -/
theorem wakesUp_iff (beyond : Beyond) {m : Module} (h : ShapeKept m) :
    WakesUp beyond m ↔ FittingRate m.own.rateMode := by
  by_cases hrate : m.own.rateMode < 8
  · rw [← limitOf_succ_le_iff ⟨hrate, h.range.2⟩, ← ShapeKept.idLimit_eq h]
    constructor
    · exact limit_le_of_wakesUp hrate
    · intro hle
      refine ⟨fun addr time time' haddr _ htime htime' =>
        reaches_of_le hrate hle haddr htime htime', hrate, ?_⟩
      rw [atGetMaxAwakenId_of_lt beyond hrate]
      exact SymbolLength.value_lt _
  · refine iff_of_false (fun hwakes => hrate hwakes.mapIndex) fun hfit => ?_
    rcases hfit with hr | hr | hr | hr <;> omega

theorem atWiotaRun_shapeKept {m : Module} (h : m.own.rateMode ≤ 8 ∧ m.own.rateMode ≥ 1) :
    ShapeKept (atWiotaRun m) := ⟨h, rfl⟩

theorem freqSetup_shapeKept {text : List Char} {m : Module} (h : ShapeKept m) :
    ShapeKept (atWiotaFreqSetup text m).2 ∧
      (atWiotaFreqSetup text m).2.own.rateMode = m.own.rateMode := by
  rw [atWiotaFreqSetup]
  split
  · exact ⟨h, rfl⟩
  · dsimp only
    split
    · exact ⟨atWiotaRun_shapeKept h.range, rfl⟩
    · exact ⟨⟨h.range, h.symbolLength⟩, rfl⟩

/-- The rate that is stored behind a command. -/
theorem rateSetup_shapeKept {rate : ℕ} {m : Module} (h : ShapeKept m)
    (hrange : rate ≤ 8 ∧ rate ≥ 1) :
    ShapeKept (atWiotaRateSetup (some rate) m).2 ∧
      (atWiotaRateSetup (some rate) m).2.own.rateMode =
        if SameShape m.own.rateMode rate then m.own.rateMode else rate := by
  rw [atWiotaRateSetup]
  dsimp only
  rw [if_pos hrange]
  by_cases hne : m.own.rateMode ≠ rate
  · dsimp only
    rw [if_pos hne]
    by_cases hshape : SameShape m.own.rateMode rate
    · rw [if_neg (not_not.mpr hshape), if_pos hshape]
      exact ⟨⟨h.range, h.symbolLength⟩, rfl⟩
    · rw [if_pos hshape, if_neg hshape]
      exact ⟨atWiotaRun_shapeKept hrange, rfl⟩
  · dsimp only
    rw [if_neg hne]
    rw [not_not] at hne
    refine ⟨h, ?_⟩
    rw [hne, ite_self]

theorem next_shapeKept {s : Session} (h : ShapeKept s.module) (e : Event) :
    ShapeKept (next s e).module := by
  cases e with
  | freq text => exact (freqSetup_shapeKept h).1
  | connect freqInfo synced =>
    cases synced with
    | true | false => exact ⟨h.range, h.symbolLength⟩
  | rate rate =>
    cases rate with
    | none => exact h
    | some rate =>
      by_cases hrange : rate ≤ 8 ∧ rate ≥ 1
      · exact (rateSetup_shapeKept h hrange).1
      · have hfaile : atWiotaRateSetup (some rate) s.module = (.faile, s.module) := if_neg hrange
        rw [next, hfaile]
        exact h

/-- The stored rate stays fitting exactly with a command that stores a fitting one. -/
theorem next_fitting_iff {s : Session} (h : ShapeKept s.module)
    (hfit : FittingRate s.module.own.rateMode) (e : Event) :
    FittingRate (next s e).module.own.rateMode ↔ StoresFitting s e := by
  cases e with
  | freq text =>
    have hrate : (next s (.freq text)).module.own.rateMode = s.module.own.rateMode :=
      (freqSetup_shapeKept h).2
    rw [hrate]
    exact iff_of_true hfit trivial
  | connect freqInfo synced =>
    cases synced with
    | true | false => exact iff_of_true hfit trivial
  | rate rate =>
    cases rate with
    | none => exact iff_of_true hfit trivial
    | some rate =>
      by_cases hrange : rate ≤ 8 ∧ rate ≥ 1
      · have hrate : (next s (.rate (some rate))).module.own.rateMode =
            if SameShape s.module.own.rateMode rate then s.module.own.rateMode else rate :=
          (rateSetup_shapeKept h hrange).2
        rw [hrate, StoresFitting]
        by_cases hshape : SameShape s.module.own.rateMode rate
        · rw [if_pos hshape]
          exact iff_of_true hfit fun _ hnot => absurd hshape hnot
        · rw [if_neg hshape]
          exact ⟨fun hr _ _ => hr, fun hr => hr hrange hshape⟩
      · have hfaile : atWiotaRateSetup (some rate) s.module = (.faile, s.module) := if_neg hrange
        rw [next, hfaile]
        exact iff_of_true hfit fun hr => absurd hr hrange

theorem start_shapeKept (addr : ℕ) (stack : Stack) :
    ShapeKept (Session.start addr stack).module := by
  apply atWiotaRun_shapeKept
  exact ⟨show 4 ≤ 8 by decide, show 4 ≥ 1 by decide⟩

/-- From the initialisation on every address is reached with ids that the stack can carry exactly if no
command stores a rate whose id is looked up for a longer symbol length than it configures. -/
theorem wakesUp_iff_storesFitting (beyond : Beyond) (addr : ℕ) (stack : Stack) (es : List Event) :
    (∀ pre, pre <+: es → WakesUp beyond (pre.foldl next (.start addr stack)).module) ↔
      Along next StoresFitting (.start addr stack) es := by
  refine forall_prefix_iff_along (fun s : Session => ShapeKept s.module)
    (fun _ s => WakesUp beyond s.module) (fun _ e h _ => next_shapeKept h e)
    (start_shapeKept addr stack) ?_ ?_ es
  · rw [wakesUp_iff beyond (start_shapeKept addr stack)]
    exact Or.inr (Or.inr (Or.inl rfl))
  · intro pre s e h hwakes
    rw [wakesUp_iff beyond (next_shapeKept h e)]
    exact next_fitting_iff h ((wakesUp_iff beyond h).mp hwakes) e

/-- Rate 2 is set behind rate 4: the id for all nodes is 4095, and the radio carries 1023 ids. -/
theorem not_wakesUp_rate_two : ¬∀ (beyond : Beyond) (addr : ℕ) (stack : Stack) (es : List Event),
    WakesUp beyond (es.foldl next (.start addr stack)).module := by
  intro h
  have hwakes := h ⟨fun _ => 0, fun _ => 0⟩ 7
    ⟨.l256, 1, 1, 3, 160, [160, 0xFF], 354689, 0, 20, 2⟩ [.rate (some 2)]
  have hle := limit_le_of_wakesUp (by decide) hwakes
  exact absurd hle (by decide)

end WiotaDev.SimplifiedConfig
