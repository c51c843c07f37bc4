import WiotaDev.GatewayDevice
import WiotaDev.SlotCycles
import Mathlib.Tactic.Ring

/-! # The times of the slots (`uc_wiota_gateway_api.c`)

How long `uc_wiota_gateway_wait_send_time_slot` waits for a slot, and how long
`uc_gateway_enter_sync_paging_by_time_slot` sleeps up to one. All times are 32-bit numbers. -/

namespace WiotaDev.TimeSlotArithmetic
open GatewayDevice SlotCycles

/-- `uc_awakened_cause_e`. -/
inductive AwakenedCause where
  | hardReset
  | sleep
  | paging
  | gating
  | forcedInternal
  | others
  deriving DecidableEq, Repr

/-- `uc_frame_head_t`, as far as the gateway reads it. -/
structure FrameHead where
  isValid : Bool
  frameHead : BitVec 32
  deriving DecidableEq, Repr

/-- What the radio stack answers about its frames, with lengths in microseconds. -/
structure FrameClock where
  frameNum : BitVec 32
  isFrameValid : Bool
  frameLen : BitVec 32
  subframeLen : BitVec 32
  currRfCnt : BitVec 32
  frameHead : FrameHead
  deriving DecidableEq, Repr

/-- What the wait reads of `gateway_mode`, and the state and the cause it asks for. -/
structure WaitMode where
  isTsMode : Bool
  isSendSleep : Bool
  hasFnRefreshSem : Bool
  gatewayState : GatewayState
  awakenedCause : AwakenedCause
  deriving DecidableEq, Repr

/-- The end of a call: its result, the timeout of the semaphore where it waited, and whether it
switched the stack to active. -/
structure SlotWait where
  res : ℕ
  waitTimeout : Option (BitVec 32)
  switched : Bool
  deriving DecidableEq, Repr

def waitTimeout (gwInfo : GwInfo) (clock : FrameClock) : BitVec 32 :=
  (gwInfo.pof * 2#32 + 2#32) * clock.frameLen / 1000#32

/-- `uc_wiota_gateway_wait_send_time_slot`; `take` is the answer of `rt_sem_take`. -/
def ucWiotaGatewayWaitSendTimeSlot (mode : WaitMode) (gwInfo : GwInfo) (clock : FrameClock)
    (take : BitVec 32 → Bool) : SlotWait :=
  if !mode.isTsMode then ⟨0, none, false⟩
  else if (mode.awakenedCause = .sleep ∨ mode.awakenedCause = .paging) ∧ mode.isSendSleep then
    ⟨0, none, false⟩
  else if !mode.hasFnRefreshSem then ⟨0, none, false⟩
  else
    let timeout := waitTimeout gwInfo clock
    if !take timeout then ⟨1, some timeout, false⟩
    else ⟨0, some timeout, mode.gatewayState = .normal⟩

def SYSTME_STARTUP_TIME : BitVec 32 := 120000#32

def curFn (gwInfo : GwInfo) (clock : FrameClock) : BitVec 32 :=
  if clock.isFrameValid then
    (clock.frameNum + gwInfo.pof - gwInfo.tsFn.setWidth 32) % gwInfo.pof
  else clock.frameNum % gwInfo.pof

def startupTime (clock : FrameClock) : BitVec 32 :=
  SYSTME_STARTUP_TIME + clock.subframeLen * 3#32 + (clock.currRfCnt - clock.frameHead.frameHead)

def totalFnTime (gwInfo : GwInfo) (clock : FrameClock) : BitVec 32 :=
  (gwInfo.pof - curFn gwInfo clock) * clock.frameLen

def sleepPeriod (gwInfo : GwInfo) (clock : FrameClock) : BitVec 32 :=
  totalFnTime gwInfo clock - startupTime clock

/-- What the boot loader is told before the device sleeps. -/
structure UbootSettings where
  uartFlag : BitVec 8
  logFlag : BitVec 8
  selectFlag : BitVec 8
  waitSec : BitVec 8
  deriving DecidableEq, Repr

/-- `sleep` is the call `uc_wiota_sync_paging_enter(1, period, 0, timeout_max)`. -/
inductive PagingEntry where
  | noSleep (reason : ℕ)
  | sleep (period timeoutMax : BitVec 32)
  deriving DecidableEq, Repr

/-- `uc_gateway_enter_sync_paging_by_time_slot`. -/
def ucGatewayEnterSyncPagingByTimeSlot (gwInfo : GwInfo) (clock : FrameClock)
    (uboot : UbootSettings) : UbootSettings × PagingEntry :=
  let uboot' := { uboot with logFlag := 1#8, selectFlag := 0#8, waitSec := 0#8 }
  if !clock.frameHead.isValid then (uboot', .noSleep 1)
  else if startupTime clock + (clock.frameLen + clock.frameLen / 2#32) < totalFnTime gwInfo clock then
    let timeoutMax := (sleepPeriod gwInfo clock - 1#32) / 44000000#32 + 1#32
    (uboot', .sleep (sleepPeriod gwInfo clock / timeoutMax) timeoutMax)
  else (uboot', .noSleep 2)

section Numbers
variable (gwInfo : GwInfo) (clock : FrameClock)

theorem waitTimeout_toInt : (waitTimeout gwInfo clock).toInt =
    (((2 * gwInfo.pof.toNat + 2) * clock.frameLen.toNat % 2 ^ 32 / 1000 : ℕ) : ℤ) := by
  have hnat : (waitTimeout gwInfo clock).toNat =
      (2 * gwInfo.pof.toNat + 2) * clock.frameLen.toNat % 2 ^ 32 / 1000 := by
    simp [waitTimeout, Nat.mul_comm 2]
  rw [BitVec.toInt_eq_toNat_of_lt (by omega), hnat]

/-- The frames that the code counts up to the slot. -/
def framesCounted : ℕ :=
  let c := clock.frameNum.toNat
  let p := gwInfo.pof.toNat
  let t := gwInfo.tsFn.toNat
  if clock.isFrameValid then if c + p - t < 2 ^ 32 then lead p t c else 2 ^ 32 - c + t
  else p - c % p

/-- The time from the head of the present frame to the end of the start, before it wraps. -/
def startupMicros : ℕ :=
  120000 + clock.subframeLen.toNat * 3 +
    (clock.currRfCnt.toNat + (2 ^ 32 - clock.frameHead.frameHead.toNat))

theorem startupTime_toNat : (startupTime clock).toNat = startupMicros clock % 2 ^ 32 := by
  rw [startupTime, SYSTME_STARTUP_TIME, startupMicros]
  simp only [BitVec.toNat_add, BitVec.toNat_mul, BitVec.toNat_sub, BitVec.toNat_ofNat]
  omega

variable {gwInfo clock}

theorem pof_sub_curFn_toNat (hts : gwInfo.tsFn.toNat < gwInfo.pof.toNat) :
    (gwInfo.pof - curFn gwInfo clock).toNat = framesCounted gwInfo clock := by
  have hp : 0 < gwInfo.pof.toNat := Nat.zero_lt_of_lt hts
  have hc := clock.frameNum.isLt
  have hlt := gwInfo.pof.isLt
  have hle : (curFn gwInfo clock).toNat ≤ gwInfo.pof.toNat := by
    rw [curFn]
    split <;> exact Nat.le_of_lt (Nat.mod_lt _ hp)
  rw [BitVec.toNat_sub_of_le hle, curFn, framesCounted]
  split
  · have hsub : (clock.frameNum + gwInfo.pof - gwInfo.tsFn.setWidth 32).toNat =
        (clock.frameNum.toNat + gwInfo.pof.toNat - gwInfo.tsFn.toNat) % 2 ^ 32 := by
      simp only [BitVec.toNat_sub, BitVec.toNat_add, BitVec.toNat_setWidth]
      omega
    rw [BitVec.toNat_umod, hsub]
    split
    · rename_i hfits
      rw [Nat.mod_eq_of_lt hfits, sub_mod_eq_lead hts]
    · rename_i hwraps
      rw [Nat.mod_eq_sub_mod (Nat.le_of_not_lt hwraps), Nat.mod_eq_of_lt (by omega),
        Nat.mod_eq_of_lt (by omega)]
      omega
  · rfl

theorem totalFnTime_toNat (hts : gwInfo.tsFn.toNat < gwInfo.pof.toNat) :
    (totalFnTime gwInfo clock).toNat =
      framesCounted gwInfo clock * clock.frameLen.toNat % 2 ^ 32 := by
  rw [totalFnTime, BitVec.toNat_mul, pof_sub_curFn_toNat hts]

end Numbers

/-- What the times of one frame promise: a wait covers a period, the time to the slot is that of
the frames up to it, and a sleep is divided into periods that the stack accepts. -/
structure TimesKept (mode : WaitMode) (gwInfo : GwInfo) (clock : FrameClock)
    (take : BitVec 32 → Bool) (uboot : UbootSettings) : Prop where
  wait : ∀ t, (ucWiotaGatewayWaitSendTimeSlot mode gwInfo clock take).waitTimeout = some t →
    ((gwInfo.pof.toNat * clock.frameLen.toNat / 1000 : ℕ) : ℤ) ≤ t.toInt
  total : clock.isFrameValid = true → clock.frameHead.isValid = true →
    ∃ n, NextSlot (2 ^ 32) gwInfo.pof.toNat gwInfo.tsFn.toNat clock.frameNum.toNat n ∧
      (clock.frameNum.toNat % gwInfo.pof.toNat = gwInfo.tsFn.toNat → n = gwInfo.pof.toNat) ∧
      (totalFnTime gwInfo clock).toNat = clock.frameLen.toNat * n
  sleeps : ∀ period timeoutMax,
    (ucGatewayEnterSyncPagingByTimeSlot gwInfo clock uboot).2 = .sleep period timeoutMax →
    (1 ≤ period.toNat ∧ period.toNat ≤ 44000000) ∧ 1 ≤ timeoutMax.toNat ∧
      period.toNat * timeoutMax.toNat ≤ (sleepPeriod gwInfo clock).toNat ∧
      (sleepPeriod gwInfo clock).toNat < period.toNat * timeoutMax.toNat + timeoutMax.toNat

def WaitMode.Waits (mode : WaitMode) : Prop :=
  mode.isTsMode = true ∧
    ¬((mode.awakenedCause = .sleep ∨ mode.awakenedCause = .paging) ∧ mode.isSendSleep = true) ∧
    mode.hasFnRefreshSem = true

/-- Twice the period and two frames fit into 32 bits of microseconds, or what is left behind one
wrap is still a period. -/
def WaitFits (gwInfo : GwInfo) (clock : FrameClock) : Prop :=
  let p := gwInfo.pof.toNat
  let f := clock.frameLen.toNat
  (2 * p + 2) * f < 2 ^ 32 ∨
    (2 * p + 2) * f < 2 ^ 33 ∧ 2 ^ 32 ≤ (p + 2) * f + p * f % 1000

/-- The time to the next slot fits into 32 bits, a frame of the slot is not followed by a wrap,
and the sum with the frame number wraps where the frames up to the slot do. -/
def TotalFits (gwInfo : GwInfo) (clock : FrameClock) : Prop :=
  let c := clock.frameNum.toNat
  let p := gwInfo.pof.toNat
  let t := gwInfo.tsFn.toNat
  let f := clock.frameLen.toNat
  (c % p = t → c + p < 2 ^ 32 ∨ c + p = 2 ^ 32 + t) ∧ f * wrappedLead (2 ^ 32) p t c < 2 ^ 32 ∧
    ((c + p - t < 2 ^ 32 ↔ c + lead p t c < 2 ^ 32) ∨ 2 ^ 32 ∣ f * (c + lead p t c - t))

/-- A time to the slot of exactly the start leaves room for one and a half frames in 32 bits. -/
def SleepFits (gwInfo : GwInfo) (clock : FrameClock) : Prop :=
  let f := clock.frameLen.toNat
  framesCounted gwInfo clock * f % 2 ^ 32 = startupMicros clock % 2 ^ 32 →
    startupMicros clock % 2 ^ 32 + (f + f / 2) < 2 ^ 32

structure TimesFit (mode : WaitMode) (gwInfo : GwInfo) (clock : FrameClock) : Prop where
  wait : mode.Waits → WaitFits gwInfo clock
  total : clock.isFrameValid = true → clock.frameHead.isValid = true → TotalFits gwInfo clock
  sleeps : clock.frameHead.isValid = true → SleepFits gwInfo clock

section Times
variable {mode : WaitMode} {gwInfo : GwInfo} {clock : FrameClock} {take : BitVec 32 → Bool}
  {uboot : UbootSettings}

theorem waitTimeout_eq_some_iff {t : BitVec 32} :
    (ucWiotaGatewayWaitSendTimeSlot mode gwInfo clock take).waitTimeout = some t ↔
      mode.Waits ∧ t = waitTimeout gwInfo clock := by
  rw [ucWiotaGatewayWaitSendTimeSlot, WaitMode.Waits]
  by_cases hts : mode.isTsMode
  · by_cases hawake : (mode.awakenedCause = .sleep ∨ mode.awakenedCause = .paging) ∧
        mode.isSendSleep = true
    · simp [hts, hawake]
    · by_cases hsem : mode.hasFnRefreshSem
      · rw [eq_comm (a := t)]
        cases htake : take (waitTimeout gwInfo clock) <;> simp [hts, hawake, hsem, htake]
      · simp [hts, hawake, hsem]
  · simp [hts]

/-- The wait covers a period exactly when the wrap of the product leaves one. -/
theorem wait_iff (hpof : gwInfo.pof.toNat ≤ 65535) (hlen : clock.frameLen.toNat ≤ 2 ^ 20) :
    ((gwInfo.pof.toNat * clock.frameLen.toNat / 1000 : ℕ) : ℤ) ≤ (waitTimeout gwInfo clock).toInt ↔
      WaitFits gwInfo clock := by
  have hperiod : gwInfo.pof.toNat * clock.frameLen.toNat ≤ 65535 * 2 ^ 20 :=
    Nat.mul_le_mul hpof hlen
  rw [waitTimeout_toInt, Int.ofNat_le, WaitFits]
  rw [show (2 * gwInfo.pof.toNat + 2) * clock.frameLen.toNat =
      2 * (gwInfo.pof.toNat * clock.frameLen.toNat) + 2 * clock.frameLen.toNat by ring,
    show (gwInfo.pof.toNat + 2) * clock.frameLen.toNat =
      gwInfo.pof.toNat * clock.frameLen.toNat + 2 * clock.frameLen.toNat by ring]
  generalize gwInfo.pof.toNat * clock.frameLen.toNat = y at hperiod ⊢
  generalize clock.frameLen.toNat = f at hlen ⊢
  constructor
  · intro h
    by_cases hwrap : 2 * y + 2 * f < 2 ^ 32
    · exact .inl hwrap
    · by_cases htwice : 2 * y + 2 * f < 2 ^ 33
      · refine .inr ⟨htwice, ?_⟩
        omega
      · omega
  · rintro (h | ⟨h, hleft⟩)
    · rw [Nat.mod_eq_of_lt h]
      omega
    · by_cases hwrap : 2 * y + 2 * f < 2 ^ 32
      · rw [Nat.mod_eq_of_lt hwrap]
        omega
      · rw [Nat.mod_eq_sub_mod (Nat.le_of_not_lt hwrap), Nat.mod_eq_of_lt (by omega)]
        omega

/-- The counted frames give the time to the next slot exactly when nothing of it wraps away. -/
theorem total_iff (hts : gwInfo.tsFn.toNat < gwInfo.pof.toNat) (hpof : gwInfo.pof.toNat ≤ 65535)
    (hvalid : clock.isFrameValid = true) :
    (∃ n, NextSlot (2 ^ 32) gwInfo.pof.toNat gwInfo.tsFn.toNat clock.frameNum.toNat n ∧
      (clock.frameNum.toNat % gwInfo.pof.toNat = gwInfo.tsFn.toNat → n = gwInfo.pof.toNat) ∧
      (totalFnTime gwInfo clock).toNat = clock.frameLen.toNat * n) ↔ TotalFits gwInfo clock := by
  have hc := clock.frameNum.isLt
  have hslot (n : ℕ) := nextSlot_iff (n := n) hts hc (by omega)
  simp only [hslot, exists_eq_left, totalFnTime_toNat hts, TotalFits]
  refine and_congr ?_ ?_
  · refine imp_congr_right fun h => ?_
    rw [wrappedLead, lead_of_mod_eq h]
    split <;> omega
  · rw [Nat.mul_comm (framesCounted gwInfo clock)]
    have hcounted := mul_lead_modEq_iff hts hc clock.frameLen.toNat
    have hfits (a b : ℕ) : a % 2 ^ 32 = b ↔ b < 2 ^ 32 ∧ a ≡ b [MOD 2 ^ 32] := by
      constructor
      · rintro rfl
        exact ⟨Nat.mod_lt _ (by decide), (Nat.mod_modEq _ _).symm⟩
      · rintro ⟨hlt, hmod⟩
        rw [hmod, Nat.mod_eq_of_lt hlt]
    rw [hfits, framesCounted, if_pos hvalid, wrappedLead]
    refine and_congr_right fun _ => ?_
    by_cases hsum : clock.frameNum.toNat + gwInfo.pof.toNat - gwInfo.tsFn.toNat < 2 ^ 32
    · by_cases hnext : clock.frameNum.toNat +
          lead gwInfo.pof.toNat gwInfo.tsFn.toNat clock.frameNum.toNat < 2 ^ 32
      · simp only [hsum, hnext, if_true, true_or, iff_true]
        exact Nat.ModEq.refl _
      · simp only [hsum, hnext, if_true, if_false, iff_false, not_true_eq_false, false_or]
        exact hcounted
    · by_cases hnext : clock.frameNum.toNat +
          lead gwInfo.pof.toNat gwInfo.tsFn.toNat clock.frameNum.toNat < 2 ^ 32
      · simp only [hsum, hnext, if_true, if_false, iff_true, false_or]
        exact Nat.ModEq.comm.trans hcounted
      · simp only [hsum, hnext, if_false, true_or, iff_true]
        exact Nat.ModEq.refl _

theorem sleep_eq_iff {period timeoutMax : BitVec 32} :
    (ucGatewayEnterSyncPagingByTimeSlot gwInfo clock uboot).2 = .sleep period timeoutMax ↔
      clock.frameHead.isValid = true ∧
        startupTime clock + (clock.frameLen + clock.frameLen / 2#32) < totalFnTime gwInfo clock ∧
        timeoutMax = (sleepPeriod gwInfo clock - 1#32) / 44000000#32 + 1#32 ∧
        period = sleepPeriod gwInfo clock / timeoutMax := by
  rw [ucGatewayEnterSyncPagingByTimeSlot]
  by_cases hhead : clock.frameHead.isValid
  · by_cases hlong : startupTime clock + (clock.frameLen + clock.frameLen / 2#32) <
        totalFnTime gwInfo clock
    · simp only [hhead, hlong, Bool.not_true, Bool.false_eq_true, if_true, if_false,
        PagingEntry.sleep.injEq, true_and]
      constructor
      · rintro ⟨rfl, rfl⟩
        exact ⟨rfl, rfl⟩
      · rintro ⟨rfl, rfl⟩
        exact ⟨rfl, rfl⟩
    · simp [hhead, hlong]
  · simp [hhead]

/-- The division of a sleep of at least one microsecond. -/
theorem sleep_bounds (s : BitVec 32) (hs : 1 ≤ s.toNat) :
    let timeoutMax := (s - 1#32) / 44000000#32 + 1#32
    let period := s / timeoutMax
    (1 ≤ period.toNat ∧ period.toNat ≤ 44000000) ∧ 1 ≤ timeoutMax.toNat ∧
      period.toNat * timeoutMax.toNat ≤ s.toNat ∧
      s.toNat < period.toNat * timeoutMax.toNat + timeoutMax.toNat := by
  intro timeoutMax period
  have hlt := s.isLt
  have hmax : timeoutMax.toNat = (s.toNat - 1) / 44000000 + 1 := by
    simp only [timeoutMax, BitVec.toNat_add, BitVec.toNat_udiv, BitVec.toNat_ofNat]
    rw [BitVec.toNat_sub_of_le (by rw [BitVec.le_def]; exact hs), BitVec.toNat_ofNat]
    simp only [Nat.reducePow, Nat.reduceMod]
    omega
  have hperiod : period.toNat = s.toNat / timeoutMax.toNat := BitVec.toNat_udiv
  have hpos : 0 < timeoutMax.toNat := by omega
  refine ⟨?_, hpos, ?_⟩
  · rw [hperiod, hmax]
    exact period_bounds hs (by decide)
  · rw [hperiod]
    exact period_mul_bounds _ _ hpos

/-- The sleeps are divided well exactly when none of them has length zero. -/
theorem sleeps_iff (hts : gwInfo.tsFn.toNat < gwInfo.pof.toNat)
    (hlen : clock.frameLen.toNat ≤ 2 ^ 20) :
    (∀ period timeoutMax,
      (ucGatewayEnterSyncPagingByTimeSlot gwInfo clock uboot).2 = .sleep period timeoutMax →
      (1 ≤ period.toNat ∧ period.toNat ≤ 44000000) ∧ 1 ≤ timeoutMax.toNat ∧
        period.toNat * timeoutMax.toNat ≤ (sleepPeriod gwInfo clock).toNat ∧
        (sleepPeriod gwInfo clock).toNat < period.toNat * timeoutMax.toNat + timeoutMax.toNat) ↔
      (clock.frameHead.isValid = true → SleepFits gwInfo clock) := by
  have hhalf : (clock.frameLen + clock.frameLen / 2#32).toNat =
      clock.frameLen.toNat + clock.frameLen.toNat / 2 := by
    simp only [BitVec.toNat_add, BitVec.toNat_udiv, BitVec.toNat_ofNat, Nat.reducePow,
      Nat.reduceMod]
    omega
  rw [SleepFits, ← totalFnTime_toNat hts, ← startupTime_toNat]
  constructor
  · intro h hhead heq
    by_contra hwrap
    have hzero : sleepPeriod gwInfo clock = 0#32 := by
      rw [sleepPeriod, BitVec.eq_of_toNat_eq heq, BitVec.sub_self]
    have hlong : startupTime clock + (clock.frameLen + clock.frameLen / 2#32) <
        totalFnTime gwInfo clock := by
      have hs := (startupTime clock).isLt
      rw [BitVec.lt_def, BitVec.toNat_add, hhalf, heq]
      omega
    have hbad := h _ _ (sleep_eq_iff.mpr ⟨hhead, hlong, rfl, rfl⟩)
    rw [hzero] at hbad
    exact absurd hbad.1.1 (by decide)
  · intro h period timeoutMax hsleep
    obtain ⟨hhead, hlong, rfl, rfl⟩ := sleep_eq_iff.mp hsleep
    refine sleep_bounds _ (Nat.pos_of_ne_zero fun hzero => ?_)
    have heq : totalFnTime gwInfo clock = startupTime clock := by
      have htotal := (totalFnTime gwInfo clock).isLt
      have hstart := (startupTime clock).isLt
      rw [sleepPeriod, BitVec.toNat_sub] at hzero
      exact BitVec.eq_of_toNat_eq (by omega)
    have hfits := h hhead (congrArg BitVec.toNat heq)
    rw [heq, BitVec.lt_def, BitVec.toNat_add, hhalf, Nat.mod_eq_of_lt (by omega)] at hlong
    omega

end Times

/-- The times of a frame are as promised exactly when no product and no sum of them wraps at the
wrong place. -/
theorem times_kept_iff (mode : WaitMode) (gwInfo : GwInfo) (clock : FrameClock)
    (take : BitVec 32 → Bool) (uboot : UbootSettings)
    (hpof : gwInfo.pof.toNat ≤ 65535) (hts : gwInfo.tsFn.toNat < gwInfo.pof.toNat)
    (hlen : clock.frameLen.toNat ≤ 2 ^ 20) :
    TimesKept mode gwInfo clock take uboot ↔ TimesFit mode gwInfo clock := by
  constructor
  · intro h
    refine ⟨fun hwaits => ?_, fun hvalid hhead => ?_, (sleeps_iff hts hlen).mp h.sleeps⟩
    · exact (wait_iff hpof hlen).mp (h.wait _ (waitTimeout_eq_some_iff.mpr ⟨hwaits, rfl⟩))
    · exact (total_iff hts hpof hvalid).mp (h.total hvalid hhead)
  · intro h
    refine ⟨fun t ht => ?_, fun hvalid hhead => ?_, (sleeps_iff hts hlen).mpr h.sleeps⟩
    · obtain ⟨hwaits, rfl⟩ := waitTimeout_eq_some_iff.mp ht
      exact (wait_iff hpof hlen).mpr (h.wait hwaits)
    · exact (total_iff hts hpof hvalid).mpr (h.total hvalid hhead)

/-- A device that is not in a saved sleep, and waits. -/
def waiting : WaitMode := ⟨true, false, true, .normal, .hardReset⟩

def uboot : UbootSettings := ⟨1#8, 1#8, 1#8, 1#8⟩

/-- Eight frames of a second each, in the first second of frame 10. -/
def shortPeriod : GwInfo × FrameClock :=
  (⟨1#32, 8#32, 3#16, 0#8, 0#8⟩, ⟨10#32, true, 1000000#32, 100000#32, 700#32, ⟨true, 500#32⟩⟩)

theorem times_kept_iff_shortPeriod :
    TimesKept waiting shortPeriod.1 shortPeriod.2 (fun _ => true) uboot := by
  refine (times_kept_iff waiting shortPeriod.1 shortPeriod.2 (fun _ => true) uboot (by decide)
    (by decide) (by decide)).mpr ⟨fun _ => .inl (by decide), fun _ _ => ?_, fun _ h => ?_⟩
  · exact ⟨by decide, by decide, .inl (by decide)⟩
  · exact absurd h (by decide)

/-- The longest period, of frames of more than a second. -/
def longPeriod : GwInfo × FrameClock :=
  (⟨1#32, 65535#32, 0#16, 0#8, 0#8⟩, ⟨0#32, true, 1048576#32, 0#32, 0#32, ⟨true, 0#32⟩⟩)

/-- Twice the longest period wraps to a wait of no time at all. -/
theorem longPeriod_not_waited : ¬ ∀ (mode : WaitMode) (gwInfo : GwInfo) (clock : FrameClock)
    (take : BitVec 32 → Bool) (uboot : UbootSettings), 1 ≤ gwInfo.pof.toNat →
    gwInfo.pof.toNat ≤ 65535 → gwInfo.tsFn.toNat < gwInfo.pof.toNat →
    clock.frameLen.toNat ≤ 2 ^ 20 → TimesKept mode gwInfo clock take uboot := by
  intro h
  have hkept := h waiting longPeriod.1 longPeriod.2 (fun _ => true) uboot (by decide) (by decide)
    (by decide) (by decide)
  have hwait := hkept.wait 0#32 (by decide)
  exact absurd hwait (by decide)

end WiotaDev.TimeSlotArithmetic
