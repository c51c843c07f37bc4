import WiotaDev.OtaEndAccounting
import WiotaDev.StartSteps
import Mathlib.Algebra.Order.Floor.Div

/-! # The divisions of the gateway (`uc_wiota_gateway_api.c`)

The time slots and the timeouts of a download divide by values that come from broadcasts, from the
stack and from upgrade requests. Each function that divides stands here with a check of its divisors,
and a session may mix the steps of a start with reports of frames, messages and timers. -/

namespace WiotaDev.GatewayStart
open WordBytes HaltingRuns GatewayOta PacketCoding Downlink GatewayDevice GatewayLifecycle

/-- The value of a division, if its divisor is not zero. -/
def checked {α β : Type*} [Zero β] [DecidableEq β] (divisor : β) (value : α) : Option α :=
  if divisor = 0 then none else some value

/-- The number of slots among which `uc_wiota_gateway_calc_auth_time_slot_fn` draws. -/
def authTsNum (pof authPeriod : ℕ) : BitVec 32 :=
  BitVec.ofNat 32 (pof / authPeriod + if pof % authPeriod ≠ 0 then 1 else 0)

/-- `uc_wiota_gateway_calc_auth_time_slot_fn`. -/
def checkedCalcAuthTimeSlotFn (answer : SendAnswer) (dev : Device) : Option Device :=
  if dev.isTsMode then do
    let pof := dev.gwInfo.pof.toNat
    let authPeriod := dev.authPeriod.toNat
    let quotient ← checked authPeriod (pof / authPeriod)
    let rest ← checked authPeriod (pof % authPeriod)
    let authTsNum := BitVec.ofNat 32 (quotient + if rest ≠ 0 then 1 else 0)
    let place ← checked authTsNum.toInt ((answer.rand : ℤ).tmod authTsNum.toInt)
    some { dev with authTsFn := BitVec.ofInt 16 (place * authPeriod) }
  else some dev

/-- `uc_recv_back_t`, whose data is a frame number when its type is `UC_RECV_FN_CHANGE`. -/
structure RecvBack where
  succeeded : Bool
  isFnChange : Bool
  data : Option (BitVec 32)
  deriving DecidableEq, Repr

/-- `uc_wiota_gateway_recv_data_callback`: whether it has seen the frame of the expected slot. -/
def checkedRecvDataCallback (recv : RecvBack) (dev : Device) : Option Bool :=
  if recv.succeeded && recv.isFnChange && dev.isTsMode then
    match recv.data with
    | none => some false
    | some curFn =>
      let tsFn := if dev.gatewayState = .normal then dev.gwInfo.tsFn else dev.authTsFn
      checked dev.gwInfo.pof.toNat (decide (curFn % dev.gwInfo.pof = tsFn.setWidth 32))
  else some false

/-- `uc_gateway_calc_single_otapage_time`. -/
def checkedSingleOtapageTime (env : Env) (w : World) : Option ℕ := do
  let pages ← checked w.ota.mcsLen.toNat ((GATEWAY_OTA_BLOCK_SIZE + 150) / w.ota.mcsLen.toNat + 1)
  some ((((pages / 7 + 1) * env.frameLen % 2 ^ 32 / 1000 + 1) * 3) % 2 ^ 32)

/-- `uc_gateway_get_miss_data_timeout`. -/
def checkedMissDataTimeout (env : Env) (w : World) : Option ℕ := do
  let single ← checkedSingleOtapageTime env w
  let gwTimeout := single * 3 % 2 ^ 32
  checked gwTimeout ((env.userid.toNat % 16 + 1) * 1000 % gwTimeout)

/-- The first frame of the slot that `rand` draws, before it is cut to 16 bits. -/
def drawnFrame (rand pof authPeriod : ℕ) : ℕ :=
  ((rand : ℤ).tmod (authTsNum pof authPeriod).toInt).toNat * authPeriod

/-- The draw divides by nothing that is zero, and yields a slot of the period. -/
def DrawDivides (answer : SendAnswer) (dev : Device) : Prop :=
  ∃ dev', checkedCalcAuthTimeSlotFn answer dev = some dev' ∧ (dev.isTsMode = true →
    dev.authPeriod.toNat ∣ dev'.authTsFn.toNat ∧ dev'.authTsFn.toNat < dev.gwInfo.pof.toNat)

/-- There are periods to draw from, and the cut to 16 bits takes whole ones away. -/
def SlotFits (rand pof authPeriod : ℕ) : Prop :=
  authPeriod ≠ 0 ∧ pof ≠ 0 ∧ authPeriod ∣ 65536 * (drawnFrame rand pof authPeriod / 65536)

section Functions
variable {answer : SendAnswer} {recv : RecvBack} {dev : Device} {env : Env} {w : World}

theorem checked_eq_some {α β : Type*} [Zero β] [DecidableEq β] {divisor : β} {value : α}
    (h : divisor ≠ 0) : checked divisor value = some value :=
  if_neg h

theorem isSome_checked {α β : Type*} [Zero β] [DecidableEq β] {divisor : β} {value : α} :
    (checked divisor value).isSome = true ↔ divisor ≠ 0 := by
  rw [checked]
  by_cases h : divisor = 0
  · simp [h]
  · simp [h]

theorem div_add_ite_eq_ceilDiv {pof authPeriod : ℕ} (hp : authPeriod ≠ 0) :
    pof / authPeriod + (if pof % authPeriod ≠ 0 then 1 else 0) = pof ⌈/⌉ authPeriod := by
  have hpos := Nat.pos_of_ne_zero hp
  have hrest := Nat.mod_lt pof hpos
  rw [Nat.ceilDiv_eq_add_pred_div]
  have hsplit : pof + authPeriod - 1 = authPeriod * (pof / authPeriod) +
      (pof % authPeriod + authPeriod - 1) := by
    have h := Nat.div_add_mod pof authPeriod
    omega
  rw [hsplit, Nat.mul_add_div hpos]
  congr 1
  split
  · exact (Nat.div_eq_of_lt_le (by omega) (by omega)).symm
  · exact (Nat.div_eq_of_lt (by omega)).symm

theorem authTsNum_toNat {pof authPeriod : ℕ} (hpof : pof < 2 ^ 32) (hp : authPeriod ≠ 0) :
    (authTsNum pof authPeriod).toNat = pof ⌈/⌉ authPeriod := by
  have hle : pof ⌈/⌉ authPeriod ≤ pof := by
    rw [ceilDiv_le_iff_le_mul (Nat.pos_of_ne_zero hp)]
    exact Nat.le_mul_of_pos_left _ (Nat.pos_of_ne_zero hp)
  rw [authTsNum, div_add_ite_eq_ceilDiv hp, BitVec.toNat_ofNat, Nat.mod_eq_of_lt (by omega)]

/-- As many slots as there are, as a signed number, are none exactly for an empty period. -/
theorem authTsNum_toInt_eq_zero {pof authPeriod : ℕ} (hpof : pof < 2 ^ 32) (hp : authPeriod ≠ 0) :
    (authTsNum pof authPeriod).toInt = 0 ↔ pof = 0 := by
  have hzero : (authTsNum pof authPeriod).toInt = 0 ↔ (authTsNum pof authPeriod).toNat = 0 := by
    have hlt := (authTsNum pof authPeriod).isLt
    rw [BitVec.toInt_eq_toNat_cond]
    split <;> omega
  rw [hzero, authTsNum_toNat hpof hp, ← Nat.le_zero,
    ceilDiv_le_iff_le_mul (Nat.pos_of_ne_zero hp)]
  simp

/-- A remainder by a signed number of slots stays below their unsigned number. -/
theorem tmod_toInt_lt {num : BitVec 32} (h : num.toInt ≠ 0) (rand : ℕ) :
    0 ≤ (rand : ℤ).tmod num.toInt ∧ ((rand : ℤ).tmod num.toInt).toNat < num.toNat := by
  have hnonneg : 0 ≤ (rand : ℤ).tmod num.toInt := Int.tmod_nonneg _ (Int.natCast_nonneg _)
  have habs : ((rand : ℤ).tmod num.toInt).natAbs = rand % num.toInt.natAbs := by
    rw [Int.natAbs_tmod, Int.natAbs_natCast]
  have hlt := Nat.mod_lt rand (Int.natAbs_pos.mpr h)
  have hle : num.toInt.natAbs ≤ num.toNat := by
    have hnum := num.isLt
    rw [BitVec.toInt_eq_toNat_cond] at h ⊢
    split <;> omega
  exact ⟨hnonneg, by omega⟩

theorem drawnFrame_lt {pof authPeriod : ℕ} (hlt : pof < 2 ^ 32) (hp : authPeriod ≠ 0)
    (hpof : pof ≠ 0) (rand : ℕ) : drawnFrame rand pof authPeriod < pof := by
  have hnum := mt (authTsNum_toInt_eq_zero hlt hp).mp hpof
  have hplace := (tmod_toInt_lt hnum rand).2
  rw [authTsNum_toNat hlt hp, ← not_le, ceilDiv_le_iff_le_mul (Nat.pos_of_ne_zero hp), not_le,
    Nat.mul_comm] at hplace
  exact hplace

/-- The slot that a draw leaves in the device. -/
theorem calcAuthTimeSlotFn_authTsFn (hts : dev.isTsMode = true) (hp : dev.authPeriod.toNat ≠ 0)
    (hpof : dev.gwInfo.pof.toNat ≠ 0) :
    (ucWiotaGatewayCalcAuthTimeSlotFn answer dev).authTsFn.toNat =
      drawnFrame answer.rand dev.gwInfo.pof.toNat dev.authPeriod.toNat % 65536 := by
  have hnum := mt (authTsNum_toInt_eq_zero dev.gwInfo.pof.isLt hp).mp hpof
  have hplace := (tmod_toInt_lt hnum answer.rand).1
  have hslot : (answer.rand : ℤ).tmod (authTsNum dev.gwInfo.pof.toNat dev.authPeriod.toNat).toInt *
      dev.authPeriod.toNat =
        (drawnFrame answer.rand dev.gwInfo.pof.toNat dev.authPeriod.toNat : ℕ) := by
    rw [drawnFrame]
    push_cast
    rw [Int.toNat_of_nonneg hplace]
  rw [ucWiotaGatewayCalcAuthTimeSlotFn, if_pos hts]
  show (BitVec.ofInt 16 ((answer.rand : ℤ).tmod
    (authTsNum dev.gwInfo.pof.toNat dev.authPeriod.toNat).toInt * dev.authPeriod.toNat)).toNat = _
  rw [hslot, BitVec.ofInt_natCast, BitVec.toNat_ofNat]

/-- With both periods set, the checked draw is the draw of the device. -/
theorem checkedCalcAuthTimeSlotFn_eq
    (h : dev.isTsMode = true → dev.authPeriod.toNat ≠ 0 ∧ dev.gwInfo.pof.toNat ≠ 0) :
    checkedCalcAuthTimeSlotFn answer dev = some (ucWiotaGatewayCalcAuthTimeSlotFn answer dev) := by
  rw [checkedCalcAuthTimeSlotFn, ucWiotaGatewayCalcAuthTimeSlotFn]
  by_cases hts : dev.isTsMode = true
  · obtain ⟨hp, hpof⟩ := h hts
    have hnum := mt (authTsNum_toInt_eq_zero dev.gwInfo.pof.isLt hp).mp hpof
    rw [if_pos hts, if_pos hts]
    simp only [checked_eq_some hp, Option.bind_eq_bind, Option.bind_some]
    rw [authTsNum] at hnum
    rw [checked_eq_some hnum]
    rfl
  · rw [if_neg hts, if_neg hts]

/-- A draw is checked only where both periods are set. -/
theorem periods_of_checked {dev' : Device} (h : checkedCalcAuthTimeSlotFn answer dev = some dev')
    (hts : dev.isTsMode = true) : dev.authPeriod.toNat ≠ 0 ∧ dev.gwInfo.pof.toNat ≠ 0 := by
  rw [checkedCalcAuthTimeSlotFn, if_pos hts] at h
  have hp : dev.authPeriod.toNat ≠ 0 := by
    intro hzero
    simp [checked, hzero] at h
  refine ⟨hp, fun hzero => ?_⟩
  have hnum := (authTsNum_toInt_eq_zero dev.gwInfo.pof.isLt hp).mpr hzero
  simp only [checked_eq_some hp, Option.bind_eq_bind, Option.bind_some] at h
  rw [authTsNum] at hnum
  rw [hnum, checked, if_pos rfl] at h
  exact absurd h nofun

theorem drawDivides_iff : DrawDivides answer dev ↔
    (dev.isTsMode = true → SlotFits answer.rand dev.gwInfo.pof.toNat dev.authPeriod.toNat) := by
  generalize hframe : drawnFrame answer.rand dev.gwInfo.pof.toNat dev.authPeriod.toNat = frame
  have hcut : frame % 65536 + 65536 * (frame / 65536) = frame := Nat.mod_add_div _ _
  have hdvd : dev.authPeriod.toNat ∣ frame := hframe ▸ Nat.dvd_mul_left _ _
  constructor
  · rintro ⟨dev', hdraw, hslot⟩ hts
    obtain ⟨hp, hpof⟩ := periods_of_checked hdraw hts
    rw [checkedCalcAuthTimeSlotFn_eq fun _ => ⟨hp, hpof⟩, Option.some.injEq] at hdraw
    rw [← hdraw, calcAuthTimeSlotFn_authTsFn hts hp hpof, hframe] at hslot
    rw [SlotFits, hframe]
    exact ⟨hp, hpof, (Nat.dvd_add_right (hslot hts).1).mp (by rwa [hcut])⟩
  · intro h
    refine ⟨_, checkedCalcAuthTimeSlotFn_eq fun hts => ⟨(h hts).1, (h hts).2.1⟩, fun hts => ?_⟩
    obtain ⟨hp, hpof, hmul⟩ := h hts
    rw [calcAuthTimeSlotFn_authTsFn hts hp hpof]
    have hlt := drawnFrame_lt dev.gwInfo.pof.isLt hp hpof answer.rand
    rw [hframe] at hmul hlt ⊢
    exact ⟨(Nat.dvd_add_left hmul).mp (by rwa [hcut]), Nat.lt_of_le_of_lt (Nat.mod_le _ _) hlt⟩

/-- The callback has divided by nothing, or by a period that is set. -/
theorem isSome_recvDataCallback : (checkedRecvDataCallback recv dev).isSome = true ↔
    (recv.succeeded = true → recv.isFnChange = true → recv.data ≠ none → dev.isTsMode = true →
      dev.gwInfo.pof.toNat ≠ 0) := by
  rw [checkedRecvDataCallback]
  by_cases hreads : (recv.succeeded && recv.isFnChange && dev.isTsMode) = true
  · simp only [Bool.and_eq_true] at hreads
    obtain ⟨⟨hs, hf⟩, hts⟩ := hreads
    cases hd : recv.data with
    | none => simp [hs, hf, hts]
    | some curFn => simp [hs, hf, hts, isSome_checked]
  · rw [if_neg hreads]
    simp only [Bool.and_eq_true] at hreads
    exact iff_of_true rfl fun hs hf _ hts => absurd ⟨⟨hs, hf⟩, hts⟩ hreads

/-- Three times the time of a page is never zero, and never wraps to it. -/
theorem gwTimeout_ne_zero (env : Env) (w : World) :
    ucGatewayCalcSingleOtapageTime env w * 3 % 2 ^ 32 ≠ 0 := by
  have hthree (m : ℕ) : ((m % 2 ^ 32 / 1000 + 1) * 3 % 2 ^ 32) * 3 % 2 ^ 32 ≠ 0 := by
    have h := Nat.mod_lt m (show 0 < 2 ^ 32 by decide)
    rw [Nat.mod_eq_of_lt (show (m % 2 ^ 32 / 1000 + 1) * 3 < 2 ^ 32 by omega)]
    rw [Nat.mod_eq_of_lt (by omega)]
    exact Nat.succ_ne_zero _
  exact hthree _

theorem checkedSingleOtapageTime_eq (h : w.ota.mcsLen.toNat ≠ 0) :
    checkedSingleOtapageTime env w = some (ucGatewayCalcSingleOtapageTime env w) := by
  rw [checkedSingleOtapageTime, checked_eq_some h, ucGatewayCalcSingleOtapageTime,
    if_neg fun hz => h (congrArg BitVec.toNat hz)]
  rfl

theorem checkedMissDataTimeout_eq (h : w.ota.mcsLen.toNat ≠ 0) :
    checkedMissDataTimeout env w = some (ucGatewayGetMissDataTimeout env w) := by
  rw [checkedMissDataTimeout, checkedSingleOtapageTime_eq h, ucGatewayGetMissDataTimeout]
  simp only [Option.bind_eq_bind, Option.bind_some]
  rw [checked_eq_some (gwTimeout_ne_zero env w)]

end Functions

/-- The timeout that an OTA handler computes: of single pages, or of the request for missing data. -/
inductive TimeoutCall where
  | singleOtapage
  | missData
  deriving DecidableEq, Repr

def TimeoutCall.checked (env : Env) (w : World) : TimeoutCall → Option ℕ
  | .singleOtapage => checkedSingleOtapageTime env w
  | .missData => checkedMissDataTimeout env w

theorem TimeoutCall.isSome_checked {env : Env} {w : World} (call : TimeoutCall) :
    (call.checked env w).isSome = true ↔ w.ota.mcsLen.toNat ≠ 0 := by
  constructor
  · intro h hzero
    cases call <;>
      simp [TimeoutCall.checked, checkedMissDataTimeout, checkedSingleOtapageTime,
        GatewayStart.checked, hzero] at h
  · intro h
    cases call with
    | singleOtapage => rw [TimeoutCall.checked, checkedSingleOtapageTime_eq h]; rfl
    | missData => rw [TimeoutCall.checked, checkedMissDataTimeout_eq h]; rfl

/-- The timeout that the handler of an OTA event computes. -/
def otaTimeout (env : Env) (w : World) : OtaEvent → Option TimeoutCall
  | .upgradeState msg ram =>
    if msg.EndsDownload env w ∧ w.ota.missDataNum + BitVec.ofNat 8 (missing ram w) > 0#8 then
      some .missData
    else none
  | .missDataReq sent _ =>
    if w.ota.missDataInvalidReq < 8#8 then
      if sent then some .singleOtapage
      else if w.ota.missDataContinueCouter < 3#8 then some .missData
      else none
    else none
  | _ => none

end WiotaDev.GatewayStart
