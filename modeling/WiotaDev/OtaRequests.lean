import WiotaDev.OtaReception
import WiotaDev.OtaQuietMessages

/-! # Requests that are rejected and requests after an aborted download

A rejected request touches three fields, so it leaves the OTA state alone exactly when
these already have the values it sets. After an aborted download the device is in state
`default` or `stop`, and a request addressed to it starts a new download exactly when
the field that guards its device type was reset and its version fits. -/

namespace WiotaDev.GatewayOta
open WordBytes OtaFlash HaltingRuns

variable {env : Env} {req : OtaUpgradeReq} {ram : ℕ → Byte} {w w' : World} {flash : Flash}

/-- Handling the request returns with the OTA state and the flash as they were. -/
def Unchanged (env : Env) (req : OtaUpgradeReq) (ram : ℕ → Byte) (w : World) : Prop :=
  ∃ w', ucWiotaGatewayOtaUpgradeResMsg env req ram w = .next w' ∧ w'.ota = w.ota ∧
    w'.flash = w.flash

/-- The fields that a rejected request sets have these values already. -/
def OtaUpgradeReq.Harmless (env : Env) (req : OtaUpgradeReq) (w : World) : Prop :=
  (req.isExMcu → w.ota.otaDevType = .exMcu) ∧
    (req.TooLarge env ∨ w.ota.missDataInvalidReq = 0#8) ∧
    (req.TooLarge env ∨ ¬ (req.Targets env ∧ w.ota.otaState = .stop))

instance : Decidable (req.Harmless env w) := inferInstanceAs (Decidable (_ ∧ _))

private theorem rejected_ota_eq_iff : (rejected env req w).ota = w.ota ↔ req.Harmless env w := by
  have hfields : (rejected env req w).ota = w.ota ↔ req.notedDevType w = w.ota.otaDevType ∧
      (if req.TooLarge env then w.ota.missDataInvalidReq else 0#8) = w.ota.missDataInvalidReq ∧
      (if ¬ req.TooLarge env ∧ req.Targets env ∧ w.ota.otaState = .stop then OtaState.default
        else w.ota.otaState) = w.ota.otaState := by
    constructor
    · intro h
      exact ⟨congrArg OtaPara.otaDevType h, congrArg OtaPara.missDataInvalidReq h,
        congrArg OtaPara.otaState h⟩
    · rintro ⟨h₁, h₂, h₃⟩
      simp only [rejected, h₁, h₂, h₃]
  rw [hfields, OtaUpgradeReq.Harmless, OtaUpgradeReq.notedDevType]
  refine and_congr ?_ (and_congr ?_ ?_)
  · by_cases hx : req.isExMcu
    · simp only [hx, if_true, true_imp_iff]
      exact eq_comm
    · simp [hx]
  · by_cases hl : req.TooLarge env
    · simp [hl]
    · simp only [hl, if_false, false_or]
      exact eq_comm
  · by_cases hl : req.TooLarge env
    · simp [hl]
    · by_cases hs : w.ota.otaState = .stop
      · simp [hl, hs]
      · simp [hl, hs]

private theorem unchanged_iff (h : ¬ req.Considered env w) :
    Unchanged env req ram w ↔ (rejected env req w).ota = w.ota := by
  constructor
  · rintro ⟨w', hw, hota, -⟩
    rw [upgradeReq_rejected h, Outcome.next.injEq] at hw
    rwa [hw]
  · exact fun hota => ⟨rejected env req w, upgradeReq_rejected h, hota, rfl⟩

/-- A request that is not considered leaves the OTA state and the flash unchanged
exactly when its early assignments change nothing. -/
theorem rejected_request_unchanged_iff (env : Env) (req : OtaUpgradeReq) (ram : ℕ → Byte)
    (w : World) (h : ¬ req.Considered env w) :
    Unchanged env req ram w ↔ req.Harmless env w :=
  (unchanged_iff h).trans rejected_ota_eq_iff

/-- A request for another device. -/
def foreignRequest : OtaUpgradeReq :=
  { OtaUpgradeReq.standard with ioteList := #v[2, 0, 0, 0, 0, 0, 0, 0] }

theorem foreignRequest_unchanged :
    ¬ foreignRequest.Considered .demo downloadingWorld ∧
      Unchanged .demo foreignRequest (fun _ => 0) downloadingWorld :=
  ⟨by decide, (rejected_request_unchanged_iff _ _ _ _ (by decide)).mpr (by decide)⟩

/-- A request for the external MCU of another device. -/
def foreignExMcu : OtaUpgradeReq := { foreignRequest with deviceType := exMcuDeviceType }

/-- In the download for the device itself, the request for another device's MCU is not
considered and yet marks the download as one for the MCU. -/
theorem foreignExMcu_mislabels :
    Reachable (otaStep .demo) (.boot ⟨fun _ => 0, []⟩) downloadingWorld ∧
      ¬ foreignExMcu.Considered .demo downloadingWorld ∧
      ¬ Unchanged .demo foreignExMcu (fun _ => 0) downloadingWorld := by
  have hc : ¬ foreignExMcu.Considered .demo downloadingWorld := by decide
  refine ⟨downloadingWorld_reachable, hc, ?_⟩
  rw [unchanged_iff hc, rejected_ota_eq_iff]
  decide

section Retry

/-- States after a download that was aborted by a stop naming this device or ended by a
failed comparison, up to the next request that is considered. -/
inductive AfterAbort (env : Env) (flash : Flash) : World → Prop
  | stopped {w : World} {ioteList : Vector (BitVec 32) 16}
      (hr : Reachable (otaStep env) (.boot flash) w) (hd : w.ota.otaState = .download)
      (hm : env.devAddress ∈ ioteList.toList) :
      AfterAbort env flash (ucWiotaGatewayOtaUpgradeStopMsg env ioteList w)
  | mismatch {w w' : World} {req : OtaUpgradeReq} {ram : ℕ → Byte} {new : List OtaCall} {rc : ℤ}
      (hr : Reachable (otaStep env) (.boot flash) w)
      (hs : otaStep env w (.upgradeReq req ram) = .next w') (hn : w'.calls = new ++ w.calls)
      (hc : .checkFlashData rc ∈ new) (hrc : rc ≠ 0) : AfterAbort env flash w'
  | later {w w' : World} {e : OtaEvent} (ha : AfterAbort env flash w)
      (he : ∀ req ram, e = .upgradeReq req ram → ¬ req.Considered env w)
      (hs : otaStep env w e = .next w') : AfterAbort env flash w'

/-- The request is for this device, for its version and kind, and its file fits. -/
structure OtaUpgradeReq.Addressed (env : Env) (req : OtaUpgradeReq) : Prop where
  targets : req.Targets env
  forDevice : req.ForDevice env
  size_nonneg : 0 ≤ req.fileSize.toInt
  fits : ¬ req.TooLarge env
  packetType : req.packetType = 0#16

/-- The request is accepted and begins a download in a state that goes on to the
reception of its block: the target area is erased before. -/
def StartsFresh (env : Env) (req : OtaUpgradeReq) (w : World) : Prop :=
  ∃ w₁ w₂, admitUpgrade env req w = (true, w₁) ∧ w₁.ota.otaState = .default ∧
    startDownload env req w₁ = .next w₂ ∧
    (∀ ram, ucWiotaGatewayOtaUpgradeResMsg env req ram w = receiveBlock env req ram w₂) ∧
    w₂.ota.otaState = .download ∧ w₂.ota.upgradeNum = req.upgradeNum ∧
    ∀ a, req.writeAddr env ≤ a → a < req.writeAddr env + req.fileSize.toNat →
      w₂.flash.cell a = BitVec.allOnes 8

theorem startsFresh_of_starts (h : req.Starts env w) (h0 : 0 ≤ req.fileSize.toInt)
    (hfits : req.VersionFits) : StartsFresh env req w := by
  obtain ⟨hret, hcell, -⟩ := erase_spec h.1.1 h0 w.flash
  have hhandler (ram : ℕ → Byte) : ucWiotaGatewayOtaUpgradeResMsg env req ram w =
      receiveBlock env req ram (started env req (admitted req w)) :=
    (upgradeReq_starts h hret).trans (if_pos hfits)
  refine ⟨admitted req w, started env req (admitted req w), admitUpgrade_considered h.1,
    admitted_otaState_of_starts h, ?_, hhandler, rfl, rfl, ?_⟩
  · rw [startDownload_eq, admitted_flash, if_pos hret, begun_of_fits hfits]
  · intro a hlo hhi
    rw [started_flash, admitted_flash, hcell, NorFlash.eraseRange_inside]
    omega

theorem startsFresh_iff_unblocked (ha : req.Addressed env)
    (hs : w.ota.otaState = .default ∨ w.ota.otaState = .stop) :
    StartsFresh env req w ↔ req.Unblocked w ∧ req.VersionFits := by
  have hadm : req.Admissible w ↔ req.Unblocked w := by
    rcases hs with hs | hs <;> simp [OtaUpgradeReq.Admissible, hs]
  have hnd : w.ota.otaState ≠ .download := by
    rcases hs with hs | hs <;> simp [hs]
  rw [← hadm]
  constructor
  · rintro ⟨w₁, w₂, hok, -, hstart, -, hdownload, -⟩
    refine ⟨by_contra fun hna => ?_, by_contra fun hfits => ?_⟩
    · rw [admitUpgrade_rejected fun hc => hna hc.2.2.2] at hok
      simp at hok
    · rw [startDownload_eq] at hstart
      split at hstart
      · rw [← Outcome.next.inj hstart] at hdownload
        exact hfits ((begun_otaState env req w₁).mp hdownload)
      · cases hstart
  · rintro ⟨hu, hfits⟩
    exact startsFresh_of_starts
      ⟨⟨ha.fits, Or.inl ha.targets, ha.forDevice, hu⟩, fun hd => absurd hd hnd⟩ ha.size_nonneg hfits

/-- A request that ends in a failed comparison leaves the state `default`. -/
private theorem mismatch_otaState {new : List OtaCall} {rc : ℤ}
    (hs : ucWiotaGatewayOtaUpgradeResMsg env req ram w = .next w')
    (hn : w'.calls = new ++ w.calls) (hc : .checkFlashData rc ∈ new) :
    w'.ota.otaState = .default := by
  by_cases hcons : req.Considered env w
  · rcases considered_next hcons hs with ⟨-, -, -, rfl⟩ | ⟨-, hfin⟩
    · have hcalls : (begun env req (admitted req w)).calls =
          [.exceReportUpgrade, .controlOtaTimer req.upgradeTime.toNat,
            .flashErase (req.writeAddr env) req.fileSize.toNat] ++ (admitted req w).calls := rfl
      rw [hcalls, admitted_calls, ← List.append_assoc, List.append_cancel_right_eq] at hn
      rw [← hn] at hc
      split_ifs at hc <;> simp at hc
    rcases finishBlock_next hfin with ⟨-, rfl⟩ | ⟨-, rc', -, -, rfl⟩ | ⟨-, -, -, rfl⟩
    · rw [scan_calls, received_calls, List.append_cancel_right_eq] at hn
      rw [← hn] at hc
      simp only [receptionCalls, List.mem_append] at hc
      split_ifs at hc <;> simp at hc
    · have hd := received_otaState ram hcons
      simp [checkFailed, ucGatewayClearState, compared, complete, hd, ucGatewayStopOtaTimer]
    · rfl
  · rw [upgradeReq_rejected hcons, Outcome.next.injEq] at hs
    have hnil : new = [] := by
      rw [← hs] at hn
      exact List.self_eq_append_left.mp hn
    simp [hnil] at hc

/-- After an abort the device is in state `default` or `stop`. -/
theorem AfterAbort.otaState (h : AfterAbort env flash w) :
    w.ota.otaState = .default ∨ w.ota.otaState = .stop := by
  induction h with
  | stopped hr hd hm =>
    right
    rw [upgradeStopMsg_eq, if_pos hm]
    rfl
  | mismatch hr hs hn hc hrc => exact Or.inl (mismatch_otaState hs hn hc)
  | @later w w' e ha he hs ih =>
    by_cases hreq : ∃ req ram, e = .upgradeReq req ram
    · obtain ⟨req, ram, rfl⟩ := hreq
      rw [otaStep, upgradeReq_rejected (he req ram rfl), Outcome.next.injEq] at hs
      rw [← hs]
      rcases ih with ih | ih <;> simp [rejected, ih]
      tauto
    · obtain ⟨v, hstep, hv⟩ := otaStep_other env w hreq
      rw [hstep, Outcome.next.injEq] at hs
      subst hs
      rcases hv with hquiet | rfl | ⟨-, rfl⟩
      · rwa [hquiet.otaState]
      · exact Or.inr rfl
      · exact ih

/-- After an aborted download the next request to this device starts a new download
exactly when the guard of its device type was reset, the progress of the download for an
external MCU, the number of the upgrade for the device itself, and its version fits. -/
theorem retry_starts_iff (env : Env) (flash : Flash) (req : OtaUpgradeReq) (w : World)
    (h : AfterAbort env flash w) (ha : req.Addressed env) :
    StartsFresh env req w ↔
      (if req.isExMcu then w.ota.otaDlState = .default else w.ota.upgradeNum = 0#16) ∧
        req.VersionFits := by
  rw [startsFresh_iff_unblocked ha h.otaState, OtaUpgradeReq.Unblocked, ha.packetType]
  simp

/-- The device after a stop in the download of `twoBlockFile`. -/
def stoppedWorld : World :=
  ucWiotaGatewayOtaUpgradeStopMsg .demo #v[1, 0, 0, 0, 0, 0, 0, 0, 0, 0, 0, 0, 0, 0, 0, 0]
    downloadingWorld

theorem stoppedWorld_afterAbort : AfterAbort .demo ⟨fun _ => 0, []⟩ stoppedWorld :=
  .stopped downloadingWorld_reachable rfl (by decide)

theorem twoBlockFile_addressed : twoBlockFile.Addressed .demo where
  targets := by decide
  forDevice := by decide
  size_nonneg := by decide
  fits := by decide
  packetType := rfl

/-- The stopped upgrade itself is refused afterwards. -/
theorem stopped_upgrade_refused :
    AfterAbort .demo ⟨fun _ => 0, []⟩ stoppedWorld ∧ twoBlockFile.Addressed .demo ∧
      ¬ StartsFresh .demo twoBlockFile stoppedWorld := by
  refine ⟨stoppedWorld_afterAbort, twoBlockFile_addressed, ?_⟩
  rw [startsFresh_iff_unblocked twoBlockFile_addressed (by decide)]
  decide

/-- The same file for the external MCU. -/
def exMcuFile : OtaUpgradeReq := { twoBlockFile with deviceType := exMcuDeviceType }

/-- Once the progress is cleared, an upgrade of the external MCU starts after the stop. -/
theorem cleared_upgrade_starts :
    StartsFresh .demo exMcuFile (ucWiotaGatewayClearOtaState stoppedWorld) :=
  (retry_starts_iff .demo ⟨fun _ => 0, []⟩ exMcuFile _
    (.later stoppedWorld_afterAbort (e := .clearOtaState) (fun _ _ h => by cases h) rfl)
    { targets := by decide, forDevice := by decide, size_nonneg := by decide, fits := by decide
      packetType := rfl }).mpr (by decide)

end Retry

end WiotaDev.GatewayOta
