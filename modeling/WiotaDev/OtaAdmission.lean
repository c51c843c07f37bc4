import WiotaDev.GatewayOta

/-! # Which upgrade requests are considered, and what handling one does

`Considered` is the condition under which a request leads to a block, `Starts` the one
under which it begins a download. A request that is not considered leaves the state
`rejected` behind; a considered one goes on from the state `admitted`. -/

namespace WiotaDev.GatewayOta
open WordBytes OtaFlash HaltingRuns

variable {env : Env} {req : OtaUpgradeReq} {ram : ℕ → Byte} {w w' : World}

section Calls

@[simp] theorem call_ota (c : OtaCall) (w : World) : (w.call c).ota = w.ota := rfl
@[simp] theorem call_flash (c : OtaCall) (w : World) : (w.call c).flash = w.flash := rfl
@[simp] theorem call_calls (c : OtaCall) (w : World) : (w.call c).calls = c :: w.calls := rfl
@[simp] theorem call_mapIndices (c : OtaCall) (w : World) :
    (w.call c).mapIndices = w.mapIndices := rfl
@[simp] theorem scan_ota (n : ℕ) (w : World) : (w.scan n).ota = w.ota := rfl
@[simp] theorem scan_flash (n : ℕ) (w : World) : (w.scan n).flash = w.flash := rfl
@[simp] theorem scan_calls (n : ℕ) (w : World) : (w.scan n).calls = w.calls := rfl

@[simp] theorem mem_scan_mapIndices {n i : ℕ} {w : World} :
    i ∈ (w.scan n).mapIndices ↔ (∃ k < n, k / 8 = i) ∨ i ∈ w.mapIndices := by
  simp [World.scan]

end Calls

/-- The file does not fit into the partition of its device type. -/
def OtaUpgradeReq.TooLarge (env : Env) (req : OtaUpgradeReq) : Prop :=
  (req.maxSize env : ℤ) < req.fileSize.toInt

/-- The request names this device. -/
def OtaUpgradeReq.Targets (env : Env) (req : OtaUpgradeReq) : Prop :=
  req.upgradeRange = 1#32 ∧ env.devAddress ∈ req.ioteList.toList

def OtaUpgradeReq.InRange (env : Env) (req : OtaUpgradeReq) (w : World) : Prop :=
  req.Targets env ∨ req.upgradeRange = 0#32 ∧ w.ota.otaState ≠ .stop

/-- The request is for this kind of device. -/
def OtaUpgradeReq.ForDevice (env : Env) (req : OtaUpgradeReq) : Prop :=
  req.isExMcu ∨ req.versionMatches env

/-- No download is left over that keeps a new one from starting. -/
def OtaUpgradeReq.Unblocked (req : OtaUpgradeReq) (w : World) : Prop :=
  if req.isExMcu then w.ota.otaDlState = .default
  else w.ota.upgradeNum = 0#16 ∧ req.packetType = 0#16

def OtaUpgradeReq.Admissible (req : OtaUpgradeReq) (w : World) : Prop :=
  match w.ota.otaState with
  | .default | .stop => req.Unblocked w
  | .download => True
  | .program | .other _ _ => False

/-- The request leads to a block being considered. -/
def OtaUpgradeReq.Considered (env : Env) (req : OtaUpgradeReq) (w : World) : Prop :=
  ¬ req.TooLarge env ∧ req.InRange env w ∧ req.ForDevice env ∧ req.Admissible w

/-- The request is of another upgrade than the running download. -/
def OtaUpgradeReq.Switches (req : OtaUpgradeReq) (w : World) : Prop :=
  w.ota.otaState = .download ∧ w.ota.upgradeNum ≠ req.upgradeNum

/-- The request begins a download. -/
def OtaUpgradeReq.Starts (env : Env) (req : OtaUpgradeReq) (w : World) : Prop :=
  req.Considered env w ∧ (w.ota.otaState = .download → req.Switches w)

section Decidability

instance : Decidable (req.TooLarge env) := inferInstanceAs (Decidable (_ < _))
instance : Decidable (req.Targets env) := inferInstanceAs (Decidable (_ ∧ _))
instance : Decidable (req.InRange env w) := inferInstanceAs (Decidable (_ ∨ _))
instance : Decidable (req.ForDevice env) := inferInstanceAs (Decidable (_ ∨ _))
instance : Decidable (req.Unblocked w) := by unfold OtaUpgradeReq.Unblocked; infer_instance
instance : Decidable (req.Admissible w) :=
  match h : w.ota.otaState with
  | .default => decidable_of_iff (req.Unblocked w) (by simp [OtaUpgradeReq.Admissible, h])
  | .stop => decidable_of_iff (req.Unblocked w) (by simp [OtaUpgradeReq.Admissible, h])
  | .download => .isTrue (by simp [OtaUpgradeReq.Admissible, h])
  | .program => .isFalse (by simp [OtaUpgradeReq.Admissible, h])
  | .other _ _ => .isFalse (by simp [OtaUpgradeReq.Admissible, h])
instance : Decidable (req.Considered env w) := inferInstanceAs (Decidable (_ ∧ _))
instance : Decidable (req.Switches w) := inferInstanceAs (Decidable (_ ∧ _))
instance : Decidable (req.Starts env w) := inferInstanceAs (Decidable (_ ∧ _))

end Decidability

/-- The block map that the reception of the request works on. -/
def OtaUpgradeReq.currentMap (req : OtaUpgradeReq) (w : World) : Vector Byte 28 :=
  if req.Switches w then BitArray.clear 28 else w.ota.maskMap

/-- The device type after the request is read. -/
def OtaUpgradeReq.notedDevType (req : OtaUpgradeReq) (w : World) : OtaDevType :=
  if req.isExMcu then .exMcu else w.ota.otaDevType

/-- The state in which a considered request goes on. -/
def admitted (req : OtaUpgradeReq) (w : World) : World :=
  { w with
    ota := { w.ota with
      otaDevType := req.notedDevType w
      missDataInvalidReq := 0#8
      otaState :=
        if w.ota.otaState = .download ∧ ¬ req.Switches w then .download else .default
      upgradeNum := req.upgradeNum
      maskMap := req.currentMap w }
    calls := if req.Switches w then .stopOtaTimer :: w.calls else w.calls }

@[simp] theorem admitted_flash (req : OtaUpgradeReq) (w : World) :
    (admitted req w).flash = w.flash := rfl

@[simp] theorem admitted_maskMap (req : OtaUpgradeReq) (w : World) :
    (admitted req w).ota.maskMap = req.currentMap w := rfl

/-- The state that a request leaves behind that is not considered. -/
def rejected (env : Env) (req : OtaUpgradeReq) (w : World) : World :=
  { w with ota := { w.ota with
      otaDevType := req.notedDevType w
      missDataInvalidReq := if req.TooLarge env then w.ota.missDataInvalidReq else 0#8
      otaState :=
        if ¬ req.TooLarge env ∧ req.Targets env ∧ w.ota.otaState = .stop then .default
        else w.ota.otaState } }

/-- The state after the upgrade range is checked. -/
private def ranged (env : Env) (req : OtaUpgradeReq) (w : World) : World :=
  { w with ota := { w.ota with
      otaState := if req.Targets env ∧ w.ota.otaState = .stop then .default else w.ota.otaState } }

/-- The state in which the upgrade check runs. -/
private def noted (req : OtaUpgradeReq) (w : World) : World :=
  { w with ota := { w.ota with otaDevType := req.notedDevType w, missDataInvalidReq := 0#8 } }

private theorem checkUpgradeRange_eq (env : Env) (req : OtaUpgradeReq) (w : World) :
    checkUpgradeRange env req w = (decide (req.InRange env w), ranged env req w) := by
  have hkeep : ¬ (req.Targets env ∧ w.ota.otaState = .stop) → ranged env req w = w := by
    intro h
    simp only [ranged, h, if_false]
  by_cases hr : req.upgradeRange = 1#32
  · by_cases hm : env.devAddress ∈ req.ioteList.toList
    · by_cases hs : w.ota.otaState = .stop
      · simp [checkUpgradeRange, OtaUpgradeReq.InRange, OtaUpgradeReq.Targets, ranged, hr, hm, hs]
      · rw [hkeep (fun h => hs h.2)]
        simp [checkUpgradeRange, OtaUpgradeReq.InRange, OtaUpgradeReq.Targets, hr, hm, hs]
    · rw [hkeep (fun h => hm h.1.2)]
      simp [checkUpgradeRange, OtaUpgradeReq.InRange, OtaUpgradeReq.Targets, hr, hm]
  · rw [hkeep (fun h => hr h.1.1)]
    simp [checkUpgradeRange, OtaUpgradeReq.InRange, OtaUpgradeReq.Targets, hr]

theorem checkUpgradeRange_fst (env : Env) (req : OtaUpgradeReq) (w : World) :
    (checkUpgradeRange env req w).1 = decide (req.InRange env w) := by
  rw [checkUpgradeRange_eq]

private theorem check_eq (env : Env) (req : OtaUpgradeReq) (w : World) :
    ucWiotaGatewayCheckIfUpgradeRequired env req w =
      if req.InRange env w ∧ req.ForDevice env then checkUpgradeState req (ranged env req w)
      else (false, ranged env req w) := by
  simp only [ucWiotaGatewayCheckIfUpgradeRequired, checkUpgradeRange_eq, OtaUpgradeReq.ForDevice,
    Bool.and_eq_true, Bool.or_eq_true, decide_eq_true_eq]
  rfl

private theorem admitUpgrade_tooLarge (h : req.TooLarge env) :
    admitUpgrade env req w = (false, rejected env req w) := by
  have hlt : (req.maxSize env : ℤ) < req.fileSize.toInt := h
  simp only [admitUpgrade, hlt, if_true, rejected, h, not_true, false_and, if_false, noteDevType,
    OtaUpgradeReq.notedDevType]
  split <;> rfl

private theorem admitUpgrade_fits (h : ¬ req.TooLarge env) :
    admitUpgrade env req w = ucWiotaGatewayCheckIfUpgradeRequired env req (noted req w) := by
  have hlt : ¬ (req.maxSize env : ℤ) < req.fileSize.toInt := h
  have hnoted : { noteDevType req w with
      ota := { (noteDevType req w).ota with missDataInvalidReq := 0#8 } } = noted req w := by
    rw [noteDevType, noted, OtaUpgradeReq.notedDevType]
    split <;> rfl
  simp only [admitUpgrade, hlt, if_false, hnoted]

private theorem rejected_of_fits (h : ¬ req.TooLarge env) :
    rejected env req w = ranged env req (noted req w) := by
  simp only [rejected, ranged, noted, h, not_false_eq_true, true_and, if_false]
  rfl

private theorem checkUpgradeState_unblocked (hs : w.ota.otaState = .default)
    (h : req.Unblocked w) : checkUpgradeState req w =
      (true, { w with ota := { w.ota with upgradeNum := req.upgradeNum } }) := by
  simp only [checkUpgradeState, hs]
  exact if_pos h

private theorem checkUpgradeState_blocked (hs : w.ota.otaState = .default)
    (h : ¬ req.Unblocked w) : checkUpgradeState req w = (false, w) := by
  simp only [checkUpgradeState, hs]
  exact if_neg h

private theorem ranged_otaState (env : Env) (req : OtaUpgradeReq) (w : World) :
    (ranged env req (noted req w)).ota.otaState =
      if req.Targets env ∧ w.ota.otaState = .stop then .default else w.ota.otaState := rfl

/-- The check refuses a request whose state does not admit it. -/
private theorem checkUpgradeState_refused (hr : req.InRange env w) (ha : ¬ req.Admissible w) :
    checkUpgradeState req (ranged env req (noted req w)) =
      (false, ranged env req (noted req w)) := by
  rw [OtaUpgradeReq.Admissible] at ha
  have hstate := ranged_otaState env req w
  cases hs : w.ota.otaState with
  | default =>
    simp only [hs] at ha
    exact checkUpgradeState_blocked (by simp [hstate, hs]) ha
  | stop =>
    have ht : req.Targets env := hr.elim id fun h => absurd hs h.2
    simp only [hs] at ha
    exact checkUpgradeState_blocked (by simp [hstate, hs, ht]) ha
  | download => simp [hs] at ha
  | program => simp only [checkUpgradeState, hstate, hs, reduceCtorEq, and_false, if_false]
  | other v hv => simp only [checkUpgradeState, hstate, hs, reduceCtorEq, and_false, if_false]

private theorem checkUpgradeState_admitted (hr : req.InRange env w) (ha : req.Admissible w) :
    checkUpgradeState req (ranged env req (noted req w)) = (true, admitted req w) := by
  rw [OtaUpgradeReq.Admissible] at ha
  have hstate := ranged_otaState env req w
  cases hs : w.ota.otaState with
  | default =>
    simp only [hs] at ha
    have h : req.Unblocked (ranged env req (noted req w)) := ha
    rw [checkUpgradeState_unblocked (by simp [hstate, hs]) h]
    simp [admitted, ranged, noted, OtaUpgradeReq.Switches, OtaUpgradeReq.currentMap, hs]
  | stop =>
    have ht : req.Targets env := hr.elim id fun h => absurd hs h.2
    simp only [hs] at ha
    have h : req.Unblocked (ranged env req (noted req w)) := ha
    rw [checkUpgradeState_unblocked (by simp [hstate, hs, ht]) h]
    simp [admitted, ranged, noted, OtaUpgradeReq.Switches, OtaUpgradeReq.currentMap, hs, ht]
  | download =>
    simp only [checkUpgradeState, hstate, hs, reduceCtorEq, and_false, if_false]
    by_cases hn : w.ota.upgradeNum = req.upgradeNum
    · simp [admitted, ranged, noted, OtaUpgradeReq.Switches, OtaUpgradeReq.currentMap, hs, hn]
    · simp [admitted, ranged, noted, OtaUpgradeReq.Switches, OtaUpgradeReq.currentMap, hs, hn,
        ucGatewayClearState, ucGatewayStopOtaTimer, World.call]
  | program => simp [hs] at ha
  | other v hv => simp [hs] at ha

theorem admitUpgrade_rejected (h : ¬ req.Considered env w) :
    admitUpgrade env req w = (false, rejected env req w) := by
  by_cases hl : req.TooLarge env
  · exact admitUpgrade_tooLarge hl
  · rw [admitUpgrade_fits hl, check_eq, rejected_of_fits hl]
    by_cases hrd : req.InRange env (noted req w) ∧ req.ForDevice env
    · have hr : req.InRange env w := hrd.1
      have ha : ¬ req.Admissible w := fun ha => h ⟨hl, hr, hrd.2, ha⟩
      rw [if_pos hrd, checkUpgradeState_refused hr ha]
    · rw [if_neg hrd]

theorem admitUpgrade_considered (h : req.Considered env w) :
    admitUpgrade env req w = (true, admitted req w) := by
  obtain ⟨hl, hr, hd, ha⟩ := h
  have hrd : req.InRange env (noted req w) ∧ req.ForDevice env := ⟨hr, hd⟩
  rw [admitUpgrade_fits hl, check_eq, if_pos hrd, checkUpgradeState_admitted hr ha]

/-- A request that is not considered only notes its device type and, when its size is
accepted, resets the request counter and leaves `stop` if it names this device. -/
theorem upgradeReq_rejected (h : ¬ req.Considered env w) :
    ucWiotaGatewayOtaUpgradeResMsg env req ram w = .next (rejected env req w) := by
  rw [ucWiotaGatewayOtaUpgradeResMsg, admitUpgrade_rejected h]
  rfl

/-- A considered request goes on from the state `admitted`. -/
theorem upgradeReq_considered (h : req.Considered env w) :
    ucWiotaGatewayOtaUpgradeResMsg env req ram w = downloadBlock env req ram (admitted req w) := by
  rw [ucWiotaGatewayOtaUpgradeResMsg, admitUpgrade_considered h]
  rfl

end WiotaDev.GatewayOta
