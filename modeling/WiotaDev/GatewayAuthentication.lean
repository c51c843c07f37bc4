import WiotaDev.GatewayStart
import WiotaDev.OtaQuietMessages

/-! # What an authentication leaves alone

The attempts of a start send one and the same request and leave the OTA part, the connect flag,
the code and the frequencies of the gateway as they are. With that, a gateway that is not
connected is never in state `normal`. -/

namespace WiotaDev.GatewayStart
open WordBytes HaltingRuns GatewayOta PacketCoding Downlink GatewayDevice GatewayLifecycle

variable {board : Board} {mode : GatwayMode} {dev dev' dev'' : Device}

/-- The authentication request as the device sends it. -/
def authUplink (board : Board) (dev : Device) : Uplink :=
  ⟨authReqHeader board, (authReqOf dev).bytes⟩

/-- What the steps of an authentication may do. -/
structure Authenticates (board : Board) (dev dev' : Device) : Prop where
  world : dev'.world = dev.world
  isTsMode : dev'.isTsMode = dev.isTsMode
  authCode : dev'.authCode = dev.authCode
  gwFreqList : dev'.gwFreqList = dev.gwFreqList
  uplinks : ∃ n, dev'.uplinks = List.replicate n (authUplink board dev) ++ dev.uplinks

namespace Authenticates

theorem authUplink_eq (h : Authenticates board dev dev') :
    authUplink board dev' = authUplink board dev := by
  simp only [authUplink, authReqOf, authCodeText, h.authCode, h.gwFreqList]

theorem refl (board : Board) (dev : Device) : Authenticates board dev dev :=
  ⟨rfl, rfl, rfl, rfl, 0, rfl⟩

theorem trans (h : Authenticates board dev dev') (h' : Authenticates board dev' dev'') :
    Authenticates board dev dev'' where
  world := h'.world.trans h.world
  isTsMode := h'.isTsMode.trans h.isTsMode
  authCode := h'.authCode.trans h.authCode
  gwFreqList := h'.gwFreqList.trans h.gwFreqList
  uplinks := by
    obtain ⟨n, hn⟩ := h.uplinks
    obtain ⟨m, hm⟩ := h'.uplinks
    refine ⟨m + n, ?_⟩
    rw [hm, hn, h.authUplink_eq, ← List.append_assoc, List.replicate_append_replicate]

/-- A change of what an authentication may change, without a message. -/
theorem of_fields (hw : dev'.world = dev.world) (ht : dev'.isTsMode = dev.isTsMode)
    (hc : dev'.authCode = dev.authCode) (hf : dev'.gwFreqList = dev.gwFreqList)
    (hu : dev'.uplinks = dev.uplinks) : Authenticates board dev dev' :=
  ⟨hw, ht, hc, hf, 0, hu⟩

theorem sendPsCmdData (answer : SendAnswer) (hd : authUplink board dev' = authUplink board dev)
    (h : Authenticates board dev dev') :
    Authenticates board dev (ucWiotaGatewaySendPsCmdData board answer (authReqOf dev).bytes
      (authReqHeader board) dev').2 := by
  rw [ucWiotaGatewaySendPsCmdData]
  split
  · exact h
  · split
    · exact h
    · split
      · exact h
      · refine h.trans ⟨rfl, rfl, rfl, rfl, 1, ?_⟩
        rw [hd]
        rfl

theorem sendAuthReq (board : Board) (answer : SendAnswer) (dev : Device) :
    Authenticates board dev (ucWiotaGatewaySendAuthReq board answer dev).2 := by
  have hslot : ∀ d : Device, Authenticates board d (ucWiotaGatewayCalcAuthTimeSlotFn answer d) := by
    intro d
    rw [ucWiotaGatewayCalcAuthTimeSlotFn]
    split
    · exact of_fields rfl rfl rfl rfl rfl
    · exact refl board d
  have hid : Authenticates board dev (ucWiotaGatewaySetId board dev) :=
    of_fields rfl rfl rfl rfl rfl
  have h := hid.trans (hslot _)
  exact sendPsCmdData answer h.authUplink_eq h

theorem reach (s : CallSite) (dev : Device) : Authenticates board dev (dev.reach s) :=
  of_fields rfl rfl rfl rfl rfl

theorem acceptAuth (timeSlotFn : BitVec 16) (wiotaId gwId : BitVec 32) (dev : Device) :
    Authenticates board dev (acceptAuth timeSlotFn wiotaId gwId dev) := by
  simp only [GatewayDevice.acceptAuth]
  split
  · split <;> exact of_fields rfl rfl rfl rfl rfl
  · split <;> exact of_fields rfl rfl rfl rfl rfl

theorem authResMsg (board : Board) (answer : SendAnswer) (data : Buffer) (gwId : BitVec 32)
    (dev : Device) :
    Authenticates board dev (ucWiotaGatewayAuthResMsg board answer data gwId dev) := by
  rw [ucWiotaGatewayAuthResMsg]
  split
  · split
    · exact refl board dev
    · exact (acceptAuth _ _ _ dev).trans (reach _ _)
  · exact of_fields rfl rfl rfl rfl rfl
  · exact of_fields rfl rfl rfl rfl rfl
  · exact of_fields rfl rfl rfl rfl rfl
  · exact (sendAuthReq board answer dev).trans (reach _ _)
  · exact reach _ dev

theorem takeTimeSlots (tsInfo : Buffer) (dev : Device) :
    Authenticates board dev (takeTimeSlots tsInfo dev) :=
  of_fields rfl rfl rfl rfl rfl

theorem of_sendAuthReq {answer : SendAnswer} {sent : Bool}
    (h : ucWiotaGatewaySendAuthReq board answer dev = (sent, dev')) :
    Authenticates board dev dev' := by
  have hs := sendAuthReq board answer dev
  rw [h] at hs
  exact hs

theorem authSwitch (packet : DlPacket) (d : Decoded) (tickAfter : BitVec 32) (wait : AuthWait)
    (dev : Device) :
    Authenticates board dev (authSwitch board mode packet d tickAfter wait dev).dev := by
  rw [GatewayStart.authSwitch]
  dsimp only
  split
  · exact authResMsg board _ _ _ dev
  · split
    · have ht : Authenticates board dev _ := takeTimeSlots ⟨d.outputData.getD [], packet.heap⟩ dev
      split
      · rename_i h
        exact ht.trans (of_sendAuthReq h)
      · rename_i h
        exact ht.trans (of_sendAuthReq h)
    · exact refl board dev
  · exact refl board dev

theorem authRound (round : AuthRound) (wait : AuthWait) (dev : Device) :
    Authenticates board dev (authRound board mode round wait dev).dev := by
  rw [GatewayStart.authRound]
  split
  · split
    · exact refl board dev
    · exact refl board dev
    · split
      · exact refl board dev
      · exact authSwitch _ _ _ _ dev
  · exact refl board dev

theorem authWaitLoop (wait : AuthWait) (rounds : List AuthRound) (dev : Device) :
    Authenticates board dev (authWaitLoop board mode wait rounds dev).2 := by
  induction rounds generalizing wait dev with
  | nil => exact refl board dev
  | cons round rounds ih =>
    have hr : Authenticates board dev (GatewayStart.authRound board mode round wait dev).dev :=
      authRound round wait dev
    rw [GatewayStart.authWaitLoop]
    split
    · rename_i h
      rw [h] at hr
      exact hr
    · rename_i h
      rw [h] at hr
      exact hr.trans (ih _ _)

theorem auth (attempt : AuthAttempt) (dev : Device) :
    Authenticates board dev (ucWiotaGatewayAuth board mode attempt dev).2 := by
  rw [ucWiotaGatewayAuth]
  split
  · split
    · rename_i h
      exact of_sendAuthReq h
    · rename_i h
      exact (of_sendAuthReq h).trans (authWaitLoop _ _ _)
  · exact authWaitLoop _ _ _

theorem reAuthLoop (board : Board) (mode : GatwayMode) (attempts : ℕ → AuthAttempt)
    (i reAuthCount : ℕ) (dev : Device) :
    Authenticates board dev (reAuthLoop board mode attempts i reAuthCount dev).2.2 := by
  induction reAuthCount generalizing i dev with
  | zero => exact refl board dev
  | succ reAuthCount ih =>
    rw [GatewayStart.reAuthLoop]
    have ha : Authenticates board dev (ucWiotaGatewayAuth board mode (attempts i) dev).2 :=
      auth (attempts i) dev
    split
    · exact refl board dev
    · split
      · rename_i h
        rw [h] at ha
        exact ha
      · rename_i h
        rw [h] at ha
        exact ha.trans (ih (i + 1) _)

end Authenticates

section ConnectFlag

@[simp] theorem clearState_connectFlag (w : World) :
    (ucGatewayClearState w).connectFlag = w.connectFlag := by
  rw [ucGatewayClearState]
  split <;> rfl

private theorem received_connectFlag (env : Env) (req : OtaUpgradeReq) (ram : ℕ → Byte)
    (w : World) : (received env req ram w).connectFlag = w.connectFlag := by
  have hat : (atReception env req w).connectFlag = w.connectFlag := by
    rw [atReception]
    split <;> rfl
  rw [received]
  split
  · exact hat
  · exact hat

/-- A request that the handler comes back from leaves the connect flag alone. -/
theorem upgradeReq_connectFlag {env : Env} {req : OtaUpgradeReq} {ram : ℕ → Byte} {w w' : World}
    (h : ucWiotaGatewayOtaUpgradeResMsg env req ram w = .next w') :
    w'.connectFlag = w.connectFlag := by
  by_cases hc : req.Considered env w
  · rcases considered_next hc h with ⟨-, -, -, rfl⟩ | ⟨-, hfin⟩
    · rfl
    · rw [← received_connectFlag env req ram w]
      rcases finishBlock_next hfin with ⟨-, hw⟩ | ⟨-, rc, -, -, hw⟩ | ⟨-, -, -, hw⟩
      · rw [hw]
        rfl
      · rw [hw, checkFailed, clearState_connectFlag]
        rfl
      · rw [hw]
        rfl
  · rw [upgradeReq_rejected hc] at h
    cases h
    rfl

theorem otaStep_connectFlag {env : Env} {e : OtaEvent} {w w' : World}
    (h : otaStep env w e = .next w') : w'.connectFlag = w.connectFlag := by
  cases e with
  | upgradeReq req ram => exact upgradeReq_connectFlag h
  | upgradeStop ioteList =>
    cases h
    rw [upgradeStopMsg_eq]
    split <;> rfl
  | upgradeState msg ram =>
    cases h
    simp only [ucWiotaGatewayOtaUpgradeStateMsg]
    split
    · split <;> rfl
    · rfl
  | missDataReq sent ram =>
    cases h
    simp only [ucWiotaGatewayOtaMissDataReqMsg]
    split
    · split
      · rfl
      · split <;> rfl
    · rfl
  | clearOtaState =>
    cases h
    rfl

/-- What the handling of a packet leaves alone. -/
structure Keeps (dev dev' : Device) : Prop where
  connectFlag : dev'.world.connectFlag = dev.world.connectFlag
  gwFreqList : dev'.gwFreqList = dev.gwFreqList

theorem deviceOtaStep_keeps {e : OtaEvent} (h : dev.otaStep board e = .next dev') :
    Keeps dev dev' := by
  obtain ⟨w, hw, rfl⟩ := Outcome.map_eq_next.mp h
  exact ⟨otaStep_connectFlag hw, rfl⟩

theorem sendData_frame (board : Board) (answer : SendAnswer) (data : List Byte) (dev : Device) :
    (ucWiotaGatewaySendData board answer data dev).2.world = dev.world ∧
      (ucWiotaGatewaySendData board answer data dev).2.gwFreqList = dev.gwFreqList := by
  rw [ucWiotaGatewaySendData]
  split
  · exact ⟨rfl, rfl⟩
  · split
    · exact ⟨rfl, rfl⟩
    · split
      · exact ⟨rfl, rfl⟩
      · split
        · dsimp only
          split
          · exact ⟨rfl, rfl⟩
          · split <;> exact ⟨rfl, rfl⟩
        · exact ⟨rfl, rfl⟩

theorem versionMsg_frame (board : Board) (answer : SendAnswer) (dev : Device) :
    (ucWiotaGatewayVersionMsg board answer dev).world = dev.world ∧
      (ucWiotaGatewayVersionMsg board answer dev).gwFreqList = dev.gwFreqList := by
  rw [ucWiotaGatewayVersionMsg]
  split
  · rw [ucWiotaGatewaySendPsCmdData]
    split
    · exact ⟨rfl, rfl⟩
    · split
      · exact ⟨rfl, rfl⟩
      · split <;> exact ⟨rfl, rfl⟩
  · exact ⟨rfl, rfl⟩

/-- A packet that the task comes back from leaves the connect flag and the frequencies alone. -/
theorem analisysDlMsg_keeps {packet : DlPacket}
    (h : ucWiotaGatewayAnalisysDlMsg board packet dev = .next dev') : Keeps dev dev' := by
  have hrefl : Keeps dev dev := ⟨rfl, rfl⟩
  unfold ucWiotaGatewayAnalisysDlMsg at h
  split at h
  · cases h
    exact hrefl
  · split at h
    · cases h
      exact hrefl
    · unfold dispatch at h
      dsimp only at h
      split at h
      · cases h
        have hauth := Authenticates.authResMsg board packet.answer
        exact ⟨by rw [(hauth _ _ dev).world], (hauth _ _ dev).gwFreqList⟩
      · exact deviceOtaStep_keeps h
      · exact deviceOtaStep_keeps h
      · exact deviceOtaStep_keeps h
      · cases h
        exact ⟨rfl, rfl⟩
      · cases h
        unfold ucWiotaGatewayRecvDlMsg
        split <;> exact ⟨rfl, rfl⟩
      · cases h
        obtain ⟨hw, hf⟩ := sendData_frame board packet.answer (packet.payload _).bytes dev
        exact ⟨by rw [hw], hf⟩
      · cases h
        obtain ⟨hw, hf⟩ := versionMsg_frame board packet.answer dev
        exact ⟨by rw [hw], hf⟩
      · cases h
        exact ⟨rfl, rfl⟩
      · cases h
        exact ⟨rfl, rfl⟩
      · cases h
        exact hrefl

end ConnectFlag

end WiotaDev.GatewayStart
