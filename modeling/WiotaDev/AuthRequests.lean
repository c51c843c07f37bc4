import WiotaDev.StartOutcome
import Mathlib.Data.List.GetD

/-! # The data of the authentication requests

Every request of a start carries the key of that start. Its frequencies are those that the last
successful start has left behind, up to their first zero: the new ones are stored when the
authentication is over. -/

namespace WiotaDev.GatewayStart
open WordBytes HaltingRuns GatewayOta PacketCoding Downlink GatewayDevice GatewayLifecycle

variable {board : Board} {dev dev' : Device}

/-- What the device has sent since the state `before`. -/
def sentSince (before dev : Device) : List Uplink :=
  dev.uplinks.take (dev.uplinks.length - before.uplinks.length)

theorem sentSince_eq {new : List Uplink} (h : dev'.uplinks = new ++ dev.uplinks) :
    sentSince dev dev' = new := by
  rw [sentSince, h, List.length_append, Nat.add_sub_cancel, List.take_left]

/-- The key, padded with zeros. -/
def AuthKey.padded (authKey : AuthKey) : Vector Byte 16 :=
  Vector.ofFn fun i => authKey.text.getD i 0#8

/-- The request with the data of the caller. -/
def callerReq (authKey : AuthKey) (freqList : Vector Byte 8) : AuthReq := ⟨authKey.padded, freqList⟩

/-- The requests that a call sends carry the data of its caller. -/
def CarriesData (board : Board) (call : StartRequest) (authKey : AuthKey) (freqList : Vector Byte 8)
    (dev : Device) : Prop :=
  ∀ u ∈ sentSince dev (startGateway board call dev).2.2, u.psHeader.cmdType = 1#8 →
    u.data = (callerReq authKey freqList).bytes

theorem AuthReq.bytes_injective {req req' : AuthReq} (h : req.bytes = req'.bytes) : req = req' := by
  obtain ⟨autCode, freq⟩ := req
  obtain ⟨autCode', freq'⟩ := req'
  simp only [AuthReq.bytes, List.append_assoc] at h
  have h' := List.append_cancel_left h
  obtain ⟨hcode, hfreq⟩ := List.append_inj h' (by simp)
  rw [Vector.toList_inj.mp hcode, Vector.toList_inj.mp hfreq]

private theorem strncpy_zeros (src : List Byte) {i : ℕ} (hi : i < 16) :
    (rtStrncpy (Vector.replicate 16 0#8) src)[i] = src.getD i 0#8 := by
  simp [rtStrncpy]

private theorem padded_toList (authKey : AuthKey) :
    authKey.padded.toList = authKey.text ++ List.replicate (16 - authKey.text.length) 0#8 := by
  have hlen := authKey.length_le
  apply List.ext_getElem
  · simp only [Vector.length_toList, List.length_append, List.length_replicate]
    omega
  · intro i h h'
    rw [Vector.getElem_toList]
    simp only [AuthKey.padded, Vector.getElem_ofFn, List.getElem_append]
    split
    · rw [List.getD_eq_getElem]
    · rw [List.getD_eq_default, List.getElem_replicate]
      omega

/-- The text of a code: the key, with the device type behind it if the key fills its array. -/
private theorem authCodeText_eq (authKey : AuthKey) (h : dev.authCode = authKey.padded) :
    authCodeText dev = authKey.text ++ if authKey.text.length = 16 then DEVICE_TYPE else [] := by
  have hkey : ∀ c ∈ authKey.text, (decide (c ≠ 0#8)) = true := by
    intro c hc
    rw [decide_eq_true_iff]
    exact fun h0 => authKey.text_nonzero (h0 ▸ hc)
  rw [authCodeText, h, padded_toList, List.append_assoc, List.takeWhile_append_of_pos hkey]
  congr 1
  split
  · rename_i hfull
    rw [hfull]
    decide
  · rename_i hshort
    have hlen := authKey.length_le
    obtain ⟨k, hk⟩ : ∃ k, 16 - authKey.text.length = k + 1 := ⟨15 - authKey.text.length, by omega⟩
    rw [hk, List.replicate_succ]
    simp

/-- The code that a start stores is read back as the key, whether or not the key fills its array. -/
theorem authReqOf_autCode (authKey : AuthKey) (h : dev.authCode = authKey.padded) :
    (authReqOf dev).autCode = authKey.padded := by
  have hlen := authKey.length_le
  apply Vector.ext
  intro i hi
  rw [authReqOf, strncpy_zeros, authCodeText_eq authKey h, AuthKey.padded, Vector.getElem_ofFn]
  by_cases hin : i < authKey.text.length
  · rw [List.getD_append _ _ _ _ hin]
  · rw [if_neg (by omega), List.append_nil]

theorem initGatewayMode_authCode (authKey : AuthKey) (dev : Device) :
    (initGatewayMode authKey dev).authCode = authKey.padded := by
  apply Vector.ext
  intro i hi
  rw [initGatewayMode, strncpy_zeros, AuthKey.padded, Vector.getElem_ofFn]

/-- The request that a start sends: the caller's key, and the stored frequencies. -/
theorem authUplink_enter (board : Board) (mode : GatwayMode) (authKey : AuthKey) (dev : Device) :
    authUplink board (enterAttempt mode (initGatewayMode authKey dev)) =
      ⟨authReqHeader board, (callerReq authKey (strncpyChars dev.gwFreqList)).bytes⟩ := by
  have hcode := authReqOf_autCode authKey (initGatewayMode_authCode authKey dev)
  have hreq : authReqOf (initGatewayMode authKey dev) =
      callerReq authKey (strncpyChars dev.gwFreqList) := by
    rw [callerReq, ← hcode]
    rfl
  rw [← hreq]
  rfl

theorem finishStartRequest_uplinks (call : StartRequest) (dev : Device) :
    (finishStartRequest call dev).2.uplinks = dev.uplinks := by
  simp only [finishStartRequest]
  split
  · rfl
  · split
    · rfl
    · split <;> rfl

/-- Whatever a start meets, it only sends copies of one request. -/
theorem startGateway_uplinks (board : Board) {call : StartRequest} {authKey : AuthKey}
    (hkey : call.authKey = some authKey) (dev : Device) :
    ∃ n, (startGateway board call dev).2.2.uplinks = List.replicate n
      ⟨authReqHeader board, (callerReq authKey (strncpyChars dev.gwFreqList)).bytes⟩ ++ dev.uplinks := by
  have hnone : ∀ d : Device, d.uplinks = dev.uplinks → ∃ n, d.uplinks = List.replicate n
      ⟨authReqHeader board, (callerReq authKey (strncpyChars dev.gwFreqList)).bytes⟩ ++ dev.uplinks :=
    fun d hd => ⟨0, hd⟩
  rw [startGateway]
  split
  · split
    · exact hnone _ rfl
    · rw [hkey]
      dsimp only
      split
      · exact hnone _ rfl
      · split
        · obtain ⟨n, hn⟩ := (Authenticates.reAuthLoop board call.mode call.attempts 0 3
            (enterAttempt call.mode (initGatewayMode authKey dev))).uplinks
          rw [authUplink_enter] at hn
          split
          · rename_i h
            rw [h] at hn
            exact ⟨n, hn⟩
          · rename_i h
            rw [h] at hn
            exact ⟨n, (finishStartRequest_uplinks call _).trans hn⟩
        · exact hnone _ (finishStartRequest_uplinks call _)
  · exact hnone _ rfl

/-- A broadcast of time slots: 8 frames, period 1. -/
def timeSlotPacket : DlPacket :=
  .of [0x00, 0x03, 0x08, 0x00, 0x00, 0x00, 0x01, 0x00, 0x00, 0x00, 0x00, 0x00, 0x00, 0x00]

/-- An attempt in which one request goes out and is not answered. -/
def AuthAttempt.unanswered (synced : Bool) : AuthAttempt :=
  ⟨synced, .demo, 0, [⟨0, some (.dlRecv timeSlotPacket), 0⟩]⟩

/-- A start whose first attempt is that one, before the radio loses the sync. -/
def StartRequest.unanswered (mode : GatwayMode) (authKey : AuthKey) (freqList : Vector Byte 8) :
    StartRequest where
  mode := mode
  authKey := some authKey
  freqList := some freqList
  awakened := false
  synced := true
  queueCreated := true
  attempts := fun i => .unanswered (decide (i = 0))
  timerCreated := true
  autoConnect := false
  threadCreated := true

private theorem sendPsCmdData_demo (board : Board) (req : AuthReq) (dev : Device) :
    ucWiotaGatewaySendPsCmdData board .demo req.bytes (authReqHeader board) dev =
      (true, { dev with uplinks := ⟨authReqHeader board, req.bytes⟩ :: dev.uplinks }) := by
  obtain ⟨c, hc⟩ := (authReqCoding board .demo req).mpr rfl
  rw [ucWiotaGatewaySendPsCmdData]
  rw [hc]
  simp [SendAnswer.demo]

theorem sendAuthReq_demo (board : Board) (dev : Device) :
    ∃ dev', ucWiotaGatewaySendAuthReq board .demo dev = (true, dev') ∧
      dev'.uplinks = authUplink board dev :: dev.uplinks := by
  have hslot : (ucWiotaGatewayCalcAuthTimeSlotFn .demo (ucWiotaGatewaySetId board dev)).uplinks =
      dev.uplinks := by
    rw [ucWiotaGatewayCalcAuthTimeSlotFn]
    split <;> rfl
  refine ⟨_, sendPsCmdData_demo board _ _, ?_⟩
  dsimp only
  rw [hslot]
  rfl

theorem auth_unanswered (board : Board) {mode : GatwayMode}
    (hmode : mode = .gateway ∨ mode = .timeSlot) (synced : Bool) (dev : Device) :
    ∃ dev', ucWiotaGatewayAuth board mode (.unanswered synced) dev = (2, dev') ∧
      dev'.uplinks = authUplink board dev :: dev.uplinks := by
  have hdec : appDataDecoding board.lz timeSlotPacket.alloc timeSlotPacket.data .zero =
      .ok ⟨{ PsHeader.zero with cmdType := 3#8 }, some [8, 0, 0, 0, 1, 0, 0, 0, 0, 0, 0, 0]⟩ := rfl
  rcases hmode with rfl | rfl
  · obtain ⟨dev', hsend, hup⟩ := sendAuthReq_demo board dev
    refine ⟨dev', ?_, hup⟩
    simp only [ucWiotaGatewayAuth, AuthAttempt.unanswered, hsend, authWaitLoop, authRound, hdec]
    rfl
  · obtain ⟨dev', hsend, hup⟩ := sendAuthReq_demo board
      (takeTimeSlots (timeSlotPacket.payload ⟨{ PsHeader.zero with cmdType := 3#8 },
        some [8, 0, 0, 0, 1, 0, 0, 0, 0, 0, 0, 0]⟩) dev)
    refine ⟨dev', ?_, hup⟩
    have hround : authRound board .timeSlot ⟨0, some (.dlRecv timeSlotPacket), 0⟩
        ⟨0#8, GATEWAY_WAIT_BC_TIME_SLOT_TIMEOUT, 0⟩ dev =
          .goesOn ⟨0xff#8, GATEWAY_WAIT_AUTH_TIMEOUT, 0⟩ dev' := by
      rw [authRound]
      rw [if_pos (by decide)]
      simp only [hdec]
      rw [authSwitch]
      dsimp only
      rw [show PsCmd.ofByte 3#8 = .authenticationBcTimeSlot from rfl]
      dsimp only
      rw [if_pos ⟨rfl, rfl⟩, show timeSlotPacket.answer = .demo from rfl, hsend]
    simp only [ucWiotaGatewayAuth, AuthAttempt.unanswered, authWaitLoop]
    rw [if_neg (by decide), hround]

theorem startGateway_unanswered (board : Board) {mode : GatwayMode}
    (hmode : mode = .gateway ∨ mode = .timeSlot) (authKey : AuthKey) (freqList : Vector Byte 8)
    (hflag : dev.world.connectFlag = .noConnect) :
    sentSince dev (startGateway board (.unanswered mode authKey freqList) dev).2.2 =
      [⟨authReqHeader board, (callerReq authKey (strncpyChars dev.gwFreqList)).bytes⟩] := by
  have hsend : (StartRequest.unanswered mode authKey freqList).isSendAuth = true := by
    rcases hmode with rfl | rfl <;> rfl
  have hother : mode ≠ .other := by
    rcases hmode with rfl | rfl <;> simp
  obtain ⟨dev', hauth, hup⟩ := auth_unanswered board hmode true
    (enterAttempt mode (initGatewayMode authKey dev))
  rw [authUplink_enter] at hup
  have hloop : reAuthLoop board mode (StartRequest.unanswered mode authKey freqList).attempts 0 3
      (enterAttempt mode (initGatewayMode authKey dev)) = ([2], false, dev') := by
    rw [reAuthLoop]
    rw [if_neg (by simp [StartRequest.unanswered, AuthAttempt.unanswered])]
    simp only [StartRequest.unanswered, decide_true, hauth]
    rfl
  have hstart : startGateway board (.unanswered mode authKey freqList) dev =
      ([2], .authFail, dev') := by
    rw [startGateway]
    rw [if_pos ⟨hflag, hother⟩, if_neg (by simp [StartRequest.unanswered])]
    simp only [hsend, if_true]
    rw [show (StartRequest.unanswered mode authKey freqList).authKey = some authKey from rfl]
    dsimp only
    rw [if_neg (by simp [StartRequest.unanswered])]
    rw [show (StartRequest.unanswered mode authKey freqList).mode = mode from rfl, hloop]
  apply sentSince_eq
  rw [hstart]
  exact hup

/-- A start requires the radio to send requests: it is not connected yet, in a mode with
authentication. -/
def Authenticating (mode : GatwayMode) (dev : Device) : Prop :=
  dev.world.connectFlag = .noConnect ∧ (mode = .gateway ∨ mode = .timeSlot)

theorem startGateway_silent (board : Board) {call : StartRequest}
    (h : ¬ Authenticating call.mode dev) : sentSince dev (startGateway board call dev).2.2 = [] := by
  apply sentSince_eq
  rw [List.nil_append]
  rw [startGateway]
  split
  · rename_i hcall
    have hsend : call.isSendAuth = false := by
      cases hm : call.mode with
      | gateway => exact absurd ⟨hcall.1, .inl hm⟩ h
      | transmission => simp [StartRequest.isSendAuth, hm]
      | timeSlot => exact absurd ⟨hcall.1, .inr hm⟩ h
      | other => exact absurd hm hcall.2
    rw [hsend]
    split
    · rfl
    · split
      · rfl
      · dsimp only
        split
        · rfl
        · exact finishStartRequest_uplinks call _
  · rfl

theorem startGateway_gwFreqList (board : Board) (call : StartRequest) (dev : Device) :
    (startGateway board call dev).2.2.gwFreqList =
      if (startGateway board call dev).2.1 = .ok then call.freqList.getD dev.gwFreqList
      else dev.gwFreqList := by
  have hfinish : ∀ d : Device, d.gwFreqList = dev.gwFreqList →
      (finishStartRequest call d).2.gwFreqList =
        if (finishStartRequest call d).1 = .ok then call.freqList.getD dev.gwFreqList
        else dev.gwFreqList := by
    intro d hd
    simp only [finishStartRequest]
    split
    · exact hd
    · split
      · exact hd
      · split
        · simp [Device.setFlag, hd]
        · simp [Device.setFlag, hd]
  rw [startGateway]
  split
  · split
    · rfl
    · split
      · rfl
      · rename_i authKey _
        dsimp only
        split
        · rfl
        · split
          · have hkeep := Authenticates.reAuthLoop board call.mode call.attempts 0 3
              (enterAttempt call.mode (initGatewayMode authKey dev))
            split
            · rename_i h
              rw [h] at hkeep
              exact hkeep.gwFreqList
            · rename_i h
              rw [h] at hkeep
              exact hfinish _ hkeep.gwFreqList
          · exact hfinish _ rfl
  · rfl

theorem endGateway_gwFreqList (exitReceived taskRuns : Bool) (dev : Device) :
    (endGateway exitReceived taskRuns dev).gwFreqList = dev.gwFreqList := by
  simp only [endGateway]
  split
  · split <;> rfl
  · split <;> rfl

/-- The stored frequencies are those of the last start that succeeded. -/
theorem nodeStep_gwFreqList {node node' : Node} {e : NodeEvent}
    (h : nodeStep board node e = .next node') :
    node'.dev.gwFreqList = node.dev.gwFreqList ∨
      ∃ call, e = .start call ∧ (startGateway board call node.dev).2.1 = .ok ∧
        call.freqList = some node'.dev.gwFreqList := by
  cases e with
  | start call =>
    have hlist := startGateway_gwFreqList board call node.dev
    simp only [nodeStep] at h
    cases h
    rw [hlist]
    split
    · rename_i hok
      cases hl : call.freqList with
      | none => exact .inl rfl
      | some freqList => exact .inr ⟨call, rfl, hok, hl⟩
    · exact .inl rfl
  | gatewayEnd exitReceived =>
    simp only [nodeStep] at h
    split at h
    · cases h
      exact .inl rfl
    · cases h
      exact .inl (endGateway_gwFreqList _ _ _)
  | taskRecv packet =>
    rcases task_next h with ⟨-, dev', ha, rfl⟩ | ⟨-, rfl⟩
    · exact .inl (analisysDlMsg_keeps ha).gwFreqList
    · exact .inl rfl
  | missDataReq sent ram =>
    rcases task_next h with ⟨-, dev', ha, rfl⟩ | ⟨-, rfl⟩
    · exact .inl (deviceOtaStep_keeps ha).gwFreqList
    · exact .inl rfl
  | taskBreak judged =>
    simp only [nodeStep] at h
    cases h
    split
    · simp only [breakTask]
      split <;> exact .inl rfl
    · exact .inl rfl
  | setVerity isOpen =>
    cases h
    exact .inl rfl
  | setForceActice isForceActive =>
    cases h
    exact .inl rfl
  | stack gwInfo userid frameNum activeTime =>
    cases h
    exact .inl rfl

/-- The requests of the starts with the same arguments carry the data of the caller, whatever these
starts meet, exactly when the stored frequencies are the new ones up to their first zero. -/
theorem authReqs_carry_iff (board : Board) (mode : GatwayMode) (authKey : AuthKey)
    (freqList : Vector Byte 8) (dev : Device) :
    (∀ call : StartRequest, call.mode = mode → call.authKey = some authKey →
        call.freqList = some freqList → CarriesData board call authKey freqList dev) ↔
      (Authenticating mode dev → strncpyChars dev.gwFreqList = freqList) := by
  constructor
  · rintro h ⟨hflag, hmode⟩
    have hsent := startGateway_unanswered board hmode authKey freqList hflag
    have hcarry := h (.unanswered mode authKey freqList) rfl rfl rfl _
      (by rw [hsent]; exact List.mem_singleton.mpr rfl) rfl
    exact congrArg AuthReq.freq (AuthReq.bytes_injective hcarry)
  · rintro h call rfl hkey - u hu -
    by_cases hauth : Authenticating call.mode dev
    · obtain ⟨n, hn⟩ := startGateway_uplinks board hkey dev
      rw [sentSince_eq hn] at hu
      rw [List.eq_of_mem_replicate hu, h hauth]
    · rw [startGateway_silent board hauth] at hu
      cases hu

def demoFreqList : Vector Byte 8 := #v[160, 0, 0, 0, 0, 0, 0, 0]

/-- The first start of a device sends no frequency. -/
theorem firstStart_sends_no_freq :
    Reachable (nodeStep .demo) (Node.boot .demo demoFlash) (Node.boot .demo demoFlash) ∧
      sentSince (Node.boot .demo demoFlash).dev (startGateway .demo
        (.unanswered .gateway demoKey demoFreqList) (Node.boot .demo demoFlash).dev).2.2 =
          [⟨authReqHeader .demo, (callerReq demoKey (Vector.replicate 8 0#8)).bytes⟩] ∧
      ¬ CarriesData .demo (.unanswered .gateway demoKey demoFreqList) demoKey demoFreqList
        (Node.boot .demo demoFlash).dev := by
  have hsent := startGateway_unanswered .demo (.inl rfl) demoKey demoFreqList
    (show (Node.boot .demo demoFlash).dev.world.connectFlag = .noConnect from rfl)
  refine ⟨.refl _ _, hsent.trans rfl, fun h => ?_⟩
  have hdata := h _ (by rw [hsent]; exact List.mem_singleton.mpr rfl) rfl
  have hfreq := congrArg AuthReq.freq (AuthReq.bytes_injective hdata)
  revert hfreq
  decide

end WiotaDev.GatewayStart
