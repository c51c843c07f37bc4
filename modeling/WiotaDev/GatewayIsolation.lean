import WiotaDev.AuthRequests

/-! # Packets of other gateways

With `gw_verity` on, the dispatch drops the packets that do not name the stored gateway as their
source, but for the responses to an authentication. -/

namespace WiotaDev.GatewayStart
open WordBytes HaltingRuns GatewayOta PacketCoding Downlink GatewayDevice GatewayLifecycle

variable {board : Board} {packet : DlPacket} {d : Decoded} {dev dev' : Device}

/-- The state that a response to an authentication carries. -/
def responseState (packet : DlPacket) (d : Decoded) : Option AuthState :=
  if PsCmd.ofByte d.psHeader.cmdType = .authenticationRes then
    some (.ofByte ((packet.payload d).byte 0))
  else none

/-- The response tells that the device is refused. -/
def Refuses (response : Option AuthState) : Prop :=
  response = some .noData ∨ response = some .fail

/-- What a packet of another gateway can do to a connected one. -/
structure ForeignEffect (board : Board) (response : Option AuthState) (dev dev' : Device) : Prop where
  unchanged : response = none ∨ response = some .suc → dev' = dev
  world : dev'.world = dev.world
  gwInfo : dev'.gwInfo = dev.gwInfo
  frameNum : dev'.frameNum = dev.frameNum
  userid : dev'.userid = dev.userid ∨
    response = some .reconnect ∧ dev'.userid = board.env.devAddress
  refused : Refuses response → dev'.gatewayState = .failed
  gatewayState : ¬Refuses response → dev'.gatewayState = dev.gatewayState
  uplinks : dev'.uplinks = dev.uplinks ∨
    response = some .reconnect ∧ dev'.uplinks = authUplink board dev :: dev.uplinks
  sites : dev'.sites = dev.sites ∨ dev'.sites = .exceReport dev'.gatewayState :: dev.sites

namespace ForeignEffect

theorem refl (board : Board) {response : Option AuthState} (h : ¬Refuses response) (dev : Device) :
    ForeignEffect board response dev dev where
  unchanged _ := rfl
  world := rfl
  gwInfo := rfl
  frameNum := rfl
  userid := .inl rfl
  refused hr := absurd hr h
  gatewayState _ := rfl
  uplinks := .inl rfl
  sites := .inl rfl

/-- A state report after a change that keeps the messages and the user id. -/
theorem report {response : AuthState} (hsuc : response ≠ .suc) (hw : dev'.world = dev.world)
    (hi : dev'.gwInfo = dev.gwInfo) (hn : dev'.frameNum = dev.frameNum)
    (hid : dev'.userid = dev.userid)
    (hrefused : Refuses (some response) → dev'.gatewayState = .failed)
    (hst : ¬Refuses (some response) → dev'.gatewayState = dev.gatewayState)
    (hu : dev'.uplinks = dev.uplinks) (hs : dev'.sites = dev.sites) :
    ForeignEffect board (some response) dev dev'.reportState where
  unchanged h := by
    rcases h with h | h
    · cases h
    · exact absurd (Option.some.inj h) hsuc
  world := hw
  gwInfo := hi
  frameNum := hn
  userid := .inl hid
  refused := hrefused
  gatewayState := hst
  uplinks := .inl hu
  sites := .inr (congrArg (CallSite.exceReport dev'.gatewayState :: ·) hs)

end ForeignEffect

/-- What a repeated request can change. -/
theorem sendAuthReq_effect (board : Board) (answer : SendAnswer) (dev : Device) :
    (ucWiotaGatewaySendAuthReq board answer dev).2.gwInfo = dev.gwInfo ∧
      (ucWiotaGatewaySendAuthReq board answer dev).2.frameNum = dev.frameNum ∧
      (ucWiotaGatewaySendAuthReq board answer dev).2.userid = board.env.devAddress ∧
      (ucWiotaGatewaySendAuthReq board answer dev).2.sites = dev.sites ∧
      ((ucWiotaGatewaySendAuthReq board answer dev).2.uplinks = dev.uplinks ∨
        (ucWiotaGatewaySendAuthReq board answer dev).2.uplinks =
          authUplink board dev :: dev.uplinks) := by
  have hslot : ∀ d : Device,
      (ucWiotaGatewayCalcAuthTimeSlotFn answer d).gwInfo = d.gwInfo ∧
        (ucWiotaGatewayCalcAuthTimeSlotFn answer d).frameNum = d.frameNum ∧
        (ucWiotaGatewayCalcAuthTimeSlotFn answer d).userid = d.userid ∧
        (ucWiotaGatewayCalcAuthTimeSlotFn answer d).sites = d.sites ∧
        (ucWiotaGatewayCalcAuthTimeSlotFn answer d).uplinks = d.uplinks := by
    intro d
    unfold ucWiotaGatewayCalcAuthTimeSlotFn
    split <;> exact ⟨rfl, rfl, rfl, rfl, rfl⟩
  obtain ⟨hi, hn, hid, hs, hu⟩ := hslot (ucWiotaGatewaySetId board dev)
  unfold ucWiotaGatewaySendAuthReq ucWiotaGatewaySendPsCmdData
  dsimp only
  split
  · exact ⟨hi, hn, hid, hs, .inl hu⟩
  · split
    · exact ⟨hi, hn, hid, hs, .inl hu⟩
    · split
      · exact ⟨hi, hn, hid, hs, .inl hu⟩
      · exact ⟨hi, hn, hid, hs, .inr (congrArg (authUplink board dev :: ·) hu)⟩

/-- The response of a foreign gateway to an authentication. -/
theorem authResMsg_foreign (board : Board) (answer : SendAnswer) (data : Buffer) (gwId : BitVec 32)
    (hnormal : dev.gatewayState = .normal) :
    ForeignEffect board (some (.ofByte (data.byte 0))) dev
      (ucWiotaGatewayAuthResMsg board answer data gwId dev) := by
  rw [ucWiotaGatewayAuthResMsg]
  cases AuthState.ofByte (data.byte 0) with
  | suc =>
    simp only [hnormal, if_true]
    exact .refl board (by simp [Refuses]) dev
  | noData =>
    exact .report (by simp) rfl rfl rfl rfl (fun _ => rfl) (fun h => absurd (.inl rfl) h) rfl rfl
  | fail =>
    exact .report (by simp) rfl rfl rfl rfl (fun _ => rfl) (fun h => absurd (.inr rfl) h) rfl rfl
  | infoChange =>
    exact .report (by simp) rfl rfl rfl rfl (fun h => by simp [Refuses] at h) (fun _ => rfl) rfl rfl
  | reconnect =>
    obtain ⟨hi, hn, hid, hs, hu⟩ := sendAuthReq_effect board answer dev
    have hst := sendAuthReq_gatewayState board answer dev
    exact {
      unchanged := fun h => by
        rcases h with h | h
        · cases h
        · cases h
      world := (Authenticates.sendAuthReq board answer dev).world
      gwInfo := hi
      frameNum := hn
      userid := .inr ⟨rfl, hid⟩
      refused := fun h => by simp [Refuses] at h
      gatewayState := fun _ => hst
      uplinks := hu.imp_right fun h => ⟨rfl, h⟩
      sites := .inr (congrArg (CallSite.exceReport _ :: ·) hs) }
  | other =>
    exact .report (by simp) rfl rfl rfl rfl (fun h => by simp [Refuses] at h) (fun _ => rfl) rfl rfl

/-- A packet of another gateway leaves a connected one as it is, unless it is a response to an
authentication that does not tell of success. -/
theorem foreignPacket_effect (board : Board) (hver : dev.gwVerity = true)
    (hnormal : dev.gatewayState = .normal)
    (hdec : appDataDecoding board.lz packet.alloc packet.data .zero = .ok d)
    (hforeign : d.psHeader.srcAddr ≠ dev.gwInfo.gwId) :
    ∃ dev', ucWiotaGatewayAnalisysDlMsg board packet dev = .next dev' ∧
      ForeignEffect board (responseState packet d) dev dev' := by
  rw [ucWiotaGatewayAnalisysDlMsg]
  rw [hdec]
  dsimp only
  by_cases hres : PsCmd.ofByte d.psHeader.cmdType = .authenticationRes
  · rw [if_neg fun h => h.2.1 hres, responseState, if_pos hres]
    rw [dispatch]
    rw [hres]
    exact ⟨_, rfl, authResMsg_foreign board packet.answer (packet.payload d) _ hnormal⟩
  · rw [if_pos ⟨hver, hres, hforeign⟩, responseState, if_neg hres]
    exact ⟨dev, rfl, .refl board (by simp [Refuses]) dev⟩

/-- A connected gateway with id 5 and `gw_verity` on. -/
def connectedDevice : Device :=
  { Device.setFlag .connectSucess (Device.boot .demo demoFlash) with
    gatewayState := .normal, gwInfo := ⟨5, 8, 0, 0, 0⟩, gwVerity := true }

/-- User data from gateway 6. -/
def foreignData : DlPacket := .of [0x80, 0x06, 0x00, 0x00, 0x00, 0x64, 0x01]

theorem foreignData_effect :
    connectedDevice.gwVerity = true ∧ connectedDevice.gatewayState = .normal ∧
      ∃ dev', ucWiotaGatewayAnalisysDlMsg .demo foreignData connectedDevice = .next dev' ∧
        ForeignEffect .demo none connectedDevice dev' := by
  have hdec : appDataDecoding Board.demo.lz foreignData.alloc foreignData.data .zero =
      .ok ⟨{ PsHeader.zero with
        property := { PsHeader.zero.property with isSrcAddr := true }, srcAddr := 6#32
        cmdType := 100#8 }, some [1]⟩ := rfl
  exact ⟨rfl, rfl, foreignPacket_effect .demo rfl rfl hdec (by decide)⟩

/-- A failed authentication told by gateway 6. -/
def foreignFailure : DlPacket :=
  .of [0x80, 0x06, 0x00, 0x00, 0x00, 0x02, 0x02, 0x00, 0x00, 0x00, 0x00, 0x00, 0x00, 0x00]

/-- A gateway that was never asked takes the connection down. -/
theorem foreignFailure_disconnects :
    connectedDevice.gwVerity = true ∧ connectedDevice.gatewayState = .normal ∧
      (∃ d, appDataDecoding Board.demo.lz foreignFailure.alloc foreignFailure.data .zero = .ok d ∧
        d.psHeader.srcAddr ≠ connectedDevice.gwInfo.gwId) ∧
      ∃ dev', ucWiotaGatewayAnalisysDlMsg .demo foreignFailure connectedDevice = .next dev' ∧
        dev'.gatewayState = .failed ∧ dev'.sites = [.exceReport .failed] := by
  have hdec : appDataDecoding Board.demo.lz foreignFailure.alloc foreignFailure.data .zero =
      .ok ⟨{ PsHeader.zero with
        property := { PsHeader.zero.property with isSrcAddr := true }, srcAddr := 6#32
        cmdType := 2#8 }, some [2, 0, 0, 0, 0, 0, 0, 0]⟩ := rfl
  refine ⟨rfl, rfl, ⟨_, hdec, by decide⟩, ?_⟩
  rw [ucWiotaGatewayAnalisysDlMsg]
  rw [hdec]
  exact ⟨_, rfl, rfl, rfl⟩

end WiotaDev.GatewayStart
