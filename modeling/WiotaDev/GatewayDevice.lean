import WiotaDev.DownlinkReads
import WiotaDev.PacketRoundTrip

/-! # The downlink dispatch over the whole gateway (`uc_wiota_gateway_api.c`)

What `uc_wiota_gateway_analisys_dl_msg` and its handlers do to the gateway: its states and flags,
the values that the radio stack keeps for it, and histories of the messages it sends, of the
other calls into the stack, and of the call sites of the callbacks. Histories are newest first. -/

namespace WiotaDev.GatewayDevice
open WordBytes HaltingRuns GatewayOta PacketCoding Downlink

def GATEWAY_SEND_MAX_LEN : ℕ := 300

/-- `uc_gateway_state_t`, as far as `uc_gateway_state` takes its values. -/
inductive GatewayState where
  | default
  | normal
  | failed
  | ended
  deriving DecidableEq, Repr

/-- `uc_gw_info_t`. -/
structure GwInfo where
  gwId : BitVec 32
  pof : BitVec 32
  tsFn : BitVec 16
  resendTimes : Byte
  ulMcs : Byte
  deriving DecidableEq, Repr

/-- A message that `uc_wiota_send_data` is called with, before its coding. -/
structure Uplink where
  psHeader : PsHeader
  data : List Byte
  deriving DecidableEq, Repr

/-- Calls into the radio stack that change what is not a field of `Device`. -/
inductive StackCall where
  | saveStaticInfo
  | setSmResendTimes (resendTimes : Byte)
  | setDataRate (mcs : Byte)
  | suspendConnect
  | recoverConnect
  | hardSwitchToActive
  deriving DecidableEq, Repr

/-- A place with a call through a callback pointer, with the arguments of the call. The sites of
the OTA handlers are in their own history. -/
inductive CallSite where
  | exceReport (state : GatewayState)
  | userRecv (data : List Byte) (dataType : Byte)
  | rtc (time : List Byte)
  deriving DecidableEq, Repr

/-- `world` holds the OTA fields of `gateway_mode` and the connect flag, `gwInfo`, `userid`,
`frameNum` and `stackActiveTime` what the stack keeps. -/
structure Device where
  world : World
  gatewayState : GatewayState
  gwInfo : GwInfo
  userid : BitVec 32
  frameNum : BitVec 32
  stackActiveTime : BitVec 32
  activeTime : BitVec 32
  gwVerity : Bool
  isForceActive : Bool
  isTsMode : Bool
  authPeriod : Byte
  authTsFn : BitVec 16
  authCode : Vector Byte 16
  gwFreqList : Vector Byte 8
  uplinks : List Uplink
  stackCalls : List StackCall
  sites : List CallSite

/-- What does not change: the OTA environment but for the user id, the compression, and the size
of `time_t`. -/
structure Board where
  env : Env
  lz : FastLz
  sizeofTime : ℕ

/-- What the stack answers while a message is sent: the allocations of its coding, the radio
state, the end of the wait for the time slot, the result of the radio, and `rand()`. -/
structure SendAnswer where
  alloc : ℕ → Bool
  synced : Bool
  slotReached : Bool
  sent : Bool
  rand : ℕ

def Device.callStack (c : StackCall) (dev : Device) : Device :=
  { dev with stackCalls := c :: dev.stackCalls }

def Device.reach (s : CallSite) (dev : Device) : Device := { dev with sites := s :: dev.sites }

def Device.setFlag (flag : ConnectFlag) (dev : Device) : Device :=
  { dev with world := { dev.world with connectFlag := flag } }

/-- The OTA environment with the present user id. -/
def Board.envOf (board : Board) (dev : Device) : Env := { board.env with userid := dev.userid }

/-- `uc_wiota_gateway_calc_auth_time_slot_fn`; a division by zero leaves the dividend as the
remainder, and the slot is then a multiple of a zero period. -/
def ucWiotaGatewayCalcAuthTimeSlotFn (answer : SendAnswer) (dev : Device) : Device :=
  if dev.isTsMode then
    let pof := dev.gwInfo.pof.toNat
    let authPeriod := dev.authPeriod.toNat
    let authTsNum := BitVec.ofNat 32 (pof / authPeriod + if pof % authPeriod ≠ 0 then 1 else 0)
    let slot := (answer.rand : ℤ).tmod authTsNum.toInt * authPeriod
    { dev with authTsFn := BitVec.ofInt 16 slot }
  else dev

/-- `uc_wiota_gateway_send_ps_cmd_data`, with its answer. -/
def ucWiotaGatewaySendPsCmdData (board : Board) (answer : SendAnswer) (data : List Byte)
    (psHeader : PsHeader) (dev : Device) : Bool × Device :=
  match appDataCoding board.lz answer.alloc psHeader data with
  | .error _ => (false, dev)
  | .ok _ =>
    if !answer.synced then (false, dev)
    else if dev.isTsMode && !answer.slotReached then (false, dev)
    else (answer.sent, { dev with uplinks := ⟨psHeader, data⟩ :: dev.uplinks })

/-- `uc_wiota_gateway_set_id`: the random id it may draw is overwritten before its use. -/
def ucWiotaGatewaySetId (board : Board) (dev : Device) : Device :=
  { dev with userid := board.env.devAddress }

/-- `app_ps_auth_req_t` with `auth_type` 0. -/
structure AuthReq where
  autCode : Vector Byte 16
  freq : Vector Byte 8
  deriving DecidableEq, Repr

def AuthReq.bytes (req : AuthReq) : List Byte :=
  bytesOf 0#32 ++ req.autCode.toList ++ req.freq.toList

/-- The text at `auth_code`: behind a code that fills its array stands the device type. -/
def authCodeText (dev : Device) : List Byte :=
  (dev.authCode.toList ++ DEVICE_TYPE).takeWhile (· ≠ 0#8)

/-- `rt_strncpy(dst, src, n)` into `n` characters: zeros from the first zero of `src` on. -/
def strncpyChars {n : ℕ} (src : Vector Byte n) : Vector Byte n :=
  Vector.ofFn fun i => (textOf src).getD i 0#8

/-- The request that `uc_wiota_gateway_send_auth_req` fills in. What the code writes behind its
array is overwritten by the copy of the frequencies. -/
def authReqOf (dev : Device) : AuthReq where
  autCode := rtStrncpy (Vector.replicate 16 0#8) (authCodeText dev)
  freq := strncpyChars dev.gwFreqList

/-- The header of that request. -/
def authReqHeader (board : Board) : PsHeader :=
  { PsHeader.zero with
    property := { PsHeader.zero.property with isSrcAddr := true }
    srcAddr := board.env.devAddress, cmdType := 1#8 }

/-- `uc_wiota_gateway_send_auth_req`. -/
def ucWiotaGatewaySendAuthReq (board : Board) (answer : SendAnswer) (dev : Device) :
    Bool × Device :=
  let dev := ucWiotaGatewaySetId board dev
  let authReqData := authReqOf dev
  ucWiotaGatewaySendPsCmdData board answer authReqData.bytes (authReqHeader board)
    (ucWiotaGatewayCalcAuthTimeSlotFn answer dev)

/-- `e_auth_state`. -/
inductive AuthState where
  | suc
  | noData
  | fail
  | infoChange
  | reconnect
  | other
  deriving DecidableEq, Repr

def AuthState.ofByte (state : Byte) : AuthState :=
  if state = 0#8 then .suc
  else if state = 1#8 then .noData
  else if state = 2#8 then .fail
  else if state = 3#8 then .infoChange
  else if state = 4#8 then .reconnect
  else .other

/-- The first success of an authentication in `uc_wiota_gateway_auth_res_msg`. -/
def acceptAuth (timeSlotFn : BitVec 16) (wiotaId gwId : BitVec 32) (dev : Device) : Device :=
  let dev := { dev with gwInfo := { dev.gwInfo with gwId := gwId, tsFn := timeSlotFn } }
  let dev :=
    if wiotaId ≠ 0#32 then
      { dev with userid := wiotaId, gatewayState := .normal }.callStack .saveStaticInfo
    else { dev with gatewayState := .normal }
  if dev.isTsMode then
    { dev with activeTime := dev.stackActiveTime, stackActiveTime := 3600#32 }.callStack
      .hardSwitchToActive
  else dev

/-- The call of the state report with the present state. -/
def Device.reportState (dev : Device) : Device := dev.reach (.exceReport dev.gatewayState)

/-- `uc_wiota_gateway_auth_res_msg`. -/
def ucWiotaGatewayAuthResMsg (board : Board) (answer : SendAnswer) (data : Buffer)
    (gwId : BitVec 32) (dev : Device) : Device :=
  match AuthState.ofByte (data.byte 0) with
  | .suc =>
    if dev.gatewayState = .normal then dev
    else (acceptAuth (data.half 2) (data.word 4) gwId dev).reportState
  | .noData | .fail => { dev with gatewayState := .failed }.reportState
  | .infoChange => (dev.callStack .saveStaticInfo).reportState
  | .reconnect => (ucWiotaGatewaySendAuthReq board answer dev).2.reportState
  | .other => dev.reportState

/-- `uc_wiota_gateway_recv_dl_msg`. -/
def ucWiotaGatewayRecvDlMsg (data : List Byte) (responseFlag : Bool) (dataType : Byte)
    (dev : Device) : Device :=
  if responseFlag then dev else dev.reach (.userRecv data dataType)

/-- The header of a message to the gateway, which names it when `gw_verity` is on. -/
def uplinkHeader (cmdType : Byte) (dev : Device) : PsHeader :=
  let psHeader := { PsHeader.zero with cmdType := cmdType }
  if dev.gwVerity then
    { psHeader with
      property := { psHeader.property with isDestAddr := true }, destAddr := dev.gwInfo.gwId }
  else psHeader

/-- `uc_wiota_gateway_send_data`. -/
def ucWiotaGatewaySendData (board : Board) (answer : SendAnswer) (data : List Byte)
    (dev : Device) : Bool × Device :=
  if GATEWAY_SEND_MAX_LEN < data.length ∨ data = [] then (false, dev)
  else if !dev.isForceActive && !answer.synced then (false, dev)
  else if dev.gatewayState ≠ .normal ∨ dev.world.ota.otaState = .program then (false, dev)
  else if dev.world.connectFlag = .connectSucess then
    let psHeader := uplinkHeader 100#8 dev
    let psHeader := { psHeader with property := { psHeader.property with compressFlag := true } }
    match appDataCoding board.lz answer.alloc psHeader data with
    | .error _ => (false, dev)
    | .ok _ =>
      if dev.isTsMode && !answer.slotReached then (false, dev)
      else (answer.sent, { dev with uplinks := ⟨psHeader, data⟩ :: dev.uplinks })
  else (false, dev)

/-- `app_ps_iote_version_t`. -/
def versionData (board : Board) : List Byte :=
  bytesOf board.env.devAddress ++ (List.range 16).map fun i => board.env.version.getD i 0#8

/-- `uc_wiota_gateway_version_msg`. -/
def ucWiotaGatewayVersionMsg (board : Board) (answer : SendAnswer) (dev : Device) : Device :=
  if dev.world.connectFlag = .connectSucess then
    (ucWiotaGatewaySendPsCmdData board answer (versionData board) (uplinkHeader 151#8 dev) dev).2
  else dev

/-- A step of the OTA handlers inside the device. -/
def Device.otaStep (board : Board) (e : OtaEvent) (dev : Device) : Outcome HaltReason Device :=
  (GatewayOta.otaStep (board.envOf dev) dev.world e).map fun w => { dev with world := w }

/-- A received packet with what its handling meets: the allocations of its decoding, the memory
behind the packet's payload and behind `mask_map`, and the answers to a message sent for it. -/
structure DlPacket where
  data : Buffer
  dataType : Byte
  alloc : ℕ → Bool
  heap : ℕ → Byte
  ram : ℕ → Byte
  answer : SendAnswer

/-- The decoded payload of the packet. -/
def DlPacket.payload (packet : DlPacket) (d : Decoded) : Buffer :=
  ⟨d.outputData.getD [], packet.heap⟩

/-- The `switch` of `uc_wiota_gateway_analisys_dl_msg`. -/
def dispatch (board : Board) (packet : DlPacket) (d : Decoded) (dev : Device) :
    Outcome HaltReason Device :=
  let payload := packet.payload d
  match PsCmd.ofByte d.psHeader.cmdType with
  | .authenticationRes =>
    .next (ucWiotaGatewayAuthResMsg board packet.answer payload d.psHeader.srcAddr dev)
  | .otaUpgradeReq => dev.otaStep board (.upgradeReq (upgradeReqOf payload) packet.ram)
  | .otaUpgradeStop => dev.otaStep board (.upgradeStop (upgradeStopOf payload))
  | .otaUpgradeState => dev.otaStep board (.upgradeState (upgradeStateOf payload) packet.ram)
  | .ioteGetRtc => .next (dev.reach (.rtc ((List.range board.sizeofTime).map payload.byte)))
  | .ioteUserData =>
    .next (ucWiotaGatewayRecvDlMsg payload.bytes d.psHeader.property.responseFlag packet.dataType dev)
  | .ioteLoopData => .next (ucWiotaGatewaySendData board packet.answer payload.bytes dev).2
  | .ioteVersionReq => .next (ucWiotaGatewayVersionMsg board packet.answer dev)
  | .authenticationBcTimeSlot => .next { dev with frameNum := payload.word 8 }
  | .iotePagingTxCtrl => .next ((dev.callStack .suspendConnect).callStack .recoverConnect)
  | .other => .next dev

/-- `uc_wiota_gateway_analisys_dl_msg`. -/
def ucWiotaGatewayAnalisysDlMsg (board : Board) (packet : DlPacket) (dev : Device) :
    Outcome HaltReason Device :=
  match appDataDecoding board.lz packet.alloc packet.data .zero with
  | .error _ => .next dev
  | .ok d =>
    if dev.gwVerity ∧ PsCmd.ofByte d.psHeader.cmdType ≠ .authenticationRes ∧
        d.psHeader.srcAddr ≠ dev.gwInfo.gwId then
      .next dev
    else dispatch board packet d dev

/-- The device before its first start, with its address as the user id. -/
def Device.boot (board : Board) (flash : OtaFlash.Flash) : Device where
  world := { World.boot flash with connectFlag := .noConnect }
  gatewayState := .default
  gwInfo := ⟨0, 0, 0, 0, 0⟩
  userid := board.env.devAddress
  frameNum := 0
  stackActiveTime := 0
  activeTime := 0
  gwVerity := false
  isForceActive := false
  isTsMode := false
  authPeriod := 0
  authTsFn := 0
  authCode := Vector.replicate 16 0#8
  gwFreqList := Vector.replicate 8 0#8
  uplinks := []
  stackCalls := []
  sites := []

/-- The standard device with a compression that stores literally. -/
def Board.demo : Board := ⟨.demo, .literal, 8⟩

def demoFlash : OtaFlash.Flash := ⟨fun _ => 0, []⟩

/-- A message goes out at once. -/
def SendAnswer.demo : SendAnswer := ⟨fun _ => true, true, true, true, 0⟩

/-- A packet that is handled without a fault. -/
def DlPacket.of (bytes : List Byte) : DlPacket where
  data := ⟨bytes, fun _ => 0⟩
  dataType := 0
  alloc := fun _ => true
  heap := fun _ => 0
  ram := fun _ => 0
  answer := .demo

end WiotaDev.GatewayDevice
