import WiotaDev.GatewayDevice
import WiotaDev.GatewayLifecycle

/-! # The authentication of a start (`uc_wiota_gateway_api.c`)

`uc_wiota_gateway_auth` and `uc_wiota_gateway_start` over the whole gateway, driven by what the
queue, the clock and the stack answer round by round. -/

namespace WiotaDev.GatewayStart
open WordBytes HaltingRuns GatewayOta PacketCoding Downlink GatewayDevice GatewayLifecycle

def GATEWAY_WAIT_AUTH_TIMEOUT : ℕ := 6000
def GATEWAY_WAIT_BC_TIME_SLOT_TIMEOUT : ℕ := 10 * 1000

/-- A message in the queue: a received packet, or a message of another type. -/
inductive QueuedMsg where
  | dlRecv (packet : DlPacket)
  | other

/-- A round of the loop of `uc_wiota_gateway_auth`: the tick at its head, what the queue yields
before its timeout, and the tick after a request sent in the round. -/
structure AuthRound where
  tick : BitVec 32
  recv : Option QueuedMsg
  tickAfter : BitVec 32

/-- The radio state before an attempt, the answers to its first request, the tick before its loop,
and its rounds. After the last one the queue stays empty. -/
structure AuthAttempt where
  synced : Bool
  answer : SendAnswer
  tick : BitVec 32
  rounds : List AuthRound

/-- The variables of that loop. -/
structure AuthWait where
  timeSlotState : Byte
  timeout : ℕ
  rememberTick : BitVec 32

/-- `rt_tick_get() - remember_tick < timeout`. -/
def AuthWait.inTime (wait : AuthWait) (tick : BitVec 32) : Bool :=
  (tick - wait.rememberTick).toNat < wait.timeout

/-- The return value behind the loop. -/
def authReturn (dev : Device) : ℕ := if dev.gatewayState = .normal then 0 else 4

/-- The first broadcast of the time slots in `uc_wiota_gateway_auth`. -/
def takeTimeSlots (tsInfo : Buffer) (dev : Device) : Device :=
  let dev := { dev with
    frameNum := tsInfo.word 8
    gwInfo := { dev.gwInfo with
      pof := tsInfo.word 0, resendTimes := tsInfo.byte 5, ulMcs := tsInfo.byte 6 }
    authPeriod := tsInfo.byte 4 }
  (dev.callStack (.setSmResendTimes dev.gwInfo.resendTimes)).callStack
    (.setDataRate dev.gwInfo.ulMcs)

/-- How a round of the loop ends: the function returns, or the loop goes on. -/
inductive RoundEnd where
  | returns (ret : ℕ) (dev : Device)
  | goesOn (wait : AuthWait) (dev : Device)

/-- The device after a round. -/
def RoundEnd.dev : RoundEnd → Device
  | .returns _ dev => dev
  | .goesOn _ dev => dev

/-- The `switch` over a decoded packet, and what follows it in the round. -/
def authSwitch (board : Board) (mode : GatwayMode) (packet : DlPacket) (d : Decoded)
    (tickAfter : BitVec 32) (wait : AuthWait) (dev : Device) : RoundEnd :=
  let payload := packet.payload d
  match PsCmd.ofByte d.psHeader.cmdType with
  | .authenticationRes =>
    let dev := ucWiotaGatewayAuthResMsg board packet.answer payload d.psHeader.srcAddr dev
    .returns (authReturn dev) dev
  | .authenticationBcTimeSlot =>
    if mode = .timeSlot ∧ wait.timeSlotState = 0#8 then
      match ucWiotaGatewaySendAuthReq board packet.answer (takeTimeSlots payload dev) with
      | (false, dev) => .returns 1 dev
      | (true, dev) => .goesOn ⟨0xff#8, GATEWAY_WAIT_AUTH_TIMEOUT, tickAfter⟩ dev
    else .goesOn wait dev
  | _ => .goesOn wait dev

/-- A round of the loop of `uc_wiota_gateway_auth`. -/
def authRound (board : Board) (mode : GatwayMode) (round : AuthRound) (wait : AuthWait)
    (dev : Device) : RoundEnd :=
  if wait.inTime round.tick then
    match round.recv with
    | none => .returns 2 dev
    | some .other => .goesOn wait dev
    | some (.dlRecv packet) =>
      match appDataDecoding board.lz packet.alloc packet.data .zero with
      | .error _ => .returns 3 dev
      | .ok d => authSwitch board mode packet d round.tickAfter wait dev
  else .returns (authReturn dev) dev

/-- The loop of `uc_wiota_gateway_auth`, with its return value. -/
def authWaitLoop (board : Board) (mode : GatwayMode) : AuthWait → List AuthRound → Device → ℕ × Device
  | _, [], dev => (2, dev)
  | wait, round :: rounds, dev =>
    match authRound board mode round wait dev with
    | .returns ret dev => (ret, dev)
    | .goesOn wait dev => authWaitLoop board mode wait rounds dev

/-- `uc_wiota_gateway_auth`. -/
def ucWiotaGatewayAuth (board : Board) (mode : GatwayMode) (attempt : AuthAttempt) (dev : Device) :
    ℕ × Device :=
  if mode = .gateway then
    match ucWiotaGatewaySendAuthReq board attempt.answer dev with
    | (false, dev) => (1, dev)
    | (true, dev) =>
      authWaitLoop board mode ⟨0#8, GATEWAY_WAIT_AUTH_TIMEOUT, attempt.tick⟩ attempt.rounds dev
  else
    authWaitLoop board mode ⟨0#8, GATEWAY_WAIT_BC_TIME_SLOT_TIMEOUT, attempt.tick⟩ attempt.rounds dev

/-- The retries of `uc_wiota_gateway_start` from attempt `i` on, with `re_auth_count` left: the
return values of the attempts made, and whether the start goes on behind them. -/
def reAuthLoop (board : Board) (mode : GatwayMode) (attempts : ℕ → AuthAttempt) (i : ℕ) :
    ℕ → Device → List ℕ × Bool × Device
  | 0, dev => ([], false, dev)
  | reAuthCount + 1, dev =>
    if !(attempts i).synced then ([], false, dev)
    else
      match ucWiotaGatewayAuth board mode (attempts i) dev with
      | (0, dev) => ([0], decide (reAuthCount ≠ 0), dev)
      | (ret, dev) =>
        let (rets, goesOn, dev) := reAuthLoop board mode attempts (i + 1) reAuthCount dev
        (ret :: rets, goesOn, dev)

/-- A key of at most 16 characters. -/
structure AuthKey where
  text : List Byte
  text_nonzero : 0#8 ∉ text
  length_le : text.length ≤ 16

/-- A call of the start: its arguments, and what the rest of the device answers. The semaphore of
the time slots is created, which the start asserts. -/
structure StartRequest where
  mode : GatwayMode
  authKey : Option AuthKey
  freqList : Option (Vector Byte 8)
  awakened : Bool
  synced : Bool
  queueCreated : Bool
  attempts : ℕ → AuthAttempt
  timerCreated : Bool
  autoConnect : Bool
  threadCreated : Bool

/-- `is_send_auth`, after the mode is looked at. -/
def StartRequest.isSendAuth (call : StartRequest) : Bool :=
  match call.mode with
  | .gateway => true
  | .transmission => false
  | _ => !call.awakened

/-- The part of `uc_wiota_gateway_start` that clears `gateway_mode`. -/
def initGatewayMode (authKey : AuthKey) (dev : Device) : Device :=
  { dev with
    world := { dev.world with ota := { (World.boot dev.world.flash).ota with
      missDataContinueCouter := dev.world.ota.missDataContinueCouter } }
    activeTime := 0, isTsMode := false, authPeriod := 0, authTsFn := 0
    authCode := rtStrncpy (Vector.replicate 16 0#8) authKey.text }

/-- The part between the creation of the queue and the authentication. -/
def enterAttempt (mode : GatwayMode) (dev : Device) : Device :=
  Device.setFlag .attemptConnect { dev with isTsMode := decide (mode = .timeSlot) }

/-- `uc_wiota_gateway_start` from `UC_GW_CONNECT_SUCESS` on. -/
def finishStartRequest (call : StartRequest) (dev : Device) : StartResult × Device :=
  let dev := Device.setFlag .connectSucess dev
  if !call.timerCreated then (.createMisstimerFail, dev)
  else if !call.autoConnect && !call.threadCreated then (.createTaskFail, dev)
  else
    let dev := { dev with gwFreqList := call.freqList.getD dev.gwFreqList }
    if call.isSendAuth then (.ok, dev) else (.ok, { dev with gatewayState := .normal })

/-- `uc_wiota_gateway_start`: the return values of the attempts made, the result, and the device. -/
def startGateway (board : Board) (call : StartRequest) (dev : Device) :
    List ℕ × StartResult × Device :=
  if dev.world.connectFlag = .noConnect ∧ call.mode ≠ .other then
    if !dev.isForceActive && !call.synced then ([], .noConnect, dev)
    else
      match call.authKey with
      | none => ([], .noKey, dev)
      | some authKey =>
        let dev := initGatewayMode authKey dev
        if !call.queueCreated then ([], .createQueueFail, dev)
        else
          let dev := enterAttempt call.mode dev
          if call.isSendAuth then
            match reAuthLoop board call.mode call.attempts 0 3 dev with
            | (rets, false, dev) => (rets, .authFail, dev)
            | (rets, true, dev) => (rets, finishStartRequest call dev)
          else ([], finishStartRequest call (ucWiotaGatewaySetId board dev))
  else ([], .otherFail, dev)

/-- `uc_gateway_clean_data`, with the flag that the task leaves. -/
def endGateway (exitReceived taskRuns : Bool) (dev : Device) : Device :=
  let dev := Device.setFlag (if taskRuns && !exitReceived then .connectFail else .noConnect) dev
  let dev := if dev.isTsMode then { dev with stackActiveTime := dev.activeTime } else dev
  { dev with gatewayState := .ended }

/-- The device, and whether a task is in `uc_wiota_gateway_api_handle`. -/
structure Node where
  dev : Device
  taskRuns : Bool

/-- The calls and messages of the life of the gateway. `judged`: the task leaves its loop because
of the radio state. `stack`: the application or the radio changes what the stack keeps. -/
inductive NodeEvent where
  | start (call : StartRequest)
  | gatewayEnd (exitReceived : Bool)
  | taskRecv (packet : DlPacket)
  | missDataReq (sent : Bool) (ram : ℕ → Byte)
  | taskBreak (judged : Bool)
  | setVerity (isOpen : Bool)
  | setForceActice (isForceActive : Bool)
  | stack (gwInfo : GwInfo) (userid frameNum activeTime : BitVec 32)

/-- The end of the task without an exit message. -/
def breakTask (judged : Bool) (dev : Device) : Device :=
  let dev := if judged then { dev with gatewayState := .failed } else dev
  Device.setFlag .connectFail dev

def nodeStep (board : Board) (node : Node) : NodeEvent →
    Outcome GatewayOta.HaltReason Node
  | .start call =>
    match startGateway board call node.dev with
    | (_, result, dev) => .next ⟨dev, node.taskRuns || decide (result = .ok)⟩
  | .gatewayEnd exitReceived =>
    if node.dev.world.connectFlag = .noConnect then .next node
    else .next ⟨endGateway exitReceived node.taskRuns node.dev, false⟩
  | .taskRecv packet =>
    if node.taskRuns then
      (ucWiotaGatewayAnalisysDlMsg board packet node.dev).map fun dev => ⟨dev, true⟩
    else .next node
  | .missDataReq sent ram =>
    if node.taskRuns then
      (node.dev.otaStep board (.missDataReq sent ram)).map fun dev => ⟨dev, true⟩
    else .next node
  | .taskBreak judged => .next (if node.taskRuns then ⟨breakTask judged node.dev, false⟩ else node)
  | .setVerity isOpen => .next { node with dev := { node.dev with gwVerity := isOpen } }
  | .setForceActice isForceActive =>
    .next { node with dev := { node.dev with isForceActive := isForceActive } }
  | .stack gwInfo userid frameNum activeTime =>
    .next { node with dev := { node.dev with
      gwInfo := gwInfo, userid := userid, frameNum := frameNum, stackActiveTime := activeTime } }

/-- A step of the task handles its message while the task runs, and is none otherwise. -/
theorem task_next {node node' : Node} {o : Outcome GatewayOta.HaltReason Device}
    (h : (if node.taskRuns then o.map fun dev => ⟨dev, true⟩ else .next node) = .next node') :
    (node.taskRuns = true ∧ ∃ dev', o = .next dev' ∧ ⟨dev', true⟩ = node') ∨
      ¬ node.taskRuns = true ∧ node = node' := by
  by_cases hruns : node.taskRuns = true
  · rw [if_pos hruns] at h
    exact .inl ⟨hruns, Outcome.map_eq_next.mp h⟩
  · rw [if_neg hruns] at h
    exact .inr ⟨hruns, Outcome.next.inj h⟩

def Node.boot (board : Board) (flash : OtaFlash.Flash) : Node := ⟨Device.boot board flash, false⟩

end WiotaDev.GatewayStart
