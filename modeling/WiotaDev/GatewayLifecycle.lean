import WiotaDev.GatewayOta
import WiotaDev.ResourceLedger

/-! # Starting and ending the gateway (`uc_wiota_gateway_api.c`)

`uc_wiota_gateway_start` and `uc_wiota_gateway_end` over the message queue, the frame-number
semaphore and the OTA timer that they create and free, with what the receive callback, the OTA
timer and the gateway task do to these resources between the calls. -/

namespace WiotaDev.GatewayLifecycle
open ResourceLedger HaltingRuns GatewayOta

/-- `uc_gateway_start_result`, as far as the start returns it. -/
inductive StartResult where
  | ok
  | noConnect
  | noKey
  | createQueueFail
  | createMisstimerFail
  | createTaskFail
  | authFail
  | otherFail
  deriving DecidableEq, Repr

/-- What is registered for normal messages. -/
inductive RecvCallback where
  | null
  | wiotaRecvCallback
  | gatewayRecvDataCallback
  deriving DecidableEq, Repr

/-- The connect flag, the registered callback, and the fields of `gateway_mode` that decide
about resources. `taskRuns` says that a task is in `uc_wiota_gateway_api_handle`. -/
structure Session where
  connectFlag : ConnectFlag
  gatewayMode : Bool
  gatewayHandler : Bool
  gatewayMq : Option ℕ
  fnRefreshSem : Option ℕ
  otaTimer : Option ℕ
  isForceActive : Bool
  isTsMode : Bool
  recvCallback : RecvCallback
  taskRuns : Bool
  ledger : Ledger

/-- One round of the authentication: the radio state before it and its success. -/
structure AuthAttempt where
  synced : Bool
  succeeds : Bool
  deriving DecidableEq, Repr

/-- A call of the start: its arguments, and what the rest of the device answers. -/
structure StartCall where
  mode : GatwayMode
  authKey : Bool
  awakened : Bool
  synced : Bool
  queueCreated : Bool
  semCreated : Bool
  attempts : ℕ → AuthAttempt
  timerCreated : Bool
  autoConnect : Bool
  threadCreated : Bool

inductive HaltReason where
  | assertFailed
  deriving DecidableEq, Repr

/-- `uc_wiota_gateway_dele_queue(gateway_mq)`: the queue is detached and freed, and the pointer
stays. -/
def deleQueue (w : Session) : Session :=
  { w with ledger := (w.ledger.usePtr w.gatewayMq).freePtr w.gatewayMq }

/-- `uc_wiota_gateway_del_fn_sem`. -/
def delFnSem (w : Session) : Session :=
  { w with ledger := w.ledger.freePtr w.fnRefreshSem, fnRefreshSem := none }

/-- `rt_timer_delete(gateway_mode.ota_timer)`. -/
def deleteOtaTimer (w : Session) : Session :=
  { w with ledger := w.ledger.freePtr w.otaTimer }

/-- A message is sent to or received from the queue. -/
def useQueue (w : Session) : Session := { w with ledger := w.ledger.usePtr w.gatewayMq }

def useFnSem (w : Session) : Session := { w with ledger := w.ledger.usePtr w.fnRefreshSem }

/-- The timer is stopped, or set and started. -/
def useOtaTimer (w : Session) : Session := { w with ledger := w.ledger.usePtr w.otaTimer }

/-- `uc_wiota_gateway_wait_send_time_slot`, which waits on the semaphore if there is one. -/
def waitSendTimeSlot (w : Session) : Session := if w.isTsMode then useFnSem w else w

/-- The `memset` of `gateway_mode`, which keeps `is_force_active`. -/
def initPara (w : Session) : Session :=
  { w with
    gatewayMode := true, gatewayHandler := false, gatewayMq := none, fnRefreshSem := none
    otaTimer := none, isTsMode := false }

def createQueue (w : Session) : Session :=
  { w with gatewayMq := some w.ledger.next, ledger := w.ledger.create }

def createFnSem (w : Session) : Session :=
  { w with isTsMode := true, fnRefreshSem := some w.ledger.next, ledger := w.ledger.create }

def createOtaTimer (w : Session) : Session :=
  { w with otaTimer := some w.ledger.next, ledger := w.ledger.create }

/-- `is_send_auth`, after the mode is looked at. -/
def StartCall.isSendAuth (call : StartCall) : Bool :=
  match call.mode with
  | .gateway => true
  | .transmission => false
  | _ => !call.awakened

/-- `uc_wiota_gateway_auth`: it sends, in its time slot, and waits on the queue. -/
def gatewayAuth (w : Session) : Session := useQueue (waitSendTimeSlot w)

/-- The authentication loop from attempt `i` on, with `re_auth_count` attempts left; the flag
says that it does not end in `UC_GATEWAY_AUTH_FAIL`. -/
def authLoop (attempts : ℕ → AuthAttempt) (i : ℕ) : ℕ → Session → Bool × Session
  | 0, w => (false, w)
  | reAuthCount + 1, w =>
    if !(attempts i).synced then (false, w)
    else
      let w := gatewayAuth w
      if (attempts i).succeeds then (decide (reAuthCount ≠ 0), w)
      else authLoop attempts (i + 1) reAuthCount w

/-- `uc_wiota_gw_task`. -/
def gwTask (call : StartCall) (w : Session) : Bool × Session :=
  if call.autoConnect then (true, { w with taskRuns := true })
  else if call.threadCreated then (true, { w with gatewayHandler := true, taskRuns := true })
  else (false, { w with gatewayHandler := false })

/-- `uc_wiota_gateway_start` from `UC_GW_CONNECT_SUCESS` on. -/
def finishStart (call : StartCall) (w : Session) : StartResult × Session :=
  let w : Session := { w with connectFlag := .connectSucess }
  if !call.timerCreated then (.createMisstimerFail, delFnSem (deleQueue w))
  else
    match gwTask call (createOtaTimer w) with
    | (false, w) => (.createTaskFail, delFnSem (deleteOtaTimer (deleQueue w)))
    | (true, w) => (.ok, w)

/-- `uc_wiota_gateway_start` from the registration of the callback on. -/
def attemptStart (call : StartCall) (w : Session) : StartResult × Session :=
  let w : Session := { w with recvCallback := .gatewayRecvDataCallback, connectFlag := .attemptConnect }
  if call.isSendAuth && (call.mode = .gateway || call.mode = .timeSlot) then
    match authLoop call.attempts 0 3 w with
    | (false, w) => (.authFail, w)
    | (true, w) => finishStart call w
  else finishStart call w

/-- `uc_wiota_gateway_start`. -/
def ucWiotaGatewayStart (call : StartCall) (w : Session) :
    Outcome HaltReason (StartResult × Session) :=
  if w.connectFlag = .noConnect ∧ call.mode ≠ .other then
    if !w.isForceActive && !call.synced then .next (.noConnect, w)
    else if !call.authKey then .next (.noKey, w)
    else
      let w := initPara w
      if !call.queueCreated then .next (.createQueueFail, w)
      else
        let w := createQueue w
        if call.mode = .timeSlot then
          if !call.semCreated then .halt .assertFailed (.ok, { w with isTsMode := true })
          else .next (attemptStart call (createFnSem w))
        else .next (attemptStart call w)
  else .next (.otherFail, w)

/-- The timer, semaphore and queue part of `uc_gateway_clean_data`, where a null pointer is
passed over. -/
def releaseAll (w : Session) : Session :=
  let w : Session := { deleteOtaTimer w with otaTimer := none }
  let w : Session := { delFnSem w with gatewayHandler := false, gatewayMode := false }
  { deleQueue (useQueue w) with gatewayMq := none }

/-- `uc_gateway_clean_data`. A task that leaves its loop before it receives the exit message, or
that is told to leave it because the queue is full, sets the connect flag behind the call. -/
def gatewayCleanData (exitReceived : Bool) (w : Session) : Session :=
  let w : Session := { w with recvCallback := .null, connectFlag := .noConnect }
  let w : Session :=
    { useQueue w with
      connectFlag := if w.taskRuns && !exitReceived then .connectFail else .noConnect
      taskRuns := false, recvCallback := .wiotaRecvCallback }
  releaseAll w

/-- `uc_wiota_gateway_end`. -/
def ucWiotaGatewayEnd (exitReceived : Bool) (w : Session) : Session :=
  if w.connectFlag ≠ .noConnect then gatewayCleanData exitReceived w else w

/-- `exitReceived`: the task, if it runs, ends with the exit message. `slotReached`: a sender waits
for the frame number that is reported. `controlsTimer`: the message changes the OTA timer. -/
inductive LifecycleEvent where
  | start (call : StartCall)
  | gatewayEnd (exitReceived : Bool)
  | recvFnChange (slotReached : Bool)
  | recvMsg
  | otaTimeout
  | taskRecv (controlsTimer : Bool)
  | send
  | taskBreak
  | setForceActive (isForceActive : Bool)

/-- `uc_wiota_gateway_recv_data_callback`, when it is the registered one. -/
def recvFnChange (slotReached : Bool) (w : Session) : Session :=
  if w.recvCallback = .gatewayRecvDataCallback ∧ w.isTsMode ∧ slotReached then useFnSem w else w

def recvMsg (w : Session) : Session :=
  if w.recvCallback = .gatewayRecvDataCallback then useQueue w else w

instance (w : Session) : Decidable (∃ h ∈ w.otaTimer, h ∈ w.ledger.live) :=
  match hw : w.otaTimer with
  | none => .isFalse (by simp)
  | some h => decidable_of_iff (h ∈ w.ledger.live) (by simp)

/-- `uc_wiota_gateway_handle_ota_recv_timer_msg`, which a timer that exists can call. -/
def otaTimeout (w : Session) : Session :=
  if (∃ h ∈ w.otaTimer, h ∈ w.ledger.live) ∧ w.connectFlag = .connectSucess then useQueue w
  else w

/-- A round of the loop of `uc_wiota_gateway_api_handle`. -/
def taskRecv (controlsTimer : Bool) (w : Session) : Session :=
  if w.taskRuns ∧ w.gatewayMode then
    if controlsTimer then useOtaTimer (useQueue w) else useQueue w
  else w

/-- The end of that loop without an exit message. -/
def taskBreak (w : Session) : Session :=
  if w.taskRuns then { w with connectFlag := .connectFail, taskRuns := false } else w

def lifecycleStep (w : Session) : LifecycleEvent → Outcome HaltReason Session
  | .start call => (ucWiotaGatewayStart call w).map Prod.snd
  | .gatewayEnd exitReceived => .next (ucWiotaGatewayEnd exitReceived w)
  | .recvFnChange slotReached => .next (recvFnChange slotReached w)
  | .recvMsg => .next (recvMsg w)
  | .otaTimeout => .next (otaTimeout w)
  | .taskRecv controlsTimer => .next (taskRecv controlsTimer w)
  | .send => .next (waitSendTimeSlot w)
  | .taskBreak => .next (taskBreak w)
  | .setForceActive isForceActive => .next { w with isForceActive := isForceActive }

/-- The gateway before its first start. -/
def Session.boot : Session where
  connectFlag := .noConnect
  gatewayMode := false
  gatewayHandler := false
  gatewayMq := none
  fnRefreshSem := none
  otaTimer := none
  isForceActive := false
  isTsMode := false
  recvCallback := .null
  taskRuns := false
  ledger := .empty

end WiotaDev.GatewayLifecycle
