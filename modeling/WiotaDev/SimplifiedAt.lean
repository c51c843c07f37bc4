import WiotaDev.CountingSemaphore
import WiotaDev.HaltingRuns

/-! # The simplified AT module (`at_simplified.c`)

The AT server with one command at a time, the task behind `wiota_mq` and the stack's callback,
statement by statement where they share something. The gateway appears with its connect flag, its
task and the callback it registers. -/

namespace WiotaDev.SimplifiedAt
open HaltingRuns CountingSemaphore

def RT_SEM_VALUE_MAX : ℕ := 65535

def WIOTA_MQ_MSG_QUEUE_SIZE : ℕ := 10

inductive ConnectState where
  | syncSuc
  | syncFail
  | syncLost
  deriving DecidableEq, Repr

/-- `wiota_recv_callback` and `uc_wiota_gateway_recv_data_callback`. -/
inductive Callback where
  | wiotaRecv
  | gatewayRecv
  deriving DecidableEq, Repr

/-- A message of `wiota_mq`. A scan carries the number of its command. -/
inductive Msg where
  | connect
  | scanFreq (id : ℕ)
  deriving DecidableEq, Repr

/-- Inside `at_gateway_mode_enter` (the first four) or `uc_wiota_gateway_end`, before the step
named. -/
inductive GatewayPhase where
  | starting
  | registering
  | marking
  | authenticating
  | ending
  | unregistering
  | unmarking
  | exiting
  deriving DecidableEq, Repr

/-- Inside `wiota_send_connect_msg`. -/
inductive SendPhase where
  | unregisterNormal
  | unregisterState
  | testMode
  | ending (p : GatewayPhase)
  | queueing
  deriving DecidableEq, Repr

/-- The AT server. A scan's phases carry the number of the command. -/
inductive AtPhase where
  | idle
  | testing
  | sending (p : SendPhase)
  | requesting (id : ℕ)
  | taking (id : ℕ)
  | suspended (id : ℕ)
  | judging (id : ℕ)
  | entering (p : GatewayPhase)
  | leaving (p : GatewayPhase)
  | settingMode (on : Bool)
  deriving DecidableEq, Repr

/-- `at_wiota_task_entry`. In `wiota_connect`, `left` counts the frequencies still to try. -/
inductive TaskPhase where
  | receiving
  | connecting
  | choosing
  | trying (left : ℕ)
  | joining (left : ℕ)
  | registerNormal
  | registerState
  | markSuc
  | testMode
  | entering (p : GatewayPhase)
  | markFail
  | sending (p : SendPhase)
  | scanning (id : ℕ)
  | releasing (id : ℕ)
  | testState
  | rejoining
  | resending (p : SendPhase)
  | clearing
  deriving DecidableEq, Repr

/-- What a command for a scan answered, with the scans completed by then and their results. -/
structure Reply where
  id : ℕ
  ok : Bool
  completed : List (ℕ × Bool)
  deriving DecidableEq, Repr

/-- `g_wiota_info`, the gateway's globals and the registered callbacks, the three threads, and a
history: the commands for a scan counted, the scans completed with their `scan_result`, and the
replies. `gwOpen` is `wiota_gw_connect_flag` other than `UC_GW_NO_CONNECT`. -/
structure State where
  wiotaMq : List Msg
  scanSem : Semaphore Unit
  scanResult : Bool
  isScanReq : Bool
  connnectState : ConnectState
  isGatewayMode : Bool
  gwOpen : Bool
  gwTaskRuns : Bool
  normalMsg : Option Callback
  stateInfo : Option Callback
  atServer : AtPhase
  callback : Option SendPhase
  task : TaskPhase
  commands : ℕ
  completed : List (ℕ × Bool)
  replies : List Reply

/-- The commands, with what decides about their course: another spectrum, another symbol length or
ratio, a mode other than 0. -/
inductive Command where
  | freq (newSpectrum : Bool)
  | rate (newSymbols : Bool)
  | rssi
  | gwInit (on : Bool)
  deriving DecidableEq, Repr

/-- A thread goes on with the outcome of the call it is in, `freqs` being the frequencies that the
task finds to try; the wait for a scan ends; the stack loses its sync; the gateway's task leaves its
loop by itself. -/
inductive Event where
  | command (c : Command)
  | atServer (ok : Bool)
  | scanTimeout
  | syncLost
  | callback (ok : Bool)
  | task (ok : Bool) (freqs : ℕ)
  | gatewayBreaks
  deriving DecidableEq, Repr

def wiotaSendMsg (msg : Msg) (s : State) : State :=
  if s.wiotaMq.length < WIOTA_MQ_MSG_QUEUE_SIZE then { s with wiotaMq := s.wiotaMq ++ [msg] } else s

theorem wiotaSendMsg_room {msg : Msg} {s : State} (h : s.wiotaMq.length < WIOTA_MQ_MSG_QUEUE_SIZE) :
    wiotaSendMsg msg s = { s with wiotaMq := s.wiotaMq ++ [msg] } := if_pos h

/-- What a call inside a thread does next: it goes on, or it returns its success. -/
inductive Progress where
  | goes (p : GatewayPhase)
  | returned (ok : Bool)

/-- `at_gateway_mode_enter` with `uc_wiota_gateway_start`, and `uc_wiota_gateway_end`. The outcome
`ok` tells whether the start gets as far as its callback, whether it succeeds from there, and
whether the gateway's task has taken the exit message. -/
def gatewayStep (ok : Bool) (p : GatewayPhase) (s : State) : Progress × State :=
  match p with
  | .starting => (.goes (if ok && !s.gwOpen then .registering else .ending), s)
  | .registering => (.goes .marking, { s with normalMsg := some .gatewayRecv })
  | .marking => (.goes .authenticating, { s with gwOpen := true })
  | .authenticating =>
    if ok then (.returned true, { s with gwOpen := true, gwTaskRuns := true }) else (.goes .ending, s)
  | .ending => (if s.gwOpen then .goes .unregistering else .returned false, s)
  | .unregistering => (.goes .unmarking, { s with normalMsg := none })
  | .unmarking => (.goes .exiting, { s with gwOpen := false })
  | .exiting =>
    (.returned false, { s with normalMsg := some .wiotaRecv, gwTaskRuns := s.gwTaskRuns && !ok })

def wiotaSendConnectMsg (ok : Bool) (p : SendPhase) (s : State) : Option SendPhase × State :=
  match p with
  | .unregisterNormal => (some .unregisterState, { s with normalMsg := none })
  | .unregisterState => (some .testMode, { s with stateInfo := none })
  | .testMode => (some (if s.isGatewayMode then .ending .ending else .queueing), s)
  | .ending p =>
    match gatewayStep ok p s with
    | (.goes p', s') => (some (.ending p'), s')
    | (.returned _, s') => (some .queueing, s')
  | .queueing => (none, wiotaSendMsg .connect s)

theorem gatewayStep_frame (ok : Bool) (p : GatewayPhase) (s : State) :
    (gatewayStep ok p s).2.atServer = s.atServer ∧ (gatewayStep ok p s).2.task = s.task ∧
      (gatewayStep ok p s).2.callback = s.callback := by
  cases p with
  | authenticating => cases ok <;> exact ⟨rfl, rfl, rfl⟩
  | _ => exact ⟨rfl, rfl, rfl⟩

theorem sendConnect_frame (ok : Bool) (p : SendPhase) (s : State) :
    (wiotaSendConnectMsg ok p s).2.atServer = s.atServer ∧
      (wiotaSendConnectMsg ok p s).2.task = s.task ∧
      (wiotaSendConnectMsg ok p s).2.callback = s.callback := by
  cases p with
  | unregisterNormal => exact ⟨rfl, rfl, rfl⟩
  | unregisterState => exact ⟨rfl, rfl, rfl⟩
  | testMode => exact ⟨rfl, rfl, rfl⟩
  | ending q =>
    have hframe := gatewayStep_frame ok q s
    unfold wiotaSendConnectMsg
    dsimp only
    split <;> rename_i heq <;> rwa [heq] at hframe
  | queueing =>
    unfold wiotaSendConnectMsg wiotaSendMsg
    dsimp only
    split <;> exact ⟨rfl, rfl, rfl⟩

def State.reply (id : ℕ) (ok : Bool) (s : State) : State :=
  { s with atServer := .idle, replies := ⟨id, ok, s.completed⟩ :: s.replies }

/-- `at_wiota_run`, where it asks for a connect. -/
def atWiotaRun : AtPhase := .testing

def atWiotaFreqSetup (newSpectrum : Bool) : AtPhase := if newSpectrum then atWiotaRun else .testing

def atWiotaRateSetup (newSymbols : Bool) : AtPhase := if newSymbols then atWiotaRun else .idle

def atGatewayInitSetup (on : Bool) : AtPhase := if on then .entering .starting else .leaving .ending

def beginCommand (c : Command) (s : State) : State :=
  match c with
  | .freq newSpectrum => { s with atServer := atWiotaFreqSetup newSpectrum }
  | .rate newSymbols => { s with atServer := atWiotaRateSetup newSymbols }
  | .rssi => { s with
      isScanReq := true, atServer := .requesting s.commands, commands := s.commands + 1 }
  | .gwInit on => { s with atServer := atGatewayInitSetup on }

def atStep (ok : Bool) (s : State) : State :=
  match s.atServer with
  | .idle | .suspended _ => s
  | .testing =>
    { s with
      atServer := if s.connnectState = .syncSuc then .sending .unregisterNormal else .idle }
  | .sending p =>
    { (wiotaSendConnectMsg ok p s).2 with
      atServer := (wiotaSendConnectMsg ok p s).1.elim .idle .sending }
  | .requesting id =>
    { (if ok then wiotaSendMsg (.scanFreq id) s else s) with atServer := .taking id }
  | .taking id =>
    { s with
      scanSem := (s.scanSem.take () 0).2
      atServer := if (s.scanSem.take () 0).1 then .judging id else .suspended id }
  | .judging id => s.reply id (!s.scanResult)
  | .entering p =>
    match gatewayStep ok p s with
    | (.goes p', s') => { s' with atServer := .entering p' }
    | (.returned done, s') => { s' with atServer := if done then .settingMode true else .idle }
  | .leaving p =>
    match gatewayStep ok p s with
    | (.goes p', s') => { s' with atServer := .leaving p' }
    | (.returned _, s') => { s' with atServer := .settingMode false }
  | .settingMode on => { s with isGatewayMode := on, atServer := .idle }

def taskReceive (s : State) : State :=
  match s.wiotaMq with
  | [] => s
  | .connect :: rest => { s with wiotaMq := rest, task := .connecting }
  | .scanFreq id :: rest => { s with wiotaMq := rest, task := .scanning id }

/-- A command that waits in `rt_sem_take` goes on. -/
def AtPhase.resume : AtPhase → AtPhase
  | .suspended id => .judging id
  | phase => phase

def wiotaScanDone (s : State) : State :=
  { s with
    scanSem := (s.scanSem.release RT_SEM_VALUE_MAX).2
    atServer :=
      if (s.scanSem.release RT_SEM_VALUE_MAX).1.isSome then s.atServer.resume else s.atServer }

/-- `at_wiota_task_entry` goes on, `wiota_connect` being its phases from `connecting` to
`joining`. -/
def taskStep (ok : Bool) (freqs : ℕ) (s : State) : State :=
  match s.task with
  | .receiving => taskReceive s
  | .connecting => { s with task := if s.isScanReq then .markFail else .choosing }
  | .choosing => { s with task := if ok then .joining 0 else .trying freqs }
  | .trying 0 => { s with task := .markFail }
  | .trying (left + 1) => { s with task := if s.isScanReq then .markFail else .joining left }
  | .joining left => { s with task := if ok then .registerNormal else .trying left }
  | .registerNormal => { s with normalMsg := some .wiotaRecv, task := .registerState }
  | .registerState => { s with stateInfo := some .wiotaRecv, task := .markSuc }
  | .markSuc => { s with connnectState := .syncSuc, task := .testMode }
  | .testMode => { s with task := if s.isGatewayMode then .entering .starting else .receiving }
  | .entering p =>
    match gatewayStep ok p s with
    | (.goes p', s') => { s' with task := .entering p' }
    | (.returned _, s') => { s' with task := .receiving }
  | .markFail => { s with connnectState := .syncFail, task := .sending .unregisterNormal }
  | .sending p =>
    { (wiotaSendConnectMsg ok p s).2 with
      task := (wiotaSendConnectMsg ok p s).1.elim .receiving .sending }
  | .scanning id =>
    { s with scanResult := !ok, completed := (id, !ok) :: s.completed, task := .releasing id }
  | .releasing _ => { wiotaScanDone s with task := .testState }
  | .testState =>
    { s with
      task := if s.connnectState = .syncSuc then .rejoining else .resending .unregisterNormal }
  | .rejoining => { s with task := if ok then .clearing else .resending .unregisterNormal }
  | .resending p =>
    { (wiotaSendConnectMsg ok p s).2 with
      task := (wiotaSendConnectMsg ok p s).1.elim .clearing .resending }
  | .clearing => { s with isScanReq := false, task := .receiving }

def callbackStep (ok : Bool) (s : State) : State :=
  match s.callback with
  | some p =>
    { (wiotaSendConnectMsg ok p s).2 with callback := (wiotaSendConnectMsg ok p s).1 }
  | none => s

/-- `wiota_wait_scan_done` ends without a scan. -/
def scanTimeout (s : State) : State :=
  match s.atServer with
  | .suspended id => { s with scanSem := s.scanSem.withdraw () }.reply id false
  | _ => s

/-- `wiota_recv_callback` for `UC_RECV_SYNC_LOST`, if it is registered. -/
def syncLost (s : State) : State :=
  if s.stateInfo.isSome ∧ s.callback = none then
    { s with connnectState := .syncLost, callback := some .unregisterNormal }
  else s

def step (s : State) : Event → Outcome Empty State
  | .command c => .next (if s.atServer = .idle then beginCommand c s else s)
  | .atServer ok => .next (atStep ok s)
  | .scanTimeout => .next (scanTimeout s)
  | .syncLost => .next (syncLost s)
  | .callback ok => .next (callbackStep ok s)
  | .task ok freqs => .next (taskStep ok freqs s)
  | .gatewayBreaks =>
    .next (if s.gwTaskRuns then { s with gwOpen := true, gwTaskRuns := false } else s)

/-- The module behind `at_simplified_init`. -/
def State.boot : State where
  wiotaMq := [.connect]
  scanSem := .empty
  scanResult := false
  isScanReq := false
  connnectState := .syncSuc
  isGatewayMode := false
  gwOpen := false
  gwTaskRuns := false
  normalMsg := none
  stateInfo := none
  atServer := .idle
  callback := none
  task := .receiving
  commands := 0
  completed := []
  replies := []

/-- A connect that the AT server is about to queue. -/
def AtPhase.sender : AtPhase → Option SendPhase
  | .sending p => some p
  | _ => none

def TaskPhase.sender : TaskPhase → Option SendPhase
  | .sending p | .resending p => some p
  | _ => none

/-- The task is in `wiota_connect`, or has found it failed. -/
def TaskPhase.joins : TaskPhase → Bool
  | .connecting | .choosing | .trying _ | .joining _ | .markFail => true
  | _ => false

/-- The task is connected and has not marked it yet. -/
def TaskPhase.completes : TaskPhase → Bool
  | .registerNormal | .registerState | .markSuc => true
  | _ => false

def TaskPhase.scans : TaskPhase → Bool
  | .scanning _ | .releasing _ | .testState | .rejoining | .resending _ | .clearing => true
  | _ => false

/-- The connects that are about to be queued. -/
def State.senders (s : State) : List SendPhase :=
  s.atServer.sender.toList ++ s.callback.toList ++ s.task.sender.toList

/-- A scan is queued or running. -/
def State.ScanPending (s : State) : Prop := s.task.scans ∨ ∃ id, .scanFreq id ∈ s.wiotaMq

end WiotaDev.SimplifiedAt
