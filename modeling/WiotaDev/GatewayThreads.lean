import WiotaDev.HaltingRuns
import WiotaDev.PacketCoding
import WiotaDev.ResourceLedger

/-! # The threads around the gateway's queue (`uc_wiota_gateway_api.c`)

The receive callback that fills the queue, the thread that starts and ends the gateway, and the
gateway's task, statement by statement where they share something. The buffers that pass through the
queue are kept in a ledger. A session begins when the task of the one before is gone. -/

namespace WiotaDev.GatewayThreads
open HaltingRuns PacketCoding ResourceLedger WordBytes

/-- The messages that `gateway_mq` has room for. Its pool has four bytes for each of eight messages,
and `rt_mq_init` keeps a pointer with each. -/
def GATEWAY_MQ_SIZE : ℕ := 4 * 8 / (4 + 4)

/-- A received string, with the outcome of each allocation of its decoding. -/
structure Packet where
  data : Buffer
  alloc : ℕ → Bool

/-- `uc_wiota_gateway_msg_t`: a received packet in its record, the exit message, or another one. -/
inductive QueuedMsg where
  | dlRecv (record payload : ℕ) (packet : Packet)
  | other
  | exit

/-- `gateway_mode.gateway_mq`. -/
inductive QueuePtr where
  | null
  | live (msgs : List QueuedMsg)
  | freed

/-- What `uc_gateway_clean_data` and a failing start delete. -/
inductive Resource where
  | gatewayMq
  | fnRefreshSem
  | otaTimer
  deriving DecidableEq, Repr

/-- The thread that starts and ends the gateway, before the step named. While it authenticates,
`left` is `re_auth_count`. -/
inductive Control where
  | idle
  | testingSync (left : ℕ)
  | authenticating (left : ℕ)
  | authHandling (left record payload : ℕ) (decoded : Option ℕ)
  | creatingTimer
  | creatingTask
  | forbidding
  | unmarking
  | sendingExit
  | testingRun
  | clearingRun
  | delaying
  | testingExit
  | waitingExit
  | deletingTimer
  | deletingSem
  | clearingMode
  | draining
  | deletingQueue

/-- The start of the gateway is under way. -/
def Control.starts : Control → Bool
  | .testingSync _ | .authenticating _ | .authHandling .. | .creatingTimer | .creatingTask => true
  | _ => false

/-- `uc_wiota_gateway_api_handle`, before the step named. -/
inductive TaskPhase where
  | none
  | resetting
  | marking
  | testingRun
  | testingMode
  | testingQueue
  | receiving
  | judging
  | analysing (record payload : ℕ) (packet : Packet)
  | handling (record payload : ℕ) (decoded : Option ℕ)
  | serving
  | leaving
  | acknowledging
  | ended

/-- The task is in its loop. -/
def TaskPhase.inLoop : TaskPhase → Bool
  | .testingRun | .testingMode | .testingQueue | .receiving | .judging | .analysing .. | .handling ..
  | .serving => true
  | .none | .resetting | .marking | .leaving | .acknowledging | .ended => false

/-- The task has been started and has not reached its loop. -/
def TaskPhase.begins : TaskPhase → Bool
  | .resetting | .marking => true
  | _ => false

/-- The task has left its loop, or there is none. -/
def TaskPhase.outside (p : TaskPhase) : Bool := !p.inLoop && !p.begins

/-- There is no task, or it has come to its end. -/
def TaskPhase.gone : TaskPhase → Bool
  | .none | .ended => true
  | _ => false

/-- The pointers and flags of `gateway_mode`, `gwOpen` for `wiota_gw_connect_flag` other than
`UC_GW_NO_CONNECT`, the threads, the buffers, and the deletions with what the task was at. -/
structure State where
  gatewayMq : QueuePtr
  fnRefreshSem : Bool
  otaTimer : Bool
  gatewayMode : Bool
  allowRun : Bool
  gatewayTaskRun : Bool
  exitFlag : Bool
  gwOpen : Bool
  control : Control
  task : TaskPhase
  ledger : Ledger
  deletions : List (Resource × TaskPhase)

/-- How a step with an outcome comes out. The task is created where that step succeeds; where it goes
on the automatic connection is to run the loop. -/
inductive Answer where
  | goesOn
  | succeeds
  | fails
  deriving DecidableEq, Repr

/-- `autoRun` is the task of the automatic connection calling the loop, `fnChange` and `deliver` are
the receive callback, `notify` is a message that another part puts into the queue. -/
inductive Event where
  | start (timeSlots authenticates created : Bool)
  | endCall
  | autoRun
  | control (answer : Answer)
  | task (answer : Answer)
  | fnChange (data : Bool)
  | deliver (packet : Packet) (allocated : Bool)
  | notify

inductive HaltReason where
  | freedQueue
  deriving DecidableEq, Repr

/-- `app_data_decoding` for its buffers: none if it fails, else what `*output_data` refers to. -/
def decodingBuffers (packet : Packet) (l : Ledger) : Option (Option ℕ) × Ledger :=
  let inputDataLen := packet.data.bytes.length
  if inputDataLen = 0 ∨ APP_MAX_DECODING_DATA_LEN < inputDataLen then (none, l)
  else
    let (psHeader, offset) := parseHeader packet.data .zero
    if offset < inputDataLen then
      if !packet.alloc 0 then (none, l)
      else if psHeader.property.compressFlag then
        if !packet.alloc 1 then (none, l.create.free l.next)
        else (some (some l.create.next), l.create.create.free l.next)
      else (some (some l.next), l.create)
    else (some none, l)

/-- `rt_mq_send` of a message that is no received packet. -/
def notify (msg : QueuedMsg) (s : State) : Outcome HaltReason State :=
  match s.gatewayMq with
  | .null => .next s
  | .live msgs =>
    .next (if msgs.length < GATEWAY_MQ_SIZE then { s with gatewayMq := .live (msgs ++ [msg]) } else s)
  | .freed => .halt .freedQueue s

/-- `uc_wiota_gateway_recv_data_callback` for the frame number, whose data may be missing. -/
def fnChange (data : Bool) (s : State) : State :=
  if data then { s with ledger := s.ledger.create.free s.ledger.next } else s

/-- `uc_wiota_gateway_recv_data_callback` for a message, up to the end of its wait for room. -/
def deliver (packet : Packet) (allocated : Bool) (s : State) : Outcome HaltReason State :=
  let payload := s.ledger.next
  let l := s.ledger.create
  if !allocated then .next { s with ledger := l }
  else
    let record := l.next
    match s.gatewayMq with
    | .null => .next { s with ledger := l.create }
    | .live msgs =>
      .next (if msgs.length < GATEWAY_MQ_SIZE then
        { s with ledger := l.create, gatewayMq := .live (msgs ++ [.dlRecv record payload packet]) }
      else { s with ledger := l.create.freeAll [payload, record] })
    | .freed => .halt .freedQueue s

theorem notify_next {msg : QueuedMsg} {s s' : State} (h : notify msg s = .next s') :
    ∃ mq, s' = { s with gatewayMq := mq } := by
  rw [notify] at h
  split at h
  · cases h
    exact ⟨s.gatewayMq, rfl⟩
  · cases h
    split
    · exact ⟨_, rfl⟩
    · exact ⟨s.gatewayMq, rfl⟩
  · cases h

theorem deliver_next {packet : Packet} {allocated : Bool} {s s' : State}
    (h : deliver packet allocated s = .next s') :
    ∃ mq l, s' = { s with gatewayMq := mq, ledger := l } := by
  rw [deliver] at h
  dsimp only at h
  split at h
  · cases h
    exact ⟨s.gatewayMq, _, rfl⟩
  · split at h
    · cases h
      exact ⟨s.gatewayMq, _, rfl⟩
    · cases h
      split
      · exact ⟨_, _, rfl⟩
      · exact ⟨s.gatewayMq, _, rfl⟩
    · cases h

/-- `uc_wiota_gateway_start` up to its authentication. -/
def start (timeSlots authenticates created : Bool) (s : State) : State :=
  let s : State :=
    { s with
      gatewayMq := .null, fnRefreshSem := false, otaTimer := false, gatewayMode := true
      allowRun := false, gatewayTaskRun := false, exitFlag := false }
  if created then
    { s with
      gatewayMq := .live [], fnRefreshSem := timeSlots, gwOpen := true
      control := if authenticates then .testingSync 3 else .creatingTimer }
  else s

/-- An attempt of `uc_wiota_gateway_auth` has ended. -/
def authEnded (succeeded : Bool) (left : ℕ) : Control :=
  if left = 0 then .idle else if succeeded then .creatingTimer else .testingSync left

/-- A message for `uc_wiota_gateway_auth`. -/
def authReceive (left : ℕ) (s : State) : Outcome HaltReason State :=
  match s.gatewayMq with
  | .null | .live [] => .next { s with control := authEnded false left }
  | .live (.dlRecv record payload packet :: rest) =>
    .next <|
      match decodingBuffers packet s.ledger with
      | (none, l) =>
        { s with gatewayMq := .live rest, ledger := l, control := authEnded false left }
      | (some decoded, l) =>
        { s with
          gatewayMq := .live rest, ledger := l, control := .authHandling left record payload decoded }
  | .live (_ :: rest) => .next { s with gatewayMq := .live rest }
  | .freed => .halt .freedQueue s

/-- `uc_wiota_gateway_start` deletes what it has created, without a look at what is queued. -/
def abandon (timer : Bool) (s : State) : State :=
  { s with
    gatewayMq := .freed, otaTimer := timer, fnRefreshSem := false, control := .idle
    deletions := (if s.fnRefreshSem then [(.fnRefreshSem, s.task)] else []) ++
      (if timer then [(.otaTimer, s.task)] else []) ++ (.gatewayMq, s.task) :: s.deletions }

/-- `uc_gateway_clean_data` takes a message out of the queue. -/
def drain (s : State) : Outcome HaltReason State :=
  match s.gatewayMq with
  | .null => .next { s with control := .idle }
  | .live [] => .next { s with control := .deletingQueue }
  | .live (.dlRecv record payload _ :: rest) =>
    .next { s with gatewayMq := .live rest, ledger := s.ledger.freeAll [payload, record] }
  | .live (_ :: rest) => .next { s with gatewayMq := .live rest }
  | .freed => .halt .freedQueue s

/-- `uc_wiota_gateway_send_exit`, as far as it sends. -/
def sendExit (s : State) : Outcome HaltReason State :=
  match s.gatewayMq with
  | .null => .next { s with control := .testingExit }
  | .live msgs =>
    .next (if msgs.length < GATEWAY_MQ_SIZE then
      { s with gatewayMq := .live (msgs ++ [.exit]), control := .testingExit }
    else { s with control := .testingRun })
  | .freed => .halt .freedQueue s

/-- The thread that starts and ends the gateway goes on. -/
def controlStep (answer : Answer) (s : State) : Outcome HaltReason State :=
  match s.control with
  | .idle => .next s
  | .testingSync left =>
    .next { s with control := if answer = .fails then .idle else .authenticating (left - 1) }
  | .authenticating left =>
    if answer = .goesOn then authReceive left s
    else .next { s with control := authEnded (answer = .succeeds) left }
  | .authHandling left record payload decoded =>
    .next { s with
      ledger := s.ledger.freeAll (decoded.toList ++ [payload, record])
      control := if answer = .goesOn then .authenticating left
        else authEnded (answer = .succeeds) left }
  | .creatingTimer =>
    .next (if answer = .fails then abandon false s else
      { s with otaTimer := true, control := .creatingTask })
  | .creatingTask =>
    .next (match answer with
      | .succeeds => { s with task := .resetting, control := .idle }
      | .goesOn => { s with allowRun := true, control := .idle }
      | .fails => abandon true s)
  | .forbidding => .next { s with allowRun := false, control := .unmarking }
  | .unmarking => .next { s with gwOpen := false, control := .sendingExit }
  | .sendingExit => sendExit s
  | .testingRun =>
    .next { s with control := if s.gatewayTaskRun then .clearingRun else .testingExit }
  | .clearingRun => .next { s with gatewayTaskRun := false, control := .delaying }
  | .delaying => .next { s with control := .testingExit }
  | .testingExit =>
    .next { s with control := if s.gatewayTaskRun then .waitingExit else .deletingTimer }
  | .waitingExit => .next (if s.exitFlag then { s with control := .deletingTimer } else s)
  | .deletingTimer =>
    .next { s with
      otaTimer := false, control := .deletingSem
      deletions := (if s.otaTimer then [(.otaTimer, s.task)] else []) ++ s.deletions }
  | .deletingSem =>
    .next { s with
      fnRefreshSem := false, control := .clearingMode
      deletions := (if s.fnRefreshSem then [(.fnRefreshSem, s.task)] else []) ++ s.deletions }
  | .clearingMode => .next { s with gatewayMode := false, control := .draining }
  | .draining => drain s
  | .deletingQueue =>
    .next { s with
      gatewayMq := .null, control := .idle, deletions := (.gatewayMq, s.task) :: s.deletions }

/-- `rt_mq_recv` by the task. -/
def taskReceive (s : State) : Outcome HaltReason State :=
  match s.gatewayMq with
  | .null => .next { s with task := .testingRun }
  | .live [] => .next { s with task := .judging }
  | .live (.dlRecv record payload packet :: rest) =>
    .next { s with gatewayMq := .live rest, task := .analysing record payload packet }
  | .live (.other :: rest) => .next { s with gatewayMq := .live rest, task := .serving }
  | .live (.exit :: rest) =>
    .next { s with gatewayMq := .live rest, exitFlag := true, task := .ended }
  | .freed => .halt .freedQueue s

/-- `uc_wiota_gateway_api_handle` goes on, `uc_wiota_gateway_analisys_dl_msg` being its phases
`analysing` and `handling`. -/
def taskStep (answer : Answer) (s : State) : Outcome HaltReason State :=
  match s.task with
  | .none | .ended => .next s
  | .resetting => .next { s with exitFlag := false, task := .marking }
  | .marking => .next { s with gatewayTaskRun := true, task := .testingRun }
  | .testingRun => .next { s with task := if s.gatewayTaskRun then .testingMode else .leaving }
  | .testingMode => .next { s with task := if s.gatewayMode then .testingQueue else .leaving }
  | .testingQueue =>
    .next { s with
      task := match s.gatewayMq with
        | .null => .leaving
        | .live _ | .freed => .receiving }
  | .receiving => taskReceive s
  | .judging => .next { s with task := if answer = .fails then .leaving else .testingRun }
  | .analysing record payload packet =>
    .next <|
      match decodingBuffers packet s.ledger with
      | (none, l) => { s with ledger := l.freeAll [payload, record], task := .testingRun }
      | (some decoded, l) => { s with ledger := l, task := .handling record payload decoded }
  | .handling record payload decoded =>
    .next { s with
      ledger := s.ledger.freeAll (decoded.toList ++ [payload, record]), task := .testingRun }
  | .serving => .next { s with task := .testingRun }
  | .leaving => .next { s with gwOpen := true, task := .acknowledging }
  | .acknowledging => .next { s with exitFlag := true, task := .ended }

def step (s : State) : Event → Outcome HaltReason State
  | .start timeSlots authenticates created =>
    .next (match s.control with
      | .idle =>
        if !s.gwOpen && s.task.gone then start timeSlots authenticates created s else s
      | _ => s)
  | .endCall =>
    .next (match s.control with
      | .idle => if s.gwOpen then { s with control := .forbidding } else s
      | _ => s)
  | .autoRun => .next (if s.allowRun && s.task.gone then { s with task := .resetting } else s)
  | .control answer => controlStep answer s
  | .task answer => taskStep answer s
  | .fnChange data => .next (fnChange data s)
  | .deliver packet allocated => deliver packet allocated s
  | .notify => notify .other s

section Halts

variable {s s' : State} {r : HaltReason}

private theorem notify_halt {msg : QueuedMsg} (h : notify msg s = .halt r s') : s' = s := by
  rw [notify] at h
  split at h <;> cases h
  rfl

private theorem deliver_halt {packet : Packet} {allocated : Bool}
    (h : deliver packet allocated s = .halt r s') : s' = s := by
  rw [deliver] at h
  dsimp only at h
  split at h
  · cases h
  · split at h <;> cases h
    rfl

private theorem controlStep_halt {answer : Answer} (h : controlStep answer s = .halt r s') :
    s' = s := by
  unfold controlStep at h
  cases hphase : s.control with
  | authenticating left =>
    rw [hphase] at h
    dsimp only at h
    split at h
    · unfold authReceive at h
      split at h <;> cases h
      rfl
    · cases h
  | sendingExit =>
    rw [hphase] at h
    dsimp only [sendExit] at h
    split at h <;> cases h
    rfl
  | draining =>
    rw [hphase] at h
    dsimp only [drain] at h
    split at h <;> cases h
    rfl
  | _ =>
    rw [hphase] at h
    cases h

private theorem taskStep_halt {answer : Answer} (h : taskStep answer s = .halt r s') : s' = s := by
  rw [taskStep] at h
  cases hphase : s.task with
  | receiving =>
    rw [hphase] at h
    dsimp only [taskReceive] at h
    split at h <;> cases h
    rfl
  | _ =>
    rw [hphase] at h
    cases h

/-- A step halts at a queue that has been freed, and leaves the state as it is. -/
theorem step_halt {e : Event} (h : step s e = .halt r s') : s' = s := by
  cases e with
  | start | endCall | autoRun | fnChange => cases h
  | control answer => exact controlStep_halt h
  | task answer => exact taskStep_halt h
  | deliver packet allocated => exact deliver_halt h
  | notify => exact notify_halt h

end Halts

def State.boot : State where
  gatewayMq := .null
  fnRefreshSem := false
  otaTimer := false
  gatewayMode := false
  allowRun := false
  gatewayTaskRun := false
  exitFlag := false
  gwOpen := false
  control := .idle
  task := .none
  ledger := .empty
  deletions := []

end WiotaDev.GatewayThreads
