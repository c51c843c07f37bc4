import WiotaDev.GatewayStart
import Mathlib.Logic.Function.Iterate

/-! # The start of the gateway, one round at a time

`uc_wiota_gateway_start` waits for the queue many times, and the rest of the device goes on
meanwhile: the stack reports its frames through the callback, the task of an earlier session works.
Here each attempt and each round of the authentication is a step of its own. -/

namespace WiotaDev.GatewayStart
open WordBytes HaltingRuns GatewayOta PacketCoding Downlink GatewayDevice GatewayLifecycle

/-- Attempt `i` of a start, with `re_auth_count` left behind it. -/
structure Attempt where
  call : StartRequest
  i : ℕ
  reAuthCount : ℕ

/-- Where the start is: at the head of its loop, with the attempts left, or inside an attempt. -/
inductive StartPhase where
  | idle
  | retrying (call : StartRequest) (i reAuthCount : ℕ)
  | waiting (attempt : Attempt) (wait : AuthWait) (rounds : List AuthRound)

def StartPhase.isIdle : StartPhase → Bool
  | .idle => true
  | _ => false

structure Session where
  node : Node
  phase : StartPhase

/-- The start goes on or comes back behind its loop. -/
def leaveLoop (call : StartRequest) (taskRuns goesOn : Bool) (dev : Device) : Session :=
  if goesOn then
    match finishStartRequest call dev with
    | (result, dev) => ⟨⟨dev, taskRuns || decide (result = .ok)⟩, .idle⟩
  else ⟨⟨dev, taskRuns⟩, .idle⟩

/-- An attempt comes back with `ret`. -/
def endAttempt (attempt : Attempt) (taskRuns : Bool) (ret : ℕ) (dev : Device) : Session :=
  if ret = 0 then leaveLoop attempt.call taskRuns (decide (attempt.reAuthCount ≠ 0)) dev
  else ⟨⟨dev, taskRuns⟩, .retrying attempt.call (attempt.i + 1) attempt.reAuthCount⟩

/-- `uc_wiota_gateway_auth` up to its loop. -/
def beginAttempt (board : Board) (attempt : Attempt) (taskRuns : Bool) (dev : Device) : Session :=
  let script := attempt.call.attempts attempt.i
  if attempt.call.mode = .gateway then
    match ucWiotaGatewaySendAuthReq board script.answer dev with
    | (false, dev) => endAttempt attempt taskRuns 1 dev
    | (true, dev) =>
      ⟨⟨dev, taskRuns⟩, .waiting attempt ⟨0#8, GATEWAY_WAIT_AUTH_TIMEOUT, script.tick⟩ script.rounds⟩
  else
    ⟨⟨dev, taskRuns⟩,
      .waiting attempt ⟨0#8, GATEWAY_WAIT_BC_TIME_SLOT_TIMEOUT, script.tick⟩ script.rounds⟩

/-- The next step of a start: the begin of an attempt, or a round of its loop. -/
def advance (board : Board) (s : Session) : Session :=
  match s.phase with
  | .idle => s
  | .retrying call _ 0 => leaveLoop call s.node.taskRuns false s.node.dev
  | .retrying call i (reAuthCount + 1) =>
    if !(call.attempts i).synced then leaveLoop call s.node.taskRuns false s.node.dev
    else beginAttempt board ⟨call, i, reAuthCount⟩ s.node.taskRuns s.node.dev
  | .waiting attempt _ [] => endAttempt attempt s.node.taskRuns 2 s.node.dev
  | .waiting attempt wait (round :: rounds) =>
    match authRound board attempt.call.mode round wait s.node.dev with
    | .returns ret dev => endAttempt attempt s.node.taskRuns ret dev
    | .goesOn wait dev => ⟨⟨dev, s.node.taskRuns⟩, .waiting attempt wait rounds⟩

/-- `uc_wiota_gateway_start` up to its loop. -/
def beginStart (board : Board) (call : StartRequest) (s : Session) : Session :=
  if s.node.dev.world.connectFlag = .noConnect ∧ call.mode ≠ .other then
    if !s.node.dev.isForceActive && !call.synced then s
    else
      match call.authKey with
      | none => s
      | some authKey =>
        let dev := initGatewayMode authKey s.node.dev
        if !call.queueCreated then ⟨⟨dev, s.node.taskRuns⟩, .idle⟩
        else
          let dev := enterAttempt call.mode dev
          if call.isSendAuth then ⟨⟨dev, s.node.taskRuns⟩, .retrying call 0 3⟩
          else leaveLoop call s.node.taskRuns true (ucWiotaGatewaySetId board dev)
  else s

section Rounds
variable (board : Board) (call : StartRequest) (attempt : Attempt) (taskRuns : Bool)

/-- The rounds of an attempt end as its loop does. -/
theorem advance_waiting (wait : AuthWait) (rounds : List AuthRound) (dev : Device) :
    ∃ n, (advance board)^[n] ⟨⟨dev, taskRuns⟩, .waiting attempt wait rounds⟩ =
      endAttempt attempt taskRuns (authWaitLoop board attempt.call.mode wait rounds dev).1
        (authWaitLoop board attempt.call.mode wait rounds dev).2 := by
  induction rounds generalizing wait dev with
  | nil => exact ⟨1, rfl⟩
  | cons round rounds ih =>
    rw [authWaitLoop]
    cases hround : authRound board attempt.call.mode round wait dev with
    | returns ret dev' =>
      refine ⟨1, ?_⟩
      rw [Function.iterate_one, advance]
      simp only [hround]
    | goesOn wait' dev' =>
      obtain ⟨n, hn⟩ := ih wait' dev'
      refine ⟨n + 1, ?_⟩
      rw [Function.iterate_succ_apply]
      have hstep : advance board ⟨⟨dev, taskRuns⟩, .waiting attempt wait (round :: rounds)⟩ =
          ⟨⟨dev', taskRuns⟩, .waiting attempt wait' rounds⟩ := by
        rw [advance]
        simp only [hround]
      rw [hstep]
      exact hn

/-- An attempt ends as `uc_wiota_gateway_auth` does. -/
theorem advance_beginAttempt (dev : Device) :
    ∃ n, (advance board)^[n] (beginAttempt board attempt taskRuns dev) =
      endAttempt attempt taskRuns
        (ucWiotaGatewayAuth board attempt.call.mode (attempt.call.attempts attempt.i) dev).1
        (ucWiotaGatewayAuth board attempt.call.mode (attempt.call.attempts attempt.i) dev).2 := by
  rw [beginAttempt, ucWiotaGatewayAuth]
  by_cases hmode : attempt.call.mode = .gateway
  · simp only [if_pos hmode]
    cases hsend : ucWiotaGatewaySendAuthReq board (attempt.call.attempts attempt.i).answer dev with
    | mk sent dev' =>
      cases sent with
      | false => exact ⟨0, rfl⟩
      | true => exact advance_waiting board attempt taskRuns _ _ dev'
  · simp only [if_neg hmode]
    exact advance_waiting board attempt taskRuns _ _ dev

/-- The attempts end as the loop of `uc_wiota_gateway_start` does. -/
theorem advance_retrying (i reAuthCount : ℕ) (dev : Device) :
    ∃ n, (advance board)^[n] ⟨⟨dev, taskRuns⟩, .retrying call i reAuthCount⟩ =
      leaveLoop call taskRuns (reAuthLoop board call.mode call.attempts i reAuthCount dev).2.1
        (reAuthLoop board call.mode call.attempts i reAuthCount dev).2.2 := by
  induction reAuthCount generalizing i dev with
  | zero => exact ⟨1, rfl⟩
  | succ reAuthCount ih =>
    rw [reAuthLoop]
    by_cases hsynced : (call.attempts i).synced
    · have hstep : advance board ⟨⟨dev, taskRuns⟩, .retrying call i (reAuthCount + 1)⟩ =
          beginAttempt board ⟨call, i, reAuthCount⟩ taskRuns dev := by
        rw [advance]
        simp [hsynced]
      obtain ⟨n, hn⟩ := advance_beginAttempt board ⟨call, i, reAuthCount⟩ taskRuns dev
      simp only [hsynced, Bool.not_true, Bool.false_eq_true, if_false]
      cases hauth : ucWiotaGatewayAuth board call.mode (call.attempts i) dev with
      | mk ret dev' =>
        simp only [hauth] at hn
        cases ret with
        | zero =>
          refine ⟨n + 1, ?_⟩
          rw [Function.iterate_succ_apply, hstep, hn]
          rfl
        | succ ret =>
          obtain ⟨m, hm⟩ := ih (i + 1) dev'
          refine ⟨m + (n + 1), ?_⟩
          rw [Function.iterate_add_apply, Function.iterate_succ_apply, hstep, hn]
          exact hm
    · refine ⟨1, ?_⟩
      rw [Function.iterate_one, advance]
      simp [hsynced]

/-- Undisturbed, the steps of a start end in the state that the whole start yields. -/
theorem advance_beginStart (node : Node) :
    ∃ n node', nodeStep board node (.start call) = .next node' ∧
      (advance board)^[n] (beginStart board call ⟨node, .idle⟩) = ⟨node', .idle⟩ := by
  suffices h : ∃ n, (advance board)^[n] (beginStart board call ⟨node, .idle⟩) =
      ⟨⟨(startGateway board call node.dev).2.2,
        node.taskRuns || decide ((startGateway board call node.dev).2.1 = .ok)⟩, .idle⟩ by
    obtain ⟨n, hn⟩ := h
    exact ⟨n, _, rfl, hn⟩
  rw [startGateway, beginStart]
  by_cases hfree : node.dev.world.connectFlag = .noConnect ∧ call.mode ≠ .other
  · simp only [if_pos hfree]
    by_cases hsync : (!node.dev.isForceActive && !call.synced) = true
    · exact ⟨0, by simp [hsync]⟩
    · simp only [if_neg hsync]
      cases call.authKey with
      | none => exact ⟨0, by simp⟩
      | some authKey =>
        by_cases hqueue : (!call.queueCreated) = true
        · exact ⟨0, by simp [hqueue]⟩
        · simp only [if_neg hqueue]
          by_cases hsend : call.isSendAuth = true
          · simp only [if_pos hsend]
            obtain ⟨n, hn⟩ := advance_retrying board call node.taskRuns 0 3
              (enterAttempt call.mode (initGatewayMode authKey node.dev))
            cases hloop : reAuthLoop board call.mode call.attempts 0 3
                (enterAttempt call.mode (initGatewayMode authKey node.dev)) with
            | mk rets rest =>
              obtain ⟨goesOn, dev⟩ := rest
              rw [hloop] at hn
              cases goesOn with
              | false => exact ⟨n, hn.trans (by simp [leaveLoop])⟩
              | true => exact ⟨n, hn⟩
          · exact ⟨0, by simp [hsend, leaveLoop]⟩
  · exact ⟨0, by simp [hfree]⟩

end Rounds

end WiotaDev.GatewayStart
