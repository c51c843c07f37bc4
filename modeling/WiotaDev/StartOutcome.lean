import WiotaDev.GatewayAuthentication

/-! # When a start reports its authentication

An attempt succeeds when the queue brings a response of success, in time and before a packet that
cannot be decoded. The loop of the start counts down before it looks at the result, so its last
attempt is lost. -/

namespace WiotaDev.GatewayStart
open WordBytes HaltingRuns GatewayOta PacketCoding Downlink GatewayDevice GatewayLifecycle

variable {board : Board} {mode : GatwayMode} {dev dev' : Device}

/-- The answers with which a request goes out in time. -/
def RequestSent (mode : GatwayMode) (answer : SendAnswer) : Prop :=
  answer.alloc 0 ∧ answer.synced ∧ (mode = .timeSlot → answer.slotReached) ∧ answer.sent

/-- The packet is a broadcast that opens the time slots. -/
def OpensTimeSlots (mode : GatwayMode) (wait : AuthWait) (d : Decoded) : Prop :=
  PsCmd.ofByte d.psHeader.cmdType = .authenticationBcTimeSlot ∧ mode = .timeSlot ∧
    wait.timeSlotState = 0#8

/-- The round receives a message that the authentication does not act on. -/
inductive Skips (board : Board) (mode : GatwayMode) (wait : AuthWait) : Option QueuedMsg → Prop
  | other : Skips board mode wait (some .other)
  | packet {packet : DlPacket} {d : Decoded}
      (hdec : appDataDecoding board.lz packet.alloc packet.data .zero = .ok d)
      (hres : PsCmd.ofByte d.psHeader.cmdType ≠ .authenticationRes)
      (hts : ¬ OpensTimeSlots mode wait d) : Skips board mode wait (some (.dlRecv packet))

/-- The rounds bring a response of success while the loop waits. -/
inductive Answers (board : Board) (mode : GatwayMode) : AuthWait → List AuthRound → Prop
  | success {wait : AuthWait} {round : AuthRound} {rounds : List AuthRound} {packet : DlPacket}
      {d : Decoded} (htime : wait.inTime round.tick) (hrecv : round.recv = some (.dlRecv packet))
      (hdec : appDataDecoding board.lz packet.alloc packet.data .zero = .ok d)
      (hres : PsCmd.ofByte d.psHeader.cmdType = .authenticationRes)
      (hsuc : AuthState.ofByte ((packet.payload d).byte 0) = .suc) :
      Answers board mode wait (round :: rounds)
  | skip {wait : AuthWait} {round : AuthRound} {rounds : List AuthRound}
      (htime : wait.inTime round.tick) (hskip : Skips board mode wait round.recv)
      (h : Answers board mode wait rounds) : Answers board mode wait (round :: rounds)
  | timeSlots {wait : AuthWait} {round : AuthRound} {rounds : List AuthRound} {packet : DlPacket}
      {d : Decoded} (htime : wait.inTime round.tick) (hrecv : round.recv = some (.dlRecv packet))
      (hdec : appDataDecoding board.lz packet.alloc packet.data .zero = .ok d)
      (hts : OpensTimeSlots mode wait d) (hsent : RequestSent mode packet.answer)
      (h : Answers board mode ⟨0xff#8, GATEWAY_WAIT_AUTH_TIMEOUT, round.tickAfter⟩ rounds) :
      Answers board mode wait (round :: rounds)

/-- What the attempt meets lets it succeed. -/
def AuthAttempt.Answered (board : Board) (mode : GatwayMode) (attempt : AuthAttempt) : Prop :=
  if mode = .gateway then
    RequestSent mode attempt.answer ∧
      Answers board mode ⟨0#8, GATEWAY_WAIT_AUTH_TIMEOUT, attempt.tick⟩ attempt.rounds
  else Answers board mode ⟨0#8, GATEWAY_WAIT_BC_TIME_SLOT_TIMEOUT, attempt.tick⟩ attempt.rounds

theorem authReqCoding (board : Board) (answer : SendAnswer) (req : AuthReq) :
    (∃ c, appDataCoding board.lz answer.alloc (authReqHeader board) req.bytes = .ok c) ↔
      answer.alloc 0 := by
  have hne : req.bytes ≠ [] := by simp [AuthReq.bytes, bytesOf]
  have hflag : (authReqHeader board).property.compressFlag = false := rfl
  cases ha : answer.alloc 0 <;> simp [appDataCoding, ha, hne, hflag]

theorem sendPsCmdData_fst (answer : SendAnswer) (req : AuthReq)
    (hts : dev.isTsMode = decide (mode = .timeSlot)) :
    (ucWiotaGatewaySendPsCmdData board answer req.bytes (authReqHeader board) dev).1 = true ↔
      RequestSent mode answer := by
  have hcod := authReqCoding board answer req
  rw [ucWiotaGatewaySendPsCmdData, RequestSent]
  rw [← hcod]
  split
  · rename_i h
    simp [h]
  · rename_i c h
    simp only [h, hts]
    by_cases hs : answer.synced
    · by_cases hm : mode = .timeSlot
      · by_cases hr : answer.slotReached <;> simp [hs, hm, hr]
      · simp [hs, hm]
    · simp [hs]

theorem sendAuthReq_fst (board : Board) (answer : SendAnswer)
    (hts : dev.isTsMode = decide (mode = .timeSlot)) :
    (ucWiotaGatewaySendAuthReq board answer dev).1 = true ↔ RequestSent mode answer := by
  refine sendPsCmdData_fst answer _ ?_
  rw [ucWiotaGatewayCalcAuthTimeSlotFn]
  split <;> exact hts

theorem sendAuthReq_gatewayState (board : Board) (answer : SendAnswer) (dev : Device) :
    (ucWiotaGatewaySendAuthReq board answer dev).2.gatewayState = dev.gatewayState := by
  have hslot : (ucWiotaGatewayCalcAuthTimeSlotFn answer
      (ucWiotaGatewaySetId board dev)).gatewayState = dev.gatewayState := by
    unfold ucWiotaGatewayCalcAuthTimeSlotFn
    split <;> rfl
  unfold ucWiotaGatewaySendAuthReq ucWiotaGatewaySendPsCmdData
  dsimp only
  split
  · exact hslot
  · split
    · exact hslot
    · split <;> exact hslot

theorem acceptAuth_gatewayState (timeSlotFn : BitVec 16) (wiotaId gwId : BitVec 32) (dev : Device) :
    (acceptAuth timeSlotFn wiotaId gwId dev).gatewayState = .normal := by
  simp only [acceptAuth]
  split
  · split <;> rfl
  · split <;> rfl

/-- A gateway that is not connected becomes so by a response of success only. -/
theorem authResMsg_normal_iff (board : Board) (answer : SendAnswer) (data : Buffer) (gwId : BitVec 32)
    (h : dev.gatewayState ≠ .normal) :
    (ucWiotaGatewayAuthResMsg board answer data gwId dev).gatewayState = .normal ↔
      AuthState.ofByte (data.byte 0) = .suc := by
  rw [ucWiotaGatewayAuthResMsg]
  cases AuthState.ofByte (data.byte 0) with
  | suc =>
    simp only [h, if_false, iff_true]
    exact acceptAuth_gatewayState _ _ _ dev
  | noData => simp [Device.reportState, Device.reach]
  | fail => simp [Device.reportState, Device.reach]
  | infoChange => simp [Device.reportState, Device.reach, Device.callStack, h]
  | reconnect => simp [Device.reportState, Device.reach, sendAuthReq_gatewayState, h]
  | other => simp [Device.reportState, Device.reach, h]

theorem authReturn_eq_zero : authReturn dev = 0 ↔ dev.gatewayState = .normal := by
  rw [authReturn]
  split <;> simp_all

/-- What a round means for the rounds behind it. -/
def RoundEnd.Fits (board : Board) (mode : GatwayMode) (round : AuthRound) (wait : AuthWait) :
    RoundEnd → Prop
  | .returns ret dev =>
    (dev.gatewayState = .normal ↔ ret = 0) ∧
      ∀ rounds, Answers board mode wait (round :: rounds) ↔ ret = 0
  | .goesOn wait' dev =>
    dev.gatewayState ≠ .normal ∧ dev.isTsMode = decide (mode = .timeSlot) ∧
      ∀ rounds, Answers board mode wait (round :: rounds) ↔ Answers board mode wait' rounds

section Rounds

variable {wait : AuthWait} {round : AuthRound} {packet : DlPacket} {d : Decoded}

private theorem not_answers_late (h : ¬ wait.inTime round.tick) (rounds : List AuthRound) :
    ¬ Answers board mode wait (round :: rounds) := by
  intro ha
  cases ha with
  | success htime => exact h htime
  | skip htime => exact h htime
  | timeSlots htime => exact h htime

private theorem answers_skipped (htime : wait.inTime round.tick)
    (hskip : Skips board mode wait round.recv) (rounds : List AuthRound) :
    Answers board mode wait (round :: rounds) ↔ Answers board mode wait rounds := by
  refine ⟨fun ha => ?_, .skip htime hskip⟩
  cases ha with
  | skip _ _ h => exact h
  | success _ hrecv hdec hres hsuc =>
    rw [hrecv] at hskip
    cases hskip with
    | packet hdec' hres' hts' =>
      cases hdec.symm.trans hdec'
      exact absurd hres hres'
  | timeSlots _ hrecv hdec hts hsent h =>
    rw [hrecv] at hskip
    cases hskip with
    | packet hdec' hres' hts' =>
      cases hdec.symm.trans hdec'
      exact absurd hts hts'

private theorem answers_response (htime : wait.inTime round.tick)
    (hrecv : round.recv = some (.dlRecv packet))
    (hdec : appDataDecoding board.lz packet.alloc packet.data .zero = .ok d)
    (hres : PsCmd.ofByte d.psHeader.cmdType = .authenticationRes) (rounds : List AuthRound) :
    Answers board mode wait (round :: rounds) ↔
      AuthState.ofByte ((packet.payload d).byte 0) = .suc := by
  refine ⟨fun ha => ?_, .success htime hrecv hdec hres⟩
  cases ha with
  | success _ hrecv' hdec' _ hsuc =>
    cases hrecv.symm.trans hrecv'
    cases hdec.symm.trans hdec'
    exact hsuc
  | skip _ hskip =>
    rw [hrecv] at hskip
    cases hskip with
    | packet hdec' hres' =>
      cases hdec.symm.trans hdec'
      exact absurd hres hres'
  | timeSlots _ hrecv' hdec' hts =>
    cases hrecv.symm.trans hrecv'
    cases hdec.symm.trans hdec'
    rw [hts.1] at hres
    cases hres

private theorem answers_timeSlots (htime : wait.inTime round.tick)
    (hrecv : round.recv = some (.dlRecv packet))
    (hdec : appDataDecoding board.lz packet.alloc packet.data .zero = .ok d)
    (hts : OpensTimeSlots mode wait d) (rounds : List AuthRound) :
    Answers board mode wait (round :: rounds) ↔ RequestSent mode packet.answer ∧
      Answers board mode ⟨0xff#8, GATEWAY_WAIT_AUTH_TIMEOUT, round.tickAfter⟩ rounds := by
  refine ⟨fun ha => ?_, fun h => .timeSlots htime hrecv hdec hts h.1 h.2⟩
  cases ha with
  | success _ hrecv' hdec' hres =>
    cases hrecv.symm.trans hrecv'
    cases hdec.symm.trans hdec'
    rw [hts.1] at hres
    cases hres
  | skip _ hskip =>
    rw [hrecv] at hskip
    cases hskip with
    | packet hdec' _ hts' =>
      cases hdec.symm.trans hdec'
      exact absurd hts hts'
  | timeSlots _ hrecv' hdec' _ hsent h =>
    cases hrecv.symm.trans hrecv'
    exact ⟨hsent, h⟩

private theorem not_answers_silent (hrecv : round.recv = none) (rounds : List AuthRound) :
    ¬ Answers board mode wait (round :: rounds) := by
  intro ha
  cases ha with
  | success _ hrecv' => cases hrecv.symm.trans hrecv'
  | skip _ hskip =>
    rw [hrecv] at hskip
    cases hskip
  | timeSlots _ hrecv' => cases hrecv.symm.trans hrecv'

private theorem not_answers_undecodable {rc : ℤ} (hrecv : round.recv = some (.dlRecv packet))
    (hdec : appDataDecoding board.lz packet.alloc packet.data .zero = .error rc)
    (rounds : List AuthRound) : ¬ Answers board mode wait (round :: rounds) := by
  intro ha
  cases ha with
  | success _ hrecv' hdec' =>
    cases hrecv.symm.trans hrecv'
    cases hdec.symm.trans hdec'
  | skip _ hskip =>
    rw [hrecv] at hskip
    cases hskip with
    | packet hdec' => cases hdec.symm.trans hdec'
  | timeSlots _ hrecv' hdec' =>
    cases hrecv.symm.trans hrecv'
    cases hdec.symm.trans hdec'

private theorem authSwitch_fits (htime : wait.inTime round.tick)
    (hrecv : round.recv = some (.dlRecv packet))
    (hdec : appDataDecoding board.lz packet.alloc packet.data .zero = .ok d)
    (hst : dev.gatewayState ≠ .normal) (hts : dev.isTsMode = decide (mode = .timeSlot)) :
    (authSwitch board mode packet d round.tickAfter wait dev).Fits board mode round wait := by
  have hskips : PsCmd.ofByte d.psHeader.cmdType ≠ .authenticationRes →
      ¬ OpensTimeSlots mode wait d → (RoundEnd.goesOn wait dev).Fits board mode round wait := by
    intro hres hslots
    have hskip : Skips board mode wait round.recv := by
      rw [hrecv]
      exact .packet hdec hres hslots
    exact ⟨hst, hts, answers_skipped htime hskip⟩
  rw [authSwitch]
  dsimp only
  split
  · rename_i hcmd
    have hiff := authResMsg_normal_iff board packet.answer (packet.payload d)
      d.psHeader.srcAddr hst
    refine ⟨authReturn_eq_zero.symm, fun rounds => ?_⟩
    rw [authReturn_eq_zero, hiff]
    exact answers_response htime hrecv hdec hcmd rounds
  · rename_i hcmd
    split
    · rename_i hopen
      have hslots : OpensTimeSlots mode wait d := ⟨hcmd, hopen⟩
      have hiff := answers_timeSlots htime hrecv hdec hslots
      have hsent := sendAuthReq_fst board packet.answer
        (show (takeTimeSlots (packet.payload d) dev).isTsMode = decide (mode = .timeSlot) from hts)
      have hstate := sendAuthReq_gatewayState board packet.answer
        (takeTimeSlots (packet.payload d) dev)
      split
      · rename_i dev' h
        rw [h] at hsent hstate
        have hno : ¬ RequestSent mode packet.answer := fun hr => Bool.false_ne_true (hsent.mpr hr)
        refine ⟨?_, fun rounds => ?_⟩
        · simp only [show dev'.gatewayState = dev.gatewayState from hstate, hst]
          simp
        · rw [hiff]
          simp [hno]
      · rename_i dev' h
        rw [h] at hsent hstate
        refine ⟨?_, ?_, fun rounds => ?_⟩
        · rw [show dev'.gatewayState = dev.gatewayState from hstate]
          exact hst
        · exact (Authenticates.of_sendAuthReq h).isTsMode.trans hts
        · rw [hiff]
          exact and_iff_right (hsent.mp rfl)
    · rename_i hopen
      exact hskips (by rw [hcmd]; decide) (fun hs => hopen hs.2)
  · rename_i hres hslots
    exact hskips hres (fun hs => hslots hs.1)

/-- The round lemma of the loop. -/
theorem authRound_fits (board : Board) (round : AuthRound) (wait : AuthWait)
    (hst : dev.gatewayState ≠ .normal) (hts : dev.isTsMode = decide (mode = .timeSlot)) :
    (authRound board mode round wait dev).Fits board mode round wait := by
  rw [authRound]
  split
  · rename_i htime
    split
    · rename_i hrecv
      exact ⟨by simp [hst], fun rounds => by simp [not_answers_silent hrecv]⟩
    · rename_i hrecv
      have hskip : Skips board mode wait round.recv := by
        rw [hrecv]
        exact .other
      exact ⟨hst, hts, answers_skipped htime hskip⟩
    · rename_i packet hrecv
      split
      · rename_i hdec
        exact ⟨by simp [hst], fun rounds => by simp [not_answers_undecodable hrecv hdec]⟩
      · rename_i hdec
        exact authSwitch_fits htime hrecv hdec hst hts
  · rename_i htime
    refine ⟨authReturn_eq_zero.symm, fun rounds => ?_⟩
    rw [authReturn_eq_zero]
    simp [hst, not_answers_late htime]

end Rounds

/-- The loop returns 0 when its rounds bring a response of success, and only then is the gateway
connected behind it. -/
theorem authWaitLoop_spec (wait : AuthWait) (rounds : List AuthRound)
    (hst : dev.gatewayState ≠ .normal) (hts : dev.isTsMode = decide (mode = .timeSlot)) :
    ((authWaitLoop board mode wait rounds dev).1 = 0 ↔ Answers board mode wait rounds) ∧
      ((authWaitLoop board mode wait rounds dev).2.gatewayState = .normal ↔
        (authWaitLoop board mode wait rounds dev).1 = 0) := by
  induction rounds generalizing wait dev with
  | nil =>
    refine ⟨⟨fun h => ?_, fun h => ?_⟩, ?_⟩
    · cases h
    · cases h
    · simp [authWaitLoop, hst]
  | cons round rounds ih =>
    have hfit := authRound_fits board round wait hst hts
    rw [authWaitLoop]
    split
    · rename_i h
      rw [h] at hfit
      exact ⟨(hfit.2 rounds).symm, hfit.1⟩
    · rename_i h
      rw [h] at hfit
      obtain ⟨hst', hts', hiff⟩ := hfit
      rw [hiff rounds]
      exact ih _ hst' hts'

theorem auth_spec (board : Board) (attempt : AuthAttempt) (hst : dev.gatewayState ≠ .normal)
    (hts : dev.isTsMode = decide (mode = .timeSlot)) :
    ((ucWiotaGatewayAuth board mode attempt dev).1 = 0 ↔ attempt.Answered board mode) ∧
      ((ucWiotaGatewayAuth board mode attempt dev).2.gatewayState = .normal ↔
        (ucWiotaGatewayAuth board mode attempt dev).1 = 0) := by
  rw [ucWiotaGatewayAuth, AuthAttempt.Answered]
  split
  · have hsent := sendAuthReq_fst board attempt.answer hts
    have hstate := sendAuthReq_gatewayState board attempt.answer dev
    split
    · rename_i dev' h
      rw [h] at hsent hstate
      have hno : ¬ RequestSent mode attempt.answer := fun hr => Bool.false_ne_true (hsent.mpr hr)
      simp [hno, show dev'.gatewayState = dev.gatewayState from hstate, hst]
    · rename_i dev' h
      rw [h] at hsent hstate
      have hst' : dev'.gatewayState ≠ .normal := by
        rw [show dev'.gatewayState = dev.gatewayState from hstate]
        exact hst
      have hts' := (Authenticates.of_sendAuthReq h).isTsMode.trans hts
      rw [and_iff_right (hsent.mp rfl)]
      exact authWaitLoop_spec _ _ hst' hts'
  · exact authWaitLoop_spec _ _ hst hts

/-- An attempt that fails does not count. -/
private theorem exists_later (p : ℕ → Prop) {q r : ℕ → Prop} {i : ℕ} (hno : ¬ p i)
    (hq : ∀ j, q (j + 1) ↔ r j) :
    (∃ j, q j ∧ p (i + j)) ↔ ∃ j, r j ∧ p (i + 1 + j) := by
  constructor
  · rintro ⟨j, hj, hp⟩
    cases j with
    | zero => exact absurd hp hno
    | succ j => exact ⟨j, (hq j).mp hj, by rwa [Nat.add_right_comm, Nat.add_assoc]⟩
  · rintro ⟨j, hj, hp⟩
    exact ⟨j + 1, (hq j).mpr hj, by rwa [Nat.add_right_comm, Nat.add_assoc] at hp⟩

/-- The retries: some attempt made returns 0, the gateway is connected behind them, and the start
goes on when that attempt is not the last. -/
theorem reAuthLoop_spec (board : Board) (attempts : ℕ → AuthAttempt) (i reAuthCount : ℕ)
    (hsync : ∀ j, (attempts j).synced) (hst : dev.gatewayState ≠ .normal)
    (hts : dev.isTsMode = decide (mode = .timeSlot)) :
    (0 ∈ (reAuthLoop board mode attempts i reAuthCount dev).1 ↔
        ∃ j < reAuthCount, (attempts (i + j)).Answered board mode) ∧
      ((reAuthLoop board mode attempts i reAuthCount dev).2.2.gatewayState = .normal ↔
        0 ∈ (reAuthLoop board mode attempts i reAuthCount dev).1) ∧
      ((reAuthLoop board mode attempts i reAuthCount dev).2.1 = true ↔
        ∃ j, j + 1 < reAuthCount ∧ (attempts (i + j)).Answered board mode) := by
  induction reAuthCount generalizing i dev with
  | zero => simp [reAuthLoop, hst]
  | succ n ih =>
    obtain ⟨hret, hnormal⟩ := auth_spec board (attempts i) hst hts
    have hkeep : Authenticates board dev (ucWiotaGatewayAuth board mode (attempts i) dev).2 :=
      .auth (attempts i) dev
    rw [reAuthLoop]
    rw [if_neg (by simp [hsync i])]
    split
    · rename_i dev' h
      rw [h] at hret hnormal
      have ha : (attempts i).Answered board mode := hret.mp rfl
      refine ⟨⟨fun _ => ⟨0, n.succ_pos, ha⟩, fun _ => List.mem_singleton.mpr rfl⟩, ?_, ?_⟩
      · exact iff_of_true (hnormal.mpr rfl) (List.mem_singleton.mpr rfl)
      · rw [decide_eq_true_iff]
        constructor
        · intro hn
          exact ⟨0, by omega, ha⟩
        · rintro ⟨j, hj, -⟩
          omega
    · rename_i ret dev' hne h
      rw [h] at hret hnormal hkeep
      have hno : ¬ (attempts i).Answered board mode := fun ha => hne (hret.mpr ha)
      have hst' : dev'.gatewayState ≠ .normal := fun hn => hne (hnormal.mp hn)
      obtain ⟨hmem, hnorm, hgoes⟩ := ih (i + 1) hst' (hkeep.isTsMode.trans hts)
      have hzero : ∀ rets : List ℕ, 0 ∈ ret :: rets ↔ 0 ∈ rets :=
        fun rets => List.mem_cons.trans (or_iff_right fun h0 => hne h0.symm)
      have hshift : ∀ q r : ℕ → Prop, (∀ j, q (j + 1) ↔ r j) →
          ((∃ j, q j ∧ (attempts (i + j)).Answered board mode) ↔
            ∃ j, r j ∧ (attempts (i + 1 + j)).Answered board mode) :=
        fun q r => exists_later (fun k => (attempts k).Answered board mode) hno
      dsimp only
      rw [hzero, hshift (· < n + 1) (· < n) fun j => Nat.succ_lt_succ_iff,
        hshift (· + 1 < n + 1) (· + 1 < n) fun j => Nat.succ_lt_succ_iff]
      exact ⟨hmem, hnorm, hgoes⟩

theorem finishStartRequest_flag (call : StartRequest) (dev : Device) :
    (finishStartRequest call dev).2.world.connectFlag = .connectSucess := by
  simp only [finishStartRequest]
  split
  · rfl
  · split
    · rfl
    · split <;> rfl

/-- A start that is refused leaves the connect flag and the gateway state alone; every other start
sets the flag. -/
theorem startGateway_flag (board : Board) (call : StartRequest) (dev : Device) :
    ((startGateway board call dev).2.2.world.connectFlag = dev.world.connectFlag ∧
        (startGateway board call dev).2.2.gatewayState = dev.gatewayState ∧
        (startGateway board call dev).2.1 ≠ .ok) ∨
      (startGateway board call dev).2.2.world.connectFlag ≠ .noConnect := by
  rw [startGateway]
  split
  · split
    · exact .inl ⟨rfl, rfl, by simp⟩
    · split
      · exact .inl ⟨rfl, rfl, by simp⟩
      · rename_i authKey _
        dsimp only
        split
        · exact .inl ⟨rfl, rfl, by simp⟩
        · right
          split
          · have hkeep := Authenticates.reAuthLoop board call.mode call.attempts 0 3
              (enterAttempt call.mode (initGatewayMode authKey dev))
            split
            · rename_i h
              rw [h] at hkeep
              rw [hkeep.world]
              simp [enterAttempt, Device.setFlag]
            · dsimp only
              rw [finishStartRequest_flag]
              simp
          · dsimp only
            rw [finishStartRequest_flag]
            simp
  · exact .inl ⟨rfl, rfl, by simp⟩

/-- A gateway that is not connected has no task and is not in state `normal`. -/
def Idle (node : Node) : Prop :=
  node.dev.world.connectFlag = .noConnect → node.dev.gatewayState ≠ .normal ∧ node.taskRuns = false

theorem nodeStep_idle {node node' : Node} {e : NodeEvent} (hidle : Idle node)
    (h : nodeStep board node e = .next node') : Idle node' := by
  have hrun : ∀ dev' : Device, node.taskRuns → dev'.world.connectFlag = node.dev.world.connectFlag →
      Idle ⟨dev', true⟩ := by
    intro dev' htask hflag hno
    rw [hflag] at hno
    rw [(hidle hno).2] at htask
    cases htask
  cases e with
  | start call =>
    simp only [nodeStep] at h
    have hflag := startGateway_flag board call node.dev
    cases h
    intro hno
    rcases hflag with ⟨hf, hs, hok⟩ | hne
    · rw [hf] at hno
      simp only [hs, hok]
      simpa using hidle hno
    · exact absurd hno hne
  | gatewayEnd exitReceived =>
    simp only [nodeStep] at h
    split at h
    · cases h
      exact hidle
    · cases h
      intro _
      simp [endGateway]
  | taskRecv packet =>
    rcases task_next h with ⟨htask, dev', ha, rfl⟩ | ⟨-, rfl⟩
    · exact hrun dev' htask (analisysDlMsg_keeps ha).connectFlag
    · exact hidle
  | missDataReq sent ram =>
    rcases task_next h with ⟨htask, dev', ha, rfl⟩ | ⟨-, rfl⟩
    · exact hrun dev' htask (deviceOtaStep_keeps ha).connectFlag
    · exact hidle
  | taskBreak judged =>
    simp only [nodeStep] at h
    cases h
    split
    · intro hno
      simp [breakTask, Device.setFlag] at hno
    · exact hidle
  | setVerity isOpen =>
    cases h
    exact hidle
  | setForceActice isForceActive =>
    cases h
    exact hidle
  | stack gwInfo userid frameNum activeTime =>
    cases h
    exact hidle

theorem reachable_idle {flash : OtaFlash.Flash} {node : Node}
    (h : Reachable (nodeStep board) (Node.boot board flash) node) : Idle node := by
  obtain ⟨es, hes⟩ := h
  have hboot : Idle (Node.boot board flash) := fun _ => ⟨by simp [Node.boot, Device.boot], rfl⟩
  exact run_keeps (fun _ _ _ hi hs => nodeStep_idle hi hs) hboot hes

/-- A start that authenticates, whose resources are created while the radio stays in sync. -/
structure StartRequest.Undisturbed (call : StartRequest) (authKey : AuthKey) : Prop where
  mode : call.mode = .gateway ∨ call.mode = .timeSlot
  authKey : call.authKey = some authKey
  awakened : call.awakened = false
  synced : call.synced
  attempts : ∀ i, (call.attempts i).synced
  queueCreated : call.queueCreated
  timerCreated : call.timerCreated
  threadCreated : call.threadCreated

/-- The result of a start, the attempts it made and the state it leaves tell the same. -/
structure StartAgrees (out : List ℕ × StartResult × Device) : Prop where
  attempts : out.2.1 = .ok ↔ 0 ∈ out.1
  gatewayState : out.2.1 = .ok ↔ out.2.2.gatewayState = .normal
  connectFlag : out.2.1 = .ok ↔ out.2.2.world.connectFlag = .connectSucess

/-- Neither of the first two attempts succeeds, and the third does. -/
def StartRequest.AnsweredLast (board : Board) (call : StartRequest) : Prop :=
  ¬ (call.attempts 0).Answered board call.mode ∧ ¬ (call.attempts 1).Answered board call.mode ∧
    (call.attempts 2).Answered board call.mode

/-- What an undisturbed start reports: success of one of its first two attempts. -/
theorem startGateway_undisturbed (board : Board) {call : StartRequest} {authKey : AuthKey}
    (hcall : call.Undisturbed authKey) (hflag : dev.world.connectFlag = .noConnect)
    (hst : dev.gatewayState ≠ .normal) :
    (0 ∈ (startGateway board call dev).1 ↔ ∃ j < 3, (call.attempts j).Answered board call.mode) ∧
      ((startGateway board call dev).2.2.gatewayState = .normal ↔
        0 ∈ (startGateway board call dev).1) ∧
      ((startGateway board call dev).2.1 = .ok ↔
        ∃ j, j + 1 < 3 ∧ (call.attempts j).Answered board call.mode) ∧
      ((startGateway board call dev).2.2.world.connectFlag = .connectSucess ↔
        (startGateway board call dev).2.1 = .ok) := by
  have hsend : call.isSendAuth = true := by
    rcases hcall.mode with h | h
    · simp [StartRequest.isSendAuth, h]
    · simp [StartRequest.isSendAuth, h, hcall.awakened]
  have hmode : call.mode ≠ .other := by
    rcases hcall.mode with h | h <;> simp [h]
  have hst' : (enterAttempt call.mode (initGatewayMode authKey dev)).gatewayState ≠ .normal := hst
  have hspec := reAuthLoop_spec board call.attempts 0 3 hcall.attempts hst' rfl
  have hkeep := Authenticates.reAuthLoop board call.mode call.attempts 0 3
    (enterAttempt call.mode (initGatewayMode authKey dev))
  rw [startGateway]
  rw [if_pos ⟨hflag, hmode⟩, if_neg (by simp [hcall.synced])]
  simp only [hcall.authKey, hcall.queueCreated, hsend, Bool.not_true, Bool.false_eq_true, if_false,
    if_true]
  simp only [Nat.zero_add] at hspec
  split
  · rename_i h
    rw [h] at hspec hkeep
    obtain ⟨hmem, hnorm, hgoes⟩ := hspec
    refine ⟨hmem, hnorm, ?_, ?_⟩
    · rw [← hgoes]
      simp
    · rw [hkeep.world]
      simp [enterAttempt, Device.setFlag]
  · rename_i h
    rw [h] at hspec
    obtain ⟨hmem, hnorm, hgoes⟩ := hspec
    have hok : ∀ dev', (finishStartRequest call dev').1 = .ok ∧
        (finishStartRequest call dev').2.gatewayState = dev'.gatewayState := by
      intro dev'
      simp [finishStartRequest, hcall.timerCreated, hcall.threadCreated, hsend, Device.setFlag]
    refine ⟨hmem, ?_, ?_, ?_⟩
    · rw [(hok _).2]
      exact hnorm
    · rw [← hgoes]
      simp [(hok _).1]
    · simp [finishStartRequest_flag, (hok _).1]

/-- A start tells what its authentication came to unless its last attempt is the one that
succeeds. -/
theorem startAgrees_iff {flash : OtaFlash.Flash} {node : Node} {call : StartRequest}
    {authKey : AuthKey} (hreach : Reachable (nodeStep board) (Node.boot board flash) node)
    (hflag : node.dev.world.connectFlag = .noConnect) (hcall : call.Undisturbed authKey) :
    StartAgrees (startGateway board call node.dev) ↔ ¬ call.AnsweredLast board := by
  obtain ⟨hmem, hnorm, hok, hsucc⟩ := startGateway_undisturbed board hcall hflag
    (reachable_idle hreach hflag).1
  have hagree : StartAgrees (startGateway board call node.dev) ↔
      ((∃ j, j + 1 < 3 ∧ (call.attempts j).Answered board call.mode) ↔
        ∃ j < 3, (call.attempts j).Answered board call.mode) := by
    rw [← hok, ← hmem]
    exact ⟨fun h => h.attempts, fun h => ⟨h, h.trans hnorm.symm, hsucc.symm⟩⟩
  rw [hagree]
  constructor
  · rintro h ⟨h0, h1, h2⟩
    obtain ⟨j, hj, ha⟩ := h.mpr ⟨2, by omega, h2⟩
    obtain rfl | rfl : j = 0 ∨ j = 1 := by omega
    · exact h0 ha
    · exact h1 ha
  · intro h
    refine ⟨fun ⟨j, hj, ha⟩ => ⟨j, by omega, ha⟩, fun ⟨j, hj, ha⟩ => ?_⟩
    by_contra hno
    refine h ⟨fun ha0 => hno ⟨0, by omega, ha0⟩, fun ha1 => hno ⟨1, by omega, ha1⟩, ?_⟩
    obtain rfl | rfl | rfl : j = 0 ∨ j = 1 ∨ j = 2 := by omega
    · exact absurd ⟨0, by omega, ha⟩ hno
    · exact absurd ⟨1, by omega, ha⟩ hno
    · exact ha

/-- A response of success with user id 1. -/
def acceptingPacket : DlPacket :=
  .of [0x00, 0x02, 0x00, 0x00, 0x00, 0x00, 0x01, 0x00, 0x00, 0x00]

/-- The request goes out, and nothing comes back in time. -/
def AuthAttempt.timedOut : AuthAttempt := ⟨true, .demo, 0, [⟨1, none, 1⟩]⟩

def AuthAttempt.accepted : AuthAttempt := ⟨true, .demo, 0, [⟨1, some (.dlRecv acceptingPacket), 1⟩]⟩

/-- The key "k". -/
def demoKey : AuthKey where
  text := [0x6b]
  text_nonzero h := absurd (List.mem_singleton.mp h) (by decide)
  length_le := by decide

/-- A start in gateway mode, whose attempt `last` is accepted after others that time out. -/
def StartRequest.acceptedAt (last : ℕ) : StartRequest where
  mode := .gateway
  authKey := some demoKey
  freqList := none
  awakened := false
  synced := true
  queueCreated := true
  attempts := fun i => if i = last then .accepted else .timedOut
  timerCreated := true
  autoConnect := false
  threadCreated := true

theorem acceptedAt_undisturbed (last : ℕ) :
    (StartRequest.acceptedAt last).Undisturbed demoKey where
  mode := .inl rfl
  authKey := rfl
  awakened := rfl
  synced := rfl
  attempts i := by
    simp only [StartRequest.acceptedAt]
    split <;> rfl
  queueCreated := rfl
  timerCreated := rfl
  threadCreated := rfl

theorem startAgrees_acceptedAt_one :
    StartAgrees (startGateway .demo (.acceptedAt 1) (Node.boot .demo demoFlash).dev) := by
  refine (startAgrees_iff (.refl _ _) rfl (acceptedAt_undisturbed 1)).mpr ?_
  rintro ⟨-, h1, -⟩
  have hsent : RequestSent .gateway SendAnswer.demo := ⟨rfl, rfl, fun _ => rfl, rfl⟩
  have hdec : appDataDecoding Board.demo.lz acceptingPacket.alloc acceptingPacket.data .zero =
      .ok ⟨{ PsHeader.zero with cmdType := 2#8 }, some [0, 0, 0, 0, 1, 0, 0, 0]⟩ := rfl
  exact h1 ⟨hsent, .success rfl rfl hdec rfl rfl⟩

/-- The third attempt alone is accepted: the gateway is connected and the start reports that the
authentication failed. -/
theorem thirdAttempt_lost :
    Reachable (nodeStep .demo) (Node.boot .demo demoFlash) (Node.boot .demo demoFlash) ∧
      (Node.boot .demo demoFlash).dev.world.connectFlag = .noConnect ∧
      (StartRequest.acceptedAt 2).Undisturbed demoKey ∧
      (startGateway .demo (.acceptedAt 2) (Node.boot .demo demoFlash).dev).1 = [2, 2, 0] ∧
      (startGateway .demo (.acceptedAt 2) (Node.boot .demo demoFlash).dev).2.1 = .authFail ∧
      (startGateway .demo (.acceptedAt 2) (Node.boot .demo demoFlash).dev).2.2.gatewayState = .normal ∧
      ¬ StartAgrees (startGateway .demo (.acceptedAt 2) (Node.boot .demo demoFlash).dev) := by
  have hrets : (startGateway .demo (.acceptedAt 2) (Node.boot .demo demoFlash).dev).1 = [2, 2, 0] :=
    rfl
  have hres : (startGateway .demo (.acceptedAt 2) (Node.boot .demo demoFlash).dev).2.1 = .authFail :=
    rfl
  refine ⟨.refl _ _, rfl, acceptedAt_undisturbed 2, hrets, hres, rfl, fun h => ?_⟩
  have hok := h.attempts.mpr (by rw [hrets]; decide)
  rw [hres] at hok
  cases hok

end WiotaDev.GatewayStart
