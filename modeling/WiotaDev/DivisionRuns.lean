import WiotaDev.GatewayAuthentication
import WiotaDev.GatewayDivisions
import WiotaDev.OtaVersions
import WiotaDev.StartSteps

/-! # Where the divisors come from

A broadcast delivers the periods of the slots, the stack or the application the period of the frames,
and the start of a download the page of its timeouts. What the gateway divides by is always what was
delivered last, in every session that mixes the steps of a start with reports of frames, messages
and timers. -/

namespace WiotaDev.GatewayStart
open WordBytes HaltingRuns GatewayOta PacketCoding Downlink GatewayDevice GatewayLifecycle

/-- The packet that a round of the loop of `uc_wiota_gateway_auth` decodes in time. -/
def heard (board : Board) (round : AuthRound) (wait : AuthWait) : Option (DlPacket × Decoded) :=
  if wait.inTime round.tick then
    match round.recv with
    | some (.dlRecv packet) =>
      match appDataDecoding board.lz packet.alloc packet.data .zero with
      | .error _ => none
      | .ok d => some (packet, d)
    | _ => none
  else none

/-- The packet is the broadcast that opens the time slots of the attempt. -/
def OpensSlots (mode : GatwayMode) (wait : AuthWait) (d : Decoded) : Prop :=
  PsCmd.ofByte d.psHeader.cmdType = .authenticationBcTimeSlot ∧ mode = .timeSlot ∧
    wait.timeSlotState = 0#8

instance (mode : GatwayMode) (wait : AuthWait) (d : Decoded) : Decidable (OpensSlots mode wait d) :=
  inferInstanceAs (Decidable (_ ∧ _))

/-- The request that `uc_wiota_gateway_auth_res_msg` repeats. -/
def authResDraw (board : Board) (answer : SendAnswer) (data : Buffer) (dev : Device) :
    Option (SendAnswer × Device) :=
  if AuthState.ofByte (data.byte 0) = .reconnect then some (answer, ucWiotaGatewaySetId board dev)
  else none

/-- The call of `uc_wiota_gateway_calc_auth_time_slot_fn` in the next step of a start. -/
def advanceDraw (board : Board) (s : Session) : Option (SendAnswer × Device) :=
  match s.phase with
  | .retrying call i (_ + 1) =>
    if (call.attempts i).synced ∧ call.mode = .gateway then
      some ((call.attempts i).answer, ucWiotaGatewaySetId board s.node.dev)
    else none
  | .waiting attempt wait (round :: _) =>
    match heard board round wait with
    | some (packet, d) =>
      if PsCmd.ofByte d.psHeader.cmdType = .authenticationRes then
        authResDraw board packet.answer (packet.payload d) s.node.dev
      else if OpensSlots attempt.call.mode wait d then
        some (packet.answer,
          ucWiotaGatewaySetId board (takeTimeSlots (packet.payload d) s.node.dev))
      else none
    | none => none
  | _ => none

/-- The packet as `uc_wiota_gateway_analisys_dl_msg` handles it. -/
def accepted (board : Board) (packet : DlPacket) (dev : Device) : Option Decoded :=
  match appDataDecoding board.lz packet.alloc packet.data .zero with
  | .error _ => none
  | .ok d =>
    if dev.gwVerity ∧ PsCmd.ofByte d.psHeader.cmdType ≠ .authenticationRes ∧
        d.psHeader.srcAddr ≠ dev.gwInfo.gwId then
      none
    else some d

/-- What else happens around a start: calls and messages, reports of the stack, and the setter of
the period of the authentication. -/
inductive SessionEvent where
  | node (e : NodeEvent)
  | advance
  | recvBack (recv : RecvBack)
  | setAuthPeriod (authPeriod : Byte)

/-- A start begins when none is under way. The callback changes nothing that is modelled here. -/
def sessionStep (board : Board) (s : Session) : SessionEvent → Outcome GatewayOta.HaltReason Session
  | .node e =>
    match e with
    | .start call => .next (if s.phase.isIdle then beginStart board call s else s)
    | e => (nodeStep board s.node e).map fun node => ⟨node, s.phase⟩
  | .advance => .next (advance board s)
  | .recvBack _ => .next s
  | .setAuthPeriod authPeriod =>
    .next { s with node := { s.node with dev := { s.node.dev with authPeriod := authPeriod } } }

def Session.boot (board : Board) (flash : OtaFlash.Flash) : Session := ⟨.boot board flash, .idle⟩

/-- The call of `uc_wiota_gateway_calc_auth_time_slot_fn` in a step. -/
def stepDraw (board : Board) (s : Session) : SessionEvent → Option (SendAnswer × Device)
  | .advance => advanceDraw board s
  | .node (.taskRecv packet) =>
    if s.node.taskRuns then
      match accepted board packet s.node.dev with
      | some d =>
        if PsCmd.ofByte d.psHeader.cmdType = .authenticationRes then
          authResDraw board packet.answer (packet.payload d) s.node.dev
        else none
      | none => none
    else none
  | _ => none

/-- The timeout that a step computes. -/
def stepTimeout (board : Board) (s : Session) : SessionEvent → Option TimeoutCall
  | .node (.taskRecv packet) =>
    if s.node.taskRuns then
      match accepted board packet s.node.dev with
      | some d =>
        if PsCmd.ofByte d.psHeader.cmdType = .otaUpgradeState then
          otaTimeout (board.envOf s.node.dev) s.node.dev.world
            (.upgradeState (upgradeStateOf (packet.payload d)) packet.ram)
        else none
      | none => none
    else none
  | .node (.missDataReq sent ram) =>
    if s.node.taskRuns then
      otaTimeout (board.envOf s.node.dev) s.node.dev.world (.missDataReq sent ram)
    else none
  | _ => none

/-- The report that a step hands to the callback. -/
def stepReport : SessionEvent → Option RecvBack
  | .recvBack recv => some recv
  | _ => none

/-- A step divides by nothing that is zero, and draws a slot of the period. -/
structure StepDivides (board : Board) (s : Session) (e : SessionEvent) : Prop where
  draw : ∀ answer dev, stepDraw board s e = some (answer, dev) → DrawDivides answer dev
  report : ∀ recv, stepReport e = some recv →
    (checkedRecvDataCallback recv s.node.dev).isSome = true
  timeout : ∀ call, stepTimeout board s e = some call →
    (call.checked (board.envOf s.node.dev) s.node.dev.world).isSome = true

/-- What was delivered last: the period of the frames, that of the authentication since the start began,
and the page of the download since then. -/
structure Delivered where
  pof : BitVec 32
  authPeriod : Byte
  mcsLen : BitVec 16
  deriving DecidableEq, Repr

/-- The start clears `gateway_mode`. -/
def StartRequest.Initialises (call : StartRequest) (s : Session) : Prop :=
  s.phase.isIdle = true ∧ s.node.dev.world.connectFlag = .noConnect ∧ call.mode ≠ .other ∧
    (s.node.dev.isForceActive = true ∨ call.synced = true) ∧ call.authKey.isSome = true

instance (call : StartRequest) (s : Session) : Decidable (call.Initialises s) :=
  inferInstanceAs (Decidable (_ ∧ _))

/-- The page that a request begins its download with: its own, unless its version reaches over it. -/
def beginPage (env : Env) (req : OtaUpgradeReq) (w : World) (last : BitVec 16) : BitVec 16 :=
  if req.Starts env w then overHalf req.versionText 60 req.mcsLen else last

/-- A request that starts a download delivers its page. The bits of the blocks behind `mask_map` are
bits of the page from the first one on. -/
def otaDelivery (env : Env) (w : World) (last : Delivered) : OtaEvent → Delivered
  | .upgradeReq req _ =>
    let page := beginPage env req w last.mcsLen
    { last with mcsLen :=
        if req.Receives env w ∧ 224 ≤ req.block ∧ req.block < 240 then
          page ||| 1#16 <<< (req.block - 224)
        else page }
  | _ => last

/-- What a packet delivers that the task handles. -/
def packetDelivery (board : Board) (packet : DlPacket) (dev : Device) (last : Delivered) :
    Delivered :=
  match accepted board packet dev with
  | some d =>
    if PsCmd.ofByte d.psHeader.cmdType = .otaUpgradeReq then
      otaDelivery (board.envOf dev) dev.world last
        (.upgradeReq (upgradeReqOf (packet.payload d)) packet.ram)
    else last
  | none => last

/-- What a step delivers. -/
def delivery (board : Board) (s : Session) (last : Delivered) : SessionEvent → Delivered
  | .node (.start call) =>
    if call.Initialises s then { last with authPeriod := 0#8, mcsLen := 0#16 } else last
  | .node (.stack gwInfo _ _ _) => { last with pof := gwInfo.pof }
  | .node (.taskRecv packet) =>
    if s.node.taskRuns then packetDelivery board packet s.node.dev last else last
  | .advance =>
    match s.phase with
    | .waiting attempt wait (round :: _) =>
      match heard board round wait with
      | some (packet, d) =>
        if OpensSlots attempt.call.mode wait d then
          { last with pof := (packet.payload d).word 0, authPeriod := (packet.payload d).byte 4 }
        else last
      | none => last
    | _ => last
  | .setAuthPeriod authPeriod => { last with authPeriod := authPeriod }
  | _ => last

/-- What the device holds of it. -/
def divisors (dev : Device) : Delivered := ⟨dev.gwInfo.pof, dev.authPeriod, dev.world.ota.mcsLen⟩

section Authentication
variable {board : Board} {dev dev' : Device}

theorem sendPsCmdData_divisors (answer : SendAnswer) (data : List Byte) (psHeader : PsHeader)
    (dev : Device) :
    divisors (ucWiotaGatewaySendPsCmdData board answer data psHeader dev).2 = divisors dev := by
  rw [ucWiotaGatewaySendPsCmdData]
  split
  · rfl
  · split
    · rfl
    · split <;> rfl

theorem sendAuthReq_divisors (board : Board) (answer : SendAnswer) (dev : Device) :
    divisors (ucWiotaGatewaySendAuthReq board answer dev).2 = divisors dev := by
  have hcalc (d : Device) : divisors (ucWiotaGatewayCalcAuthTimeSlotFn answer d) = divisors d := by
    rw [ucWiotaGatewayCalcAuthTimeSlotFn]
    split <;> rfl
  exact (sendPsCmdData_divisors _ _ _ _).trans (hcalc _)

theorem acceptAuth_divisors (timeSlotFn : BitVec 16) (wiotaId gwId : BitVec 32) (dev : Device) :
    divisors (acceptAuth timeSlotFn wiotaId gwId dev) = divisors dev := by
  simp only [acceptAuth]
  split
  · split <;> rfl
  · split <;> rfl

theorem authResMsg_divisors (answer : SendAnswer) (data : Buffer) (gwId : BitVec 32) (dev : Device) :
    divisors (ucWiotaGatewayAuthResMsg board answer data gwId dev) = divisors dev := by
  rw [ucWiotaGatewayAuthResMsg]
  split
  · split
    · rfl
    · exact acceptAuth_divisors _ _ _ dev
  · rfl
  · rfl
  · rfl
  · exact sendAuthReq_divisors board answer dev
  · rfl

/-- A round hears nothing and leaves the device alone, or looks at the packet it hears. -/
theorem authRound_heard (board : Board) (mode : GatwayMode) (round : AuthRound) (wait : AuthWait)
    (dev : Device) :
    (heard board round wait = none ∧ (authRound board mode round wait dev).dev = dev) ∨
      ∃ packet d, heard board round wait = some (packet, d) ∧
        authRound board mode round wait dev =
          authSwitch board mode packet d round.tickAfter wait dev := by
  rw [heard, authRound]
  by_cases htime : wait.inTime round.tick = true
  · rw [if_pos htime, if_pos htime]
    cases round.recv with
    | none => exact .inl ⟨rfl, rfl⟩
    | some msg =>
      cases msg with
      | other => exact .inl ⟨rfl, rfl⟩
      | dlRecv packet =>
        dsimp only
        cases appDataDecoding board.lz packet.alloc packet.data .zero with
        | error rc => exact .inl ⟨rfl, rfl⟩
        | ok d => exact .inr ⟨packet, d, rfl, rfl⟩
  · rw [if_neg htime, if_neg htime]
    exact .inl ⟨rfl, rfl⟩

theorem authSwitch_divisors (mode : GatwayMode) (packet : DlPacket) (d : Decoded)
    (tickAfter : BitVec 32) (wait : AuthWait) (dev : Device) :
    divisors (authSwitch board mode packet d tickAfter wait dev).dev =
      if OpensSlots mode wait d then
        { divisors dev with
          pof := (packet.payload d).word 0, authPeriod := (packet.payload d).byte 4 }
      else divisors dev := by
  by_cases hopens : OpensSlots mode wait d
  · rw [if_pos hopens]
    obtain ⟨hcmd, hfirst⟩ := hopens
    have hsend := sendAuthReq_divisors board packet.answer (takeTimeSlots (packet.payload d) dev)
    rw [authSwitch]
    simp only [hcmd, if_pos hfirst]
    cases hres : ucWiotaGatewaySendAuthReq board packet.answer
        (takeTimeSlots (packet.payload d) dev) with
    | mk sent dev' =>
      rw [hres] at hsend
      cases sent <;> exact hsend
  · rw [if_neg hopens, authSwitch]
    cases hcmd : PsCmd.ofByte d.psHeader.cmdType with
    | authenticationRes => exact authResMsg_divisors _ _ _ dev
    | authenticationBcTimeSlot =>
      dsimp only
      rw [if_neg fun hfirst => hopens ⟨hcmd, hfirst⟩]
      rfl
    | _ => rfl

theorem finishStartRequest_divisors (call : StartRequest) (dev : Device) :
    divisors (finishStartRequest call dev).2 = divisors dev := by
  simp only [finishStartRequest]
  split
  · rfl
  · split
    · rfl
    · split <;> rfl

theorem leaveLoop_divisors (call : StartRequest) (taskRuns goesOn : Bool) (dev : Device) :
    divisors (leaveLoop call taskRuns goesOn dev).node.dev = divisors dev := by
  rw [leaveLoop]
  split
  · exact finishStartRequest_divisors call dev
  · rfl

theorem endAttempt_divisors (attempt : Attempt) (taskRuns : Bool) (ret : ℕ) (dev : Device) :
    divisors (endAttempt attempt taskRuns ret dev).node.dev = divisors dev := by
  rw [endAttempt]
  split
  · exact leaveLoop_divisors _ _ _ dev
  · rfl

theorem beginAttempt_divisors (attempt : Attempt) (taskRuns : Bool) (dev : Device) :
    divisors (beginAttempt board attempt taskRuns dev).node.dev = divisors dev := by
  rw [beginAttempt]
  split
  · have hsend := sendAuthReq_divisors board (attempt.call.attempts attempt.i).answer dev
    cases hres : ucWiotaGatewaySendAuthReq board (attempt.call.attempts attempt.i).answer dev with
    | mk sent dev' =>
      rw [hres] at hsend
      cases sent with
      | false => exact (endAttempt_divisors _ _ _ dev').trans hsend
      | true => exact hsend
  · rfl

/-- A step of a start delivers the periods of the broadcast that it hears. -/
theorem advance_divisors (s : Session) :
    divisors (advance board s).node.dev = delivery board s (divisors s.node.dev) .advance := by
  obtain ⟨⟨dev, taskRuns⟩, phase⟩ := s
  cases phase with
  | idle => rfl
  | retrying call i reAuthCount =>
    cases reAuthCount with
    | zero => exact leaveLoop_divisors _ _ _ dev
    | succ reAuthCount =>
      rw [advance, delivery]
      dsimp only
      split
      · exact leaveLoop_divisors _ _ _ dev
      · exact beginAttempt_divisors _ _ dev
  | waiting attempt wait rounds =>
    cases rounds with
    | nil => exact endAttempt_divisors _ _ _ dev
    | cons round rounds =>
      have hstep : divisors (advance board
          ⟨⟨dev, taskRuns⟩, .waiting attempt wait (round :: rounds)⟩).node.dev =
            divisors (authRound board attempt.call.mode round wait dev).dev := by
        rw [advance]
        dsimp only
        cases authRound board attempt.call.mode round wait dev with
        | returns ret dev' => exact endAttempt_divisors _ _ _ dev'
        | goesOn wait' dev' => rfl
      rw [hstep, delivery]
      dsimp only
      rcases authRound_heard board attempt.call.mode round wait dev with
        ⟨hnone, hdev⟩ | ⟨packet, d, hsome, hround⟩
      · rw [hnone, hdev]
      · rw [hsome, hround]
        exact authSwitch_divisors _ _ _ _ _ dev

/-- The start clears the period and the page. -/
theorem beginStart_divisors {s : Session} (call : StartRequest) (hidle : s.phase.isIdle = true) :
    divisors (beginStart board call s).node.dev =
      delivery board s (divisors s.node.dev) (.node (.start call)) := by
  by_cases hinit : call.Initialises s
  · obtain ⟨-, hflag, hmode, hready, hkey⟩ := id hinit
    have hsync : ¬ (!s.node.dev.isForceActive && !call.synced) = true := by
      rcases hready with hactive | hsynced
      · rw [hactive]
        exact Bool.false_ne_true
      · rw [hsynced, Bool.not_true, Bool.and_false]
        exact Bool.false_ne_true
    obtain ⟨authKey, hkey'⟩ := Option.isSome_iff_exists.mp hkey
    rw [delivery, if_pos hinit, beginStart, if_pos ⟨hflag, hmode⟩, if_neg hsync, hkey']
    dsimp only
    split
    · rfl
    · split
      · rfl
      · exact leaveLoop_divisors _ _ _ _
  · rw [delivery, if_neg hinit, beginStart]
    by_cases hfree : s.node.dev.world.connectFlag = .noConnect ∧ call.mode ≠ .other
    · rw [if_pos hfree]
      by_cases hsync : (!s.node.dev.isForceActive && !call.synced) = true
      · rw [if_pos hsync]
      · rw [if_neg hsync]
        cases hkey : call.authKey with
        | none => rfl
        | some authKey =>
          have hready : s.node.dev.isForceActive = true ∨ call.synced = true := by
            by_contra hnot
            obtain ⟨hactive, hsynced⟩ := not_or.mp hnot
            rw [Bool.not_eq_true] at hactive hsynced
            exact hsync (by rw [hactive, hsynced]; rfl)
          exact absurd ⟨hidle, hfree.1, hfree.2, hready, by rw [hkey]; rfl⟩ hinit
    · rw [if_neg hfree]

theorem or_bit_of_getLsbD {page : BitVec 16} {i : ℕ} (h : page.getLsbD i = true) :
    page ||| 1#16 <<< i = page := by
  refine BitVec.eq_of_getLsbD_eq fun j hj => ?_
  by_cases hij : j = i
  · rw [BitVec.getLsbD_or, hij, h, Bool.true_or]
  · have hbit : (1#16 <<< i).getLsbD j = false := by
      rw [BitVec.getLsbD_shiftLeft]
      by_cases hlt : j < i
      · simp [hlt]
      · have : j - i ≠ 0 := by omega
        simp [this]
    rw [BitVec.getLsbD_or, hbit, Bool.or_false]

/-- The bit of a block changes the page where it is one of its bits. -/
theorem setBit_mcsLen (ota : OtaPara) (k : ℕ) : (ota.setBit k).mcsLen =
    if 224 ≤ k ∧ k < 240 then ota.mcsLen ||| 1#16 <<< (k - 224) else ota.mcsLen := by
  rw [OtaPara.setBit]
  split_ifs <;> first | rfl | omega

theorem finishBlock_mcsLen {env : Env} {req : OtaUpgradeReq} {ram : ℕ → Byte} {w w' : World}
    (h : finishBlock env req ram w = .next w') : w'.ota.mcsLen = w.ota.mcsLen := by
  rcases finishBlock_next h with ⟨-, rfl⟩ | ⟨-, rc, -, -, rfl⟩ | ⟨-, -, -, rfl⟩
  · rfl
  · rw [checkFailed, ucGatewayClearState]
    split <;> rfl
  · rfl

theorem received_mcsLen {env : Env} {req : OtaUpgradeReq} (ram : ℕ → Byte) {w : World}
    (h : req.Receives env w) : (received env req ram w).ota.mcsLen =
      if 224 ≤ req.block ∧ req.block < 240 then
        beginPage env req w w.ota.mcsLen ||| 1#16 <<< (req.block - 224)
      else beginPage env req w w.ota.mcsLen := by
  have hat : (atReception env req w).ota.mcsLen = beginPage env req w w.ota.mcsLen := by
    rw [atReception, beginPage]
    by_cases hs : req.Starts env w
    · have hlen : req.versionText.length ≤ 60 := by
        have := (h.fits hs).length_le
        rw [List.length_drop, List.length_singleton] at this
        omega
      rw [if_pos hs, if_pos hs, overHalf_of_le hlen]
      rfl
    · rw [if_neg hs, if_neg hs]
      rfl
  rw [received]
  by_cases hm : req.Marked env ram w
  · rw [if_pos hm, touch_ota, hat]
    split
    · next hk =>
      have hbit : judgmentBit ram (atReception env req w).ota req.block = true := hm
      rw [judgmentBit, if_neg (by omega), if_pos hk.2, hat] at hbit
      exact (or_bit_of_getLsbD hbit).symm
    · rfl
  · rw [if_neg hm]
    show ((atReception env req w).ota.setBit req.block).mcsLen = _
    rw [setBit_mcsLen, hat]

/-- What a request leaves of the page. -/
theorem upgradeReq_mcsLen {env : Env} {req : OtaUpgradeReq} {ram : ℕ → Byte} {w w' : World}
    (h : ucWiotaGatewayOtaUpgradeResMsg env req ram w = .next w') : w'.ota.mcsLen =
      if req.Receives env w ∧ 224 ≤ req.block ∧ req.block < 240 then
        beginPage env req w w.ota.mcsLen ||| 1#16 <<< (req.block - 224)
      else beginPage env req w w.ota.mcsLen := by
  by_cases hc : req.Considered env w
  · rcases considered_next hc h with ⟨hs, -, hfits, rfl⟩ | ⟨hrecv, hfin⟩
    · rw [if_neg fun hk => hfits (hk.1.fits hs), beginPage, if_pos hs]
      rfl
    · rw [finishBlock_mcsLen hfin, received_mcsLen ram hrecv]
      exact if_congr (and_iff_right hrecv).symm rfl rfl
  · rw [upgradeReq_rejected hc] at h
    rw [← Outcome.next.inj h, if_neg fun hk => hc hk.1.considered, beginPage,
      if_neg fun hs => hc hs.1]
    rfl

/-- An OTA handler delivers the page of a request that starts a download. -/
theorem otaStep_divisors {e : OtaEvent} (h : dev.otaStep board e = .next dev') :
    divisors dev' = otaDelivery (board.envOf dev) dev.world (divisors dev) e := by
  obtain ⟨w, hstep, rfl⟩ := Outcome.map_eq_next.mp h
  by_cases he : ∃ req ram, e = .upgradeReq req ram
  · obtain ⟨req, ram, rfl⟩ := he
    have hmcs := upgradeReq_mcsLen hstep
    rw [otaDelivery, divisors, hmcs]
    rfl
  · have hmcs : w.ota.mcsLen = dev.world.ota.mcsLen :=
      (otaStep_other_kept he hstep).2
    have hsame : otaDelivery (board.envOf dev) dev.world (divisors dev) e = divisors dev := by
      cases e with
      | upgradeReq req ram => exact absurd ⟨req, ram, rfl⟩ he
      | _ => rfl
    rw [hsame, divisors, hmcs]
    rfl

theorem sendData_divisors (answer : SendAnswer) (data : List Byte) (dev : Device) :
    divisors (ucWiotaGatewaySendData board answer data dev).2 = divisors dev := by
  rw [ucWiotaGatewaySendData]
  split
  · rfl
  · split
    · rfl
    · split
      · rfl
      · split
        · dsimp only
          split
          · rfl
          · split <;> rfl
        · rfl

theorem versionMsg_divisors (answer : SendAnswer) (dev : Device) :
    divisors (ucWiotaGatewayVersionMsg board answer dev) = divisors dev := by
  rw [ucWiotaGatewayVersionMsg]
  split
  · exact sendPsCmdData_divisors _ _ _ dev
  · rfl

/-- A packet of the task delivers the page of a request that starts a download. -/
theorem analisysDlMsg_divisors {packet : DlPacket}
    (h : ucWiotaGatewayAnalisysDlMsg board packet dev = .next dev') :
    divisors dev' = packetDelivery board packet dev (divisors dev) := by
  rw [ucWiotaGatewayAnalisysDlMsg] at h
  rw [packetDelivery, accepted]
  cases hdec : appDataDecoding board.lz packet.alloc packet.data .zero with
  | error rc =>
    rw [hdec] at h
    cases h
    rfl
  | ok d =>
    rw [hdec] at h
    dsimp only at h ⊢
    split at h
    · rename_i hforeign
      cases h
      rw [if_pos hforeign]
    · rename_i hforeign
      rw [if_neg hforeign]
      dsimp only
      rw [dispatch] at h
      cases hcmd : PsCmd.ofByte d.psHeader.cmdType <;> rw [hcmd] at h <;> dsimp only at h
      case otaUpgradeReq => exact (otaStep_divisors h).trans (if_pos rfl).symm
      case otaUpgradeStop => exact (otaStep_divisors h).trans (if_neg nofun).symm
      case otaUpgradeState => exact (otaStep_divisors h).trans (if_neg nofun).symm
      all_goals
        rw [← Outcome.next.inj h]
        refine Eq.trans ?_ (if_neg nofun).symm
      case authenticationRes => exact authResMsg_divisors _ _ _ dev
      case ioteUserData =>
        rw [ucWiotaGatewayRecvDlMsg]
        split <;> rfl
      case ioteLoopData => exact sendData_divisors _ _ dev
      case ioteVersionReq => exact versionMsg_divisors _ dev
      all_goals rfl

theorem endGateway_divisors (exitReceived taskRuns : Bool) (dev : Device) :
    divisors (endGateway exitReceived taskRuns dev) = divisors dev := by
  have hflag (flag : ConnectFlag) : divisors (if (Device.setFlag flag dev).isTsMode = true then
      { Device.setFlag flag dev with stackActiveTime := (Device.setFlag flag dev).activeTime }
      else Device.setFlag flag dev) = divisors dev := by
    split <;> rfl
  exact hflag _

/-- What the device divides by after an event of the device is what the event delivers, or what it was
before. -/
theorem nodeStep_divisors {s : Session} {e : NodeEvent} {node : Node}
    (hstart : ∀ call, e ≠ .start call) (h : nodeStep board s.node e = .next node) :
    divisors node.dev = delivery board s (divisors s.node.dev) (.node e) := by
  cases e with
  | start call => exact absurd rfl (hstart call)
  | taskRecv packet =>
    rw [delivery]
    rcases task_next h with ⟨hruns, dev', hdev, rfl⟩ | ⟨hruns, rfl⟩
    · rw [if_pos hruns]
      exact analisysDlMsg_divisors hdev
    · rw [if_neg hruns]
  | missDataReq sent ram =>
    rcases task_next h with ⟨-, dev', hdev, rfl⟩ | ⟨-, rfl⟩
    · exact otaStep_divisors hdev
    · rfl
  | gatewayEnd exitReceived =>
    rw [nodeStep] at h
    split at h
    · rw [← Outcome.next.inj h]
      rfl
    · rw [← Outcome.next.inj h]
      exact endGateway_divisors _ _ s.node.dev
  | taskBreak judged =>
    obtain rfl := Outcome.next.inj h
    split
    · cases judged <;> rfl
    · rfl
  | _ =>
    obtain rfl := Outcome.next.inj h
    rfl

/-- What the device divides by is what a step delivers, or what it was before. -/
theorem sessionStep_divisors {s s' : Session} {e : SessionEvent}
    (h : sessionStep board s e = .next s') :
    divisors s'.node.dev = delivery board s (divisors s.node.dev) e := by
  cases e with
  | advance =>
    cases h
    exact advance_divisors s
  | recvBack recv =>
    cases h
    rfl
  | setAuthPeriod authPeriod =>
    cases h
    rfl
  | node e =>
    by_cases hstart : ∃ call, e = .start call
    · obtain ⟨call, rfl⟩ := hstart
      obtain rfl := Outcome.next.inj h
      by_cases hidle : s.phase.isIdle = true
      · rw [if_pos hidle]
        exact beginStart_divisors call hidle
      · rw [if_neg hidle, delivery, if_neg fun hinit => hidle hinit.1]
    · have hnode : sessionStep board s (.node e) =
          (nodeStep board s.node e).map fun node => ⟨node, s.phase⟩ := by
        cases e with
        | start call => exact absurd ⟨call, rfl⟩ hstart
        | _ => rfl
      rw [hnode] at h
      obtain ⟨node, hnext, rfl⟩ := Outcome.map_eq_next.mp h
      exact nodeStep_divisors (fun call hcall => hstart ⟨call, hcall⟩) hnext

end Authentication

section Draws
variable {board : Board} {answer : SendAnswer} {dev : Device}

theorem authResDraw_divisors {heardAnswer : SendAnswer} {data : Buffer} {d : Device}
    (h : authResDraw board heardAnswer data d = some (answer, dev)) :
    dev.isTsMode = d.isTsMode ∧ divisors dev = divisors d := by
  rw [authResDraw] at h
  split at h
  · obtain ⟨-, rfl⟩ := Prod.mk.inj (Option.some.inj h)
    exact ⟨rfl, rfl⟩
  · cases h

/-- The draw behind the broadcast uses the periods of the broadcast. -/
theorem advanceDraw_divisors {s : Session} (h : advanceDraw board s = some (answer, dev)) :
    dev.isTsMode = s.node.dev.isTsMode ∧
      divisors dev = delivery board s (divisors s.node.dev) .advance := by
  rw [advanceDraw] at h
  rw [delivery]
  obtain ⟨node, phase⟩ := s
  cases phase with
  | idle => cases h
  | retrying call i reAuthCount =>
    cases reAuthCount with
    | zero => cases h
    | succ reAuthCount =>
      dsimp only at h
      split at h
      · obtain ⟨-, rfl⟩ := Prod.mk.inj (Option.some.inj h)
        exact ⟨rfl, rfl⟩
      · cases h
  | waiting attempt wait rounds =>
    cases rounds with
    | nil => cases h
    | cons round rounds =>
      dsimp only at h ⊢
      cases hheard : heard board round wait with
      | none =>
        rw [hheard] at h
        cases h
      | some heardPacket =>
        obtain ⟨packet, d⟩ := heardPacket
        rw [hheard] at h
        dsimp only at h ⊢
        split at h
        · rename_i hres
          have hnot : ¬ OpensSlots attempt.call.mode wait d := fun hopens =>
            absurd (hres.symm.trans hopens.1) (by decide)
          rw [if_neg hnot]
          exact authResDraw_divisors h
        · split at h
          · rename_i hopens
            obtain ⟨-, rfl⟩ := Prod.mk.inj (Option.some.inj h)
            rw [if_pos hopens]
            exact ⟨rfl, rfl⟩
          · cases h

/-- A draw uses what has been delivered up to it. -/
theorem stepDraw_divisors {s : Session} {e : SessionEvent}
    (h : stepDraw board s e = some (answer, dev)) :
    dev.isTsMode = s.node.dev.isTsMode ∧
      divisors dev = delivery board s (divisors s.node.dev) e := by
  cases e with
  | recvBack recv => cases h
  | setAuthPeriod authPeriod => cases h
  | advance => exact advanceDraw_divisors h
  | node e =>
    cases e with
    | taskRecv packet =>
      rw [stepDraw] at h
      rw [delivery]
      split at h
      · rename_i hruns
        rw [if_pos hruns, packetDelivery]
        cases hacc : accepted board packet s.node.dev with
        | none =>
          rw [hacc] at h
          cases h
        | some d =>
          rw [hacc] at h
          dsimp only at h ⊢
          split at h
          · rename_i hres
            have hnot : ¬ PsCmd.ofByte d.psHeader.cmdType = .otaUpgradeReq := fun hreq =>
              absurd (hres.symm.trans hreq) (by decide)
            rw [if_neg hnot]
            exact authResDraw_divisors h
          · cases h
      · cases h
    | _ => cases h

end Draws

/-- A session with what has been delivered last in it. -/
structure Tracked where
  session : Session
  last : Delivered

def Tracked.step (board : Board) (t : Tracked) (e : SessionEvent) :
    Outcome GatewayOta.HaltReason Tracked :=
  (sessionStep board t.session e).map fun s => ⟨s, delivery board t.session t.last e⟩

/-- Before anything is delivered. -/
def Tracked.boot (board : Board) (flash : OtaFlash.Flash) : Tracked :=
  ⟨.boot board flash, ⟨0#32, 0#8, 0#16⟩⟩

/-- In time-slot mode a frame comes after a period of the frames, and a request after periods that the
drawn slot fits. A timeout comes after the page of a download. None of these is zero. -/
structure DeliveredInTime (board : Board) (t : Tracked) (e : SessionEvent) : Prop where
  draw : ∀ answer dev, stepDraw board t.session e = some (answer, dev) →
    t.session.node.dev.isTsMode = true →
      SlotFits answer.rand (delivery board t.session t.last e).pof.toNat
        (delivery board t.session t.last e).authPeriod.toNat
  report : ∀ recv, stepReport e = some recv → recv.succeeded = true → recv.isFnChange = true →
    recv.data ≠ none → t.session.node.dev.isTsMode = true → t.last.pof.toNat ≠ 0
  timeout : ∀ call, stepTimeout board t.session e = some call → t.last.mcsLen.toNat ≠ 0

/-- What is delivered is what the device holds. -/
theorem tracked_step {board : Board} {t t' : Tracked} {e : SessionEvent}
    (ht : divisors t.session.node.dev = t.last) (h : t.step board e = .next t') :
    divisors t'.session.node.dev = t'.last := by
  obtain ⟨s, hs, rfl⟩ := Outcome.map_eq_next.mp h
  rw [← ht]
  exact sessionStep_divisors hs

theorem stepDivides_iff {board : Board} {t : Tracked} {e : SessionEvent}
    (ht : divisors t.session.node.dev = t.last) :
    StepDivides board t.session e ↔ DeliveredInTime board t e := by
  have hpof : t.session.node.dev.gwInfo.pof = t.last.pof := congrArg Delivered.pof ht
  have hmcs : t.session.node.dev.world.ota.mcsLen = t.last.mcsLen := congrArg Delivered.mcsLen ht
  have hdraw {answer : SendAnswer} {dev : Device}
      (hd : stepDraw board t.session e = some (answer, dev)) : DrawDivides answer dev ↔
        (t.session.node.dev.isTsMode = true →
          SlotFits answer.rand (delivery board t.session t.last e).pof.toNat
            (delivery board t.session t.last e).authPeriod.toNat) := by
    obtain ⟨hts, hdiv⟩ := stepDraw_divisors hd
    rw [drawDivides_iff, hts, ← ht, ← hdiv]
    rfl
  constructor
  · intro h
    refine ⟨fun answer dev hd => (hdraw hd).mp (h.draw answer dev hd), fun recv hr => ?_,
      fun call hc => ?_⟩
    · rw [← hpof]
      exact isSome_recvDataCallback.mp (h.report recv hr)
    · rw [← hmcs]
      exact (TimeoutCall.isSome_checked call).mp (h.timeout call hc)
  · intro h
    refine ⟨fun answer dev hd => (hdraw hd).mpr (h.draw answer dev hd), fun recv hr => ?_,
      fun call hc => ?_⟩
    · have hreport := h.report recv hr
      rw [← hpof] at hreport
      exact isSome_recvDataCallback.mpr hreport
    · have htimeout := h.timeout call hc
      rw [← hmcs] at htimeout
      exact (TimeoutCall.isSome_checked call).mpr htimeout

/-- Over a whole session the steps divide safely exactly if what each of them divides by has been
delivered before it, and not as zero. -/
theorem divisions_safe_iff (board : Board) (flash : OtaFlash.Flash) (es : List SessionEvent) :
    (∀ pre e post t, es = pre ++ e :: post →
      run (Tracked.step board) (.boot board flash) pre = .next t →
        StepDivides board t.session e) ↔
      ∀ pre e post t, es = pre ++ e :: post →
        run (Tracked.step board) (.boot board flash) pre = .next t →
          DeliveredInTime board t e := by
  refine forall₄_congr fun pre e post t => imp_congr_right fun _ => forall_congr' fun hrun => ?_
  have hboot : divisors (Tracked.boot board flash).session.node.dev =
      (Tracked.boot board flash).last := rfl
  have hkeep (t : Tracked) (e : SessionEvent) (t' : Tracked)
      (ht : divisors t.session.node.dev = t.last) (h : t.step board e = .next t') :
      divisors t'.session.node.dev = t'.last := tracked_step ht h
  exact stepDivides_iff (run_keeps hkeep hboot hrun)

/-- A start in time-slot mode whose attempts are not answered. -/
def silentStart : StartRequest where
  mode := .timeSlot
  authKey := some ⟨[], nofun, by decide⟩
  freqList := none
  awakened := false
  synced := true
  queueCreated := true
  attempts := fun _ => ⟨true, .demo, 0#32, []⟩
  timerCreated := true
  autoConnect := false
  threadCreated := true

/-- The first frame that the stack reports divides by a period that nothing has delivered. -/
theorem first_report_divides_by_zero : ¬ ∀ (board : Board) (flash : OtaFlash.Flash)
    (es : List SessionEvent) pre e post t, es = pre ++ e :: post →
    run (Tracked.step board) (.boot board flash) pre = .next t → StepDivides board t.session e := by
  intro h
  have hstep := h .demo demoFlash [.node (.start silentStart), .recvBack ⟨true, true, some 1#32⟩]
    [.node (.start silentStart)] _ [] _ rfl rfl
  have hreport := hstep.report _ rfl
  exact absurd hreport (by decide)

end WiotaDev.GatewayStart
