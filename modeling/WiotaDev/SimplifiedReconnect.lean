import WiotaDev.SimplifiedAt
import Mathlib.Data.List.Count
import Mathlib.Order.Nat

/-! # One reconnect at a time

What the threads of the AT module do about a reconnect: a request on its way into the queue, in the
queue, in `wiota_connect`, or connected and not yet marked. A sound module has at most one, and
keeps the callbacks unregistered while it waits. -/

namespace WiotaDev.SimplifiedAt
open HaltingRuns CountingSemaphore

/-- Where reconnects are, whether the module says it is connected, and the registered callbacks. -/
structure Reconnect where
  online : Bool
  queued : ℕ
  joins : Bool
  completes : Bool
  senders : List SendPhase
  normalMsg : Option Callback
  stateInfo : Option Callback

namespace Reconnect

variable {r : Reconnect}

/-- The reconnects sent, queued or processed. -/
def pending (r : Reconnect) : ℕ :=
  r.queued + r.joins.toNat + r.completes.toNat + r.senders.length

/-- A reconnect has unregistered the callback for messages. -/
def HoldsNormal (r : Reconnect) : Prop :=
  0 < r.queued ∨ r.joins ∨ ∃ p ∈ r.senders, p ≠ .unregisterNormal

/-- A reconnect has unregistered both callbacks. -/
def HoldsState (r : Reconnect) : Prop :=
  0 < r.queued ∨ r.joins ∨ ∃ p ∈ r.senders, p ≠ .unregisterNormal ∧ p ≠ .unregisterState

/-- At most one reconnect is pending, one is while the module is not connected, it keeps what it has
unregistered, and it finds no gateway to end. -/
structure Sound (r : Reconnect) : Prop where
  single : r.pending ≤ 1
  offline : r.online = false → r.pending = 1
  normalMsg : r.HoldsNormal → r.normalMsg = none
  stateInfo : r.HoldsState → r.stateInfo = none
  ending : ∀ p, .ending p ∈ r.senders → p = .ending

/-- The only reconnect is a request on its way. -/
theorem Sound.sole (h : r.Sound) {p : SendPhase} (hp : p ∈ r.senders) :
    r.queued = 0 ∧ r.joins = false ∧ r.completes = false ∧ r.senders = [p] := by
  have hle := h.single
  rw [pending] at hle
  obtain ⟨q, rest, hcons⟩ := List.exists_cons_of_ne_nil (List.ne_nil_of_mem hp)
  rw [hcons, List.length_cons] at hle
  have hrest : rest = [] := List.length_eq_zero_iff.mp (by omega)
  have hjoins : r.joins = false := Bool.toNat_eq_zero.mp (by omega)
  have hcompletes : r.completes = false := Bool.toNat_eq_zero.mp (by omega)
  rw [hcons, hrest, List.mem_singleton] at hp
  exact ⟨by omega, hjoins, hcompletes, by rw [hcons, hrest, hp]⟩

/-- A request begins where none is pending. -/
theorem Sound.request (h : r.Sound) (hnone : r.pending = 0) (online : Bool) :
    Sound { r with online := online, senders := .unregisterNormal :: r.senders } := by
  rw [pending] at hnone
  have hnil : r.senders = [] := List.length_eq_zero_iff.mp (by omega)
  have hone : r.queued + r.joins.toNat + r.completes.toNat + [SendPhase.unregisterNormal].length = 1 := by
    rw [List.length_singleton]
    omega
  rw [hnil]
  refine ⟨hone.le, fun _ => hone, fun hheld => ?_, fun hheld => ?_, fun p hp => ?_⟩
  · rcases hheld with hq | hj | ⟨p, hp, hne⟩
    · exact h.normalMsg (.inl hq)
    · exact h.normalMsg (.inr (.inl hj))
    · exact absurd (List.mem_singleton.mp hp) hne
  · rcases hheld with hq | hj | ⟨p, hp, hne, -⟩
    · exact h.stateInfo (.inl hq)
    · exact h.stateInfo (.inr (.inl hj))
    · exact absurd (List.mem_singleton.mp hp) hne
  · cases List.mem_singleton.mp hp

/-- A request goes on to a step behind the unregistering of the callback for messages. -/
theorem Sound.advance (h : r.Sound) {p p' : SendPhase} (hp : p ∈ r.senders)
    {normalMsg stateInfo : Option Callback} (hnormal : p' ≠ .unregisterNormal → normalMsg = none)
    (hstate : p' ≠ .unregisterNormal → p' ≠ .unregisterState → stateInfo = none)
    (hending : ∀ q, p' = .ending q → q = .ending) :
    Sound { r with senders := [p'], normalMsg := normalMsg, stateInfo := stateInfo } := by
  obtain ⟨hq, hj, hc, -⟩ := h.sole hp
  have hone : r.queued + r.joins.toNat + r.completes.toNat + [p'].length = 1 := by
    rw [hq, hj, hc]
    rfl
  refine ⟨hone.le, fun _ => hone, fun hheld => ?_, fun hheld => ?_, fun q hq => ?_⟩
  · rcases hheld with hq' | hj' | ⟨q, hmem, hne⟩
    · exact absurd hq' (by rw [hq]; exact lt_irrefl 0)
    · cases hj.symm.trans hj'
    · rw [List.mem_singleton.mp hmem] at hne
      exact hnormal hne
  · rcases hheld with hq' | hj' | ⟨q, hmem, hne, hne'⟩
    · exact absurd hq' (by rw [hq]; exact lt_irrefl 0)
    · cases hj.symm.trans hj'
    · rw [List.mem_singleton.mp hmem] at hne hne'
      exact hstate hne hne'
  · exact hending q (List.mem_singleton.mp hq).symm

/-- A request enters the queue. -/
theorem Sound.enqueue (h : r.Sound) (hp : .queueing ∈ r.senders) :
    Sound { r with queued := r.queued + 1, senders := [] } := by
  obtain ⟨hq, hj, hc, -⟩ := h.sole hp
  have hone : r.queued + 1 + r.joins.toNat + r.completes.toNat + ([] : List SendPhase).length = 1 := by
    rw [hq, hj, hc]
    rfl
  refine ⟨hone.le, fun _ => hone, fun _ => ?_, fun _ => ?_, fun q hq => ?_⟩
  · exact h.normalMsg (.inr (.inr ⟨_, hp, by simp⟩))
  · exact h.stateInfo (.inr (.inr ⟨_, hp, by simp⟩))
  · cases hq

/-- A request leaves the queue for `wiota_connect`. -/
theorem Sound.receive (h : r.Sound) (hq : 0 < r.queued) :
    Sound { r with queued := r.queued - 1, joins := true } := by
  have hle := h.single
  rw [pending] at hle
  have hone : r.queued - 1 + true.toNat + r.completes.toNat + r.senders.length = 1 := by
    rw [Bool.toNat_true]
    omega
  exact ⟨hone.le, fun _ => hone, fun _ => h.normalMsg (.inl hq), fun _ => h.stateInfo (.inl hq), h.ending⟩

/-- The reconnect that the task is at is the only one. -/
theorem Sound.joining (h : r.Sound) (hj : r.joins = true) :
    r.queued = 0 ∧ r.completes = false ∧ r.senders = [] := by
  have hle := h.single
  rw [pending] at hle
  rw [hj, Bool.toNat_true] at hle
  exact ⟨by omega, Bool.toNat_eq_zero.mp (by omega), List.length_eq_zero_iff.mp (by omega)⟩

/-- `wiota_connect` succeeds. -/
theorem Sound.joined (h : r.Sound) (hj : r.joins = true) :
    Sound { r with joins := false, completes := true } := by
  obtain ⟨hq, -, hs⟩ := h.joining hj
  have hone : r.queued + false.toNat + true.toNat + r.senders.length = 1 := by
    rw [hq, hs]
    rfl
  have hfree : ¬ (0 < r.queued ∨ false = true ∨ ∃ p ∈ r.senders, p ≠ .unregisterNormal) := by
    simp [hq, hs]
  refine ⟨hone.le, fun _ => hone, fun hheld => absurd hheld hfree, fun hheld => ?_, h.ending⟩
  exact absurd (hheld.imp_right (.imp_right fun ⟨p, hp, hne, _⟩ => ⟨p, hp, hne⟩)) hfree

/-- `wiota_connect` fails, and the task asks for another. -/
theorem Sound.failed (h : r.Sound) (hj : r.joins = true) :
    Sound { r with online := false, joins := false, senders := .unregisterNormal :: r.senders } := by
  obtain ⟨hq, hc, hs⟩ := h.joining hj
  have hfree : Sound { r with online := true, joins := false } := by
    refine ⟨?_, (fun h => by cases h), fun _ => ?_, fun _ => ?_, h.ending⟩
    · show r.queued + false.toNat + r.completes.toNat + r.senders.length ≤ 1
      rw [hq, hc, hs]
      decide
    · exact h.normalMsg (.inr (.inl hj))
    · exact h.stateInfo (.inr (.inl hj))
  refine hfree.request ?_ false
  show r.queued + false.toNat + r.completes.toNat + r.senders.length = 0
  rw [hq, hc, hs]
  rfl

/-- The task that completes a reconnect holds nothing unregistered. -/
theorem Sound.completing (h : r.Sound) (hc : r.completes = true) :
    ¬ r.HoldsNormal ∧ ¬ r.HoldsState := by
  have hle := h.single
  rw [pending] at hle
  rw [hc, Bool.toNat_true] at hle
  have hq : r.queued = 0 := by omega
  have hj : r.joins = false := Bool.toNat_eq_zero.mp (by omega)
  have hs : r.senders = [] := List.length_eq_zero_iff.mp (by omega)
  constructor
  · simp [HoldsNormal, hq, hj, hs]
  · simp [HoldsState, hq, hj, hs]

/-- The module says it is connected. -/
theorem Sound.completed (h : r.Sound) (hc : r.completes = true) :
    Sound { r with online := true, completes := false } := by
  refine ⟨?_, (fun h => by cases h), h.normalMsg, h.stateInfo, h.ending⟩
  have hle := h.single
  unfold pending at hle ⊢
  rw [hc, Bool.toNat_true] at hle
  dsimp only
  rw [Bool.toNat_false]
  omega

/-- The callback for messages changes while no reconnect holds it unregistered. -/
theorem Sound.registerNormal (h : r.Sound) {normalMsg : Option Callback}
    (hfree : normalMsg = none ∨ ¬ r.HoldsNormal) : Sound { r with normalMsg := normalMsg } :=
  ⟨h.single, h.offline, fun hheld => hfree.resolve_right (not_not_intro hheld), h.stateInfo, h.ending⟩

/-- The callback for states changes while no reconnect holds it unregistered. -/
theorem Sound.registerState (h : r.Sound) (hfree : ¬ r.HoldsState) (stateInfo : Option Callback) :
    Sound { r with stateInfo := stateInfo } :=
  ⟨h.single, h.offline, h.normalMsg, fun hheld => absurd hheld hfree, h.ending⟩

end Reconnect

/-- What the threads do about reconnects. -/
def State.reconnect (s : State) : Reconnect where
  online := decide (s.connnectState = .syncSuc)
  queued := s.wiotaMq.count .connect
  joins := s.task.joins
  completes := s.task.completes
  senders := s.senders
  normalMsg := s.normalMsg
  stateInfo := s.stateInfo

/-- A reconnect is in the queue or in `wiota_connect`. -/
def State.Waits (s : State) : Prop := .connect ∈ s.wiotaMq ∨ s.task.joins

/-- At most one reconnect is sent, queued or processed, one is while the module is not connected and
no scan is pending, and no callback is registered while one waits. -/
structure OnePending (s : State) : Prop where
  single : s.reconnect.pending ≤ 1
  offline : s.connnectState ≠ .syncSuc → ¬ s.ScanPending → s.reconnect.pending = 1
  unregistered : s.Waits → s.normalMsg = none ∧ s.stateInfo = none

/-- The queue has room for the request, and no gateway is ended on its way. -/
def SendSafe (s : State) : SendPhase → Prop
  | .ending _ => s.gwOpen = false
  | .queueing => s.wiotaMq.length < WIOTA_MQ_MSG_QUEUE_SIZE
  | .unregisterNormal | .unregisterState | .testMode => True

/-- The gateway registers a callback only while no reconnect has unregistered it. -/
def GatewaySafe (s : State) : GatewayPhase → Prop
  | .registering | .exiting => ¬ s.reconnect.HoldsNormal
  | _ => True

/-- The AT server asks for a connect only where none is pending. -/
def AtSafe (s : State) : AtPhase → Prop
  | .testing => s.connnectState = .syncSuc → s.reconnect.pending = 0
  | .sending p => SendSafe s p
  | .entering p | .leaving p => GatewaySafe s p
  | _ => True

/-- A scan ends in sync, and the reconnect behind it fails only where none is pending. -/
def TaskSafe (s : State) (ok : Bool) : TaskPhase → Prop
  | .entering p => GatewaySafe s p
  | .sending p | .resending p => SendSafe s p
  | .testState => s.connnectState = .syncSuc
  | .rejoining => ok = false → s.reconnect.pending = 0
  | _ => True

/-- A connect is asked for by a command, by the loss of the sync or by a failed reconnect behind a
scan only where none is pending, a scan ends only in sync, and the gateway is left to itself while a
reconnect is pending. The queue is large enough. -/
def SpacedRequests (s : State) : Event → Prop
  | .atServer _ => AtSafe s s.atServer
  | .syncLost => s.stateInfo.isSome → s.callback = none → s.reconnect.pending = 0
  | .callback _ => ∀ p ∈ s.callback, SendSafe s p
  | .task ok _ => TaskSafe s ok s.task
  | .command _ | .scanTimeout | .gatewayBreaks => True

instance (r : Reconnect) : Decidable r.HoldsNormal :=
  inferInstanceAs (Decidable (_ ∨ _ ∨ ∃ p ∈ r.senders, p ≠ .unregisterNormal))

instance (s : State) : DecidablePred (SendSafe s)
  | .ending _ => inferInstanceAs (Decidable (_ = _))
  | .queueing => inferInstanceAs (Decidable (_ < _))
  | .unregisterNormal | .unregisterState | .testMode => inferInstanceAs (Decidable True)

instance (s : State) : DecidablePred (GatewaySafe s)
  | .registering | .exiting => inferInstanceAs (Decidable ¬ s.reconnect.HoldsNormal)
  | .starting | .marking | .authenticating | .ending | .unregistering | .unmarking =>
    inferInstanceAs (Decidable True)

instance (s : State) : DecidablePred (AtSafe s)
  | .testing => inferInstanceAs (Decidable (_ → _ = _))
  | .sending p => inferInstanceAs (Decidable (SendSafe s p))
  | .entering p | .leaving p => inferInstanceAs (Decidable (GatewaySafe s p))
  | .idle | .requesting _ | .taking _ | .suspended _ | .judging _ | .settingMode _ =>
    inferInstanceAs (Decidable True)

instance (s : State) (ok : Bool) : DecidablePred (TaskSafe s ok)
  | .entering p => inferInstanceAs (Decidable (GatewaySafe s p))
  | .sending p | .resending p => inferInstanceAs (Decidable (SendSafe s p))
  | .testState => inferInstanceAs (Decidable (_ = _))
  | .rejoining => inferInstanceAs (Decidable (_ → _ = _))
  | .receiving | .connecting | .choosing | .trying _ | .joining _ | .registerNormal | .registerState
  | .markSuc | .testMode | .markFail | .scanning _ | .releasing _ | .clearing =>
    inferInstanceAs (Decidable True)

instance (s : State) : DecidablePred (SpacedRequests s)
  | .atServer _ => inferInstanceAs (Decidable (AtSafe s s.atServer))
  | .syncLost => inferInstanceAs (Decidable (_ → _ → _ = _))
  | .callback _ => inferInstanceAs (Decidable (∀ p ∈ s.callback, SendSafe s p))
  | .task ok _ => inferInstanceAs (Decidable (TaskSafe s ok s.task))
  | .command _ | .scanTimeout | .gatewayBreaks => inferInstanceAs (Decidable True)

theorem Reconnect.Sound.onePending {s : State} (h : s.reconnect.Sound) : OnePending s where
  single := h.single
  offline hst _ := h.offline (decide_eq_false hst)
  unregistered hw := by
    have hheld : 0 < s.reconnect.queued ∨ s.reconnect.joins := hw.imp_left List.count_pos_iff.mpr
    exact ⟨h.normalMsg (hheld.imp_right .inl), h.stateInfo (hheld.imp_right .inl)⟩

theorem boot_sound : State.boot.reconnect.Sound where
  single := le_rfl
  offline h := by cases h
  normalMsg _ := rfl
  stateInfo _ := rfl
  ending p hp := by cases hp

section Steps

variable {s : State}

theorem reconnect_atServer {phase : AtPhase} (h : phase.sender = s.atServer.sender) :
    State.reconnect { s with atServer := phase } = s.reconnect := by
  simp [State.reconnect, State.senders, h]

theorem reconnect_task {phase : TaskPhase} (hs : phase.sender = s.task.sender)
    (hj : phase.joins = s.task.joins) (hc : phase.completes = s.task.completes) :
    State.reconnect { s with task := phase } = s.reconnect := by
  simp [State.reconnect, State.senders, hs, hj, hc]

theorem gatewayStep_reconnect (ok : Bool) (p : GatewayPhase) (s : State) :
    ∃ normalMsg, (gatewayStep ok p s).2.reconnect = { s.reconnect with normalMsg := normalMsg } ∧
      (normalMsg = s.normalMsg ∨ normalMsg = none ∨ p = .registering ∨ p = .exiting) := by
  cases p with
  | starting => exact ⟨_, rfl, .inl rfl⟩
  | registering => exact ⟨_, rfl, .inr (.inr (.inl rfl))⟩
  | marking => exact ⟨_, rfl, .inl rfl⟩
  | authenticating => cases ok <;> exact ⟨_, rfl, .inl rfl⟩
  | ending => exact ⟨_, rfl, .inl rfl⟩
  | unregistering => exact ⟨_, rfl, .inr (.inl rfl)⟩
  | unmarking => exact ⟨_, rfl, .inl rfl⟩
  | exiting => exact ⟨_, rfl, .inr (.inr (.inr rfl))⟩

theorem gatewayStep_sound (h : s.reconnect.Sound) {p : GatewayPhase} (hsafe : GatewaySafe s p)
    (ok : Bool) : (gatewayStep ok p s).2.reconnect.Sound := by
  obtain ⟨normalMsg, heq, hcases⟩ := gatewayStep_reconnect ok p s
  rw [heq]
  rcases hcases with rfl | rfl | rfl | rfl
  · exact h
  · exact h.registerNormal (.inl rfl)
  · exact h.registerNormal (.inr hsafe)
  · exact h.registerNormal (.inr hsafe)

theorem wiotaSendMsg_scan (id : ℕ) (s : State) :
    (wiotaSendMsg (.scanFreq id) s).reconnect = s.reconnect := by
  rw [wiotaSendMsg]
  split
  · simp [State.reconnect, State.senders, List.count_append]
  · rfl

/-- A request on its way goes on. -/
theorem sendConnect_sound (h : s.reconnect.Sound) {p : SendPhase} (hp : p ∈ s.senders)
    (hsafe : SendSafe s p) (ok : Bool) :
    Reconnect.Sound { (wiotaSendConnectMsg ok p s).2.reconnect with
      senders := (wiotaSendConnectMsg ok p s).1.toList } := by
  have hnormal : p ≠ .unregisterNormal → s.normalMsg = none :=
    fun hne => h.normalMsg (.inr (.inr ⟨p, hp, hne⟩))
  have hstate : p ≠ .unregisterNormal → p ≠ .unregisterState → s.stateInfo = none :=
    fun hne hne' => h.stateInfo (.inr (.inr ⟨p, hp, hne, hne'⟩))
  cases p with
  | unregisterNormal =>
    exact h.advance hp (fun _ => rfl) (fun _ hne => absurd rfl hne) fun _ hq => by cases hq
  | unregisterState =>
    exact h.advance hp (fun _ => hnormal (by simp)) (fun _ _ => rfl) fun _ hq => by cases hq
  | testMode =>
    refine h.advance hp (fun _ => hnormal (by simp)) (fun _ _ => hstate (by simp) (by simp)) ?_
    intro q hq
    split at hq
    · cases hq
      rfl
    · cases hq
  | ending q =>
    have hq : q = .ending := h.ending q hp
    subst hq
    have hret : wiotaSendConnectMsg ok (.ending .ending) s = (some .queueing, s) := by
      simp [wiotaSendConnectMsg, gatewayStep, show s.gwOpen = false from hsafe]
    rw [hret]
    exact h.advance hp (fun _ => hnormal (by simp)) (fun _ _ => hstate (by simp) (by simp))
      fun _ hq => by cases hq
  | queueing =>
    have hret : wiotaSendConnectMsg ok .queueing s =
        (none, { s with wiotaMq := s.wiotaMq ++ [.connect] }) := by
      rw [wiotaSendConnectMsg, wiotaSendMsg_room hsafe]
    rw [hret]
    have hcount : (s.wiotaMq ++ [Msg.connect]).count .connect = s.wiotaMq.count .connect + 1 := by
      simp
    have henq := h.enqueue hp
    simpa [State.reconnect, hcount] using henq

/-- The thread that sends is the only one. -/
theorem senders_sole {p : SendPhase} (h : s.reconnect.Sound) (hp : p ∈ s.senders) :
    s.atServer.sender.toList ++ s.callback.toList ++ s.task.sender.toList = [p] :=
  (h.sole hp).2.2.2

/-- Where no reconnect is pending no thread sends. -/
theorem senders_of_none (hnone : s.reconnect.pending = 0) : s.senders = [] := by
  rw [Reconnect.pending] at hnone
  exact List.length_eq_zero_iff.mp (show s.reconnect.senders.length = 0 by omega)

theorem beginCommand_sound (h : s.reconnect.Sound) (hidle : s.atServer = .idle) (c : Command) :
    (beginCommand c s).reconnect.Sound := by
  have hkeep : ∀ phase : AtPhase, phase.sender = none →
      (State.reconnect { s with atServer := phase }).Sound := fun phase hphase => by
    rwa [reconnect_atServer (by rw [hphase, hidle]; rfl)]
  cases c with
  | freq newSpectrum => exact hkeep _ (by cases newSpectrum <;> rfl)
  | rate newSymbols => exact hkeep _ (by cases newSymbols <;> rfl)
  | rssi => exact hkeep (.requesting s.commands) rfl
  | gwInit on => exact hkeep _ (by cases on <;> rfl)

/-- A command goes on with its connect message. -/
theorem atSend_sound (h : s.reconnect.Sound) {p : SendPhase} (hphase : s.atServer = .sending p)
    (hsafe : SendSafe s p) (ok : Bool) : (atStep ok s).reconnect.Sound := by
  have hp : p ∈ s.senders := by simp [State.senders, hphase, AtPhase.sender]
  obtain ⟨-, htask, hcallback⟩ := sendConnect_frame ok p s
  have hsole := senders_sole h hp
  have hnil : s.callback.toList ++ s.task.sender.toList = [] := by
    simpa [hphase, AtPhase.sender] using hsole
  have hsenders : ∀ o : Option SendPhase,
      (o.elim AtPhase.idle AtPhase.sending).sender = o := fun o => by cases o <;> rfl
  have hsound := sendConnect_sound h hp hsafe ok
  rw [atStep, hphase]
  simpa [State.reconnect, State.senders, htask, hcallback, hsenders, hnil] using hsound

/-- A scan command asks for its scan: no connect message is concerned. -/
theorem atRequest_sound (h : s.reconnect.Sound) {id : ℕ} (hphase : s.atServer = .requesting id)
    (ok : Bool) : (atStep ok s).reconnect.Sound := by
  have hsame : ∀ s' : State, s'.reconnect = s.reconnect → s'.atServer = s.atServer →
      (State.reconnect { s' with atServer := .taking id }).Sound := fun s' hrec hat => by
    rwa [reconnect_atServer (by rw [hat, hphase]; rfl), hrec]
  rw [atStep, hphase]
  cases ok with
  | true =>
    refine hsame _ (wiotaSendMsg_scan id s) ?_
    simp only [if_true, wiotaSendMsg]
    split <;> rfl
  | false => exact hsame _ rfl rfl

theorem atStep_sound (h : s.reconnect.Sound) {ok : Bool} (hok : AtSafe s s.atServer) :
    (atStep ok s).reconnect.Sound := by
  cases hphase : s.atServer with
  | idle =>
    rw [atStep, hphase]
    exact h
  | suspended id =>
    rw [atStep, hphase]
    exact h
  | testing =>
    rw [hphase] at hok
    rw [atStep, hphase]
    by_cases hsuc : s.connnectState = .syncSuc
    · have hreq := h.request (hok hsuc) (decide (s.connnectState = .syncSuc))
      simp only [hsuc, if_true]
      simpa [State.reconnect, State.senders, AtPhase.sender, hphase, hsuc] using hreq
    · simp only [hsuc, if_false]
      rwa [reconnect_atServer (by rw [hphase]; rfl)]
  | sending p =>
    rw [hphase] at hok
    exact atSend_sound h hphase hok ok
  | requesting id => exact atRequest_sound h hphase ok
  | taking id =>
    have hsender : AtPhase.sender
        (if (s.scanSem.take () 0).1 then .judging id else .suspended id) = s.atServer.sender := by
      rw [hphase]
      split <;> rfl
    rw [atStep, hphase]
    show (State.reconnect { s with atServer := _ }).Sound
    rwa [reconnect_atServer hsender]
  | judging id =>
    rw [atStep, hphase]
    show (State.reconnect { s with atServer := .idle }).Sound
    rwa [reconnect_atServer (by rw [hphase]; rfl)]
  | entering p =>
    rw [hphase] at hok
    have hsound := gatewayStep_sound h hok ok
    have hsame := (gatewayStep_frame ok p s).1
    rw [atStep, hphase]
    dsimp only
    split
    · rename_i heq
      rw [heq] at hsound hsame
      rwa [reconnect_atServer (by rw [hsame, hphase]; rfl)]
    · rename_i done _ heq
      rw [heq] at hsound hsame
      rwa [reconnect_atServer (by rw [hsame, hphase]; cases done <;> rfl)]
  | leaving p =>
    rw [hphase] at hok
    have hsound := gatewayStep_sound h hok ok
    have hsame := (gatewayStep_frame ok p s).1
    rw [atStep, hphase]
    dsimp only
    split
    · rename_i heq
      rw [heq] at hsound hsame
      rwa [reconnect_atServer (by rw [hsame, hphase]; rfl)]
    · rename_i heq
      rw [heq] at hsound hsame
      rwa [reconnect_atServer (by rw [hsame, hphase]; rfl)]
  | settingMode on =>
    rw [atStep, hphase]
    show (State.reconnect { s with atServer := .idle }).Sound
    rwa [reconnect_atServer (by rw [hphase]; rfl)]

theorem scanTimeout_sound (h : s.reconnect.Sound) : (scanTimeout s).reconnect.Sound := by
  rw [scanTimeout]
  split
  · rename_i id hphase
    show (State.reconnect { s with atServer := .idle }).Sound
    rwa [reconnect_atServer (by rw [hphase]; rfl)]
  · exact h

theorem syncLost_sound (h : s.reconnect.Sound) (hok : SpacedRequests s .syncLost) :
    (syncLost s).reconnect.Sound := by
  rw [syncLost]
  split
  · rename_i hreg
    have hreq := h.request (hok hreg.1 hreg.2) false
    have hnil := senders_of_none (hok hreg.1 hreg.2)
    have hsplit : s.atServer.sender = none ∧ s.task.sender = none := by
      simpa [State.senders, hreg.2] using hnil
    simpa [State.reconnect, State.senders, hreg.2, hsplit.1, hsplit.2] using hreq
  · exact h

theorem callbackStep_sound (h : s.reconnect.Sound) {ok : Bool}
    (hok : SpacedRequests s (.callback ok)) : (callbackStep ok s).reconnect.Sound := by
  rw [callbackStep]
  split
  · rename_i p hphase
    have hp : p ∈ s.senders := by simp [State.senders, hphase]
    obtain ⟨hat, htask, -⟩ := sendConnect_frame ok p s
    have hsole := senders_sole h hp
    have hnil : s.atServer.sender = none ∧ s.task.sender = none := by
      revert hsole
      rw [hphase]
      cases s.atServer.sender <;> cases s.task.sender <;> simp
    have hsound := sendConnect_sound h hp (hok p hphase) ok
    simpa [State.reconnect, State.senders, hat, htask, hnil.1, hnil.2] using hsound
  · exact h

theorem taskReceive_sound (h : s.reconnect.Sound) (hphase : s.task = .receiving) :
    (taskReceive s).reconnect.Sound := by
  rw [taskReceive]
  split
  · exact h
  · rename_i rest hmq
    have hrec := h.receive (show 0 < s.reconnect.queued by simp [State.reconnect, hmq])
    simpa [State.reconnect, State.senders, TaskPhase.sender, TaskPhase.joins, TaskPhase.completes,
      hphase, hmq] using hrec
  · rename_i id rest hmq
    simpa [State.reconnect, State.senders, TaskPhase.sender, TaskPhase.joins, TaskPhase.completes,
      hphase, hmq] using h

/-- The task sends a request that one of its two handlers makes. -/
theorem taskSend_sound (h : s.reconnect.Sound) {p : SendPhase} (hphase : s.task.sender = some p)
    (hsafe : SendSafe s p) (ok : Bool) {phase : TaskPhase}
    (hsender : phase.sender = (wiotaSendConnectMsg ok p s).1)
    (hj : phase.joins = false) (hc : phase.completes = false) :
    (State.reconnect { (wiotaSendConnectMsg ok p s).2 with task := phase }).Sound := by
  have hp : p ∈ s.senders := by simp [State.senders, hphase]
  obtain ⟨hat, htask, hcallback⟩ := sendConnect_frame ok p s
  have hsole := senders_sole h hp
  obtain ⟨-, hjoins, hcompletes, -⟩ := h.sole hp
  have hnil : s.atServer.sender = none ∧ s.callback = none := by
    revert hsole
    rw [hphase]
    cases s.atServer.sender <;> cases s.callback <;> simp
  have hsound := sendConnect_sound h hp hsafe ok
  have hj' : s.task.joins = false := hjoins
  have hc' : s.task.completes = false := hcompletes
  simpa [State.reconnect, State.senders, hat, htask, hcallback, hnil.1, hnil.2, hsender, hj, hc, hj',
    hc'] using hsound

/-- The task moves between phases that are alike for the reconnects. -/
theorem taskMove_sound (h : s.reconnect.Sound) {phase phase' : TaskPhase} (hphase : s.task = phase)
    (hs : phase'.sender = phase.sender) (hj : phase'.joins = phase.joins)
    (hc : phase'.completes = phase.completes) :
    (State.reconnect { s with task := phase' }).Sound := by
  subst hphase
  rwa [reconnect_task hs hj hc]

/-- A request begins in the task. -/
theorem taskRequest_sound (h : s.reconnect.Sound) {phase : TaskPhase} (hphase : s.task = phase)
    (hnone : s.reconnect.pending = 0) (hj : phase.joins = false) (hc : phase.completes = false) :
    (State.reconnect { s with task := .resending .unregisterNormal }).Sound := by
  have hreq := h.request hnone (decide (s.connnectState = .syncSuc))
  have hnil := senders_of_none hnone
  have hsplit : s.atServer.sender = none ∧ s.callback = none ∧ s.task.sender = none := by
    simpa [State.senders, and_assoc] using hnil
  subst hphase
  obtain ⟨hs', hj', hc'⟩ : (TaskPhase.resending .unregisterNormal).sender = some .unregisterNormal ∧
      (TaskPhase.resending .unregisterNormal).joins = false ∧
      (TaskPhase.resending .unregisterNormal).completes = false := ⟨rfl, rfl, rfl⟩
  simpa [State.reconnect, State.senders, hj, hc, hs', hj', hc', hsplit.1, hsplit.2.1, hsplit.2.2]
    using hreq

theorem wiotaScanDone_sender (s : State) :
    (wiotaScanDone s).atServer.sender = s.atServer.sender := by
  rw [wiotaScanDone]
  dsimp only
  split
  · cases s.atServer <;> rfl
  · rfl

theorem taskStep_sound (h : s.reconnect.Sound) {ok : Bool} {freqs : ℕ}
    (hok : TaskSafe s ok s.task) : (taskStep ok freqs s).reconnect.Sound := by
  rw [taskStep]
  cases hphase : s.task with
  | receiving => exact taskReceive_sound h hphase
  | connecting => cases hreq : s.isScanReq <;> exact taskMove_sound h hphase rfl rfl rfl
  | choosing => cases ok <;> exact taskMove_sound h hphase rfl rfl rfl
  | trying left =>
    cases left with
    | zero => exact taskMove_sound h hphase rfl rfl rfl
    | succ left => cases hreq : s.isScanReq <;> exact taskMove_sound h hphase rfl rfl rfl
  | joining left =>
    cases ok with
    | true =>
      have hjoined := h.joined (show s.task.joins = true by rw [hphase]; rfl)
      simpa [State.reconnect, State.senders, TaskPhase.sender, TaskPhase.joins, TaskPhase.completes,
        hphase] using hjoined
    | false => exact taskMove_sound h hphase rfl rfl rfl
  | registerNormal =>
    have hfree := (h.completing (show s.task.completes = true by rw [hphase]; rfl)).1
    exact taskMove_sound (s := { s with normalMsg := some .wiotaRecv })
      (h.registerNormal (.inr hfree)) hphase rfl rfl rfl
  | registerState =>
    have hfree := (h.completing (show s.task.completes = true by rw [hphase]; rfl)).2
    exact taskMove_sound (s := { s with stateInfo := some .wiotaRecv })
      (h.registerState hfree _) hphase rfl rfl rfl
  | markSuc =>
    have hdone := h.completed (show s.task.completes = true by rw [hphase]; rfl)
    simpa [State.reconnect, State.senders, TaskPhase.sender, TaskPhase.joins, TaskPhase.completes,
      hphase] using hdone
  | testMode => cases hmode : s.isGatewayMode <;> exact taskMove_sound h hphase rfl rfl rfl
  | entering p =>
    rw [hphase] at hok
    have hsound := gatewayStep_sound h hok ok
    have hsame := (gatewayStep_frame ok p s).2.1
    dsimp only
    split <;> rename_i heq <;> rw [heq] at hsound hsame <;>
      exact taskMove_sound hsound (hsame.trans hphase) rfl rfl rfl
  | markFail =>
    have hfailed := h.failed (show s.task.joins = true by rw [hphase]; rfl)
    have hnil := (h.joining (show s.task.joins = true by rw [hphase]; rfl)).2.2
    have hsplit : s.atServer.sender = none ∧ s.callback = none := by
      have hnil' : s.senders = [] := hnil
      simpa [State.senders, hphase, TaskPhase.sender] using hnil'
    simpa [State.reconnect, State.senders, TaskPhase.sender, TaskPhase.joins, TaskPhase.completes,
      hphase, hsplit.1, hsplit.2] using hfailed
  | sending p =>
    rw [hphase] at hok
    refine taskSend_sound h (by rw [hphase]; rfl) hok ok ?_ ?_ ?_ <;>
      cases (wiotaSendConnectMsg ok p s).1 <;> rfl
  | scanning id => exact taskMove_sound h hphase rfl rfl rfl
  | releasing id =>
    have hsame : (wiotaScanDone s).reconnect = s.reconnect :=
      reconnect_atServer (wiotaScanDone_sender s)
    exact taskMove_sound (hsame ▸ h) hphase rfl rfl rfl
  | testState =>
    rw [hphase] at hok
    have hsuc : s.connnectState = .syncSuc := hok
    dsimp only
    rw [if_pos hsuc]
    exact taskMove_sound h hphase rfl rfl rfl
  | rejoining =>
    rw [hphase] at hok
    cases ok with
    | true => exact taskMove_sound h hphase rfl rfl rfl
    | false => exact taskRequest_sound h hphase (hok rfl) rfl rfl
  | resending p =>
    rw [hphase] at hok
    refine taskSend_sound h (by rw [hphase]; rfl) hok ok ?_ ?_ ?_ <;>
      cases (wiotaSendConnectMsg ok p s).1 <;> rfl
  | clearing => exact taskMove_sound h hphase rfl rfl rfl

end Steps

/-- The step lemma: a module whose requests are spaced stays sound. -/
theorem step_sound (s : State) (e : Event) (s' : State) (h : s.reconnect.Sound)
    (hok : SpacedRequests s e) (hs : step s e = .next s') : s'.reconnect.Sound := by
  cases e with
  | command c =>
    cases hs
    split
    · exact beginCommand_sound h ‹_› c
    · exact h
  | atServer ok =>
    cases hs
    exact atStep_sound h hok
  | scanTimeout =>
    cases hs
    exact scanTimeout_sound h
  | syncLost =>
    cases hs
    exact syncLost_sound h hok
  | callback ok =>
    cases hs
    exact callbackStep_sound h hok
  | task ok freqs =>
    cases hs
    exact taskStep_sound h hok
  | gatewayBreaks =>
    cases hs
    split <;> exact h

/-- In a run whose requests are spaced one reconnect is pending at a time. -/
theorem spaced_run_onePending {es : List Event} (hok : Meets step SpacedRequests State.boot es)
    {s : State} (hrun : run step State.boot es = .next s) : OnePending s :=
  (run_invariant step_sound boot_sound hok hrun).onePending

/-- The task connects behind the start of the module. -/
def connectedRun : List Event := List.replicate 8 (.task true 0)

/-- The sync is lost, a reconnect fails and the next one succeeds. -/
def reconnectedRun : List Event :=
  connectedRun ++ .syncLost :: List.replicate 4 (.callback true) ++ List.replicate 3 (.task true 0) ++
    List.replicate 7 (.task false 0) ++ List.replicate 8 (.task true 0)

theorem reconnectedRun_onePending :
    ∃ s, run step State.boot reconnectedRun = .next s ∧ s.connnectState = .syncSuc ∧
      s.task = .receiving ∧ OnePending s := by
  have hok : Meets step SpacedRequests State.boot reconnectedRun := by decide
  exact ⟨_, rfl, rfl, rfl, spaced_run_onePending hok rfl⟩

/-- A connected module is given a frequency. -/
def freqCommand : List Event := .command (.freq false) :: List.replicate 5 (.atServer true)

/-- Two commands for a frequency queue two connects, a loss of the sync during a scan makes the scan
queue a second one, and the end of the gateway registers a callback while one is pending. -/
theorem requests_overlap :
    (∃ s, run step State.boot (connectedRun ++ freqCommand ++ freqCommand) = .next s ∧
      s.wiotaMq = [.connect, .connect] ∧ ¬ OnePending s) ∧
    (∃ s, run step State.boot (connectedRun ++ .command .rssi :: .atServer true :: .task true 0 ::
        .syncLost :: List.replicate 4 (.callback true) ++ List.replicate 7 (.task true 0)) = .next s ∧
      s.wiotaMq = [.connect, .connect] ∧ ¬ OnePending s) ∧
    ∃ s, run step State.boot (connectedRun ++ .command (.gwInit true) ::
        List.replicate 5 (.atServer true) ++ .syncLost :: List.replicate 8 (.callback true)) =
          .next s ∧ s.wiotaMq = [.connect] ∧ s.normalMsg = some .wiotaRecv ∧ ¬ OnePending s := by
  refine ⟨⟨_, rfl, rfl, fun h => ?_⟩, ⟨_, rfl, rfl, fun h => ?_⟩, ⟨_, rfl, rfl, rfl, fun h => ?_⟩⟩
  · exact absurd h.single (by decide)
  · exact absurd h.single (by decide)
  · exact absurd (h.unregistered (.inl List.mem_cons_self)).1 (by decide)

end WiotaDev.SimplifiedAt
