import WiotaDev.GatewayLifecycle

/-! # Failed starts and freed resources

A start that fails before its queue exists leaves nothing behind. One that fails later leaves
the connect flag set and, behind the timer or the task, pointers to freed resources. So the runs
in which every failure is clean are those in which no start fails once its queue exists, and in
them nothing is used or freed after it was freed. -/

namespace WiotaDev.GatewayLifecycle
open ResourceLedger HaltingRuns GatewayOta

variable {call : StartCall} {w w' : Session}

/-- Nothing has been misused, and the pointers refer to different live resources. -/
structure Sound (w : Session) : Prop where
  misused : w.ledger.misused = []
  mq : w.ledger.Holds w.gatewayMq
  sem : w.ledger.Holds w.fnRefreshSem
  timer : w.ledger.Holds w.otaTimer
  mq_ne_sem : ∀ h ∈ w.fnRefreshSem, w.gatewayMq ≠ some h
  mq_ne_timer : ∀ h ∈ w.otaTimer, w.gatewayMq ≠ some h
  sem_ne_timer : ∀ h ∈ w.otaTimer, w.fnRefreshSem ≠ some h

/-- The start comes to the point where its queue exists, and its semaphore if it needs one. -/
def Opens (call : StartCall) (w : Session) : Prop :=
  w.connectFlag = .noConnect ∧ call.mode ≠ .other ∧
    (w.isForceActive = true ∨ call.synced = true) ∧ call.authKey = true ∧
    call.queueCreated = true ∧ (call.mode = .timeSlot → call.semCreated = true)

/-- The first or the second attempt succeeds: a success at the third leaves `re_auth_count` 0
and counts as a failure. -/
def AuthSucceeds (attempts : ℕ → AuthAttempt) : Prop :=
  (attempts 0).synced = true ∧
    ((attempts 0).succeeds = true ∨ (attempts 1).synced = true ∧ (attempts 1).succeeds = true)

/-- The authentication succeeds if one is due. -/
def Authenticates (call : StartCall) : Prop :=
  call.isSendAuth = true → AuthSucceeds call.attempts

/-- The OTA timer and the task are created. -/
def Creates (call : StartCall) : Prop :=
  call.timerCreated = true ∧ (call.autoConnect = true ∨ call.threadCreated = true)

/-- The start fails once its queue exists. -/
def FailsLate (call : StartCall) (w : Session) : Prop :=
  Opens call w ∧ ¬(Authenticates call ∧ Creates call)

instance : Decidable (Opens call w) := inferInstanceAs (Decidable (_ ∧ _))
instance {attempts : ℕ → AuthAttempt} : Decidable (AuthSucceeds attempts) :=
  inferInstanceAs (Decidable (_ ∧ _))
instance : Decidable (Authenticates call) := inferInstanceAs (Decidable (_ → _))
instance : Decidable (Creates call) := inferInstanceAs (Decidable (_ ∧ _))
instance : Decidable (FailsLate call w) := inferInstanceAs (Decidable (_ ∧ _))

/-- A failed start leaves the connect flag and the callback as they were, and neither a live
resource nor a pointer of its own. -/
structure CleanFailure (w w' : Session) : Prop where
  connectFlag : w'.connectFlag = w.connectFlag
  recvCallback : w'.recvCallback = w.recvCallback
  live : ∀ h ∈ w'.ledger.live, h < w.ledger.next
  mq : ∀ h ∈ w'.gatewayMq, h < w.ledger.next
  sem : ∀ h ∈ w'.fnRefreshSem, h < w.ledger.next
  timer : ∀ h ∈ w'.otaTimer, h < w.ledger.next

section Resources

theorem Sound.sameResources (hw : Sound w) (hledger : w'.ledger = w.ledger)
    (hmq : w'.gatewayMq = w.gatewayMq) (hsem : w'.fnRefreshSem = w.fnRefreshSem)
    (htimer : w'.otaTimer = w.otaTimer) : Sound w' := by
  obtain ⟨h₁, h₂, h₃, h₄, h₅, h₆, h₇⟩ := hw
  constructor <;> simp only [hledger, hmq, hsem, htimer] <;> assumption

theorem Sound.useQueue (hw : Sound w) : useQueue w = w := by
  rw [GatewayLifecycle.useQueue, Ledger.usePtr_of_holds hw.mq]

theorem Sound.useFnSem (hw : Sound w) : useFnSem w = w := by
  rw [GatewayLifecycle.useFnSem, Ledger.usePtr_of_holds hw.sem]

theorem Sound.useOtaTimer (hw : Sound w) : useOtaTimer w = w := by
  rw [GatewayLifecycle.useOtaTimer, Ledger.usePtr_of_holds hw.timer]

theorem Sound.waitSendTimeSlot (hw : Sound w) : waitSendTimeSlot w = w := by
  rw [GatewayLifecycle.waitSendTimeSlot, hw.useFnSem, ite_self]

theorem Sound.gatewayAuth (hw : Sound w) : gatewayAuth w = w := by
  rw [GatewayLifecycle.gatewayAuth, hw.waitSendTimeSlot, hw.useQueue]

theorem Sound.initPara (hw : Sound w) : Sound (initPara w) := by
  constructor <;> simp [GatewayLifecycle.initPara, hw.misused]

/-- A resource just created is not what an older pointer refers to. -/
private theorem ne_next {l : Ledger} {p : Option ℕ} (hp : l.Holds p) : p ≠ some l.next := by
  rintro rfl
  exact l.next_notMem (hp _ rfl)

theorem Sound.createQueue (hw : Sound w) : Sound (createQueue w) where
  misused := hw.misused
  mq := Ledger.holds_some.mpr (Finset.mem_insert_self _ _)
  sem := hw.sem.create
  timer := hw.timer.create
  mq_ne_sem := by
    rintro h hh ⟨⟩
    exact ne_next hw.sem hh
  mq_ne_timer := by
    rintro h hh ⟨⟩
    exact ne_next hw.timer hh
  sem_ne_timer := hw.sem_ne_timer

theorem Sound.createFnSem (hw : Sound w) : Sound (createFnSem w) where
  misused := hw.misused
  mq := hw.mq.create
  sem := Ledger.holds_some.mpr (Finset.mem_insert_self _ _)
  timer := hw.timer.create
  mq_ne_sem := by
    rintro h ⟨⟩
    exact ne_next hw.mq
  mq_ne_timer := hw.mq_ne_timer
  sem_ne_timer := by
    rintro h hh ⟨⟩
    exact ne_next hw.timer hh

theorem Sound.createOtaTimer (hw : Sound w) : Sound (createOtaTimer w) where
  misused := hw.misused
  mq := hw.mq.create
  sem := hw.sem.create
  timer := Ledger.holds_some.mpr (Finset.mem_insert_self _ _)
  mq_ne_sem := hw.mq_ne_sem
  mq_ne_timer := by
    rintro h ⟨⟩
    exact ne_next hw.mq
  sem_ne_timer := by
    rintro h ⟨⟩
    exact ne_next hw.sem

/-- Ending a sound session frees each of its resources once. -/
theorem Sound.releaseAll (hw : Sound w) : Sound (releaseAll w) := by
  have hmq₁ : (w.ledger.freePtr w.otaTimer).Holds w.gatewayMq := hw.mq.freePtr hw.timer hw.mq_ne_timer
  have hsem₁ : (w.ledger.freePtr w.otaTimer).Holds w.fnRefreshSem :=
    hw.sem.freePtr hw.timer hw.sem_ne_timer
  have hmq₂ := hmq₁.freePtr hsem₁ hw.mq_ne_sem
  have hledger : (GatewayLifecycle.releaseAll w).ledger =
      ((w.ledger.freePtr w.otaTimer).freePtr w.fnRefreshSem).freePtr w.gatewayMq := by
    show Ledger.freePtr (Ledger.usePtr (Ledger.usePtr
      ((w.ledger.freePtr w.otaTimer).freePtr w.fnRefreshSem) w.gatewayMq) w.gatewayMq) w.gatewayMq = _
    rw [Ledger.usePtr_of_holds hmq₂, Ledger.usePtr_of_holds hmq₂]
  have hmisused : (GatewayLifecycle.releaseAll w).ledger.misused = [] := by
    rw [hledger, Ledger.freePtr_misused hmq₂, Ledger.freePtr_misused hsem₁,
      Ledger.freePtr_misused hw.timer, hw.misused]
  have hnull : (GatewayLifecycle.releaseAll w).gatewayMq = none ∧
      (GatewayLifecycle.releaseAll w).fnRefreshSem = none ∧
      (GatewayLifecycle.releaseAll w).otaTimer = none := ⟨rfl, rfl, rfl⟩
  obtain ⟨hmq, hsem, htimer⟩ := hnull
  constructor <;> simp [hmisused, hmq, hsem, htimer]

theorem Sound.gatewayEnd (exitReceived : Bool) (hw : Sound w) :
    Sound (ucWiotaGatewayEnd exitReceived w) := by
  rw [ucWiotaGatewayEnd]
  split
  · have hcleared : Sound { w with recvCallback := .null, connectFlag := .noConnect } :=
      hw.sameResources rfl rfl rfl rfl
    rw [gatewayCleanData, hcleared.useQueue]
    exact Sound.releaseAll (hcleared.sameResources rfl rfl rfl rfl)
  · exact hw

end Resources

section Starts

/-- The state in which the callback is registered. -/
def opened (call : StartCall) (w : Session) : Session :=
  if call.mode = .timeSlot then createFnSem (createQueue (initPara w))
  else createQueue (initPara w)

theorem Sound.opened (hw : Sound w) : Sound (opened call w) := by
  rw [GatewayLifecycle.opened]
  split
  · exact hw.initPara.createQueue.createFnSem
  · exact hw.initPara.createQueue

/-- What a start does that does not get as far as `opened`. -/
theorem start_not_opens (h : ¬Opens call w) :
    (∃ rc, rc ≠ .ok ∧ ucWiotaGatewayStart call w = .next (rc, w)) ∨
      ucWiotaGatewayStart call w = .next (.createQueueFail, initPara w) ∨
      ∃ rc w', ucWiotaGatewayStart call w = .halt .assertFailed (rc, w') ∧
        w'.ledger.misused = w.ledger.misused := by
  by_cases hmode : w.connectFlag = .noConnect ∧ call.mode ≠ .other
  swap
  · exact .inl ⟨.otherFail, by decide, by rw [ucWiotaGatewayStart, if_neg hmode]⟩
  by_cases hsync : w.isForceActive = true ∨ call.synced = true
  swap
  · obtain ⟨hforce, hsynced⟩ := not_or.mp hsync
    exact .inl ⟨.noConnect, by decide, by simp [ucWiotaGatewayStart, hmode, hforce, hsynced]⟩
  have hsync' : (!w.isForceActive && !call.synced) = false := by
    rcases hsync with hs | hs <;> simp [hs]
  cases hkey : call.authKey with
  | false => exact .inl ⟨.noKey, by decide, by simp [ucWiotaGatewayStart, hmode, hsync', hkey]⟩
  | true =>
    cases hqueue : call.queueCreated with
    | false => exact .inr (.inl (by simp [ucWiotaGatewayStart, hmode, hsync', hkey, hqueue]))
    | true =>
      have hsem : call.mode = .timeSlot ∧ call.semCreated = false := by
        by_contra hcon
        refine h ⟨hmode.1, hmode.2, hsync, hkey, hqueue, fun hslot => ?_⟩
        simpa [hslot] using hcon
      refine .inr (.inr ⟨.ok, { createQueue (initPara w) with isTsMode := true }, ?_, rfl⟩)
      simp [ucWiotaGatewayStart, hmode.1, hsync', hkey, hqueue, hsem.1, hsem.2]

theorem start_opens (h : Opens call w) :
    ucWiotaGatewayStart call w = .next (attemptStart call (opened call w)) := by
  obtain ⟨hflag, hmode, hsync, hkey, hqueue, hsem⟩ := h
  have hsync' : ¬(!w.isForceActive && !call.synced) = true := by
    rcases hsync with hs | hs <;> simp [hs]
  rw [ucWiotaGatewayStart, if_pos ⟨hflag, hmode⟩, if_neg hsync']
  simp only [hkey, hqueue, Bool.not_true, Bool.false_eq_true, if_false, opened]
  split
  · next hslot => simp [hsem hslot]
  · rfl

/-- The authentication loop uses resources that are live, and passes with the first or the
second attempt. -/
theorem authLoop_eq (hw : Sound w) (attempts : ℕ → AuthAttempt) :
    authLoop attempts 0 3 w = (decide (AuthSucceeds attempts), w) := by
  cases hs₀ : (attempts 0).synced with
  | false => simp [authLoop, AuthSucceeds, hs₀]
  | true =>
    cases ha₀ : (attempts 0).succeeds with
    | true => simp [authLoop, AuthSucceeds, hw.gatewayAuth, hs₀, ha₀]
    | false =>
      cases hs₁ : (attempts 1).synced with
      | false => simp [authLoop, AuthSucceeds, hw.gatewayAuth, hs₀, ha₀, hs₁]
      | true => cases ha₁ : (attempts 1).succeeds <;>
          simp [authLoop, AuthSucceeds, hw.gatewayAuth, hs₀, ha₀, hs₁, ha₁]

/-- The state while the start attempts to connect. -/
def attempting (w : Session) : Session :=
  { w with recvCallback := .gatewayRecvDataCallback, connectFlag := .attemptConnect }

theorem Sound.attempting (hw : Sound w) : Sound (attempting w) := hw.sameResources rfl rfl rfl rfl

theorem attemptStart_eq (hw : Sound w) (hmode : call.mode ≠ .other) :
    attemptStart call w =
      if Authenticates call then finishStart call (attempting w) else (.authFail, attempting w) := by
  have hloop := authLoop_eq hw.attempting call.attempts
  have hdue : (call.isSendAuth && (decide (call.mode = .gateway) || decide (call.mode = .timeSlot))) =
      call.isSendAuth := by
    cases hm : call.mode <;> simp [StartCall.isSendAuth, hm] at hmode ⊢
  simp only [attemptStart]
  rw [hdue, ← attempting, hloop]
  by_cases hsend : call.isSendAuth = true
  · have hauth : Authenticates call ↔ AuthSucceeds call.attempts := by
      simp only [Authenticates, hsend, true_implies]
    by_cases hsucceeds : AuthSucceeds call.attempts
    · rw [if_pos hsend, if_pos (hauth.mpr hsucceeds), decide_eq_true hsucceeds]
    · rw [if_pos hsend, if_neg (hauth.not.mpr hsucceeds), decide_eq_false hsucceeds]
  · have hauth : Authenticates call := fun h => absurd h hsend
    rw [if_neg hsend, if_pos hauth]

/-- A start that fails late leaves the connect flag set. -/
theorem attemptStart_late (hw : Sound w) (hmode : call.mode ≠ .other)
    (h : ¬(Authenticates call ∧ Creates call)) :
    (attemptStart call w).1 ≠ .ok ∧ (attemptStart call w).2.connectFlag ≠ .noConnect := by
  rw [attemptStart_eq hw hmode]
  by_cases hauth : Authenticates call
  swap
  · rw [if_neg hauth]
    simp [attempting]
  rw [if_pos hauth]
  cases htimer : call.timerCreated with
  | false => simp [finishStart, htimer, delFnSem, deleQueue]
  | true =>
    have htask : call.autoConnect = false ∧ call.threadCreated = false := by
      by_contra hcon
      refine h ⟨hauth, htimer, ?_⟩
      by_contra htask
      simp only [not_or, Bool.not_eq_true] at htask
      exact hcon htask
    simp [finishStart, gwTask, htimer, htask, delFnSem, deleteOtaTimer, deleQueue, createOtaTimer]

/-- A start that has its timer and its task created succeeds. -/
theorem finishStart_creates (hw : Sound w) (h : Creates call) :
    (finishStart call w).1 = .ok ∧ Sound (finishStart call w).2 := by
  obtain ⟨htimer, htask⟩ := h
  have hconnected : Sound { w with connectFlag := .connectSucess } :=
    hw.sameResources rfl rfl rfl rfl
  have hcreated := hconnected.createOtaTimer
  simp only [finishStart, htimer, Bool.not_true, Bool.false_eq_true, if_false, gwTask]
  by_cases hauto : call.autoConnect = true
  · simp only [hauto, if_true]
    exact ⟨trivial, hcreated.sameResources rfl rfl rfl rfl⟩
  · have hthread : call.threadCreated = true := htask.resolve_left hauto
    simp only [hauto, hthread, Bool.false_eq_true, if_false, if_true]
    exact ⟨trivial, hcreated.sameResources rfl rfl rfl rfl⟩

/-- A failed authentication leaves the session sound. -/
theorem Sound.attemptStart (hw : Sound w) (hmode : call.mode ≠ .other)
    (h : Authenticates call → Creates call) : Sound (attemptStart call w).2 := by
  rw [attemptStart_eq hw hmode]
  split
  · next hauth => exact (finishStart_creates hw.attempting (h hauth)).2
  · exact hw.attempting

end Starts

section Runs

/-- No start fails between the creation of its queue and its task but in the authentication. -/
def FreesNothing (w : Session) (e : LifecycleEvent) : Prop :=
  ∀ call, e = .start call → Opens call w → Authenticates call → Creates call

/-- No start fails once its queue exists. -/
def NotLate (w : Session) (e : LifecycleEvent) : Prop := ∀ call, e = .start call → ¬FailsLate call w

/-- A start that fails leaves nothing behind. -/
def CleanStart (w : Session) (e : LifecycleEvent) : Prop :=
  ∀ call, e = .start call → ∀ rc w', ucWiotaGatewayStart call w = .next (rc, w') → rc ≠ .ok →
    CleanFailure w w'

theorem NotLate.freesNothing {e : LifecycleEvent} (h : NotLate w e) : FreesNothing w e := by
  intro call he hopens hauth
  by_contra hcreates
  exact h call he ⟨hopens, fun hc => hcreates hc.2⟩

theorem Sound.start (hw : Sound w) (h : Opens call w → Authenticates call → Creates call) :
    match ucWiotaGatewayStart call w with
    | .next (_, w') => Sound w'
    | .halt _ (_, w') => w'.ledger.misused = [] := by
  by_cases hopens : Opens call w
  · rw [start_opens hopens]
    exact hw.opened.attemptStart hopens.2.1 (h hopens)
  · rcases start_not_opens hopens with ⟨rc, -, hstart⟩ | hstart | ⟨rc, w', hstart, hmisused⟩
    · rw [hstart]
      exact hw
    · rw [hstart]
      exact hw.initPara
    · rw [hstart]
      exact hmisused.trans hw.misused

/-- One event, step or halt. -/
private theorem Sound.lifecycleStep {e : LifecycleEvent} (hw : Sound w) (hok : FreesNothing w e) :
    match lifecycleStep w e with
    | .next w' => Sound w'
    | .halt _ w' => w'.ledger.misused = [] := by
  cases e with
  | start call =>
    have hstart := hw.start (hok call rfl)
    simp only [GatewayLifecycle.lifecycleStep]
    cases h : ucWiotaGatewayStart call w with
    | next p =>
      rw [h] at hstart
      exact hstart
    | halt r p =>
      rw [h] at hstart
      exact hstart
  | gatewayEnd exitReceived => exact hw.gatewayEnd exitReceived
  | recvFnChange slotReached =>
    show Sound (recvFnChange slotReached w)
    rw [recvFnChange, hw.useFnSem, ite_self]
    exact hw
  | recvMsg =>
    show Sound (recvMsg w)
    rw [recvMsg, hw.useQueue, ite_self]
    exact hw
  | otaTimeout =>
    show Sound (otaTimeout w)
    rw [otaTimeout, hw.useQueue, ite_self]
    exact hw
  | taskRecv controlsTimer =>
    show Sound (taskRecv controlsTimer w)
    rw [taskRecv, hw.useQueue, hw.useOtaTimer, ite_self, ite_self]
    exact hw
  | send =>
    show Sound (GatewayLifecycle.waitSendTimeSlot w)
    rw [hw.waitSendTimeSlot]
    exact hw
  | taskBreak =>
    show Sound (taskBreak w)
    rw [taskBreak]
    split
    · exact hw.sameResources rfl rfl rfl rfl
    · exact hw
  | setForceActive isForceActive => exact hw.sameResources rfl rfl rfl rfl

private theorem sound_next {e : LifecycleEvent} (hw : Sound w) (hok : FreesNothing w e)
    (h : GatewayLifecycle.lifecycleStep w e = .next w') : Sound w' := by
  have hstep := hw.lifecycleStep hok
  rwa [h] at hstep

theorem sound_boot : Sound .boot := by
  constructor <;> simp [Session.boot, Ledger.empty]

/-- Failed authentications do no harm either: where no start fails with its timer or its task,
nothing is used or freed after it was freed. -/
theorem misused_eq_nil {es : List LifecycleEvent}
    (h : Meets lifecycleStep FreesNothing .boot es) :
    (run lifecycleStep .boot es).state.ledger.misused = [] := by
  refine run_state_invariant Sound (fun w => w.ledger.misused = [])
    (fun w e w' hw hok hs => sound_next hw hok hs) (fun w e r w' hw hok hs => ?_)
    (fun w hw => hw.misused) sound_boot h
  have hstep := hw.lifecycleStep hok
  rwa [hs] at hstep

/-- In a sound session, the starts whose failure is clean are those that do not fail late. -/
theorem cleanStart_iff (hw : Sound w) (e : LifecycleEvent) : CleanStart w e ↔ NotLate w e := by
  constructor
  · rintro hclean call rfl ⟨hopens, hfails⟩
    obtain ⟨hrc, hflag⟩ := attemptStart_late hw.opened hopens.2.1 hfails
    have hfailure := hclean call rfl _ _ (start_opens hopens) hrc
    exact hflag (hfailure.connectFlag.trans hopens.1)
  · rintro hlate call rfl rc w' hstart hrc
    have hlt {p : Option ℕ} (hp : w.ledger.Holds p) : ∀ h ∈ p, h < w.ledger.next :=
      fun h hh => w.ledger.live_lt h (hp h hh)
    by_cases hopens : Opens call w
    · have hdone : Authenticates call ∧ Creates call := by
        by_contra hcon
        exact hlate call rfl ⟨hopens, hcon⟩
      have hok : (attemptStart call (opened call w)).1 = .ok := by
        rw [attemptStart_eq hw.opened hopens.2.1, if_pos hdone.1]
        exact (finishStart_creates hw.opened.attempting hdone.2).1
      rw [start_opens hopens, Outcome.next.injEq] at hstart
      rw [hstart] at hok
      exact absurd hok hrc
    · rcases start_not_opens hopens with ⟨rc', -, hs⟩ | hs | ⟨rc', w'', hs, -⟩
      · rw [hs] at hstart
        cases hstart
        exact ⟨rfl, rfl, w.ledger.live_lt, hlt hw.mq, hlt hw.sem, hlt hw.timer⟩
      · rw [hs] at hstart
        cases hstart
        exact ⟨rfl, rfl, w.ledger.live_lt, by simp [initPara], by simp [initPara],
          by simp [initPara]⟩
      · rw [hs] at hstart
        cases hstart

/-- In a run, every failed start is clean and nothing is used or freed after it was freed exactly
when no start fails once its queue exists. -/
theorem failures_clean_iff (es : List LifecycleEvent) :
    (Meets lifecycleStep CleanStart .boot es ∧
      (run lifecycleStep .boot es).state.ledger.misused = []) ↔
      Meets lifecycleStep NotLate .boot es := by
  have hcongr : Meets lifecycleStep CleanStart .boot es ↔ Meets lifecycleStep NotLate .boot es :=
    meets_congr (fun w e w' hw hok hs => sound_next hw hok.freesNothing hs)
      (fun w e hw => cleanStart_iff hw e) sound_boot
  rw [hcongr]
  exact and_iff_left_of_imp fun h => misused_eq_nil (h.mono fun w e hlate => hlate.freesNothing)

/-- A start in gateway mode that succeeds at once up to the creation of its task. -/
def taskFailure : StartCall where
  mode := .gateway
  authKey := true
  awakened := false
  synced := true
  queueCreated := true
  semCreated := true
  attempts := fun _ => ⟨true, true⟩
  timerCreated := true
  autoConnect := false
  threadCreated := false

/-- The failed start leaves the device connected, and the end that follows uses and frees the
queue and deletes the timer again. -/
theorem taskFailure_not_clean :
    ¬(Meets lifecycleStep CleanStart .boot [.start taskFailure, .gatewayEnd true] ∧
        (run lifecycleStep .boot [.start taskFailure, .gatewayEnd true]).state.ledger.misused = []) ∧
      (ucWiotaGatewayStart taskFailure .boot).state.2.connectFlag = .connectSucess ∧
      (run lifecycleStep .boot [.start taskFailure, .gatewayEnd true]).state.ledger.misused =
        [0, 0, 0, 1, 0] := by
  have hmisused : (run lifecycleStep .boot [.start taskFailure, .gatewayEnd true]).state.ledger.misused =
      [0, 0, 0, 1, 0] := by decide
  refine ⟨fun h => ?_, by decide, hmisused⟩
  rw [hmisused] at h
  exact absurd h.2 (by decide)

end Runs

end WiotaDev.GatewayLifecycle
