import WiotaDev.GatewayThreads

/-! # What the end of the gateway deletes

The queue, the semaphore of the frame numbers and the timer are deleted behind a wait for the task.
The wait is cut short when the exit message finds the queue full, and left out when the task has not
come as far as its flag. -/

namespace WiotaDev.GatewayThreads
open HaltingRuns PacketCoding ResourceLedger WordBytes

/-- The end of the gateway is behind its wait for the task. -/
def Control.deletes : Control → Bool
  | .deletingTimer | .deletingSem | .clearingMode | .draining | .deletingQueue => true
  | _ => false

/-- The automatic connection may not run the loop. -/
def Control.forbids : Control → Bool
  | .idle | .forbidding => false
  | _ => true

/-- Whatever has been deleted was deleted while the task was outside its loop, or not started. -/
def NeverEarly (s : State) : Prop := ∀ d ∈ s.deletions, d.2.outside

/-- The steps of the end that may come too soon: behind the delay the task has left its loop, and
where the wait for the task ends it is not about to begin. -/
def ControlInTime (s : State) : Control → Prop
  | .delaying => s.task.outside
  | .testingExit => s.gatewayTaskRun = false → s.task.begins = false
  | .waitingExit => s.exitFlag = true → s.task.begins = false
  | _ => True

/-- When the exit message has found the queue full the task has left its loop behind the delay, and
the wait does not end between the start of the task and its first statements. -/
def InTime (s : State) : Event → Prop
  | .control _ => ControlInTime s s.control
  | _ => True

instance (s : State) : DecidablePred (ControlInTime s)
  | .delaying => inferInstanceAs (Decidable (_ = true))
  | .testingExit | .waitingExit => inferInstanceAs (Decidable (_ = _ → _ = _))
  | .idle | .testingSync _ | .authenticating _ | .authHandling .. | .creatingTimer | .creatingTask
  | .forbidding | .unmarking | .sendingExit | .testingRun | .clearingRun | .deletingTimer
  | .deletingSem | .clearingMode | .draining | .deletingQueue => inferInstanceAs (Decidable True)

instance (s : State) : DecidablePred (InTime s)
  | .control _ => inferInstanceAs (Decidable (ControlInTime s s.control))
  | .start .. | .endCall | .autoRun | .task _ | .fnChange _ | .deliver .. | .notify =>
    inferInstanceAs (Decidable True)

/-- What holds in every run in time. -/
structure Inv (s : State) : Prop where
  neverEarly : NeverEarly s
  exited : s.exitFlag = true → s.task = .ended ∨ s.task = .resetting
  cleared : s.gatewayTaskRun = false → s.task.inLoop → s.control = .delaying
  deletes : s.control.deletes → s.task.outside
  starts : s.control.starts → s.task.gone
  forbids : s.control.forbids → s.allowRun = false

theorem boot_inv : Inv .boot where
  neverEarly d hd := by cases hd
  exited h := by cases h
  cleared _ h := by cases h
  deletes h := by cases h
  starts h := by cases h
  forbids h := by cases h

theorem outside_of_gone {p : TaskPhase} (h : p.gone) : p.outside := by
  cases p <;> first | rfl | cases h

theorem outside_iff {p : TaskPhase} : p.outside ↔ p.inLoop = false ∧ p.begins = false := by
  simp [TaskPhase.outside]

section Steps

variable {s s' : State}

/-- The task moves, and only it sees what has changed. -/
theorem Inv.task (h : Inv s) (hcontrol : s'.control = s.control) (hallow : s'.allowRun = s.allowRun)
    (hdel : s'.deletions = s.deletions)
    (hexited : s'.exitFlag = true → s'.task = .ended ∨ s'.task = .resetting)
    (hcleared : s'.gatewayTaskRun = false → s'.task.inLoop → s.control = .delaying)
    (houtside : s.task.outside → s'.task.outside) (hgone : s.task.gone → s'.task.gone) : Inv s' where
  neverEarly := by
    rw [NeverEarly]
    rw [hdel]
    exact h.neverEarly
  exited := hexited
  cleared := by
    rw [hcontrol]
    exact hcleared
  deletes hc := houtside (h.deletes (hcontrol ▸ hc))
  starts hc := hgone (h.starts (hcontrol ▸ hc))
  forbids hc := by
    rw [hallow]
    exact h.forbids (hcontrol ▸ hc)

/-- The task moves inside its loop, or out of it. -/
theorem Inv.loop (h : Inv s) (hin : s.task.inLoop = true) (hcontrol : s'.control = s.control)
    (hallow : s'.allowRun = s.allowRun) (hdel : s'.deletions = s.deletions)
    (hexit : s'.exitFlag = s.exitFlag) (hrun : s'.gatewayTaskRun = s.gatewayTaskRun) : Inv s' := by
  have hnot : s.exitFlag = false := by
    cases hflag : s.exitFlag with
    | false => rfl
    | true => rcases h.exited hflag with hp | hp <;> rw [hp] at hin <;> cases hin
  refine h.task hcontrol hallow hdel (fun hx => ?_) (fun hr _ => ?_) (fun ho => ?_) (fun hg => ?_)
  · rw [hexit, hnot] at hx
    cases hx
  · exact h.cleared (hrun ▸ hr) hin
  · exact absurd (outside_iff.mp ho).1 (by simp [hin])
  · exact absurd (outside_iff.mp (outside_of_gone hg)).1 (by simp [hin])

theorem taskReceive_inv (h : Inv s) (hphase : s.task = .receiving)
    (hs : taskReceive s = .next s') : Inv s' := by
  have hin : s.task.inLoop = true := by rw [hphase]; rfl
  rw [taskReceive] at hs
  split at hs
  · cases hs
    exact h.loop hin rfl rfl rfl rfl rfl
  · cases hs
    exact h.loop hin rfl rfl rfl rfl rfl
  · cases hs
    exact h.loop hin rfl rfl rfl rfl rfl
  · cases hs
    exact h.loop hin rfl rfl rfl rfl rfl
  · cases hs
    exact h.task rfl rfl rfl (fun _ => .inl rfl) (fun _ hl => by cases hl) (fun _ => rfl) fun _ => rfl
  · cases hs

theorem taskStep_inv (h : Inv s) {answer : Answer} (hs : taskStep answer s = .next s') : Inv s' := by
  have hloop : ∀ phase, s.task = phase → phase.inLoop = true → s.task.inLoop = true :=
    fun phase hp hl => by rw [hp]; exact hl
  rw [taskStep] at hs
  cases hphase : s.task with
  | none =>
    rw [hphase] at hs
    cases hs
    exact h
  | ended =>
    rw [hphase] at hs
    cases hs
    exact h
  | resetting =>
    rw [hphase] at hs
    cases hs
    refine h.task rfl rfl rfl (fun hx => by cases hx) (fun _ hl => by cases hl) ?_ ?_ <;>
      rw [hphase] <;> exact fun hx => by cases hx
  | marking =>
    rw [hphase] at hs
    cases hs
    refine h.task rfl rfl rfl (fun hx => ?_) (fun hr _ => by cases hr) ?_ ?_
    · rcases h.exited hx with hp | hp <;> rw [hphase] at hp <;> cases hp
    · rw [hphase]
      exact fun hx => by cases hx
    · rw [hphase]
      exact fun hx => by cases hx
  | receiving =>
    rw [hphase] at hs
    exact taskReceive_inv h hphase hs
  | analysing record payload packet =>
    rw [hphase] at hs
    cases hs
    split <;> exact h.loop (hloop _ hphase rfl) rfl rfl rfl rfl rfl
  | leaving =>
    rw [hphase] at hs
    cases hs
    refine h.task rfl rfl rfl (fun hx => ?_) (fun _ hl => by cases hl) (fun _ => rfl) ?_
    · rcases h.exited hx with hp | hp <;> rw [hphase] at hp <;> cases hp
    · rw [hphase]
      exact fun hx => by cases hx
  | acknowledging =>
    rw [hphase] at hs
    cases hs
    exact h.task rfl rfl rfl (fun _ => .inl rfl) (fun _ hl => by cases hl) (fun _ => rfl) fun _ => rfl
  | testingRun | testingMode | testingQueue | judging | handling | serving =>
    rw [hphase] at hs
    cases hs
    exact h.loop (hloop _ hphase rfl) rfl rfl rfl rfl rfl

/-- The thread that starts and ends the gateway moves, and the task stays where it is. -/
theorem Inv.move (h : Inv s) (htask : s'.task = s.task) (hexit : s'.exitFlag = s.exitFlag)
    (hdel : ∀ d ∈ s'.deletions, d ∈ s.deletions ∨ d.2.outside)
    (hcleared : s'.gatewayTaskRun = false → s.task.inLoop → s'.control = .delaying)
    (hdeletes : s'.control.deletes → s.task.outside) (hstarts : s'.control.starts → s.task.gone)
    (hforbids : s'.control.forbids → s'.allowRun = false) : Inv s' where
  neverEarly d hd := (hdel d hd).elim (h.neverEarly d) id
  exited hx := by
    rw [htask]
    exact h.exited (hexit ▸ hx)
  cleared := by
    rw [htask]
    exact hcleared
  deletes := by
    rw [htask]
    exact hdeletes
  starts := by
    rw [htask]
    exact hstarts
  forbids := hforbids

/-- The start goes on, or returns. -/
theorem Inv.start (h : Inv s) (hstarts : s.control.starts = true) (htask : s'.task = s.task)
    (hexit : s'.exitFlag = s.exitFlag) (hallow : s'.allowRun = s.allowRun)
    (hdel : ∀ d ∈ s'.deletions, d ∈ s.deletions ∨ d.2 = s.task) : Inv s' := by
  have hgone := h.starts hstarts
  have houtside := outside_of_gone hgone
  have hforbids : s.control.forbids = true := by
    revert hstarts
    cases s.control <;> first | exact fun _ => rfl | exact fun hx => by cases hx
  refine h.move htask hexit (fun d hd => ?_) (fun _ hl => ?_) (fun _ => houtside) (fun _ => hgone) ?_
  · exact (hdel d hd).imp_right fun heq => by rw [heq]; exact houtside
  · exact absurd (outside_iff.mp houtside).1 (by simp [hl])
  · exact fun _ => hallow.trans (h.forbids hforbids)

theorem authReceive_inv (h : Inv s) (hstarts : s.control.starts = true) {left : ℕ}
    (hs : authReceive left s = .next s') : Inv s' := by
  rw [authReceive] at hs
  split at hs
  · cases hs
    exact h.start hstarts rfl rfl rfl fun _ => .inl
  · cases hs
    exact h.start hstarts rfl rfl rfl fun _ => .inl
  · cases hs
    split
    · exact h.start hstarts rfl rfl rfl fun _ => .inl
    · exact h.start hstarts rfl rfl rfl fun _ => .inl
  · cases hs
    exact h.start hstarts rfl rfl rfl fun _ => .inl
  · cases hs

/-- A deletion that takes place is noted down with what the task is at. -/
theorem mem_noted {d : Resource × TaskPhase} {there : Bool} {resource : Resource} {p : TaskPhase}
    {deletions : List (Resource × TaskPhase)}
    (hd : d ∈ (if there then [(resource, p)] else []) ++ deletions) : d.2 = p ∨ d ∈ deletions := by
  rcases List.mem_append.mp hd with hd | hd
  · split at hd
    · exact .inl (congrArg Prod.snd (List.mem_singleton.mp hd))
    · cases hd
  · exact .inr hd

theorem abandon_inv (h : Inv s) (hstarts : s.control.starts = true) (timer : Bool) :
    Inv (abandon timer s) := by
  refine h.start hstarts rfl rfl rfl fun d hd => ?_
  rw [abandon, List.append_assoc] at hd
  rcases mem_noted hd with heq | hd
  · exact .inr heq
  · rcases mem_noted hd with heq | hd
    · exact .inr heq
    · rcases List.mem_cons.mp hd with rfl | hd
      · exact .inr rfl
      · exact .inl hd

/-- The end goes on before its deletions. -/
theorem Inv.wait (h : Inv s) (hforbids : s.control.forbids = true) (htask : s'.task = s.task)
    (hexit : s'.exitFlag = s.exitFlag) (hallow : s'.allowRun = s.allowRun)
    (hdel : s'.deletions = s.deletions)
    (hcleared : s'.gatewayTaskRun = false → s.task.inLoop → s'.control = .delaying)
    (hnext : s'.control.starts = false ∧ s'.control.deletes = false) : Inv s' := by
  refine h.move htask hexit (fun d hd => .inl (hdel ▸ hd)) hcleared ?_ ?_ fun _ => ?_
  · intro hd
    cases hnext.2.symm.trans hd
  · intro hd
    cases hnext.1.symm.trans hd
  · exact hallow.trans (h.forbids hforbids)

/-- The end begins its deletions, or goes on with them. -/
theorem Inv.delete (h : Inv s) (houtside : s.task.outside) (hforbids : s.control.forbids = true)
    (htask : s'.task = s.task) (hexit : s'.exitFlag = s.exitFlag) (hallow : s'.allowRun = s.allowRun)
    (hdel : ∀ d ∈ s'.deletions, d ∈ s.deletions ∨ d.2 = s.task)
    (hnext : s'.control.starts = false) : Inv s' := by
  refine h.move htask hexit (fun d hd => ?_) (fun _ hl => ?_) (fun _ => houtside) (fun hd => ?_) fun _ => ?_
  · exact (hdel d hd).imp_right fun heq => by rw [heq]; exact houtside
  · exact absurd (outside_iff.mp houtside).1 (by simp [hl])
  · cases hnext.symm.trans hd
  · exact hallow.trans (h.forbids hforbids)

/-- The flag of a task in its loop is down only while the end is delayed. -/
theorem Inv.not_stopped (h : Inv s) (hcontrol : s.control ≠ .delaying) (hrun : s.gatewayTaskRun = false)
    (hin : s.task.inLoop = true) : False := hcontrol (h.cleared hrun hin)

/-- Where the task is when its flag is down and it is neither delayed for nor about to begin. -/
theorem Inv.outside_of_stopped (h : Inv s) (hrun : s.gatewayTaskRun = false)
    (hcontrol : s.control ≠ .delaying) (hbegins : s.task.begins = false) : s.task.outside := by
  refine outside_iff.mpr ⟨?_, hbegins⟩
  cases hin : s.task.inLoop with
  | false => rfl
  | true => exact absurd (h.cleared hrun hin) hcontrol

theorem sendExit_inv (h : Inv s) (hphase : s.control = .sendingExit) (hs : sendExit s = .next s') :
    Inv s' := by
  have hforbids : s.control.forbids = true := by rw [hphase]; rfl
  have hkeep : ∀ phase, s.gatewayTaskRun = false → s.task.inLoop → phase = Control.delaying :=
    fun _ hr hl => (h.not_stopped (by rw [hphase]; simp) hr hl).elim
  rw [sendExit] at hs
  split at hs
  · cases hs
    exact h.wait hforbids rfl rfl rfl rfl (hkeep _) ⟨rfl, rfl⟩
  · cases hs
    split
    · exact h.wait hforbids rfl rfl rfl rfl (hkeep _) ⟨rfl, rfl⟩
    · exact h.wait hforbids rfl rfl rfl rfl (hkeep _) ⟨rfl, rfl⟩
  · cases hs

theorem drain_inv (h : Inv s) (hphase : s.control = .draining) (hs : drain s = .next s') : Inv s' := by
  have houtside : s.task.outside := h.deletes (by rw [hphase]; rfl)
  have hforbids : s.control.forbids = true := by rw [hphase]; rfl
  have hstay : s.control.starts = false := by rw [hphase]; rfl
  rw [drain] at hs
  split at hs
  · cases hs
    exact h.delete houtside hforbids rfl rfl rfl (fun _ => .inl) rfl
  · cases hs
    exact h.delete houtside hforbids rfl rfl rfl (fun _ => .inl) rfl
  · cases hs
    exact h.delete houtside hforbids rfl rfl rfl (fun _ => .inl) hstay
  · cases hs
    exact h.delete houtside hforbids rfl rfl rfl (fun _ => .inl) hstay
  · cases hs

theorem authenticating_inv (h : Inv s) {left : ℕ} (hphase : s.control = .authenticating left)
    {answer : Answer} (hs : controlStep answer s = .next s') : Inv s' := by
  have hstarts : s.control.starts = true := by rw [hphase]; rfl
  simp only [controlStep, hphase] at hs
  split at hs
  · exact authReceive_inv h hstarts hs
  · cases hs
    exact h.start hstarts rfl rfl rfl fun _ => .inl

theorem creatingTimer_inv (h : Inv s) (hphase : s.control = .creatingTimer) {answer : Answer}
    (hs : controlStep answer s = .next s') : Inv s' := by
  have hstarts : s.control.starts = true := by rw [hphase]; rfl
  simp only [controlStep, hphase] at hs
  cases hs
  split
  · exact abandon_inv h hstarts false
  · exact h.start hstarts rfl rfl rfl fun _ => .inl

/-- The task is created, is there already or cannot be created. -/
theorem creatingTask_inv (h : Inv s) (hphase : s.control = .creatingTask) {answer : Answer}
    (hs : controlStep answer s = .next s') : Inv s' := by
  have hstarts : s.control.starts = true := by rw [hphase]; rfl
  have houtside := outside_of_gone (h.starts hstarts)
  simp only [controlStep, hphase] at hs
  cases answer with
  | succeeds =>
    cases hs
    refine ⟨h.neverEarly, fun _ => .inr rfl, ?_, ?_, ?_, ?_⟩
    · exact fun _ hl => by cases hl
    · exact fun hd => by cases hd
    · exact fun hd => by cases hd
    · exact fun hd => by cases hd
  | goesOn =>
    cases hs
    refine h.move rfl rfl (fun _ => .inl) (fun _ hl => ?_) ?_ ?_ ?_
    · exact absurd (outside_iff.mp houtside).1 (by simp [hl])
    · exact fun hd => by cases hd
    · exact fun hd => by cases hd
    · exact fun hd => by cases hd
  | fails =>
    cases hs
    exact abandon_inv h hstarts true

theorem forbidding_inv (h : Inv s) (hphase : s.control = .forbidding) {answer : Answer}
    (hs : controlStep answer s = .next s') : Inv s' := by
  simp only [controlStep, hphase] at hs
  cases hs
  refine h.move rfl rfl (fun _ => .inl) (fun hr hl => ?_) ?_ ?_ fun _ => rfl
  · exact (h.not_stopped (by rw [hphase]; simp) hr hl).elim
  · exact fun hd => by cases hd
  · exact fun hd => by cases hd

theorem testingRun_inv (h : Inv s) (hphase : s.control = .testingRun) {answer : Answer}
    (hs : controlStep answer s = .next s') : Inv s' := by
  simp only [controlStep, hphase] at hs
  cases hs
  refine h.wait (by rw [hphase]; rfl) rfl rfl rfl rfl (fun hr hl => ?_) ?_
  · exact (h.not_stopped (by rw [hphase]; simp) hr hl).elim
  · dsimp only
    split <;> exact ⟨rfl, rfl⟩

/-- Where the flag of the task is down behind the delay, the deletions begin. -/
theorem testingExit_inv (h : Inv s) (hphase : s.control = .testingExit)
    (hok : s.gatewayTaskRun = false → s.task.begins = false) {answer : Answer}
    (hs : controlStep answer s = .next s') : Inv s' := by
  simp only [controlStep, hphase] at hs
  cases hs
  cases hrun : s.gatewayTaskRun with
  | true => exact h.wait (by rw [hphase]; rfl) rfl rfl rfl rfl (fun hr => by cases hr) ⟨rfl, rfl⟩
  | false =>
    have houtside := h.outside_of_stopped hrun (by rw [hphase]; exact fun hx => by cases hx) (hok hrun)
    exact h.delete houtside (by rw [hphase]; rfl) rfl rfl rfl (fun _ => .inl) rfl

/-- Where the task has ended, the deletions begin. -/
theorem waitingExit_inv (h : Inv s) (hphase : s.control = .waitingExit)
    (hok : s.exitFlag = true → s.task.begins = false) {answer : Answer}
    (hs : controlStep answer s = .next s') : Inv s' := by
  simp only [controlStep, hphase] at hs
  cases hs
  cases hexit : s.exitFlag with
  | false => exact h
  | true =>
    have houtside : s.task.outside := by
      rcases h.exited hexit with hp | hp
      · rw [hp]
        rfl
      · have hbegins := hok hexit
        rw [hp] at hbegins
        cases hbegins
    exact h.delete houtside (by rw [hphase]; rfl) rfl hexit.symm rfl (fun _ => .inl) rfl

/-- A step among the deletions. -/
theorem deletes_inv (h : Inv s) (hdeletes : s.control.deletes = true) {answer : Answer}
    (hs : controlStep answer s = .next s') : Inv s' := by
  have houtside := h.deletes hdeletes
  cases hphase : s.control with
  | draining =>
    simp only [controlStep, hphase] at hs
    exact drain_inv h hphase hs
  | deletingTimer | deletingSem =>
    simp only [controlStep, hphase] at hs
    cases hs
    exact h.delete houtside (by rw [hphase]; rfl) rfl rfl rfl (fun _ hd => (mem_noted hd).symm) rfl
  | clearingMode =>
    simp only [controlStep, hphase] at hs
    cases hs
    exact h.delete houtside (by rw [hphase]; rfl) rfl rfl rfl (fun _ => .inl) rfl
  | deletingQueue =>
    simp only [controlStep, hphase] at hs
    cases hs
    refine h.delete houtside (by rw [hphase]; rfl) rfl rfl rfl (fun d hd => ?_) rfl
    rcases List.mem_cons.mp hd with rfl | hd
    · exact .inr rfl
    · exact .inl hd
  | _ =>
    rw [hphase] at hdeletes
    cases hdeletes

theorem controlStep_inv (h : Inv s) {answer : Answer} (hok : ControlInTime s s.control)
    (hs : controlStep answer s = .next s') : Inv s' := by
  cases hphase : s.control with
  | idle =>
    simp only [controlStep, hphase] at hs
    cases hs
    exact h
  | testingSync left =>
    simp only [controlStep, hphase] at hs
    cases hs
    exact h.start (by rw [hphase]; rfl) rfl rfl rfl fun _ => .inl
  | authenticating left => exact authenticating_inv h hphase hs
  | authHandling left record payload decoded =>
    simp only [controlStep, hphase] at hs
    cases hs
    exact h.start (by rw [hphase]; rfl) rfl rfl rfl fun _ => .inl
  | creatingTimer => exact creatingTimer_inv h hphase hs
  | creatingTask => exact creatingTask_inv h hphase hs
  | forbidding => exact forbidding_inv h hphase hs
  | unmarking =>
    simp only [controlStep, hphase] at hs
    cases hs
    refine h.wait (by rw [hphase]; rfl) rfl rfl rfl rfl (fun hr hl => ?_) ⟨rfl, rfl⟩
    exact (h.not_stopped (by rw [hphase]; simp) hr hl).elim
  | sendingExit =>
    simp only [controlStep, hphase] at hs
    exact sendExit_inv h hphase hs
  | testingRun => exact testingRun_inv h hphase hs
  | clearingRun =>
    simp only [controlStep, hphase] at hs
    cases hs
    exact h.wait (by rw [hphase]; rfl) rfl rfl rfl rfl (fun _ _ => rfl) ⟨rfl, rfl⟩
  | delaying =>
    rw [hphase] at hok
    simp only [controlStep, hphase] at hs
    cases hs
    refine h.wait (by rw [hphase]; rfl) rfl rfl rfl rfl (fun _ hl => ?_) ⟨rfl, rfl⟩
    exact absurd (outside_iff.mp hok).1 (by simp [hl])
  | testingExit => exact testingExit_inv h hphase (by rwa [hphase] at hok) hs
  | waitingExit => exact waitingExit_inv h hphase (by rwa [hphase] at hok) hs
  | deletingTimer | deletingSem | clearingMode | draining | deletingQueue =>
    exact deletes_inv h (by rw [hphase]; rfl) hs

theorem forbids_of_starts {c : Control} (h : c.starts) : c.forbids := by
  cases c <;> first | rfl | cases h

theorem forbids_of_deletes {c : Control} (h : c.deletes) : c.forbids := by
  cases c <;> first | rfl | cases h

theorem start_inv (h : Inv s) (hgone : s.task.gone)
    (timeSlots authenticates created : Bool) : Inv (start timeSlots authenticates created s) := by
  have hout := outside_of_gone hgone
  have hin : s.task.inLoop = true → False := fun hl => by
    rw [(outside_iff.mp hout).1] at hl
    cases hl
  cases created with
  | true | false =>
    refine ⟨h.neverEarly, (fun hx => by cases hx), fun _ hl => (hin hl).elim, fun _ => hout,
      fun _ => hgone, ?_⟩
    exact fun _ => rfl

theorem autoRun_inv (h : Inv s) (hallow : s.allowRun = true) :
    Inv { s with task := .resetting } := by
  have hfree : ¬ s.control.forbids = true := fun hf => by
    rw [h.forbids hf] at hallow
    cases hallow
  refine ⟨h.neverEarly, fun _ => .inr rfl, ?_, ?_, ?_, h.forbids⟩
  · exact fun _ hl => by cases hl
  · exact fun hd => absurd (forbids_of_deletes hd) hfree
  · exact fun hd => absurd (forbids_of_starts hd) hfree

/-- The task, the flags and the deletions do not depend on the buffers. -/
theorem Inv.buffers (h : Inv s) (mq : QueuePtr) (l : Ledger) :
    Inv { s with gatewayMq := mq, ledger := l } :=
  ⟨h.neverEarly, h.exited, h.cleared, h.deletes, h.starts, h.forbids⟩

end Steps

/-- The step lemma: a step in time keeps the invariant. -/
theorem step_inv (s : State) (e : Event) (s' : State) (h : Inv s) (hok : InTime s e)
    (hs : step s e = .next s') : Inv s' := by
  cases e with
  | start timeSlots authenticates created =>
    cases hs
    split
    · split
      · rename_i hcond
        rw [Bool.and_eq_true] at hcond
        exact start_inv h hcond.2 timeSlots authenticates created
      · exact h
    · exact h
  | endCall =>
    cases hs
    split
    · rename_i hidle
      split
      · refine h.move rfl rfl (fun _ => .inl) (fun hr hl => ?_) ?_ ?_ ?_
        · exact (h.not_stopped (by rw [hidle]; simp) hr hl).elim
        · exact fun hd => by cases hd
        · exact fun hd => by cases hd
        · exact fun hd => by cases hd
      · exact h
    · exact h
  | autoRun =>
    cases hs
    split
    · rename_i hcond
      rw [Bool.and_eq_true] at hcond
      exact autoRun_inv h hcond.1
    · exact h
  | control answer => exact controlStep_inv h hok hs
  | task answer => exact taskStep_inv h hs
  | fnChange data =>
    cases hs
    cases data
    · exact h
    · exact h.buffers s.gatewayMq _
  | deliver packet allocated =>
    obtain ⟨mq, l, rfl⟩ := deliver_next hs
    exact h.buffers mq l
  | notify =>
    obtain ⟨mq, rfl⟩ := notify_next hs
    exact h.buffers mq s.ledger

/-- In a run in time nothing is deleted while the task is in its loop or about to enter it. -/
theorem inTime_run_neverEarly {es : List Event} (hok : Meets step InTime State.boot es) :
    NeverEarly (run step State.boot es).state := by
  refine run_state_invariant Inv NeverEarly step_inv (fun s e r s' h _ hs => ?_)
    (fun s h => h.neverEarly) boot_inv hok
  rw [step_halt hs]
  exact h.neverEarly

/-- The gateway is started, and the task has come to its queue. -/
def startedRun : List Event :=
  [.start true false true, .control .goesOn, .control .succeeds] ++ List.replicate 5 (.task .goesOn)

def demoPacket : Packet := ⟨⟨[0x00, 0x64, 0x01], fun _ => 0⟩, fun _ => true⟩

/-- The task handles a packet, the queue is full, and the end has told the task to stop. -/
def delayedRun : List Event :=
  startedRun ++ [.deliver demoPacket true, .task .goesOn, .task .goesOn] ++
    List.replicate GATEWAY_MQ_SIZE (.deliver demoPacket true) ++
    .endCall :: List.replicate 5 (.control .goesOn)

theorem handledRun_neverEarly :
    ∃ s, run step State.boot (delayedRun ++ List.replicate 2 (.task .goesOn) ++
        List.replicate 15 (.control .goesOn)) = .next s ∧
      s.deletions.length = 3 ∧ NeverEarly s := by
  have hok : Meets step InTime State.boot (delayedRun ++ List.replicate 2 (.task .goesOn) ++
      List.replicate 15 (.control .goesOn)) := by decide
  exact ⟨_, rfl, rfl, inTime_run_neverEarly hok⟩

/-- The queue is deleted while the task is at a packet, and the semaphore and the timer of a gateway
that ends right behind its start are deleted before the task's first statement. -/
theorem blockedTask_early :
    (∃ s record payload decoded, run step State.boot (delayedRun ++
        List.replicate 15 (.control .goesOn)) = .next s ∧
      (Resource.gatewayMq, TaskPhase.handling record payload decoded) ∈ s.deletions ∧ ¬ NeverEarly s) ∧
    ∃ s, run step State.boot ([.start true false true, .control .goesOn, .control .succeeds, .endCall] ++
        List.replicate 6 (.control .goesOn)) = .next s ∧
      s.deletions = [(.fnRefreshSem, .resetting), (.otaTimer, .resetting)] ∧ ¬ NeverEarly s := by
  refine ⟨⟨_, _, _, _, rfl, List.mem_cons_self, fun h => ?_⟩, ⟨_, rfl, rfl, fun h => ?_⟩⟩
  · cases h _ List.mem_cons_self
  · cases h _ List.mem_cons_self

end WiotaDev.GatewayThreads
