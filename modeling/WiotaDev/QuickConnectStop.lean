import WiotaDev.PrefixRuns
import WiotaDev.QuickConnectTask

/-! # Quick connect stays stopped

The task tests `qc_auto_run` once and then goes through all of `quick_open_wiota`. What a stop leaves of
that is done behind its return. -/

namespace WiotaDev.QuickConnect
open PrefixRuns

/-- The task and its caller, whether a stop has returned with no start called since then, and the call of
the stack that the task has made in the last step. -/
structure World where
  quick : Quick
  task : Task
  caller : Option CallerPlace
  stopped : Bool
  made : Option Call
deriving DecidableEq

def World.boot : World where
  quick := .boot
  task := .boot
  caller := none
  stopped := false
  made := none

/-- A call of quick connect, the next step of the call that is under way, or the next step of the task. -/
inductive Event where
  | start (mode : ℕ)
  | stop
  | caller (a : Answers)
  | task (a : Answers)

def CallerPlace.stops : CallerPlace → Bool
  | .stop _ => true
  | .setFreqInfo | .start _ | .clrBestFreq | .setAutoRun => false

/-- The next step of the caller; a call is made only where no other one is under way. -/
def callerStep (a : Answers) (w : World) : World :=
  match w.caller with
  | none => { w with made := none }
  | some p =>
    { w with
      quick := (p.step a w.quick).quick
      caller := (p.step a w.quick).place
      stopped := w.stopped || (p.stops && (p.step a w.quick).place.isNone)
      made := none }

def next (w : World) : Event → World
  | .start mode =>
    if w.caller = none then
      { w with
        caller := if mode < QC_MODE_MAX then some .setFreqInfo else none
        stopped := false
        made := none }
    else { w with made := none }
  | .stop => { w with caller := some (w.caller.getD (.stop .clrAutoRun)), made := none }
  | .caller a => callerStep a w
  | .task a =>
    { w with
      quick := (w.task.step a w.quick).quick
      task := (w.task.step a w.quick).place
      made := (w.task.step a w.quick).made }

/-- Where quick connect is stopped, the task has opened nothing and `qc_wiota_state` is `QC_EXIT`. -/
def KeepsStopped (w : World) : Prop :=
  w.stopped = true → w.quick.qcState = .exit ∧ ¬ Opens w.made

instance (w : World) : Decidable (KeepsStopped w) :=
  inferInstanceAs (Decidable (_ → _ ∧ _))

/-- However the task and the caller go on, quick connect is kept stopped until the next start. -/
def StaysStopped (w : World) : Prop :=
  ∀ fs : List Event, (∀ mode, .start mode ∉ fs) → KeepsStopped (fs.foldl next w)

structure Quiet (w : World) : Prop where
  qcState : w.quick.qcState = .exit
  idle : w.task.place.Idle w.quick.bestFreq

/-- The next step of the caller is the one that a stop returns with. -/
def ReturnsFromStop (w : World) : Prop :=
  w.caller = some (.stop .delay) ∨ w.caller = some (.stop .testQcState) ∧ w.quick.qcState = .exit

/-- A stop returns only where the task is idle and `qc_wiota_state` is `QC_EXIT`. -/
def StopsQuietly (w : World) : Event → Prop
  | .caller _ => ReturnsFromStop w → Quiet w
  | .start _ | .stop | .task _ => True

section Caller

variable {a : Answers} {w : World} {p : CallerPlace}

theorem eq_stop_of_stops (h : p.stops = true) : ∃ c, p = .stop c := by
  cases p with
  | stop c => exact ⟨c, rfl⟩
  | setFreqInfo | start | clrBestFreq | setAutoRun => cases h

/-- A start stays a start. -/
theorem start_place_ne {q : Quick} (h : p.stops = false) (c : ClosePlace) :
    (p.step a q).place ≠ some (.stop c) := by
  cases p with
  | setFreqInfo =>
    rw [CallerPlace.step]
    dsimp only
    split
    · exact nofun
    · exact nofun
  | start c' =>
    rw [CallerPlace.step, Step.map_place]
    cases (c'.step q).place with
    | none => exact nofun
    | some c' => exact nofun
  | clrBestFreq | setAutoRun => exact nofun
  | stop => cases h

theorem callerStep_none (h : w.caller = none) : callerStep a w = { w with made := none } := by
  rw [callerStep, h]

theorem callerStep_some (h : w.caller = some p) :
    callerStep a w = { w with
      quick := (p.step a w.quick).quick
      caller := (p.step a w.quick).place
      stopped := w.stopped || (p.stops && (p.step a w.quick).place.isNone)
      made := none } := by
  rw [callerStep, h]

end Caller

/-- What holds in every state: the flag is cleared while quick connect is stopped and from the first step
of a stop on. -/
structure Reached (w : World) : Prop where
  reports : ReportsOnly w.task
  cleared : ∀ c, w.caller = some (.stop c) → c ≠ .clrAutoRun → w.quick.autoRun = false
  autoRun : w.stopped = true → w.quick.autoRun = false
  stops : w.stopped = true → ∀ p, w.caller = some p → p.stops = true

section World

variable {a : Answers} {w : World}

theorem reached_boot : Reached .boot where
  reports := fun _ hplace => by cases hplace
  cleared := fun _ hcaller => by cases hcaller
  autoRun := fun hstopped => by cases hstopped
  stops := fun hstopped => by cases hstopped

theorem Reached.made (h : Reached w) (made : Option Call) : Reached { w with made := made } :=
  ⟨h.reports, h.cleared, h.autoRun, h.stops⟩

/-- The next step of a stop that is under way. -/
theorem Reached.stop {c : ClosePlace} (h : Reached w) (hc : w.caller = some (.stop c)) :
    Reached (callerStep a w) := by
  have hauto : (c.step w.quick).quick.autoRun = false := ClosePlace.step_autoRun (h.cleared c hc)
  rw [callerStep_some hc]
  refine ⟨h.reports, fun _ _ _ => hauto, fun _ => hauto, fun _ p hp => ?_⟩
  obtain ⟨c', -, rfl⟩ := Option.map_eq_some_iff.mp hp
  rfl

/-- The next step of a start that is under way. -/
theorem Reached.start {p : CallerPlace} (h : Reached w) (hc : w.caller = some p)
    (hstart : p.stops = false) : Reached (callerStep a w) := by
  have hnot : w.stopped = false := by
    cases hstopped : w.stopped with
    | false => rfl
    | true => exact absurd (h.stops hstopped p hc) (by rw [hstart]; exact Bool.false_ne_true)
  have hplace : ∀ c, (p.step a w.quick).place ≠ some (.stop c) := start_place_ne hstart
  rw [callerStep_some hc, hstart, hnot]
  refine ⟨h.reports, fun c hcaller => absurd hcaller (hplace c), nofun, nofun⟩

theorem Reached.next (h : Reached w) (e : Event) : Reached (next w e) := by
  cases e with
  | start mode =>
    rw [QuickConnect.next]
    split
    · refine ⟨h.reports, fun c hcaller => ?_, nofun, nofun⟩
      dsimp only at hcaller
      split at hcaller
      · cases hcaller
      · cases hcaller
    · exact h.made none
  | stop =>
    cases hc : w.caller with
    | none =>
      rw [QuickConnect.next, hc]
      refine ⟨h.reports, fun c hcaller hne => ?_, h.autoRun, fun _ p hp => ?_⟩
      · cases hcaller
        exact absurd rfl hne
      · cases hp
        rfl
    | some p =>
      rw [QuickConnect.next, hc, Option.getD_some, ← hc]
      exact h.made none
  | caller a =>
    rw [QuickConnect.next]
    cases hc : w.caller with
    | none =>
      rw [callerStep_none hc]
      exact h.made none
    | some p =>
      cases hstops : p.stops with
      | false => exact h.start hc hstops
      | true =>
        obtain ⟨c, rfl⟩ := eq_stop_of_stops hstops
        exact h.stop hc
  | task a =>
    have hauto : (w.task.step a w.quick).quick.autoRun = w.quick.autoRun := Task.step_autoRun
    exact ⟨Task.step_reportsOnly h.reports, fun c hcaller hne => hauto.trans (h.cleared c hcaller hne),
      fun hstopped => hauto.trans (h.autoRun hstopped), h.stops⟩

/-- Without a start, what is quiet stays so. -/
theorem quiet_next {e : Event} (hr : Reached w) (hs : w.stopped = true) (h : Quiet w)
    (he : ∀ mode, e ≠ .start mode) :
    (next w e).stopped = true ∧ Quiet (next w e) ∧ ¬ Opens (next w e).made := by
  cases e with
  | start mode => exact absurd rfl (he mode)
  | stop => exact ⟨hs, ⟨h.qcState, h.idle⟩, not_opens_none⟩
  | caller a =>
    rw [QuickConnect.next]
    cases hc : w.caller with
    | none =>
      rw [callerStep_none hc]
      exact ⟨hs, ⟨h.qcState, h.idle⟩, not_opens_none⟩
    | some p =>
      obtain ⟨c, rfl⟩ := eq_stop_of_stops (hr.stops hs p hc)
      have hbest : (c.step w.quick).quick.bestFreq = w.quick.bestFreq := ClosePlace.step_best
      rw [callerStep_some hc, hs]
      exact ⟨rfl, ⟨ClosePlace.step_qcState h.qcState, hbest ▸ h.idle⟩, not_opens_none⟩
  | task a =>
    have hstep := Task.step_harmless (a := a) h.qcState (hr.autoRun hs) hr.reports h.idle
    exact ⟨hs, ⟨hstep.qcState, hstep.idle⟩, hstep.made⟩

theorem quiet_staysStopped (hr : Reached w) (hs : w.stopped = true) (h : Quiet w)
    (hmade : ¬ Opens w.made) : StaysStopped w := by
  intro fs
  induction fs generalizing w with
  | nil => exact fun _ _ => ⟨h.qcState, hmade⟩
  | cons e fs ih =>
    intro hfs
    have he : ∀ mode, e ≠ .start mode := fun mode heq => hfs mode (heq ▸ List.mem_cons_self)
    obtain ⟨hs', hquiet, hmade'⟩ := quiet_next hr hs h he
    exact ih (hr.next e) hs' hquiet hmade' fun mode hmem => hfs mode (List.mem_cons_of_mem e hmem)

theorem StaysStopped.next {e : Event} (h : StaysStopped w) (he : ∀ mode, e ≠ .start mode) :
    StaysStopped (next w e) := by
  intro fs hfs
  refine h (e :: fs) fun mode hmem => ?_
  rcases List.mem_cons.mp hmem with heq | hmem
  · exact he mode heq.symm
  · exact hfs mode hmem

/-- A task that is not idle disturbs sooner or later where it alone goes on. -/
theorem not_staysStopped (hs : w.stopped = true) (h : ¬ w.task.place.Idle w.quick.bestFreq) :
    ¬ StaysStopped w := by
  induction hn : w.task.place.rank using Nat.strong_induction_on generalizing w with
  | _ n ih =>
    subst hn
    intro hstays
    have hnext : StaysStopped (QuickConnect.next w (.task found)) := hstays.next nofun
    rcases Task.step_disturbs h with hdist | ⟨hnot, hrank⟩
    · obtain ⟨hexit, hmade⟩ := hnext [] nofun hs
      exact hdist.elim (fun hne => hne hexit) hmade
    · exact ih _ hrank (w := QuickConnect.next w (.task found)) hs hnot rfl hnext

theorem StaysStopped.quiet (h : StaysStopped w) (hs : w.stopped = true) : Quiet w where
  qcState := (h [] nofun hs).1
  idle := by
    by_contra hnot
    exact not_staysStopped hs hnot h

theorem staysStopped_iff_quiet (hr : Reached w) (hs : w.stopped = true) (hmade : ¬ Opens w.made) :
    StaysStopped w ↔ Quiet w :=
  ⟨fun h => h.quiet hs, fun h => quiet_staysStopped hr hs h hmade⟩

/-- The step that a stop returns with leaves everything as it is. -/
theorem callerStep_returns (h : ReturnsFromStop w) :
    callerStep a w = { w with caller := none, stopped := true, made := none } := by
  rcases h with hc | ⟨hc, hexit⟩
  · rw [callerStep_some hc]
    simp [CallerPlace.step, ClosePlace.step, CallerPlace.stops]
  · rw [callerStep_some hc]
    simp [CallerPlace.step, ClosePlace.step, CallerPlace.stops, hexit]

theorem callerStep_stopped (h : ¬ ReturnsFromStop w) (hs : w.stopped = false) :
    (callerStep a w).stopped = false := by
  cases hc : w.caller with
  | none =>
    rw [callerStep_none hc]
    exact hs
  | some p =>
    rw [callerStep_some hc, hs]
    cases hstops : p.stops with
    | false => rfl
    | true =>
      obtain ⟨c, rfl⟩ := eq_stop_of_stops hstops
      cases hnext : (c.step w.quick).place with
      | some c' => simp [CallerPlace.step, hnext]
      | none =>
        rcases ClosePlace.step_none_iff.mp hnext with rfl | ⟨rfl, hexit⟩
        · exact absurd (.inl hc) h
        · exact absurd (.inr ⟨hc, hexit⟩) h

/-- Where every stop that has returned stays in force, a step keeps that exactly if it returns from a stop
only while the task is idle. -/
theorem next_staysStopped_iff {e : Event} (hr : Reached w) (h : w.stopped = true → StaysStopped w) :
    ((next w e).stopped = true → StaysStopped (next w e)) ↔ StopsQuietly w e := by
  cases e with
  | start mode =>
    refine iff_of_true (fun hs => ?_) trivial
    rw [QuickConnect.next] at hs ⊢
    split at hs
    · cases hs
    · rename_i hbusy
      obtain ⟨p, hp⟩ := Option.ne_none_iff_exists'.mp hbusy
      have hstop : QuickConnect.next w .stop = { w with made := none } := by
        rw [QuickConnect.next, hp, Option.getD_some, ← hp]
      rw [if_neg hbusy, ← hstop]
      exact (h hs).next nofun
  | stop => exact iff_of_true (fun hs => (h hs).next nofun) trivial
  | task a => exact iff_of_true (fun hs => (h hs).next nofun) trivial
  | caller a =>
    cases hs : w.stopped with
    | true => exact iff_of_true (fun _ => (h hs).next nofun) fun _ => (h hs).quiet hs
    | false =>
      by_cases hreturns : ReturnsFromStop w
      · have hstep : next w (.caller a) = { w with caller := none, stopped := true, made := none } :=
          callerStep_returns hreturns
        have hreached := hr.next (.caller a)
        rw [hstep] at hreached ⊢
        rw [staysStopped_iff_quiet hreached rfl not_opens_none]
        exact ⟨fun hquiet _ => ⟨(hquiet rfl).qcState, (hquiet rfl).idle⟩,
          fun hquiet _ => ⟨(hquiet hreturns).qcState, (hquiet hreturns).idle⟩⟩
      · have hnot : (next w (.caller a)).stopped = false := callerStep_stopped hreturns hs
        refine iff_of_true (fun hstopped => ?_) fun hret => absurd hret hreturns
        rw [hnot] at hstopped
        cases hstopped

end World

/-- In a run, what every stop has stopped stays so until the next start, however the task and the caller
go on, exactly if every stop returns with `qc_wiota_state` at `QC_EXIT` and with the task outside of
`quick_open_wiota`, or behind a scan in it that has found no frequency. -/
theorem staysStopped_iff_stopsQuietly (es : List Event) :
    (∀ pre, pre <+: es → (pre.foldl next .boot).stopped = true → StaysStopped (pre.foldl next .boot)) ↔
      Along next StopsQuietly .boot es :=
  forall_prefix_iff_along Reached (fun _ w => w.stopped = true → StaysStopped w)
    (fun _ e h _ => h.next e) reached_boot (fun hs => by cases hs)
    (fun _ _ _ hr h => next_staysStopped_iff hr h) es

/-- The caller starts quick connect, the task turns to its tenth round and tests the flag, and the caller
stops quick connect before the task goes on. -/
private def stopBehindTest : List Event :=
  .start 1 :: List.replicate 5 (.caller found) ++ List.replicate 21 (.task found) ++
    .stop :: List.replicate 2 (.caller found)

theorem not_staysStopped_all : ¬ ∀ es : List Event, ∀ pre, pre <+: es →
    (pre.foldl next .boot).stopped = true → StaysStopped (pre.foldl next .boot) := by
  intro h
  have hstays : StaysStopped (stopBehindTest.foldl next .boot) :=
    h stopBehindTest _ (List.prefix_refl _) (by decide)
  have hkeeps : KeepsStopped
      ((List.replicate 2 (.task found)).foldl next (stopBehindTest.foldl next .boot)) :=
    hstays _ fun mode hmem => nomatch List.eq_of_mem_replicate hmem
  exact absurd hkeeps (by decide)

end WiotaDev.QuickConnect
