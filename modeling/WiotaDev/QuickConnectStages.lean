import WiotaDev.StackLifecycle

/-! # The stages of `quick_open_wiota` and its steps

Where the task is alone, its single steps lead through the stages that `quick_open_wiota` is cut into, and
where the caller is alone, its single steps are a call of quick connect. -/

namespace WiotaDev.StackLifecycle
open QuickConnect (Quick Answers Call Task Place ScanPlace OpenPlace Leave ClosePlace CallerPlace
  useResult configCalls QC_MODE_MAX)
open AutoManager (FreqScanResult)

/-- The calls that a step makes, if any, reach the stack. -/
def Stack.made (s : Stack) (c : Option Call) : Stack := c.elim s s.after

/-- The state that a thread and the stack share, with what is left of the thread. -/
structure Alone (π : Type) where
  place : π
  quick : Quick
  stack : Stack

namespace Alone

variable {π : Type}

def next (step : π → Quick → QuickConnect.Step π) (x : Alone π) : Alone π where
  place := (step x.place x.quick).place
  quick := (step x.place x.quick).quick
  stack := x.stack.made (step x.place x.quick).made

/-- A number of steps lead from one state to the other. -/
def Leads (step : π → Quick → QuickConnect.Step π) (x y : Alone π) : Prop :=
  ∃ n, (next step)^[n] x = y

theorem Leads.trans {step : π → Quick → QuickConnect.Step π} {x y z : Alone π} (hxy : Leads step x y)
    (hyz : Leads step y z) : Leads step x z := by
  obtain ⟨n, rfl⟩ := hxy
  obtain ⟨m, rfl⟩ := hyz
  exact ⟨m + n, Function.iterate_add_apply _ m n x⟩

end Alone

section Task

variable (a : Answers)

/-- The task where it is to go on with a stage. -/
def Stage.place : Stage → Place
  | .idle => .testSync
  | .scanGuard => .quickScan .testQcState
  | .scanInit => .quickScan .init
  | .scanRun => .quickScan .run
  | .scanEnd => .quickScan .getConfig
  | .openGuard => .quickOpen .testQcState
  | .openInit => .quickOpen .testBestFreq
  | .openRun => .quickOpen .setFreqInfo

/-- The task at a place, with its other variables. -/
def alone (t : Task) (place : Place) (quick : Quick) (stack : Stack) : Alone Task where
  place := { t with place := place }
  quick := quick
  stack := stack

/-- The steps of the task alone. -/
abbrev TaskLeads (x y : Alone Task) : Prop := Alone.Leads (fun t q => t.step a q) x y

variable (t : Task)

theorem scanStep_leads (p : ScanPlace) (quick : Quick) (stack : Stack) :
    TaskLeads a (alone t (.quickScan p) quick stack)
      (alone t ((p.step a quick).place.elim (.quickOpen .testQcState) .quickScan) (p.step a quick).quick
        (stack.made (p.step a quick).made)) :=
  ⟨1, rfl⟩

theorem openStep_leads (p : OpenPlace) (quick : Quick) (stack : Stack) :
    TaskLeads a (alone t (.quickOpen p) quick stack)
      (alone t ((p.step quick).place.elim .testSync .quickOpen) (p.step quick).quick
        (stack.made (p.step quick).made)) :=
  ⟨1, rfl⟩

theorem leaveOld_leads (quick : Quick) (stack : Stack) :
    TaskLeads a (alone t (.quickScan (.leaveOld .exit)) quick stack)
      (alone t (.quickScan .init) { quick with atState := .exit, qcState := .exit } (stack.after .exit)) :=
  ⟨3, rfl⟩

theorem leave_leads (quick : Quick) (stack : Stack) :
    TaskLeads a (alone t (.quickScan (.leave .exit)) quick stack)
      (alone t (.quickOpen .testQcState) { quick with atState := .exit, qcState := .exit }
        (stack.after .exit)) :=
  ⟨3, rfl⟩

theorem openLeave_leads (quick : Quick) (stack : Stack) :
    TaskLeads a (alone t (.quickOpen (.leave .exit)) quick stack)
      (alone t (.quickOpen .testBestFreq) { quick with atState := .exit, qcState := .exit }
        (stack.after .exit)) :=
  ⟨4, rfl⟩

theorem useResults_leads (left : List FreqScanResult) (quick : Quick) (stack : Stack) :
    TaskLeads a (alone t (.quickScan (.useResults left)) quick stack)
      (alone t (.quickScan (.leave .exit)) { quick with bestFreq := left.foldl useResult quick.bestFreq }
        stack) := by
  induction left generalizing quick with
  | nil => exact ⟨1, rfl⟩
  | cons r left ih =>
    have hstep : TaskLeads a (alone t (.quickScan (.useResults (r :: left))) quick stack)
        (alone t (.quickScan (.useResults left)) { quick with bestFreq := useResult quick.bestFreq r }
          stack) :=
      ⟨1, rfl⟩
    exact hstep.trans (ih _)

/-- The task alone goes from one stage of `quick_open_wiota` to the next, with what the stage is to
change. -/
theorem quickOpenWiota_leads {d : Device} (h : d.stage ≠ .idle) :
    TaskLeads a (alone t d.stage.place d.quick d.stack)
      (alone t (quickOpenWiota a d).stage.place (quickOpenWiota a d).quick (quickOpenWiota a d).stack) := by
  obtain ⟨stack, quick, stage⟩ := d
  cases stage with
  | idle => exact absurd rfl h
  | scanGuard =>
    have htest := scanStep_leads a t .testQcState quick stack
    rw [quickOpenWiota]
    dsimp only [Device.leaveUnlessExit]
    by_cases hqc : quick.qcState ≠ .exit
    · have hplace : (ScanPlace.testQcState.step a quick).place = some (.leaveOld .exit) :=
        congrArg some (if_pos hqc)
      rw [hplace] at htest
      rw [if_pos hqc]
      exact htest.trans (leaveOld_leads a t quick stack)
    · have hplace : (ScanPlace.testQcState.step a quick).place = some .init := congrArg some (if_neg hqc)
      rw [hplace] at htest
      rw [if_neg hqc]
      exact htest
  | scanInit =>
    cases stack with
    | off | init | run | misused => exact ⟨10, rfl⟩
  | scanRun => exact ⟨3, rfl⟩
  | scanEnd =>
    have hscan : TaskLeads a (alone t (.quickScan .getConfig) quick stack)
        (alone t (.quickScan (.useResults (a.scan.getD []))) quick stack) := by
      cases stack with
      | off | init | run | misused => exact ⟨2, rfl⟩
    exact hscan.trans ((useResults_leads a t _ quick stack).trans (leave_leads a t _ stack))
  | openGuard =>
    have htest := openStep_leads a t .testQcState quick stack
    rw [quickOpenWiota]
    dsimp only [Device.leaveUnlessExit]
    by_cases hqc : quick.qcState ≠ .exit
    · have hplace : (OpenPlace.testQcState.step quick).place = some (.leave .exit) :=
        congrArg some (if_pos hqc)
      rw [hplace] at htest
      rw [if_pos hqc]
      exact htest.trans (openLeave_leads a t quick stack)
    · have hplace : (OpenPlace.testQcState.step quick).place = some .delay := congrArg some (if_neg hqc)
      rw [hplace] at htest
      rw [if_neg hqc]
      exact htest.trans (openStep_leads a t .delay quick stack)
  | openInit =>
    have htest := openStep_leads a t .testBestFreq quick stack
    rw [quickOpenWiota]
    dsimp only
    by_cases hbest : quick.bestFreq.freqIdx ≠ 0xFF
    · have hplace : (OpenPlace.testBestFreq.step quick).place = some .init := if_pos hbest
      rw [hplace] at htest
      rw [if_pos hbest]
      exact htest.trans ⟨2, rfl⟩
    · have hplace : (OpenPlace.testBestFreq.step quick).place = none := if_neg hbest
      rw [hplace] at htest
      rw [if_neg hbest]
      exact htest
  | openRun =>
    cases stack with
    | off | init | run | misused => exact ⟨7, rfl⟩

/-- The task begins with `quick_open_wiota` behind the test of the flag. -/
theorem testAutoRun_leads {d : Device} (h : d.stage = .idle) :
    TaskLeads a (alone t .getState d.quick d.stack)
      (alone { t with wiotaState := a.state } (quickOpenWiota a d).stage.place (quickOpenWiota a d).quick
        (quickOpenWiota a d).stack) := by
  obtain ⟨stack, quick, stage⟩ := d
  obtain rfl : stage = .idle := h
  have hread : TaskLeads a (alone t .getState quick stack)
      (alone { t with wiotaState := a.state } .testAutoRun quick stack) := by
    cases stack with
    | off | init | run | misused => exact ⟨1, rfl⟩
  have htest : TaskLeads a (alone { t with wiotaState := a.state } .testAutoRun quick stack)
      (alone { t with wiotaState := a.state }
        (if a.state ≠ .sync ∧ quick.autoRun then .quickScan .testQcState else .testSync) quick stack) :=
    ⟨1, rfl⟩
  have hboth := hread.trans htest
  rw [quickOpenWiota]
  dsimp only
  split at hboth
  · rename_i hpass
    rw [if_pos hpass]
    exact hboth
  · rename_i hfail
    rw [if_neg hfail]
    exact hboth

end Task

section Caller

variable (a : Answers)

/-- The steps of the caller alone; it does nothing where no call is under way. -/
abbrev CallerLeads (x y : Alone (Option CallerPlace)) : Prop :=
  Alone.Leads (fun p q => p.elim ⟨none, q, none⟩ fun p => p.step a q) x y

theorem stopLeave_leads (quick : Quick) (stack : Stack) :
    CallerLeads a ⟨some (.stop (.leave .exit)), quick, stack⟩
      ⟨none, { quick with atState := .exit, qcState := .exit }, stack.after .exit⟩ :=
  ⟨4, rfl⟩

/-- The steps of `wiota_quick_connect_stop`, with nothing in between. -/
theorem quickStop_leads (d : Device) :
    CallerLeads a ⟨some (.stop .clrAutoRun), d.quick, d.stack⟩
      ⟨none, (wiotaQuickConnectStop d).2.quick, (wiotaQuickConnectStop d).2.stack⟩ := by
  obtain ⟨stack, quick, stage⟩ := d
  have hclr : CallerLeads a ⟨some (.stop .clrAutoRun), quick, stack⟩
      ⟨some (.stop .testQcState), { quick with autoRun := false }, stack⟩ := ⟨1, rfl⟩
  have htest : CallerLeads a ⟨some (.stop .testQcState), { quick with autoRun := false }, stack⟩
      ⟨(if quick.qcState ≠ .exit then some (ClosePlace.leave .exit) else none).map .stop,
        { quick with autoRun := false }, stack⟩ := ⟨1, rfl⟩
  have hboth := hclr.trans htest
  rw [wiotaQuickConnectStop]
  dsimp only [Device.leaveUnlessExit, Device.clrQcAutoRun]
  by_cases hqc : quick.qcState ≠ .exit
  · rw [if_pos hqc] at hboth ⊢
    exact hboth.trans (stopLeave_leads a _ stack)
  · rw [if_neg hqc] at hboth ⊢
    exact hboth

theorem startLeave_leads (quick : Quick) (stack : Stack) :
    CallerLeads a ⟨some (.start (.leave .exit)), quick, stack⟩
      ⟨some .clrBestFreq, { quick with atState := .exit, qcState := .exit }, stack.after .exit⟩ :=
  ⟨4, rfl⟩

/-- The steps of `wiota_quick_connect_start` behind its check of the mode, with nothing in between. -/
theorem quickStart_leads (d : Device) {mode : ℕ} (hmode : mode < QC_MODE_MAX) :
    CallerLeads a ⟨some .setFreqInfo, d.quick, d.stack⟩
      ⟨none, (wiotaQuickConnectStart mode a.freqInfo d).2.quick,
        (wiotaQuickConnectStart mode a.freqInfo d).2.stack⟩ := by
  obtain ⟨stack, quick, stage⟩ := d
  have hask : CallerLeads a ⟨some .setFreqInfo, quick, stack⟩
      ⟨if a.freqInfo then some (.start .clrAutoRun) else none, quick, stack⟩ := by
    cases stack with
    | off | init | run | misused => exact ⟨1, rfl⟩
  rw [wiotaQuickConnectStart]
  cases hinfo : a.freqInfo with
  | false =>
    rw [hinfo] at hask
    rw [if_neg (fun h => Bool.false_ne_true h.2)]
    exact hask
  | true =>
    have htest : CallerLeads a ⟨some (.start .clrAutoRun), quick, stack⟩
        ⟨some ((if quick.qcState ≠ .exit then some (ClosePlace.leave .exit) else none).elim
            .clrBestFreq .start),
          { quick with autoRun := false }, stack⟩ := ⟨2, rfl⟩
    rw [hinfo] at hask
    have hboth := hask.trans htest
    rw [if_pos ⟨hmode, rfl⟩]
    dsimp only [Device.leaveUnlessExit, Device.clrQcAutoRun]
    by_cases hqc : quick.qcState ≠ .exit
    · rw [if_pos hqc] at hboth ⊢
      exact (hboth.trans (startLeave_leads a _ stack)).trans ⟨2, rfl⟩
    · rw [if_neg hqc] at hboth ⊢
      exact hboth.trans ⟨2, rfl⟩

end Caller

end WiotaDev.StackLifecycle
