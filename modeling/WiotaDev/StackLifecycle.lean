import WiotaDev.GatewayLifecycle
import WiotaDev.PrefixRuns
import WiotaDev.QuickConnect

/-! # The stack under the AT commands and quick connect

The AT commands, the gateway's quick connection and quick connect drive one stack and one `wiota_state`.
A command and a call of quick connect are one step each. `quick_open_wiota` is cut where it waits, and
where it calls the stack again. -/

namespace WiotaDev.StackLifecycle
open PrefixRuns
open GatewayLifecycle (StartResult)
open QuickConnect (Quick Answers AtState QcState Call QC_MODE_MAX quickClrBestFreq useResult)

/-- What the stack is, and `misused` after a call that does not belong to its cycle. -/
inductive Stack where
  | off | init | run | misused
deriving DecidableEq

def Stack.after : Stack → Call → Stack
  | .off, .init => .init
  | .init, .run => .run
  | .init, .exit | .run, .exit => .off
  | s, c => if c = .init ∨ c = .run ∨ c = .exit then .misused else s

/-- Where `quick_open_wiota` is: behind the test of the task that it follows, and before the step that a
stage is named after. -/
inductive Stage where
  | idle
  | scanGuard
  | scanInit
  | scanRun
  | scanEnd
  | openGuard
  | openInit
  | openRun
deriving DecidableEq

structure Device where
  stack : Stack
  quick : Quick
  stage : Stage
deriving DecidableEq

/-- `at_result_t`. -/
inductive AtResult where
  | ok | faile | parseFaile | checkFaile | repetitiveFaile | refused
deriving DecidableEq

namespace Device

def boot : Device where
  stack := .off
  quick := .boot
  stage := .idle

def call (c : Call) (d : Device) : Device := { d with stack := d.stack.after c }

def atWiotaSetState (s : AtState) (d : Device) : Device := { d with quick := { d.quick with atState := s } }

def setQcWiotaState (s : QcState) (d : Device) : Device := { d with quick := { d.quick with qcState := s } }

def setBestFreq (d : Device) (best : AutoManager.FreqScanResult) : Device :=
  { d with quick := { d.quick with bestFreq := best } }

def clrQcAutoRun (d : Device) : Device := { d with quick := { d.quick with autoRun := false } }

def setQcAutoRun (d : Device) : Device := { d with quick := { d.quick with autoRun := true } }

/-- What quick connect does to leave the stack. -/
def leave (d : Device) : Device := ((d.call .exit).atWiotaSetState .exit).setQcWiotaState .exit

def leaveUnlessExit (d : Device) : Device := if d.quick.qcState ≠ .exit then d.leave else d

end Device

/-- `at_wiota_init_exec`. -/
def atWiotaInitExec (autoConnect : Bool) (d : Device) : AtResult × Device :=
  if autoConnect then (.refused, d)
  else if d.quick.atState = .default ∨ d.quick.atState = .exit then
    (.ok, (d.call .init).atWiotaSetState .init)
  else (.repetitiveFaile, d)

/-- `at_wiota_cfun_setup`. -/
def atWiotaCfunSetup (autoConnect : Bool) (state : Option ℤ) (d : Device) : AtResult × Device :=
  if autoConnect then (.refused, d)
  else if state = none then (.parseFaile, d)
  else if state = some 1 ∧ d.quick.atState = .init then (.ok, (d.call .run).atWiotaSetState .run)
  else if state = some 0 ∧ d.quick.atState = .run then
    (.ok, ((d.call .exit).clrQcAutoRun).atWiotaSetState .exit)
  else (.repetitiveFaile, d)

/-- The arguments of `AT+GATEWAYQC` that decide how it goes on. -/
structure QuickRequest where
  isForceActive : BitVec 32
  mode : BitVec 32
deriving DecidableEq

/-- `mode` is `UC_GATEWAY_MODE`, `UC_TRANSMISSION_MODE` or `UC_GATEWAY_TIME_SLOT_MODE`. -/
def QuickRequest.Valid (r : QuickRequest) : Prop := r.mode = 0 ∨ r.mode = 2 ∨ r.mode = 3

instance (r : QuickRequest) : Decidable r.Valid := inferInstanceAs (Decidable (_ ∨ _ ∨ _))

/-- `at_wiota_gateway_quick_connect` behind its checks, where `uc_wiota_wait_sync` and
`uc_wiota_gateway_start` answer as given. -/
def quickConnection (r : QuickRequest) (synced : Bool) (start : StartResult) (d : Device) :
    AtResult × Device :=
  let d := (((d.call .init).atWiotaSetState .init).call .run).atWiotaSetState .run
  if r.isForceActive = 0 ∧ !synced then (.faile, (d.call .exit).atWiotaSetState .exit)
  else if start ≠ .ok then (.faile, (d.call .exit).atWiotaSetState .exit)
  else (.ok, d)

/-- `at_wiota_gateway_quick_connect`. -/
def atWiotaGatewayQuickConnect (args : Option QuickRequest) (synced : Bool) (start : StartResult)
    (d : Device) : AtResult × Device :=
  match args with
  | none => (.parseFaile, d)
  | some r => if r.Valid then quickConnection r synced start d else (.checkFaile, d)

/-- `at_wiota_gateway_quick_disconnect`. -/
def atWiotaGatewayQuickDisconnect (d : Device) : AtResult × Device :=
  (.ok, (d.call .exit).atWiotaSetState .exit)

/-- `wiota_quick_connect_start`. -/
def wiotaQuickConnectStart (mode : ℕ) (freqInfo : Bool) (d : Device) : ℤ × Device :=
  if mode < QC_MODE_MAX ∧ freqInfo then
    (0, ((d.clrQcAutoRun.leaveUnlessExit).setBestFreq quickClrBestFreq).setQcAutoRun)
  else (-1, d)

/-- `wiota_quick_connect_stop`. -/
def wiotaQuickConnectStop (d : Device) : ℤ × Device := (0, d.clrQcAutoRun.leaveUnlessExit)

/-- The next step of `quick_open_wiota`, which follows a test of the task that it passes. -/
def quickOpenWiota (a : Answers) (d : Device) : Device :=
  match d.stage with
  | .idle => if a.state ≠ .sync ∧ d.quick.autoRun then { d with stage := .scanGuard } else d
  | .scanGuard => { d.leaveUnlessExit with stage := .scanInit }
  | .scanInit =>
    { ((d.call .init).setQcWiotaState .init).setBestFreq quickClrBestFreq with stage := .scanRun }
  | .scanRun =>
    { ((d.call .run).atWiotaSetState .run).setQcWiotaState .run with stage := .scanEnd }
  | .scanEnd =>
    { (d.setBestFreq ((a.scan.getD []).foldl useResult d.quick.bestFreq)).leave with stage := .openGuard }
  | .openGuard => { d.leaveUnlessExit with stage := .openInit }
  | .openInit =>
    if d.quick.bestFreq.freqIdx ≠ 0xFF then
      { (d.call .init).setQcWiotaState .init with stage := .openRun }
    else { d with stage := .idle }
  | .openRun =>
    { (((d.call .run).atWiotaSetState .run).setQcWiotaState .run).call .connect with stage := .idle }

inductive Event where
  | wiotaInit (autoConnect : Bool)
  | wiotaRun (autoConnect : Bool) (state : Option ℤ)
  | gatewayQc (args : Option QuickRequest) (synced : Bool) (start : StartResult)
  | gatewayQd
  | quickStart (mode : ℕ) (freqInfo : Bool)
  | quickStop
  | openWiota (a : Answers)

def next (d : Device) : Event → Device
  | .wiotaInit autoConnect => (atWiotaInitExec autoConnect d).2
  | .wiotaRun autoConnect state => (atWiotaCfunSetup autoConnect state d).2
  | .gatewayQc args synced start => (atWiotaGatewayQuickConnect args synced start d).2
  | .gatewayQd => (atWiotaGatewayQuickDisconnect d).2
  | .quickStart mode freqInfo => (wiotaQuickConnectStart mode freqInfo d).2
  | .quickStop => (wiotaQuickConnectStop d).2
  | .openWiota a => quickOpenWiota a d

/-- What the stack is according to `at_wiota_get_state`. -/
def told : AtState → Stack
  | .default | .exit => .off
  | .init => .init
  | .run => .run

/-- No call of the stack has broken its cycle, and `at_wiota_get_state` tells what the stack is. -/
def Lawful (d : Device) : Prop := d.stack ≠ .misused ∧ told d.quick.atState = d.stack

instance (d : Device) : Decidable (Lawful d) := inferInstanceAs (Decidable (_ ∧ _))

/-- `AT+GATEWAYQC` comes with a valid mode only where the stack is not initialised, `AT+GATEWAYQD` only
where it is, and no scan of `quick_open_wiota` gets to its `uc_wiota_init`. -/
def Fits (d : Device) : Event → Prop
  | .gatewayQc args _ _ => (∃ r, args = some r ∧ r.Valid) → d.stack = .off
  | .gatewayQd => d.stack ≠ .off
  | .openWiota _ => d.stage ≠ .scanInit
  | .wiotaInit _ | .wiotaRun _ _ | .quickStart _ _ | .quickStop => True

/-- Quick connect has not got to the stack. -/
structure Early (d : Device) : Prop where
  qcState : d.quick.qcState = .exit
  stage : d.stage = .idle ∨ d.stage = .scanGuard ∨ d.stage = .scanInit

section Steps

variable {d : Device} {e : Event}

theorem leaveUnlessExit_exit (h : d.quick.qcState = .exit) : d.leaveUnlessExit = d :=
  if_neg (not_not_intro h)

theorem Early.of_eq {d' : Device} (h : Early d) (hqc : d'.quick.qcState = d.quick.qcState)
    (hstage : d'.stage = d.stage) : Early d' :=
  ⟨hqc.trans h.qcState, hstage ▸ h.stage⟩

theorem initExec_frame (autoConnect : Bool) (d : Device) :
    (atWiotaInitExec autoConnect d).2.quick.qcState = d.quick.qcState ∧
      (atWiotaInitExec autoConnect d).2.stage = d.stage := by
  rw [atWiotaInitExec]
  split
  · exact ⟨rfl, rfl⟩
  · split
    · exact ⟨rfl, rfl⟩
    · exact ⟨rfl, rfl⟩

theorem cfunSetup_frame (autoConnect : Bool) (state : Option ℤ) (d : Device) :
    (atWiotaCfunSetup autoConnect state d).2.quick.qcState = d.quick.qcState ∧
      (atWiotaCfunSetup autoConnect state d).2.stage = d.stage := by
  rw [atWiotaCfunSetup]
  repeat' split
  all_goals exact ⟨rfl, rfl⟩

theorem quickConnection_frame (r : QuickRequest) (synced : Bool) (start : StartResult) (d : Device) :
    (quickConnection r synced start d).2.quick.qcState = d.quick.qcState ∧
      (quickConnection r synced start d).2.stage = d.stage := by
  rw [quickConnection]
  repeat' split
  all_goals exact ⟨rfl, rfl⟩

theorem gatewayQc_frame (args : Option QuickRequest) (synced : Bool) (start : StartResult) (d : Device) :
    (atWiotaGatewayQuickConnect args synced start d).2.quick.qcState = d.quick.qcState ∧
      (atWiotaGatewayQuickConnect args synced start d).2.stage = d.stage := by
  cases args with
  | none => exact ⟨rfl, rfl⟩
  | some r =>
    rw [atWiotaGatewayQuickConnect]
    split
    · exact quickConnection_frame r synced start d
    · exact ⟨rfl, rfl⟩

/-- While `qc_wiota_state` is `QC_EXIT`, a call of quick connect changes the flag and the best frequency
only. -/
theorem quickStart_exit (mode : ℕ) (freqInfo : Bool) (h : d.quick.qcState = .exit) :
    (wiotaQuickConnectStart mode freqInfo d).2.stack = d.stack ∧
      (wiotaQuickConnectStart mode freqInfo d).2.quick.atState = d.quick.atState ∧
      (wiotaQuickConnectStart mode freqInfo d).2.quick.qcState = d.quick.qcState ∧
      (wiotaQuickConnectStart mode freqInfo d).2.stage = d.stage := by
  have hclr : d.clrQcAutoRun.leaveUnlessExit = d.clrQcAutoRun := leaveUnlessExit_exit h
  rw [wiotaQuickConnectStart]
  split
  · rw [hclr]
    exact ⟨rfl, rfl, rfl, rfl⟩
  · exact ⟨rfl, rfl, rfl, rfl⟩

theorem quickStop_exit (h : d.quick.qcState = .exit) : (wiotaQuickConnectStop d).2 = d.clrQcAutoRun :=
  leaveUnlessExit_exit h

theorem Early.next (h : Early d) (hfits : Fits d e) : Early (next d e) := by
  cases e with
  | wiotaInit autoConnect =>
    obtain ⟨hqc, hstage⟩ := initExec_frame autoConnect d
    exact h.of_eq hqc hstage
  | wiotaRun autoConnect state =>
    obtain ⟨hqc, hstage⟩ := cfunSetup_frame autoConnect state d
    exact h.of_eq hqc hstage
  | gatewayQc args synced start =>
    obtain ⟨hqc, hstage⟩ := gatewayQc_frame args synced start d
    exact h.of_eq hqc hstage
  | gatewayQd => exact h.of_eq rfl rfl
  | quickStart mode freqInfo =>
    obtain ⟨-, -, hqc, hstage⟩ := quickStart_exit mode freqInfo h.qcState
    exact h.of_eq hqc hstage
  | quickStop =>
    rw [StackLifecycle.next, quickStop_exit h.qcState]
    exact h.of_eq rfl rfl
  | openWiota a =>
    rw [StackLifecycle.next, quickOpenWiota]
    rcases h.stage with hs | hs | hs
    · rw [hs]
      dsimp only
      split
      · exact ⟨h.qcState, .inr (.inl rfl)⟩
      · exact h
    · rw [hs, leaveUnlessExit_exit h.qcState]
      exact ⟨h.qcState, .inr (.inr rfl)⟩
    · exact absurd hs hfits

/-- Only `told` counts for a lawful device. -/
theorem lawful_congr {d' : Device} (hstack : d'.stack = d.stack)
    (hat : d'.quick.atState = d.quick.atState) : Lawful d' ↔ Lawful d := by
  rw [Lawful, Lawful, hstack, hat]

/-- `AT+WIOTAINIT` asks `wiota_state` before it calls the stack. -/
theorem initExec_lawful (autoConnect : Bool) (h : Lawful d) : Lawful (atWiotaInitExec autoConnect d).2 := by
  rw [atWiotaInitExec]
  split
  · exact h
  · split
    · rename_i hat
      have hoff : d.stack = .off := by
        rcases hat with hat | hat
        · rw [← h.2, hat, told]
        · rw [← h.2, hat, told]
      refine ⟨?_, ?_⟩
      · simp [Device.call, Device.atWiotaSetState, hoff, Stack.after]
      · simp [Device.call, Device.atWiotaSetState, hoff, Stack.after, told]
    · exact h

/-- `AT+WIOTARUN` asks `wiota_state` before it calls the stack. -/
theorem cfunSetup_lawful (autoConnect : Bool) (state : Option ℤ) (h : Lawful d) :
    Lawful (atWiotaCfunSetup autoConnect state d).2 := by
  rw [atWiotaCfunSetup]
  split
  · exact h
  split
  · exact h
  split
  · rename_i hat
    have hinit : d.stack = .init := by rw [← h.2, hat.2, told]
    refine ⟨?_, ?_⟩
    · simp [Device.call, Device.atWiotaSetState, hinit, Stack.after]
    · simp [Device.call, Device.atWiotaSetState, hinit, Stack.after, told]
  split
  · rename_i hat
    have hrun : d.stack = .run := by rw [← h.2, hat.2, told]
    refine ⟨?_, ?_⟩
    · simp [Device.call, Device.atWiotaSetState, Device.clrQcAutoRun, hrun, Stack.after]
    · simp [Device.call, Device.atWiotaSetState, Device.clrQcAutoRun, hrun, Stack.after, told]
  · exact h

/-- `AT+GATEWAYQC` goes through the whole cycle without asking what the stack is. -/
theorem quickConnection_lawful_iff (r : QuickRequest) (synced : Bool) (start : StartResult) (d : Device) :
    Lawful (quickConnection r synced start d).2 ↔ d.stack = .off := by
  have hcases : (quickConnection r synced start d).2.stack = ((d.stack.after .init).after .run) ∧
        (quickConnection r synced start d).2.quick.atState = .run ∨
      (quickConnection r synced start d).2.stack = (((d.stack.after .init).after .run).after .exit) ∧
        (quickConnection r synced start d).2.quick.atState = .exit := by
    rw [quickConnection]
    split
    · exact .inr ⟨rfl, rfl⟩
    · split
      · exact .inr ⟨rfl, rfl⟩
      · exact .inl ⟨rfl, rfl⟩
  rcases hcases with ⟨hstack, hat⟩ | ⟨hstack, hat⟩
  · rw [Lawful, hstack, hat]
    cases d.stack <;> decide
  · rw [Lawful, hstack, hat]
    cases d.stack <;> decide

/-- `AT+GATEWAYQD` leaves the stack without asking what it is. -/
theorem quickDisconnect_lawful_iff (h : Lawful d) :
    Lawful (atWiotaGatewayQuickDisconnect d).2 ↔ d.stack ≠ .off := by
  have hstack : (atWiotaGatewayQuickDisconnect d).2.stack = d.stack.after .exit := rfl
  have hat : (atWiotaGatewayQuickDisconnect d).2.quick.atState = .exit := rfl
  have hused := h.1
  rw [Lawful, hstack, hat]
  cases hd : d.stack with
  | off => decide
  | init => decide
  | run => decide
  | misused => exact absurd hd hused

/-- `quick_scan` initialises the stack and does not say so in `wiota_state`. -/
theorem scanInit_not_lawful {a : Answers} (h : Lawful d) (hs : d.stage = .scanInit) :
    ¬ Lawful (quickOpenWiota a d) := by
  have hstack : (quickOpenWiota a d).stack = d.stack.after .init := by
    rw [quickOpenWiota, hs]
    rfl
  have hat : (quickOpenWiota a d).quick.atState = d.quick.atState := by
    rw [quickOpenWiota, hs]
    rfl
  have htold := h.2
  rw [Lawful, hstack, hat, htold]
  cases d.stack <;> decide

theorem openWiota_lawful_iff {a : Answers} (he : Early d) (h : Lawful d) :
    Lawful (quickOpenWiota a d) ↔ d.stage ≠ .scanInit := by
  rcases he.stage with hs | hs | hs
  · refine iff_of_true ?_ (by rw [hs]; decide)
    rw [quickOpenWiota, hs]
    dsimp only
    split
    · exact h
    · exact h
  · refine iff_of_true ?_ (by rw [hs]; decide)
    rw [quickOpenWiota, hs, leaveUnlessExit_exit he.qcState]
    exact h
  · exact iff_of_false (scanInit_not_lawful h hs) (not_not_intro hs)

/-- A step is lawful exactly if it fits. -/
theorem next_lawful_iff (he : Early d) (h : Lawful d) : Lawful (next d e) ↔ Fits d e := by
  cases e with
  | wiotaInit autoConnect => exact iff_of_true (initExec_lawful autoConnect h) trivial
  | wiotaRun autoConnect state => exact iff_of_true (cfunSetup_lawful autoConnect state h) trivial
  | gatewayQc args synced start =>
    cases args with
    | none => exact iff_of_true h fun ⟨r, hr, _⟩ => by cases hr
    | some r =>
      rw [next, atWiotaGatewayQuickConnect]
      split
      · rename_i hvalid
        rw [quickConnection_lawful_iff]
        exact ⟨fun hoff _ => hoff, fun hoff => hoff ⟨r, rfl, hvalid⟩⟩
      · rename_i hnot
        refine iff_of_true h fun ⟨r', hr, hvalid⟩ => ?_
        cases hr
        exact absurd hvalid hnot
  | gatewayQd => exact quickDisconnect_lawful_iff h
  | quickStart mode freqInfo =>
    obtain ⟨hstack, hat, -, -⟩ := quickStart_exit mode freqInfo he.qcState
    exact iff_of_true ((lawful_congr hstack hat).mpr h) trivial
  | quickStop =>
    rw [next, quickStop_exit he.qcState]
    exact iff_of_true h trivial
  | openWiota a => exact openWiota_lawful_iff he h

end Steps

/-- In a run, the stack is called as its cycle allows and `at_wiota_get_state` tells what it is exactly if
`AT+GATEWAYQC` connects only where the stack is not initialised, `AT+GATEWAYQD` comes only where it is,
and no scan of `quick_open_wiota` gets to its `uc_wiota_init`. -/
theorem lawful_iff_fits (es : List Event) :
    (∀ pre, pre <+: es → Lawful (pre.foldl next .boot)) ↔ Along next Fits .boot es :=
  forall_prefix_iff_along Early (fun _ => Lawful) (fun _ _ h hfits => h.next hfits)
    ⟨rfl, .inl rfl⟩ (by decide) (fun _ _ _ he h => next_lawful_iff he h) es

/-- `AT+GATEWAYQC` does not ask what the stack is, as `AT+WIOTAINIT` does. -/
theorem not_lawful : ¬ ∀ es : List Event, ∀ pre, pre <+: es → Lawful (pre.foldl next .boot) := by
  intro h
  have hlawful := h [.wiotaInit false, .gatewayQc (some ⟨0, 0⟩) true .ok] _ (List.prefix_refl _)
  exact absurd hlawful (by decide)

/-- Nothing else happens while `quick_open_wiota` is under way, and what leaves the stack or connects
comes only where it is right. -/
def Undisturbed (d : Device) : Event → Prop
  | .wiotaInit _ | .wiotaRun _ _ => d.stage = .idle
  | .gatewayQc args _ _ => d.stage = .idle ∧ ((∃ r, args = some r ∧ r.Valid) → d.stack = .off)
  | .gatewayQd => d.stage = .idle ∧ d.stack ≠ .off
  | .quickStart _ _ | .quickStop => d.stage = .idle ∧ (d.quick.qcState ≠ .exit → d.stack ≠ .off)
  | .openWiota _ => d.stage = .scanGuard → (d.quick.qcState ≠ .exit ↔ d.stack ≠ .off)

/-- What holds at a stage of an undisturbed `quick_open_wiota`. -/
def StageLaw (d : Device) : Prop :=
  match d.stage with
  | .idle | .scanGuard => Lawful d
  | .scanInit => d.stack = .off ∧ told d.quick.atState = .off
  | .scanRun | .openRun => d.stack = .init
  | .scanEnd => d.stack = .run ∧ d.quick.atState = .run
  | .openGuard | .openInit => d.stack = .off ∧ d.quick.atState = .exit ∧ d.quick.qcState = .exit

section Undisturbed

variable {d : Device} {e : Event}

theorem stageLaw_idle (h : d.stage = .idle) : StageLaw d ↔ Lawful d := by
  rw [StageLaw, h]

theorem after_exit {s : Stack} (hoff : s ≠ .off) (hused : s ≠ .misused) : s.after .exit = .off := by
  cases s with
  | off => exact absurd rfl hoff
  | init => rfl
  | run => rfl
  | misused => exact absurd rfl hused

/-- Where `qc_wiota_state` is right about the stack, quick connect leaves it as it should. -/
theorem leaveUnlessExit_lawful (h : Lawful d) (hqc : d.quick.qcState ≠ .exit → d.stack ≠ .off) :
    Lawful d.leaveUnlessExit := by
  rw [Device.leaveUnlessExit]
  split
  · rename_i hne
    have hoff : d.leave.stack = .off := after_exit (hqc hne) h.1
    have hat : d.leave.quick.atState = .exit := rfl
    rw [Lawful, hoff, hat]
    decide
  · exact h

theorem leaveUnlessExit_stage (d : Device) : d.leaveUnlessExit.stage = d.stage := by
  rw [Device.leaveUnlessExit]
  split
  · rfl
  · rfl

theorem quickStart_lawful (mode : ℕ) (freqInfo : Bool) (h : Lawful d)
    (hqc : d.quick.qcState ≠ .exit → d.stack ≠ .off) :
    Lawful (wiotaQuickConnectStart mode freqInfo d).2 ∧
      (wiotaQuickConnectStart mode freqInfo d).2.stage = d.stage := by
  have hclr : Lawful d.clrQcAutoRun := (lawful_congr rfl rfl).mpr h
  rw [wiotaQuickConnectStart]
  split
  · exact ⟨(lawful_congr rfl rfl).mpr (leaveUnlessExit_lawful hclr hqc), leaveUnlessExit_stage _⟩
  · exact ⟨h, rfl⟩

theorem gatewayQc_lawful {args : Option QuickRequest} (synced : Bool) (start : StartResult)
    (h : Lawful d) (hoff : (∃ r, args = some r ∧ r.Valid) → d.stack = .off) :
    Lawful (atWiotaGatewayQuickConnect args synced start d).2 := by
  cases args with
  | none => exact h
  | some r =>
    rw [atWiotaGatewayQuickConnect]
    split
    · rename_i hvalid
      exact (quickConnection_lawful_iff r synced start d).mpr (hoff ⟨r, rfl, hvalid⟩)
    · exact h

/-- One step of `quick_open_wiota` leads from the law of its stage to that of the next one. -/
theorem quickOpenWiota_stageLaw (a : Answers) (h : StageLaw d) (he : Undisturbed d (.openWiota a)) :
    StageLaw (quickOpenWiota a d) := by
  obtain ⟨stack, quick, stage⟩ := d
  cases stage with
  | idle =>
    rw [quickOpenWiota]
    dsimp only
    split
    · exact h
    · exact h
  | scanGuard =>
    have hqc : quick.qcState ≠ .exit ↔ stack ≠ .off := he rfl
    rw [quickOpenWiota]
    dsimp only
    rw [Device.leaveUnlessExit]
    split
    · rename_i hne
      exact ⟨after_exit (hqc.mp hne) h.1, rfl⟩
    · rename_i heq
      have hoff : stack = .off := by
        by_contra hne
        exact heq (hqc.mpr hne)
      exact ⟨hoff, h.2.trans hoff⟩
  | scanInit =>
    obtain ⟨rfl, -⟩ := h
    exact rfl
  | scanRun =>
    obtain rfl : stack = .init := h
    exact ⟨rfl, rfl⟩
  | scanEnd =>
    obtain ⟨rfl, -⟩ := h
    exact ⟨rfl, rfl, rfl⟩
  | openGuard =>
    obtain ⟨hstack, hat, hqc⟩ := h
    rw [quickOpenWiota]
    dsimp only
    rw [leaveUnlessExit_exit hqc]
    exact ⟨hstack, hat, hqc⟩
  | openInit =>
    obtain ⟨rfl, hat, hqc⟩ := h
    have htold : told quick.atState = .off := congrArg told hat
    rw [quickOpenWiota]
    dsimp only
    split
    · exact rfl
    · exact ⟨nofun, htold⟩
  | openRun =>
    obtain rfl : stack = .init := h
    exact ⟨nofun, rfl⟩

theorem next_stageLaw (h : StageLaw d) (he : Undisturbed d e) : StageLaw (next d e) := by
  cases e with
  | wiotaInit autoConnect =>
    have hidle : d.stage = .idle := he
    have hframe : (next d (.wiotaInit autoConnect)).stage = d.stage := (initExec_frame autoConnect d).2
    rw [stageLaw_idle (hframe.trans hidle)]
    exact initExec_lawful autoConnect ((stageLaw_idle hidle).mp h)
  | wiotaRun autoConnect state =>
    have hidle : d.stage = .idle := he
    have hframe : (next d (.wiotaRun autoConnect state)).stage = d.stage :=
      (cfunSetup_frame autoConnect state d).2
    rw [stageLaw_idle (hframe.trans hidle)]
    exact cfunSetup_lawful autoConnect state ((stageLaw_idle hidle).mp h)
  | gatewayQc args synced start =>
    obtain ⟨hidle, hoff⟩ := he
    have hframe : (next d (.gatewayQc args synced start)).stage = d.stage :=
      (gatewayQc_frame args synced start d).2
    rw [stageLaw_idle (hframe.trans hidle)]
    exact gatewayQc_lawful synced start ((stageLaw_idle hidle).mp h) hoff
  | gatewayQd =>
    obtain ⟨hidle, hon⟩ := he
    have hframe : (next d .gatewayQd).stage = d.stage := rfl
    rw [stageLaw_idle (hframe.trans hidle)]
    exact (quickDisconnect_lawful_iff ((stageLaw_idle hidle).mp h)).mpr hon
  | quickStart mode freqInfo =>
    obtain ⟨hidle, hqc⟩ := he
    obtain ⟨hlawful, hframe⟩ := quickStart_lawful mode freqInfo ((stageLaw_idle hidle).mp h) hqc
    exact (stageLaw_idle (hframe.trans hidle)).mpr hlawful
  | quickStop =>
    obtain ⟨hidle, hqc⟩ := he
    have hclr : Lawful d.clrQcAutoRun := (lawful_congr rfl rfl).mpr ((stageLaw_idle hidle).mp h)
    have hframe : (next d .quickStop).stage = d.stage := leaveUnlessExit_stage d.clrQcAutoRun
    rw [stageLaw_idle (hframe.trans hidle)]
    exact leaveUnlessExit_lawful hclr hqc
  | openWiota a => exact quickOpenWiota_stageLaw a h he

/-- Undisturbed, quick connect calls the stack as its cycle allows, and `at_wiota_get_state` tells what it
is except between an `uc_wiota_init` of `quick_open_wiota` and its `uc_wiota_run`. -/
theorem undisturbed_lawful {es : List Event} (h : Along next Undisturbed .boot es) :
    (es.foldl next .boot).stack ≠ .misused ∧
      ((es.foldl next .boot).stage ≠ .scanRun → (es.foldl next .boot).stage ≠ .openRun →
        Lawful (es.foldl next .boot)) := by
  have hboot : StageLaw .boot := ⟨nofun, rfl⟩
  have hlaw : StageLaw (es.foldl next .boot) := h.invariant (fun _ _ hs he => next_stageLaw hs he) hboot
  generalize es.foldl next .boot = d at hlaw
  obtain ⟨stack, quick, stage⟩ := d
  cases stage with
  | idle | scanGuard => exact ⟨hlaw.1, fun _ _ => hlaw⟩
  | scanInit =>
    obtain ⟨rfl, htold⟩ := hlaw
    exact ⟨nofun, fun _ _ => ⟨nofun, htold⟩⟩
  | scanRun =>
    obtain rfl : stack = .init := hlaw
    exact ⟨nofun, fun hne => absurd rfl hne⟩
  | openRun =>
    obtain rfl : stack = .init := hlaw
    exact ⟨nofun, fun _ hne => absurd rfl hne⟩
  | scanEnd =>
    obtain ⟨rfl, hat⟩ := hlaw
    exact ⟨nofun, fun _ _ => ⟨nofun, congrArg told hat⟩⟩
  | openGuard | openInit =>
    obtain ⟨rfl, hat, -⟩ := hlaw
    exact ⟨nofun, fun _ _ => ⟨nofun, congrArg told hat⟩⟩

end Undisturbed

end WiotaDev.StackLifecycle
