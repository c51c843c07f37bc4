import WiotaDev.TimerRuns
import Mathlib.Data.Fintype.Card
import Mathlib.Data.Fintype.Basic

/-! # What the timers do for threads

From a kernel in which no timer has been started: the waiting timers stay in the order of their deadlines, the
check of the timers returns unless a period is 0, and a timer that nobody touches is called on time. -/

namespace WiotaDev.KernelTimers
open KeyedLists

variable {T : Type*} [DecidableEq T] {callback : Callback T} {s : Timers T} {a : Alarms T} {t u : T} {n : ℕ}
  {events : List (Event T)}

/-- No timer has been started since `rt_timer_init`. -/
structure Idle (s : Timers T) : Prop where
  tick : s.rtTick < 2 ^ 32
  list : s.timerList = []
  called : s.called = []
  stopped : ∀ t, (s.timer t).activated = false
  timeout : ∀ t, (s.timer t).timeoutTick < 2 ^ 32
  period : ∀ t, (s.timer t).initTick < RT_TICK_MAX / 2

/-- The same with deadlines. -/
def Timers.alarms (s : Timers T) : Alarms T where
  now := s.rtTick
  queue := s.timerList
  called := s.called
  alarm t := ⟨(s.timer t).timeoutTick, (s.timer t).initTick, (s.timer t).periodic, (s.timer t).activated⟩

omit [DecidableEq T] in
theorem Idle.code (h : Idle s) : s.alarms.code = s := by
  have htimer : s.alarms.code.timer = s.timer := by
    funext t
    change (⟨(s.timer t).timeoutTick % 2 ^ 32, _, _, _⟩ : Timer) = s.timer t
    rw [Nat.mod_eq_of_lt (h.timeout t)]
    rfl
  have htick : s.alarms.code.rtTick = s.rtTick := Nat.mod_eq_of_lt h.tick
  calc s.alarms.code = ⟨s.alarms.code.rtTick, s.timerList, s.called, s.alarms.code.timer⟩ := rfl
    _ = s := by rw [htimer, htick]

omit [DecidableEq T] in
theorem Idle.timely (h : Idle s) : Timely 0 s.alarms := by
  have hqueue : s.alarms.queue = [] := h.list
  constructor
  · rw [hqueue]
    exact List.nodup_nil
  · rw [hqueue]
    exact List.Pairwise.nil
  · exact h.period
  · rw [hqueue]
    exact fun u hu => absurd hu List.not_mem_nil
  · rw [hqueue]
    exact fun u hu => absurd hu List.not_mem_nil

/-- From any count of ticks on, also where the count wraps, a run of the kernel is a run with deadlines: the
timers that wait are in the order of their deadlines, and no deadline has passed. -/
theorem run_deadlines (hlaw : Lawful callback) (h : Idle s) (hevents : LawfulEvents events) :
    run callback n 0 s events = (s.alarms.run callback n 0 events).map (fun r => (r.1.code, r.2)) ∧
      ∀ r ∈ s.alarms.run callback n 0 events,
        r.1.now = s.rtTick + ticks events ∧ r.1.queue.Nodup ∧
          (r.1.queue.Pairwise fun t u => (r.1.alarm t).due ≤ (r.1.alarm u).due) ∧
            ∀ t ∈ r.1.queue, r.1.now ≤ (r.1.alarm t).due := by
  obtain ⟨hrun, hresult⟩ := run_code hlaw n h.timely hevents 0
  rw [h.code] at hrun
  refine ⟨hrun, fun r hr => ?_⟩
  obtain ⟨htimely, hnow⟩ := hresult r hr
  exact ⟨hnow, htimely.nodup, htimely.sorted, htimely.late⟩

/-- A kernel whose ticks are about to wrap, with a periodic and a one-shot timer. -/
def demoTimers : Timers Bool := ⟨2 ^ 32 - 2, [], [], fun t => ⟨0, if t then 3 else 2, t, false⟩⟩

/-- The one-shot timer starts itself again. -/
def demoCallback : Callback Bool := fun t _ => if t then [] else [.start false]

def demoEvents : List (Event Bool) := .call (.start false) :: List.replicate 7 .tick

theorem demo_idle : Idle demoTimers where
  tick := by decide
  list := rfl
  called := rfl
  stopped := by decide
  timeout := by decide
  period := by decide

theorem demo_calls {t : Bool} {s : Timers Bool} {c : Call Bool} (hc : c ∈ demoCallback t s) : c = .start false := by
  rw [demoCallback] at hc
  split_ifs at hc
  · exact absurd hc List.not_mem_nil
  · exact List.mem_singleton.mp hc

theorem demo_lawful : Lawful demoCallback := fun _ _ _ hc => demo_calls hc ▸ trivial

theorem demo_events {c : Call Bool} (hc : .call c ∈ demoEvents) : c = .start false := by
  simpa [demoEvents] using hc

theorem demo_run_deadlines :
    ∃ r, demoTimers.alarms.run demoCallback 2 0 demoEvents = some r ∧
      run demoCallback 2 0 demoTimers demoEvents = some (r.1.code, r.2) ∧ r.1.now = 2 ^ 32 + 5 ∧
        r.1.queue = [false] := by
  obtain ⟨hrun, hresult⟩ := run_deadlines (n := 2) demo_lawful demo_idle fun _ hc => demo_events hc ▸ trivial
  obtain ⟨r, hr⟩ := Option.isSome_iff_exists.mp
    (by decide : (demoTimers.alarms.run demoCallback 2 0 demoEvents).isSome = true)
  have hqueue : (demoTimers.alarms.run demoCallback 2 0 demoEvents).map (fun r => r.1.queue) = some [false] := by
    decide
  rw [hr] at hrun hqueue
  exact ⟨r, hr, hrun, (hresult r hr).1, Option.some.inj hqueue⟩

/-! ## The check returns -/

/-- A timer that waits although it is due. -/
def Overdue (a : Alarms T) (u : T) : Prop := u ∈ a.queue ∧ (a.alarm u).due ≤ a.now

/-- No period is 0. -/
def Positive (a : Alarms T) : Prop := ∀ t, 1 ≤ (a.alarm t).period

/-- A call that sets no period to 0. -/
def Call.Fruitful : Call T → Prop
  | .setTime _ time => 1 ≤ time
  | _ => True

theorem Overdue.of_start (hpos : Positive a) (h : Overdue (a.start t) u) : Overdue a u := by
  obtain ⟨hmem, hdue⟩ := h
  rw [Alarms.start] at hdue
  dsimp only at hdue
  rcases (mem_start_queue a t u).mp hmem with rfl | hmem
  · rw [Function.update_self] at hdue
    have hperiod := hpos u
    dsimp only at hdue
    omega
  · by_cases hut : u = t
    · subst hut
      rw [Function.update_self] at hdue
      have hperiod := hpos u
      dsimp only at hdue
      omega
    · rw [Function.update_of_ne hut] at hdue
      exact ⟨List.mem_of_mem_erase hmem, hdue⟩

omit [DecidableEq T] in
/-- Nothing but a start changes a deadline. -/
theorem Overdue.of_same {b : Alarms T} (h : Overdue b u) (hqueue : u ∈ b.queue → u ∈ a.queue)
    (hdue : (b.alarm u).due = (a.alarm u).due) (hnow : b.now = a.now) : Overdue a u :=
  ⟨hqueue h.1, hdue ▸ hnow ▸ h.2⟩

theorem update_due (f : T → Alarm) (t u : T) {x : Alarm} (hx : x.due = (f t).due) :
    (Function.update f t x u).due = (f u).due := by
  by_cases hut : u = t
  · rw [hut, Function.update_self, hx]
  · rw [Function.update_of_ne hut]

theorem Overdue.of_halt (h : Overdue (a.halt t) u) : Overdue a u :=
  h.of_same List.mem_of_mem_erase (update_due _ t u rfl) rfl

theorem Overdue.of_call (hpos : Positive a) {c : Call T} (h : Overdue (a.call c) u) : Overdue a u := by
  cases c with
  | start t => exact h.of_start hpos
  | stop t =>
    rw [Alarms.call] at h
    split_ifs at h
    · exact h.of_halt
    · exact h
  | detach t => exact h.of_halt
  | setTime t time => exact h.of_same id (update_due _ t u rfl) rfl
  | setOneshot t => exact h.of_same id (update_due _ t u rfl) rfl
  | setPeriodic t => exact h.of_same id (update_due _ t u rfl) rfl

theorem Positive.update (h : Positive a) {b : Alarms T} {x : Alarm} (hb : b.alarm = Function.update a.alarm t x)
    (hx : 1 ≤ x.period) : Positive b := by
  intro u
  rw [hb]
  by_cases hut : u = t
  · rw [hut, Function.update_self]
    exact hx
  · rw [Function.update_of_ne hut]
    exact h u

theorem Positive.call (h : Positive a) {c : Call T} (hc : c.Fruitful) : Positive (a.call c) := by
  cases c with
  | start t => exact h.update rfl (h t)
  | stop t =>
    rw [Alarms.call]
    split_ifs
    · exact h.update rfl (h t)
    · exact h
  | detach t => exact h.update rfl (h t)
  | setTime t time => exact h.update rfl hc
  | setOneshot t => exact h.update rfl (h t)
  | setPeriodic t => exact h.update rfl (h t)

theorem Positive.calls {calls : List (Call T)} (h : Positive a) (hcalls : ∀ c ∈ calls, c.Fruitful) :
    Positive (calls.foldl Alarms.call a) ∧ ∀ u, Overdue (calls.foldl Alarms.call a) u → Overdue a u := by
  induction calls generalizing a with
  | nil => exact ⟨h, fun u => id⟩
  | cons c calls ih =>
    obtain ⟨hpos, hover⟩ := ih (h.call (hcalls c List.mem_cons_self)) fun d hd => hcalls d (List.mem_cons_of_mem c hd)
    exact ⟨hpos, fun u hu => (hover u hu).of_call h⟩

theorem Positive.putBack (h : Positive a) (t : T) :
    Positive (a.putBack t) ∧ ∀ u, Overdue (a.putBack t) u → Overdue a u := by
  rw [Alarms.putBack]
  split_ifs
  · exact ⟨h, fun u => id⟩
  · exact ⟨h.update rfl (h t), fun u hu => Overdue.of_start (a := { a with called := a.called.erase t }) h hu⟩
  · exact ⟨h, fun u => id⟩

/-- A timer that has been called is not due again in the same check. -/
theorem Positive.fire (h : Positive a) (hnodup : a.queue.Nodup) (hcb : ∀ u s, ∀ c ∈ callback u s, c.Fruitful)
    (t : T) :
    Positive (a.fire callback t) ∧ ∀ u, Overdue (a.fire callback t) u → Overdue a u ∧ u ≠ t := by
  have hout : Positive (a.takeOut t) := h.update rfl (h t)
  obtain ⟨hcalls, hover⟩ := hout.calls (hcb t (a.takeOut t).code)
  obtain ⟨hback, hover'⟩ := hcalls.putBack t
  refine ⟨hback, fun u hu => ?_⟩
  have hu' : Overdue (a.takeOut t) u := hover u (hover' u hu)
  refine ⟨hu'.of_same List.mem_of_mem_erase (update_due _ t u rfl) rfl, ?_⟩
  rintro rfl
  exact hnodup.not_mem_erase hu'.1

/-- A check calls each timer that is due once, and returns. -/
theorem check_returns (hlaw : Lawful callback) (hcb : ∀ u s, ∀ c ∈ callback u s, c.Fruitful) (htimely : Timely 1 a)
    (h : Positive a) {l : List T} (hl : l.length ≤ n) (hover : ∀ u, Overdue a u → u ∈ l) :
    ∃ r, a.check callback n = some r ∧ Positive r.1 := by
  induction n generalizing a l with
  | zero =>
    have hidle : ∀ t ∈ a.queue.head?, ¬ (a.alarm t).due ≤ a.now := by
      intro t ht hdue
      have hmem := hover t ⟨List.mem_of_mem_head? ht, hdue⟩
      rw [List.length_eq_zero_iff.mp (Nat.le_zero.mp hl)] at hmem
      exact List.not_mem_nil hmem
    exact ⟨(a, []), check_idle callback 0 hidle, h⟩
  | succ n ih =>
    rcases a.idle_or_due with hidle | ⟨t, rest, hqueue, hdue⟩
    · exact ⟨(a, []), check_idle callback (n + 1) hidle, h⟩
    · obtain ⟨-, htimely', -⟩ := fire_code htimely (Nat.le_refl 1) hlaw t
      obtain ⟨hpos, hfired⟩ := h.fire htimely.nodup hcb t
      have hmem : t ∈ l := hover t ⟨hqueue ▸ List.mem_cons_self, hdue⟩
      have hlength := List.length_erase_of_mem hmem
      have hshort : (l.erase t).length ≤ n := by omega
      obtain ⟨r, hr, hrpos⟩ := ih htimely' hpos hshort fun u hu =>
        (List.mem_erase_of_ne (hfired u hu).2).mpr (hover u (hfired u hu).1)
      refine ⟨(r.1, t :: r.2), ?_, hrpos⟩
      rw [(check_succ callback n hqueue hdue).2, hr]
      rfl

/-- The calls of threads set no period to 0. -/
def FruitfulEvents (events : List (Event T)) : Prop := ∀ c, .call c ∈ events → c.Fruitful

theorem run_some [Fintype T] (hlaw : Lawful callback) (hcb : ∀ u s, ∀ c ∈ callback u s, c.Fruitful)
    (hevents : LawfulEvents events) (hfruitful : FruitfulEvents events) (htimely : Timely 0 a) (h : Positive a)
    (hn : Fintype.card T ≤ n) (k : ℕ) : (a.run callback n k events).isSome := by
  induction events generalizing a k with
  | nil => rfl
  | cons e events ih =>
    have hrest : LawfulEvents events := fun c hc => hevents c (List.mem_cons_of_mem e hc)
    have hrest' : FruitfulEvents events := fun c hc => hfruitful c (List.mem_cons_of_mem e hc)
    cases e with
    | call c =>
      exact ih hrest hrest' (call_code htimely (Nat.zero_le 1) (hevents c List.mem_cons_self)).2
        (h.call (hfruitful c List.mem_cons_self)) k
    | tick =>
      have hall : (Finset.univ : Finset T).toList.length ≤ n := (Finset.length_toList _).trans_le hn
      obtain ⟨r, hr, hpos⟩ := check_returns (a := { a with now := a.now + 1 }) hlaw hcb htimely.tick h hall
        fun u _ => Finset.mem_toList.mpr (Finset.mem_univ u)
      have htimely' := ((checked hlaw n htimely.tick (Nat.le_refl 1)).2 r hr).1
      rw [Alarms.run, hr]
      dsimp only
      rw [Option.isSome_map]
      exact ih hrest hrest' htimely' hpos (k + 1)

/-- Where no period is 0, every check of the timers in every run returns, and calls no more timers than there are. -/
theorem run_returns [Fintype T] (hlaw : Lawful callback) (hcb : ∀ u s, ∀ c ∈ callback u s, c.Fruitful) (h : Idle s)
    (hperiods : ∀ t, 1 ≤ (s.timer t).initTick) (hevents : LawfulEvents events) (hfruitful : FruitfulEvents events)
    (hn : Fintype.card T ≤ n) : (run callback n 0 s events).isSome := by
  have hrun := (run_code hlaw n h.timely hevents 0).1
  rw [h.code] at hrun
  rw [hrun, Option.isSome_map]
  exact run_some hlaw hcb hevents hfruitful h.timely hperiods hn 0

theorem demo_run_returns : (run demoCallback 2 0 demoTimers demoEvents).isSome :=
  run_returns demo_lawful (fun _ _ _ hc => demo_calls hc ▸ trivial) demo_idle (by decide)
    (fun _ hc => demo_events hc ▸ trivial) (fun _ hc => demo_events hc ▸ trivial) (by decide)

/-! ## The times of a timer -/

/-- The states that the kernel comes to. -/
def Reached (callback : Callback T) (n : ℕ) (s : Timers T) : Prop :=
  ∃ s₀ events log, Idle s₀ ∧ LawfulEvents events ∧ run callback n 0 s₀ events = some (s, log)

theorem run_called (callback : Callback T) (n : ℕ) (h : a.called = []) (k : ℕ) :
    ∀ r ∈ a.run callback n k events, r.1.called = [] := by
  induction events generalizing a k with
  | nil =>
    intro r hr
    cases hr
    exact h
  | cons e events ih =>
    cases e with
    | call c => exact ih (call_quiet h c) k
    | tick =>
      rw [Alarms.run]
      have hquiet := check_called (a := { a with now := a.now + 1 }) callback n h
      cases hc : ({ a with now := a.now + 1 } : Alarms T).check callback n with
      | none =>
        intro r hr
        cases hr
      | some r₁ =>
        intro r hr
        obtain ⟨r', hr', rfl⟩ := Option.map_eq_some_iff.mp hr
        exact ih (hquiet _ hc) (k + 1) r' hr'

theorem Reached.alarms (hlaw : Lawful callback) (h : Reached callback n s) :
    ∃ a : Alarms T, a.code = s ∧ Timely 0 a ∧ a.called = [] := by
  obtain ⟨s₀, events, log, hidle, hevents, hrun⟩ := h
  obtain ⟨hcode, hresult⟩ := run_code hlaw n hidle.timely hevents 0
  rw [hidle.code, hrun] at hcode
  obtain ⟨r, hr, heq⟩ := Option.map_eq_some_iff.mp hcode.symm
  exact ⟨r.1, congrArg Prod.fst heq, (hresult r hr).1, run_called callback n hidle.called 0 r hr⟩

/-- What a timer is when it has been started. -/
def Alarm.started (x : Alarm) (now : ℕ) : Alarm := { x with due := now + x.period, running := true }

theorem Stands.started (a : Alarms T) (t : T) : Stands (a.start t) t ((a.alarm t).started a.now) true := by
  refine ⟨?_, ?_⟩
  · rw [Alarms.start]
    dsimp only
    rw [Function.update_self, Alarm.started]
  · rw [mem_start_queue]
    exact iff_of_true (Or.inl rfl) rfl

theorem Alarm.times_started (x : Alarm) (now m : ℕ) :
    (x.started now).times now 0 m =
      (List.range (if x.repeats then m / x.period else min 1 (m / x.period))).map fun i => (i + 1) * x.period := by
  have hwait : (x.started now).due - now = x.period := Nat.add_sub_cancel_left ..
  have hperiod : (x.started now).period = x.period := rfl
  have hrun : (x.started now).running = true := rfl
  rw [Alarm.times, if_pos hrun, hwait, Alarm.calls, hperiod, Nat.add_sub_cancel]
  refine List.map_congr_left fun i _ => ?_
  rw [Nat.add_mul, Nat.one_mul]
  omega

/-- A timer that is started and that nobody touches is called after each of its periods, and a one-shot timer
once, whatever the other timers do and wherever the count of ticks wraps. -/
theorem called_on_time [Fintype T] (hlaw : Lawful callback) (hcb : ∀ u s, ∀ c ∈ callback u s, c.Fruitful)
    (h : Reached callback n s) (hperiods : ∀ u, 1 ≤ (s.timer u).initTick) (hevents : LawfulEvents events)
    (hfruitful : FruitfulEvents events) (huntouched : Untouched callback t events) (hn : Fintype.card T ≤ n) :
    ∃ r, run callback n 0 (rtTimerStart s t) events = some r ∧
      r.2.filter (fun y => y.2 = t) =
        (List.range (if (s.timer t).periodic then ticks events / (s.timer t).initTick
          else min 1 (ticks events / (s.timer t).initTick))).map fun i => ((i + 1) * (s.timer t).initTick, t) := by
  obtain ⟨a, rfl, htimely, hcalled⟩ := h.alarms hlaw
  have hperiod := hperiods t
  have hstart := htimely.start t
  have hquiet : (a.start t).called = [] := call_quiet hcalled (.start t)
  have hpositive : Positive (a.start t) := Positive.call hperiods (c := .start t) trivial
  have hahead : ((a.alarm t).started a.now).Ahead (a.start t).now :=
    ⟨hperiod, fun _ => ⟨Nat.lt_add_of_pos_right hperiod, le_rfl⟩⟩
  obtain ⟨r, hr⟩ := Option.isSome_iff_exists.mp
    (run_some hlaw hcb hevents hfruitful hstart hpositive hn 0)
  refine ⟨(r.1.code, r.2), ?_, ?_⟩
  · rw [← start_code htimely (Nat.zero_le 1) t, (run_code hlaw n hstart hevents 0).1, hr]
    rfl
  · have hlog := (Stands.started a t).run hlaw hevents huntouched hstart hquiet hahead 0 r hr
    have hnow : (a.start t).now = a.now := rfl
    rw [hnow, Alarm.times_started, List.map_map] at hlog
    exact hlog

theorem demo_called_on_time :
    ∃ r, run demoCallback 2 0 (rtTimerStart demoTimers true) demoEvents = some r ∧
      r.2.filter (fun y => y.2 = true) = [(3, true), (6, true)] := by
  have hreached : Reached demoCallback 2 demoTimers := ⟨demoTimers, [], [], demo_idle, by simp [LawfulEvents], rfl⟩
  have huntouched : Untouched demoCallback true demoEvents :=
    ⟨fun _ _ _ hc => demo_calls hc ▸ Bool.false_ne_true, fun _ hc => demo_events hc ▸ Bool.false_ne_true⟩
  obtain ⟨r, hr, hlog⟩ := called_on_time demo_lawful (fun _ _ _ hc => demo_calls hc ▸ trivial) hreached
    (by decide) (fun _ hc => demo_events hc ▸ trivial) (fun _ hc => demo_events hc ▸ trivial) huntouched
    (by decide)
  exact ⟨r, hr, hlog.trans (by decide)⟩

/-! ## A period of 0 -/

/-- A periodic timer with a period of 0. -/
structure Alarm.Restless (x : Alarm) (now : ℕ) : Prop where
  period : x.period = 0
  repeats : x.repeats = true
  running : x.running = true
  due : x.due ≤ now

theorem Alarm.Restless.next {x : Alarm} {now : ℕ} (h : x.Restless now) : (x.next now).Restless now := by
  rw [Alarm.next, if_pos h.repeats]
  exact ⟨h.period, h.repeats, rfl, (congrArg (now + ·) h.period).le⟩

theorem Stands.check_none (hlaw : Lawful callback) (hcb : ∀ u s, ∀ c ∈ callback u s, c.timer ≠ t) {x : Alarm}
    (hx : x.Restless a.now) (h : Stands a t x true) (htimely : Timely 1 a) (hcalled : a.called = []) :
    a.check callback n = none := by
  induction n generalizing a x with
  | zero =>
    obtain ⟨u, rest, hqueue, hdue⟩ := h.head_due htimely hx.due
    exact (check_succ callback 0 hqueue hdue).1
  | succ n ih =>
    obtain ⟨u, rest, hqueue, hdue⟩ := h.head_due htimely hx.due
    obtain ⟨-, htimely', hnow⟩ := fire_code htimely (Nat.le_refl 1) hlaw u
    have hquiet : (a.fire callback u).called = [] := fire_called hcalled
    have hnone : (a.fire callback u).check callback n = none := by
      by_cases hut : u = t
      · subst hut
        have hself := h.fire_self hx.running hlaw htimely hcalled hcb
        rw [hx.repeats] at hself
        exact ih (hnow ▸ hx.next) hself htimely' hquiet
      · exact ih (hnow ▸ hx) (h.fire_other hut hcb) htimely' hquiet
    rw [(check_succ callback n hqueue hdue).2, hnone]
    rfl

/-- Behind the start of a periodic timer with a period of 0 the check of the next tick never returns. -/
theorem zero_period_hangs (hlaw : Lawful callback) (h : Reached callback n s) (hperiod : (s.timer t).initTick = 0)
    (hrepeats : (s.timer t).periodic = true) (hcb : ∀ u s, ∀ c ∈ callback u s, c.timer ≠ t) (fuel : ℕ) :
    rtTickIncrease callback fuel (rtTimerStart s t) = none := by
  obtain ⟨a, rfl, htimely, hcalled⟩ := h.alarms hlaw
  have hstart := (htimely.start t).tick
  have hquiet : (a.start t).called = [] := call_quiet hcalled (.start t)
  have hrestless : ((a.alarm t).started a.now).Restless (a.now + 1) :=
    ⟨hperiod, hrepeats, rfl, Nat.add_le_add_left (hperiod.trans_le (Nat.zero_le 1)) a.now⟩
  have hcheck := (checked hlaw fuel hstart (Nat.le_refl 1)).1
  have hnone := Stands.check_none (a := { a.start t with now := (a.start t).now + 1 }) (n := fuel) hlaw hcb hrestless
    (Stands.started a t) hstart hquiet
  rw [tick_code, hnone] at hcheck
  rw [← start_code htimely (Nat.zero_le 1) t, rtTickIncrease, hcheck]
  rfl

theorem demo_zero_period_hangs :
    rtTickIncrease (fun _ _ => []) 100 (rtTimerStart ⟨0, [], [], fun _ => ⟨0, 0, true, false⟩⟩ ()) = none := by
  have hidle : Idle (⟨0, [], [], fun _ => ⟨0, 0, true, false⟩⟩ : Timers Unit) :=
    ⟨by decide, rfl, rfl, fun _ => rfl, by decide, by decide⟩
  exact zero_period_hangs (n := 0) (by simp [Lawful]) ⟨_, [], [], hidle, by simp [LawfulEvents], rfl⟩ rfl rfl
    (by simp) 100

end WiotaDev.KernelTimers
