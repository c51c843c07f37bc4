import WiotaDev.KernelTimers
import WiotaDev.KeyedLists
import Mathlib.Order.OrderDual

/-! # Timers with deadlines

The same timers with a clock that does not wrap: a timer is due when the clock has reached its deadline, and
timers wait in the order of their deadlines. What the kernel keeps in 32 bits agrees with that as long as
the periods are below half of the range. -/

namespace WiotaDev.KernelTimers
open KeyedLists

structure Alarm where
  due : ℕ
  period : ℕ
  repeats : Bool
  running : Bool

/-- The clock, the timers that wait, the timer whose function is called, and all timers. -/
structure Alarms (T : Type*) where
  now : ℕ
  queue : List T
  called : List T
  alarm : T → Alarm

variable {T : Type*} [DecidableEq T]

def Alarms.modify (a : Alarms T) (t : T) (f : Alarm → Alarm) : Alarms T :=
  { a with alarm := Function.update a.alarm t (f (a.alarm t)) }

/-- The timer waits no more. -/
def Alarms.halt (a : Alarms T) (t : T) : Alarms T :=
  { a with
    queue := a.queue.erase t
    called := a.called.erase t
    alarm := Function.update a.alarm t { a.alarm t with running := false } }

/-- Who waits for less comes first. -/
def urgency (alarm : T → Alarm) (t : T) : ℕᵒᵈ := OrderDual.toDual (alarm t).due

/-- The timer waits for its period, behind those that are due no later. -/
def Alarms.start (a : Alarms T) (t : T) : Alarms T :=
  let alarm := Function.update a.alarm t { a.alarm t with due := a.now + (a.alarm t).period, running := true }
  { a with
    queue := insertRanked (urgency alarm) t (a.queue.erase t)
    called := a.called.erase t
    alarm := alarm }

def Alarms.call (a : Alarms T) : Call T → Alarms T
  | .start t => a.start t
  | .stop t => if (a.alarm t).running then a.halt t else a
  | .detach t => a.halt t
  | .setTime t time => a.modify t fun x => { x with period := time }
  | .setOneshot t => a.modify t fun x => { x with repeats := false }
  | .setPeriodic t => a.modify t fun x => { x with repeats := true }

/-- What the kernel keeps of it. -/
def Alarms.code (a : Alarms T) : Timers T where
  rtTick := a.now % 2 ^ 32
  timerList := a.queue
  called := a.called
  timer t := ⟨(a.alarm t).due % 2 ^ 32, (a.alarm t).period, (a.alarm t).repeats, (a.alarm t).running⟩

/-- A timer that is due waits no more while its function is called. -/
def Alarms.takeOut (a : Alarms T) (t : T) : Alarms T :=
  { a with
    queue := a.queue.erase t
    called := t :: a.called.erase t
    alarm := Function.update a.alarm t { a.alarm t with running := (a.alarm t).repeats && (a.alarm t).running } }

/-- A timer that repeats waits again, unless it has been touched. -/
def Alarms.putBack (a : Alarms T) (t : T) : Alarms T :=
  if a.called = [] then a
  else if (a.alarm t).repeats ∧ (a.alarm t).running then { a with called := a.called.erase t }.start t
  else { a with called := a.called.erase t }

def Alarms.fire (callback : Callback T) (a : Alarms T) (t : T) : Alarms T :=
  ((callback t (a.takeOut t).code).foldl Alarms.call (a.takeOut t)).putBack t

/-- All timers that are due are called, in the order in which they wait. -/
def Alarms.check (callback : Callback T) : ℕ → Alarms T → Option (Alarms T × List T)
  | n, a =>
    match a.queue with
    | [] => some (a, [])
    | t :: _ =>
      if (a.alarm t).due ≤ a.now then
        match n with
        | 0 => none
        | n + 1 => (Alarms.check callback n (a.fire callback t)).map fun r => (r.1, t :: r.2)
      else some (a, [])

/-! ## Ticks -/

/-- Two times that are close enough to compare their ticks. -/
def Near (x y : ℕ) : Prop := x < y + RT_TICK_MAX / 2 ∧ y ≤ x + RT_TICK_MAX / 2

theorem tickSub_eq_zero_iff {x y : ℕ} (h : Near x y) : tickSub (x % 2 ^ 32) (y % 2 ^ 32) = 0 ↔ x = y := by
  obtain ⟨hx, hy⟩ := h
  simp only [RT_TICK_MAX, tickSub] at *
  omega

theorem tickSub_lt_iff {x y : ℕ} (h : Near x y) :
    tickSub (x % 2 ^ 32) (y % 2 ^ 32) < RT_TICK_MAX / 2 ↔ y ≤ x := by
  obtain ⟨hx, hy⟩ := h
  simp only [RT_TICK_MAX, tickSub] at *
  omega

omit [DecidableEq T] in
/-- The loop of `rt_timer_start` finds the place by deadlines. -/
theorem insertRow_eq (a : Alarms T) {t : T} {l : List T} (h : ∀ p ∈ l, Near (a.alarm p).due (a.alarm t).due) :
    insertRow a.code.timer t l = insertRanked (urgency a.alarm) t l := by
  induction l with
  | nil => rfl
  | cons p l ih =>
    have hp := h p List.mem_cons_self
    have hrest := ih fun q hq => h q (List.mem_cons_of_mem p hq)
    have hzero := tickSub_eq_zero_iff hp
    have hlt := tickSub_lt_iff hp
    have hrank : urgency a.alarm p < urgency a.alarm t ↔ (a.alarm t).due < (a.alarm p).due :=
      OrderDual.toDual_lt_toDual
    rw [insertRow, insertRanked, hrest]
    change (if tickSub ((a.alarm p).due % 2 ^ 32) ((a.alarm t).due % 2 ^ 32) = 0 then _
      else if tickSub ((a.alarm p).due % 2 ^ 32) ((a.alarm t).due % 2 ^ 32) < RT_TICK_MAX / 2 then _ else _) = _
    by_cases heq : (a.alarm p).due = (a.alarm t).due
    · rw [if_pos (hzero.mpr heq), if_neg (fun hr => absurd (hrank.mp hr) (by omega))]
    · rw [if_neg (fun hz => heq (hzero.mp hz))]
      by_cases hle : (a.alarm t).due ≤ (a.alarm p).due
      · rw [if_pos (hlt.mpr hle), if_pos (hrank.mpr (by omega))]
      · rw [if_neg (fun hl => hle (hlt.mp hl)), if_neg (fun hr => hle (hrank.mp hr).le)]

/-! ## The order of the queue -/

/-- The timers that wait are in the order of their deadlines, none further away than a period, and none
that is past by more than the slack. -/
structure Timely (slack : ℕ) (a : Alarms T) : Prop where
  nodup : a.queue.Nodup
  sorted : a.queue.Pairwise fun t u => (a.alarm t).due ≤ (a.alarm u).due
  periods : ∀ t, (a.alarm t).period < RT_TICK_MAX / 2
  early : ∀ t ∈ a.queue, (a.alarm t).due < a.now + RT_TICK_MAX / 2
  late : ∀ t ∈ a.queue, a.now ≤ (a.alarm t).due + slack

variable {slack : ℕ} {a : Alarms T} {t u : T}

omit [DecidableEq T] in
/-- Fewer timers wait. -/
theorem Timely.sublist (h : Timely slack a) {b : Alarms T} (hqueue : b.queue.Sublist a.queue) (hnow : b.now = a.now)
    (hdue : ∀ u ∈ b.queue, (b.alarm u).due = (a.alarm u).due) (hperiods : ∀ u, (b.alarm u).period < RT_TICK_MAX / 2) :
    Timely slack b where
  nodup := h.nodup.sublist hqueue
  sorted := by
    refine (h.sorted.sublist hqueue).imp_of_mem fun {t u} ht hu hle => ?_
    rw [hdue t ht, hdue u hu]
    exact hle
  periods := hperiods
  early u hu := by
    rw [hdue u hu, hnow]
    exact h.early u (hqueue.mem hu)
  late u hu := by
    rw [hdue u hu, hnow]
    exact h.late u (hqueue.mem hu)

theorem update_period (h : Timely slack a) {x : Alarm} (hx : x.period < RT_TICK_MAX / 2) (u : T) :
    (Function.update a.alarm t x u).period < RT_TICK_MAX / 2 := by
  by_cases hu : u = t
  · rw [hu, Function.update_self]
    exact hx
  · rw [Function.update_of_ne hu]
    exact h.periods u

theorem Timely.start (h : Timely slack a) (t : T) : Timely slack (a.start t) := by
  have hdue : ∀ u, u ≠ t → ((a.start t).alarm u).due = (a.alarm u).due := fun u hu => by
    rw [Alarms.start]
    dsimp only
    rw [Function.update_of_ne hu]
  have hself : ((a.start t).alarm t).due = a.now + (a.alarm t).period := by
    rw [Alarms.start]
    dsimp only
    rw [Function.update_self]
  have hperm : (t :: a.queue.erase t).Perm (a.start t).queue := insertRanked_perm
  have hnew : ∀ u ∈ a.queue.erase t, u ≠ t := fun u hu => ((h.nodup.mem_erase_iff).mp hu).1
  have hmem : ∀ u ∈ (a.start t).queue, u = t ∨ (u ≠ t ∧ u ∈ a.queue) := by
    intro u hu
    rcases List.mem_cons.mp (hperm.mem_iff.mpr hu) with rfl | hu
    · exact Or.inl rfl
    · exact Or.inr ⟨hnew u hu, List.mem_of_mem_erase hu⟩
  have hperiod := h.periods t
  refine ⟨?_, ?_, update_period h hperiod, fun u hu => ?_, fun u hu => ?_⟩
  · refine hperm.nodup_iff.mp (List.nodup_cons.mpr ⟨fun ht => hnew t ht rfl, h.nodup.erase t⟩)
  · have hranked : Ranked (urgency (a.start t).alarm) (a.queue.erase t) := by
      refine (h.sorted.sublist (List.erase_sublist)).imp_of_mem fun {p q} hp hq hle => ?_
      change ((a.start t).alarm p).due ≤ ((a.start t).alarm q).due
      rw [hdue p (hnew p hp), hdue q (hnew q hq)]
      exact hle
    exact hranked.insertRanked
  · rcases hmem u hu with rfl | ⟨hne, hu⟩
    · rw [hself]
      exact Nat.add_lt_add_left hperiod a.now
    · rw [hdue u hne]
      exact h.early u hu
  · rcases hmem u hu with rfl | ⟨hne, hu⟩
    · rw [hself]
      change a.now ≤ _
      omega
    · rw [hdue u hne]
      exact h.late u hu

theorem Timely.halt (h : Timely slack a) (t : T) : Timely slack (a.halt t) := by
  refine h.sublist List.erase_sublist rfl (fun u hu => ?_) (update_period h (h.periods t))
  have hne : u ≠ t := ((h.nodup.mem_erase_iff).mp hu).1
  rw [Alarms.halt]
  dsimp only
  rw [Function.update_of_ne hne]

theorem Timely.modify (h : Timely slack a) (t : T) {f : Alarm → Alarm} (hdue : (f (a.alarm t)).due = (a.alarm t).due)
    (hperiod : (f (a.alarm t)).period < RT_TICK_MAX / 2) : Timely slack (a.modify t f) := by
  refine h.sublist (List.Sublist.refl _) rfl (fun u _ => ?_) (update_period h hperiod)
  rw [Alarms.modify]
  dsimp only
  by_cases hu : u = t
  · rw [hu, Function.update_self]
    exact hdue
  · rw [Function.update_of_ne hu]

/-! ## One call -/

/-- The assertion of `rt_timer_control`. -/
def Call.Ok : Call T → Prop
  | .setTime _ time => time < RT_TICK_MAX / 2
  | _ => True

omit [DecidableEq T] in
theorem insertRow_congr {f g : T → Timer} (h : ∀ p, (f p).timeoutTick = (g p).timeoutTick) (t : T) (l : List T) :
    insertRow f t l = insertRow g t l := by
  induction l with
  | nil => rfl
  | cons p l ih => rw [insertRow, insertRow, h p, h t, ih]

theorem start_code (h : Timely slack a) (hslack : slack ≤ 1) (t : T) : (a.start t).code = rtTimerStart a.code t := by
  have hnear : ∀ p ∈ a.queue.erase t, Near ((a.start t).alarm p).due ((a.start t).alarm t).due := by
    intro p hp
    obtain ⟨hne, hp⟩ := (h.nodup.mem_erase_iff).mp hp
    have hperiod := h.periods t
    have hearly := h.early p hp
    have hlate := h.late p hp
    have hself : ((a.start t).alarm t).due = a.now + (a.alarm t).period := by
      rw [Alarms.start]
      dsimp only
      rw [Function.update_self]
    have hother : ((a.start t).alarm p).due = (a.alarm p).due := by
      rw [Alarms.start]
      dsimp only
      rw [Function.update_of_ne hne]
    rw [hself, hother, Near]
    simp only [RT_TICK_MAX] at hperiod hearly ⊢
    omega
  have hqueue : insertRow (a.start t).code.timer t (a.queue.erase t) = (a.start t).queue :=
    insertRow_eq (a.start t) hnear
  have htimer : ∀ u, (a.start t).code.timer u = (rtTimerStart a.code t).timer u := by
    intro u
    by_cases hu : u = t
    · subst hu
      simp [Alarms.code, Alarms.start, rtTimerStart, Timers.modify, Timers.deactivate, Timers.timerRemove]
    · simp [Alarms.code, Alarms.start, rtTimerStart, Timers.modify, Timers.deactivate, Timers.timerRemove, hu]
  have hlist : (rtTimerStart a.code t).timerList = insertRow (a.start t).code.timer t (a.queue.erase t) := by
    refine insertRow_congr (fun p => ?_) t _
    rw [htimer]
    by_cases hp : p = t
    · subst hp
      simp [rtTimerStart, Timers.modify]
    · simp [rtTimerStart, Timers.modify, hp]
  rw [hqueue] at hlist
  change Timers.mk (a.now % 2 ^ 32) (a.start t).queue (a.start t).called (a.start t).code.timer = _
  rw [← hlist, funext htimer]
  rfl

theorem halt_code (a : Alarms T) (t : T) : (a.halt t).code = (a.code.timerRemove t).deactivate t := by
  have htimer : ∀ u, (a.halt t).code.timer u = ((a.code.timerRemove t).deactivate t).timer u := by
    intro u
    by_cases hu : u = t
    · subst hu
      simp [Alarms.code, Alarms.halt, Timers.modify, Timers.deactivate, Timers.timerRemove]
    · simp [Alarms.code, Alarms.halt, Timers.modify, Timers.deactivate, Timers.timerRemove, hu]
  change Timers.mk (a.now % 2 ^ 32) (a.halt t).queue (a.halt t).called (a.halt t).code.timer = _
  rw [funext htimer]
  rfl

theorem modify_code (a : Alarms T) (t : T) {f : Alarm → Alarm} {g : Timer → Timer}
    (h : ⟨(f (a.alarm t)).due % 2 ^ 32, (f (a.alarm t)).period, (f (a.alarm t)).repeats, (f (a.alarm t)).running⟩ =
      g (a.code.timer t)) : (a.modify t f).code = a.code.modify t g := by
  have htimer : ∀ u, (a.modify t f).code.timer u = (a.code.modify t g).timer u := by
    intro u
    by_cases hu : u = t
    · subst hu
      simp only [Alarms.code, Alarms.modify, Timers.modify, Function.update_self]
      exact h
    · simp [Alarms.code, Alarms.modify, Timers.modify, hu]
  change Timers.mk (a.now % 2 ^ 32) (a.modify t f).queue (a.modify t f).called (a.modify t f).code.timer = _
  rw [funext htimer]
  rfl

/-- A call does with 32 bits what it does with deadlines. -/
theorem call_code (h : Timely slack a) (hslack : slack ≤ 1) {c : Call T} (hc : c.Ok) :
    (a.call c).code = a.code.call c ∧ Timely slack (a.call c) := by
  cases c with
  | start t => exact ⟨start_code h hslack t, h.start t⟩
  | stop t =>
    rw [Alarms.call, Timers.call, rtTimerStop]
    by_cases hrun : (a.alarm t).running = true
    · have hact : (a.code.timer t).activated = true := hrun
      rw [if_pos hrun, if_pos hact]
      exact ⟨halt_code a t, h.halt t⟩
    · have hact : ¬ (a.code.timer t).activated = true := hrun
      rw [if_neg hrun, if_neg hact]
      exact ⟨rfl, h⟩
  | detach t => exact ⟨halt_code a t, h.halt t⟩
  | setTime t time =>
    rw [Alarms.call, Timers.call]
    exact ⟨modify_code a t rfl, h.modify t rfl hc⟩
  | setOneshot t =>
    rw [Alarms.call, Timers.call]
    exact ⟨modify_code a t rfl, h.modify t rfl (h.periods t)⟩
  | setPeriodic t =>
    rw [Alarms.call, Timers.call]
    exact ⟨modify_code a t rfl, h.modify t rfl (h.periods t)⟩

theorem Alarms.call_now (a : Alarms T) (c : Call T) : (a.call c).now = a.now := by
  cases c with
  | stop t =>
    rw [Alarms.call]
    split_ifs
    · rfl
    · rfl
  | _ => rfl

theorem calls_code (h : Timely slack a) (hslack : slack ≤ 1) {calls : List (Call T)} (hc : ∀ c ∈ calls, c.Ok) :
    (calls.foldl Alarms.call a).code = calls.foldl Timers.call a.code ∧ Timely slack (calls.foldl Alarms.call a) ∧
      (calls.foldl Alarms.call a).now = a.now := by
  induction calls generalizing a with
  | nil => exact ⟨rfl, h, rfl⟩
  | cons c calls ih =>
    obtain ⟨hcode, hcall⟩ := call_code h hslack (hc c List.mem_cons_self)
    obtain ⟨hcodes, hcalls, hnow⟩ := ih hcall fun d hd => hc d (List.mem_cons_of_mem c hd)
    rw [List.foldl_cons, List.foldl_cons, ← hcode]
    exact ⟨hcodes, hcalls, hnow.trans (a.call_now c)⟩

/-! ## The check -/

/-- The functions of the timers keep the assertion. -/
def Lawful (callback : Callback T) : Prop := ∀ t s, ∀ c ∈ callback t s, c.Ok

variable {callback : Callback T}

theorem takeOut_code (a : Alarms T) (t : T) : (a.takeOut t).code = a.code.takeOut t := by
  have htimer : ∀ u, (a.takeOut t).code.timer u = (a.code.takeOut t).timer u := by
    intro u
    rw [Timers.takeOut]
    dsimp only
    split_ifs with hrep
    · by_cases hu : u = t
      · subst hu
        have hrep' : (a.alarm u).repeats = true := hrep
        simp [Alarms.code, Alarms.takeOut, Timers.timerRemove, hrep']
      · simp [Alarms.code, Alarms.takeOut, Timers.timerRemove, hu]
    · by_cases hu : u = t
      · subst hu
        have hrep' : (a.alarm u).repeats = false := Bool.eq_false_iff.mpr hrep
        simp [Alarms.code, Alarms.takeOut, Timers.timerRemove, Timers.deactivate, Timers.modify, hrep']
      · simp [Alarms.code, Alarms.takeOut, Timers.timerRemove, Timers.deactivate, Timers.modify, hu]
  have hrest : (a.code.takeOut t).rtTick = a.now % 2 ^ 32 ∧ (a.code.takeOut t).timerList = a.queue.erase t ∧
      (a.code.takeOut t).called = t :: a.called.erase t := by
    rw [Timers.takeOut]
    dsimp only
    split_ifs
    · exact ⟨rfl, rfl, rfl⟩
    · exact ⟨rfl, rfl, rfl⟩
  change Timers.mk (a.now % 2 ^ 32) (a.queue.erase t) (t :: a.called.erase t) (a.takeOut t).code.timer = _
  rw [funext htimer, ← hrest.1, ← hrest.2.1, ← hrest.2.2]

theorem Timely.takeOut (h : Timely slack a) (t : T) : Timely slack (a.takeOut t) := by
  refine h.sublist List.erase_sublist rfl (fun u hu => ?_) (update_period h (h.periods t))
  rw [Alarms.takeOut]
  dsimp only
  rw [Function.update_of_ne ((h.nodup.mem_erase_iff).mp hu).1]

/-- Starting does not depend on whether the timer is active. -/
theorem start_deactivate (s : Timers T) (t : T) : rtTimerStart (s.deactivate t) t = rtTimerStart s t := by
  have hstep : ((s.deactivate t).timerRemove t).deactivate t = (s.timerRemove t).deactivate t := by
    simp [Timers.deactivate, Timers.modify, Timers.timerRemove]
  rw [rtTimerStart, hstep]
  rfl

theorem putBack_code (h : Timely slack a) (hslack : slack ≤ 1) (t : T) :
    (a.putBack t).code = a.code.putBack t ∧ Timely slack (a.putBack t) ∧
    (a.putBack t).now = a.now := by
  rw [Alarms.putBack, Timers.putBack]
  have hcalled : Timely slack { a with called := a.called.erase t } := ⟨h.nodup, h.sorted, h.periods, h.early, h.late⟩
  by_cases hempty : a.called = []
  · have hempty' : a.code.called = [] := hempty
    rw [if_pos hempty, if_pos hempty']
    exact ⟨rfl, h, rfl⟩
  · have hempty' : ¬ a.code.called = [] := hempty
    rw [if_neg hempty, if_neg hempty']
    dsimp only
    by_cases hrun : (a.alarm t).repeats ∧ (a.alarm t).running
    · have hrun' : (a.code.timer t).periodic ∧ (a.code.timer t).activated := hrun
      rw [if_pos hrun, if_pos hrun', start_deactivate]
      exact ⟨start_code hcalled hslack t, hcalled.start t, rfl⟩
    · have hrun' : ¬ ((a.code.timer t).periodic ∧ (a.code.timer t).activated) := hrun
      rw [if_neg hrun, if_neg hrun']
      exact ⟨rfl, hcalled, rfl⟩

theorem fire_code (h : Timely slack a) (hslack : slack ≤ 1) (hlaw : Lawful callback) (t : T) :
    (a.fire callback t).code = a.code.fire callback t ∧ Timely slack (a.fire callback t) ∧
      (a.fire callback t).now = a.now := by
  obtain ⟨hcode, hcalls, hnow⟩ := calls_code (h.takeOut t) hslack (hlaw t (a.takeOut t).code)
  obtain ⟨hback, htimely, hnow'⟩ := putBack_code hcalls hslack t
  refine ⟨?_, htimely, hnow'.trans hnow⟩
  rw [Alarms.fire, hback, hcode, takeOut_code]
  rfl

omit [DecidableEq T] in
theorem Timely.near (h : Timely slack a) (hslack : slack ≤ 1) {t : T} (ht : t ∈ a.queue) :
    Near a.now (a.alarm t).due := by
  have hearly := h.early t ht
  have hlate := h.late t ht
  simp only [Near, RT_TICK_MAX] at *
  omega

omit [DecidableEq T] in
/-- Where the first timer is not due, no timer is. -/
theorem Timely.none_due (h : Timely slack a) {rest : List T} (hqueue : a.queue = t :: rest)
    (hdue : ¬ (a.alarm t).due ≤ a.now) : ∀ u ∈ a.queue, a.now < (a.alarm u).due := by
  intro u hu
  have hsorted := h.sorted
  rw [hqueue] at hu hsorted
  rcases List.mem_cons.mp hu with rfl | hu
  · exact Nat.lt_of_not_le hdue
  · have hle := (List.pairwise_cons.mp hsorted).1 u hu
    omega

omit [DecidableEq T] in
/-- Either the check ends, or the first timer is due. -/
theorem Alarms.idle_or_due (a : Alarms T) :
    (∀ t ∈ a.queue.head?, ¬ (a.alarm t).due ≤ a.now) ∨ ∃ t rest, a.queue = t :: rest ∧ (a.alarm t).due ≤ a.now := by
  by_cases hidle : ∀ t ∈ a.queue.head?, ¬ (a.alarm t).due ≤ a.now
  · exact Or.inl hidle
  · push Not at hidle
    obtain ⟨t, ht, hdue⟩ := hidle
    obtain ⟨rest, hqueue⟩ := List.head?_eq_some_iff.mp ht
    exact Or.inr ⟨t, rest, hqueue, hdue⟩

/-- The check ends where no timer waits, or the first one is not due. -/
theorem rtTimerCheck_idle (callback : Callback T) (n : ℕ) {s : Timers T}
    (h : ∀ t ∈ s.timerList.head?, ¬ tickSub s.rtTick (s.timer t).timeoutTick < RT_TICK_MAX / 2) :
    rtTimerCheck callback n s = some (s, []) := by
  cases hlist : s.timerList with
  | nil => cases n <;> rw [rtTimerCheck, hlist]
  | cons t rest =>
    have hdue := h t (by rw [hlist]; rfl)
    cases n <;> rw [rtTimerCheck, hlist] <;> exact if_neg hdue

theorem check_idle (callback : Callback T) (n : ℕ) (h : ∀ t ∈ a.queue.head?, ¬ (a.alarm t).due ≤ a.now) :
    a.check callback n = some (a, []) := by
  cases hqueue : a.queue with
  | nil => cases n <;> rw [Alarms.check, hqueue]
  | cons t rest =>
    have hdue := h t (by rw [hqueue]; rfl)
    cases n <;> rw [Alarms.check, hqueue] <;> exact if_neg hdue

/-- The check goes on where the first timer is due. -/
theorem rtTimerCheck_succ (callback : Callback T) (n : ℕ) {s : Timers T} {rest : List T}
    (hlist : s.timerList = t :: rest) (hdue : tickSub s.rtTick (s.timer t).timeoutTick < RT_TICK_MAX / 2) :
    rtTimerCheck callback 0 s = none ∧ rtTimerCheck callback (n + 1) s =
      (rtTimerCheck callback n (s.fire callback t)).map fun r => (r.1, t :: r.2) := by
  constructor
  · rw [rtTimerCheck, hlist]
    exact if_pos hdue
  · rw [rtTimerCheck, hlist]
    exact if_pos hdue

theorem check_succ (callback : Callback T) (n : ℕ) {rest : List T} (hqueue : a.queue = t :: rest)
    (hdue : (a.alarm t).due ≤ a.now) : a.check callback 0 = none ∧
      a.check callback (n + 1) = ((a.fire callback t).check callback n).map fun r => (r.1, t :: r.2) := by
  constructor
  · rw [Alarms.check, hqueue]
    exact if_pos hdue
  · rw [Alarms.check, hqueue]
    exact if_pos hdue

/-- A check of the kernel that does what the check of the deadlines does, which leaves no timer that is due. -/
def Checked (callback : Callback T) (n : ℕ) (a : Alarms T) : Prop :=
  rtTimerCheck callback n a.code = (a.check callback n).map (fun r => (r.1.code, r.2)) ∧
    ∀ r ∈ a.check callback n, Timely 0 r.1 ∧ r.1.now = a.now ∧ ∀ t ∈ r.1.queue, a.now < (r.1.alarm t).due

theorem checked_idle (h : Timely slack a) (hslack : slack ≤ 1) (n : ℕ)
    (hidle : ∀ t ∈ a.queue.head?, ¬ (a.alarm t).due ≤ a.now) :
    Checked callback n a := by
  have hcode : ∀ t ∈ a.code.timerList.head?, ¬ tickSub a.code.rtTick (a.code.timer t).timeoutTick < RT_TICK_MAX / 2 :=
    fun t ht hlt => hidle t ht ((tickSub_lt_iff (h.near hslack (List.mem_of_mem_head? ht))).mp hlt)
  rw [Checked, rtTimerCheck_idle callback n hcode, check_idle callback n hidle]
  refine ⟨rfl, fun r hr => ?_⟩
  cases hr
  have hnone : ∀ t ∈ a.queue, a.now < (a.alarm t).due := fun t ht => by
    obtain ⟨u, rest, hqueue⟩ := List.exists_cons_of_ne_nil (List.ne_nil_of_mem ht)
    exact h.none_due hqueue (hidle u (by rw [hqueue]; rfl)) t ht
  exact ⟨⟨h.nodup, h.sorted, h.periods, h.early, fun t ht => (hnone t ht).le⟩, rfl, hnone⟩

/-- Whatever the fuel, the two checks agree. -/
theorem checked (hlaw : Lawful callback) (n : ℕ) (h : Timely slack a) (hslack : slack ≤ 1) : Checked callback n a := by
  induction n generalizing a with
  | zero =>
    rcases a.idle_or_due with hidle | ⟨t, rest, hqueue, hdue⟩
    · exact checked_idle h hslack 0 hidle
    · have ht : t ∈ a.queue := hqueue ▸ List.mem_cons_self
      have hlt := (tickSub_lt_iff (h.near hslack ht)).mpr hdue
      rw [Checked, (rtTimerCheck_succ callback 0 hqueue hlt).1, (check_succ callback 0 hqueue hdue).1]
      exact ⟨rfl, nofun⟩
  | succ n ih =>
    rcases a.idle_or_due with hidle | ⟨t, rest, hqueue, hdue⟩
    · exact checked_idle h hslack (n + 1) hidle
    · have ht : t ∈ a.queue := hqueue ▸ List.mem_cons_self
      have hlt := (tickSub_lt_iff (h.near hslack ht)).mpr hdue
      obtain ⟨hfire, htimely, hnow⟩ := fire_code h hslack hlaw t
      obtain ⟨hagree, hresult⟩ := ih htimely
      rw [Checked, (rtTimerCheck_succ callback n hqueue hlt).2, (check_succ callback n hqueue hdue).2, ← hfire,
        hagree, Option.map_map, Option.map_map]
      refine ⟨rfl, fun r hr => ?_⟩
      obtain ⟨r', hr', rfl⟩ := Option.map_eq_some_iff.mp hr
      obtain ⟨htimely', hnow', hdue'⟩ := hresult r' hr'
      exact ⟨htimely', hnow'.trans hnow, fun u hu => hnow ▸ hdue' u hu⟩

end WiotaDev.KernelTimers
