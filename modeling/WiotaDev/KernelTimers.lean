import Mathlib.Logic.Function.Basic
import Mathlib.Algebra.Group.Nat.Hom

/-! # The timers of the kernel

`rt_timer_start`, `rt_timer_stop` and `rt_timer_check` for the hard timers, which the tick interrupt serves:
those with `RT_TIMER_FLAG_SOFT_TIMER` wait in a list of their own, which `_timer_thread_entry` serves.
`RT_TIMER_SKIP_LIST_LEVEL` is 1, so that the hard timers are one list. Ticks are counted in 32 bits. -/

namespace WiotaDev.KernelTimers

def RT_TICK_MAX : ℕ := 2 ^ 32 - 1

/-- `struct rt_timer` of a hard timer, with its other flags. -/
structure Timer where
  timeoutTick : ℕ
  initTick : ℕ
  periodic : Bool
  activated : Bool

/-- The tick, `_timer_list`, and the timer that `rt_timer_check` has in its own list. -/
structure Timers (T : Type*) where
  rtTick : ℕ
  timerList : List T
  called : List T
  timer : T → Timer

/-- The difference of two ticks. -/
def tickSub (a b : ℕ) : ℕ := (a + 2 ^ 32 - b) % 2 ^ 32

variable {T : Type*} [DecidableEq T]

def Timers.modify (s : Timers T) (t : T) (f : Timer → Timer) : Timers T :=
  { s with timer := Function.update s.timer t (f (s.timer t)) }

/-- `_timer_remove`: the row of the timer is in one list at most. -/
def Timers.timerRemove (s : Timers T) (t : T) : Timers T :=
  { s with timerList := s.timerList.erase t, called := s.called.erase t }

def Timers.deactivate (s : Timers T) (t : T) : Timers T := s.modify t fun x => { x with activated := false }

/-- The loop of `rt_timer_start`, and the insertion behind the row where it ends. -/
def insertRow (timer : T → Timer) (t : T) : List T → List T
  | [] => [t]
  | p :: rest =>
    if tickSub (timer p).timeoutTick (timer t).timeoutTick = 0 then p :: insertRow timer t rest
    else if tickSub (timer p).timeoutTick (timer t).timeoutTick < RT_TICK_MAX / 2 then t :: p :: rest
    else p :: insertRow timer t rest

/-- `rt_timer_start`, where `RT_TIMER_FLAG_SOFT_TIMER` is not set. -/
def rtTimerStart (s : Timers T) (t : T) : Timers T :=
  let s := (s.timerRemove t).deactivate t
  let s := s.modify t fun x => { x with timeoutTick := (s.rtTick + x.initTick) % 2 ^ 32 }
  let s := { s with timerList := insertRow s.timer t s.timerList }
  s.modify t fun x => { x with activated := true }

/-- `rt_timer_stop` -/
def rtTimerStop (s : Timers T) (t : T) : Timers T :=
  if (s.timer t).activated then (s.timerRemove t).deactivate t else s

/-- `rt_timer_detach` -/
def rtTimerDetach (s : Timers T) (t : T) : Timers T := (s.timerRemove t).deactivate t

/-- The calls that change a timer; the last three are commands of `rt_timer_control`. -/
inductive Call (T : Type*)
  | start (t : T)
  | stop (t : T)
  | detach (t : T)
  | setTime (t : T) (time : ℕ)
  | setOneshot (t : T)
  | setPeriodic (t : T)

def Call.timer : Call T → T
  | .start t | .stop t | .detach t | .setTime t _ | .setOneshot t | .setPeriodic t => t

def Timers.call (s : Timers T) : Call T → Timers T
  | .start t => rtTimerStart s t
  | .stop t => rtTimerStop s t
  | .detach t => rtTimerDetach s t
  | .setTime t time => s.modify t fun x => { x with initTick := time }
  | .setOneshot t => s.modify t fun x => { x with periodic := false }
  | .setPeriodic t => s.modify t fun x => { x with periodic := true }

/-- What the functions of the timers do with timers when they are called. -/
abbrev Callback (T : Type*) := T → Timers T → List (Call T)

/-- `rt_timer_check` takes the timer out of its list, and puts it into one of its own. -/
def Timers.takeOut (s : Timers T) (t : T) : Timers T :=
  let s := s.timerRemove t
  let s := if (s.timer t).periodic then s else s.deactivate t
  { s with called := t :: s.called }

/-- A periodic timer is started again, unless it has been removed from the list of `rt_timer_check`. -/
def Timers.putBack (s : Timers T) (t : T) : Timers T :=
  if s.called = [] then s
  else
    let s := { s with called := s.called.erase t }
    if (s.timer t).periodic ∧ (s.timer t).activated then rtTimerStart (s.deactivate t) t else s

/-- The body of the loop of `rt_timer_check`, for a timer that is due. -/
def Timers.fire (callback : Callback T) (s : Timers T) (t : T) : Timers T :=
  let s := s.takeOut t
  let s := (callback t s).foldl Timers.call s
  s.putBack t

/-- `rt_timer_check`, with the timers that are called; none where the fuel ends before the loop. -/
def rtTimerCheck (callback : Callback T) : ℕ → Timers T → Option (Timers T × List T)
  | n, s =>
    match s.timerList with
    | [] => some (s, [])
    | t :: _ =>
      if tickSub s.rtTick (s.timer t).timeoutTick < RT_TICK_MAX / 2 then
        match n with
        | 0 => none
        | n + 1 => (rtTimerCheck callback n (s.fire callback t)).map fun r => (r.1, t :: r.2)
      else some (s, [])

/-- The tick and the check of the timers in `rt_tick_increase`. -/
def rtTickIncrease (callback : Callback T) (n : ℕ) (s : Timers T) : Option (Timers T × List T) :=
  rtTimerCheck callback n { s with rtTick := (s.rtTick + 1) % 2 ^ 32 }

/-- Threads call functions of timers, and ticks come in between. -/
inductive Event (T : Type*)
  | call (c : Call T)
  | tick

/-- A run, and the timers that have been called in it, each with the number of ticks in the run before. -/
def run (callback : Callback T) (n : ℕ) : ℕ → Timers T → List (Event T) → Option (Timers T × List (ℕ × T))
  | _, s, [] => some (s, [])
  | k, s, .call c :: events => run callback n k (s.call c) events
  | k, s, .tick :: events =>
    match rtTickIncrease callback n s with
    | none => none
    | some (s, called) =>
      (run callback n (k + 1) s events).map fun r => (r.1, called.map (k + 1, ·) ++ r.2)

end WiotaDev.KernelTimers
