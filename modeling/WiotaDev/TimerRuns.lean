import WiotaDev.TimerDeadlines

/-! # Runs of the timers

What the kernel does with ticks of 32 bits is what timers with deadlines do, over any number of ticks; a
timer is called exactly when its time is over. -/

namespace WiotaDev.KernelTimers
open KeyedLists

variable {T : Type*} [DecidableEq T] {callback : Callback T} {a b : Alarms T} {t u : T} {events : List (Event T)}

def Alarms.run (callback : Callback T) (n : ℕ) : ℕ → Alarms T → List (Event T) → Option (Alarms T × List (ℕ × T))
  | _, a, [] => some (a, [])
  | k, a, .call c :: events => Alarms.run callback n k (a.call c) events
  | k, a, .tick :: events =>
    match ({ a with now := a.now + 1 } : Alarms T).check callback n with
    | none => none
    | some (a, called) => (Alarms.run callback n (k + 1) a events).map fun r => (r.1, called.map (k + 1, ·) ++ r.2)

/-- The calls of threads keep the assertion. -/
def LawfulEvents (events : List (Event T)) : Prop := ∀ c, .call c ∈ events → c.Ok

def ticks : List (Event T) → ℕ
  | [] => 0
  | .call _ :: events => ticks events
  | .tick :: events => ticks events + 1

omit [DecidableEq T] in
theorem Timely.tick (h : Timely 0 a) : Timely 1 { a with now := a.now + 1 } where
  nodup := h.nodup
  sorted := h.sorted
  periods := h.periods
  early u hu := by
    have hlt := h.early u hu
    dsimp only
    omega
  late u hu := Nat.succ_le_succ (h.late u hu)

omit [DecidableEq T] in
theorem tick_code (a : Alarms T) : ({ a with now := a.now + 1 } : Alarms T).code =
    { a.code with rtTick := (a.code.rtTick + 1) % 2 ^ 32 } := by
  have htick : (a.now + 1) % 2 ^ 32 = (a.now % 2 ^ 32 + 1) % 2 ^ 32 := by omega
  rw [Alarms.code, htick]
  rfl

/-- A run of the kernel is a run with deadlines. -/
theorem run_code (hlaw : Lawful callback) (n : ℕ) (h : Timely 0 a) (hevents : LawfulEvents events) (k : ℕ) :
    run callback n k a.code events = (a.run callback n k events).map (fun r => (r.1.code, r.2)) ∧
      ∀ r ∈ a.run callback n k events, Timely 0 r.1 ∧ r.1.now = a.now + ticks events := by
  induction events generalizing a k with
  | nil =>
    refine ⟨rfl, fun r hr => ?_⟩
    cases hr
    exact ⟨h, rfl⟩
  | cons e events ih =>
    have hrest : LawfulEvents events := fun c hc => hevents c (List.mem_cons_of_mem e hc)
    cases e with
    | call c =>
      obtain ⟨hcode, hcall⟩ := call_code h (Nat.zero_le 1) (hevents c List.mem_cons_self)
      obtain ⟨hrun, hresult⟩ := ih hcall hrest k
      rw [run, Alarms.run, ← hcode, hrun]
      refine ⟨rfl, fun r hr => ?_⟩
      obtain ⟨htimely, hnow⟩ := hresult r hr
      exact ⟨htimely, hnow.trans (congrArg (· + ticks events) (a.call_now c))⟩
    | tick =>
      obtain ⟨hcheck, hdone⟩ := checked hlaw n h.tick (Nat.le_refl 1)
      rw [tick_code] at hcheck
      rw [run, rtTickIncrease, hcheck, Alarms.run]
      cases hc : ({ a with now := a.now + 1 } : Alarms T).check callback n with
      | none => exact ⟨rfl, nofun⟩
      | some r₁ =>
        obtain ⟨a₁, called⟩ := r₁
        obtain ⟨htimely₁, hnow₁, -⟩ := hdone _ hc
        obtain ⟨hrun, hresult⟩ := ih htimely₁ hrest (k + 1)
        dsimp only [Option.map_some]
        rw [hrun, Option.map_map, Option.map_map]
        refine ⟨rfl, fun r hr => ?_⟩
        obtain ⟨r', hr', rfl⟩ := Option.map_eq_some_iff.mp hr
        obtain ⟨htimely, hnow⟩ := hresult r' hr'
        refine ⟨htimely, ?_⟩
        dsimp only at hnow hnow₁ ⊢
        rw [hnow, hnow₁, ticks]
        omega

/-! ## One timer that nobody touches -/

/-- Nothing but the check calls functions for the timer. -/
def Untouched (callback : Callback T) (t : T) (events : List (Event T)) : Prop :=
  (∀ u s, ∀ c ∈ callback u s, c.timer ≠ t) ∧ ∀ c, .call c ∈ events → c.timer ≠ t

/-- What the timer is, and whether it waits. -/
def Stands (a : Alarms T) (t : T) (x : Alarm) (waits : Bool) : Prop := a.alarm t = x ∧ (t ∈ a.queue ↔ waits = true)

theorem mem_start_queue (a : Alarms T) (t u : T) : u ∈ (a.start t).queue ↔ u = t ∨ u ∈ a.queue.erase t := by
  have hperm : (t :: a.queue.erase t).Perm (a.start t).queue := insertRanked_perm
  rw [← hperm.mem_iff, List.mem_cons]

variable {n : ℕ} {x : Alarm} {waits : Bool}

theorem Stands.start (h : Stands a t x waits) (hu : u ≠ t) : Stands (a.start u) t x waits := by
  obtain ⟨halarm, hqueue⟩ := h
  refine ⟨?_, ?_⟩
  · rw [Alarms.start]
    dsimp only
    rw [Function.update_of_ne hu.symm, halarm]
  · rw [mem_start_queue, List.mem_erase_of_ne hu.symm, ← hqueue]
    exact or_iff_right hu.symm

theorem Stands.halt (h : Stands a t x waits) (hu : u ≠ t) : Stands (a.halt u) t x waits := by
  refine ⟨?_, (List.mem_erase_of_ne hu.symm).trans h.2⟩
  rw [Alarms.halt]
  dsimp only
  rw [Function.update_of_ne hu.symm, h.1]

theorem Stands.modify (h : Stands a t x waits) (hu : u ≠ t) (f : Alarm → Alarm) :
    Stands (a.modify u f) t x waits := by
  refine ⟨?_, h.2⟩
  rw [Alarms.modify]
  dsimp only
  rw [Function.update_of_ne hu.symm, h.1]

theorem Stands.call (h : Stands a t x waits) {c : Call T} (hc : c.timer ≠ t) : Stands (a.call c) t x waits := by
  cases c with
  | start u => exact h.start hc
  | stop u =>
    rw [Alarms.call]
    split_ifs
    · exact h.halt hc
    · exact h
  | detach u => exact h.halt hc
  | setTime u time =>
    rw [Alarms.call]
    exact h.modify hc _
  | setOneshot u =>
    rw [Alarms.call]
    exact h.modify hc _
  | setPeriodic u =>
    rw [Alarms.call]
    exact h.modify hc _

theorem call_called (a : Alarms T) (c : Call T) :
    (a.call c).called = a.called ∨ (a.call c).called = a.called.erase c.timer := by
  cases c with
  | start u => exact Or.inr rfl
  | stop u =>
    rw [Alarms.call]
    split_ifs
    · exact Or.inr rfl
    · exact Or.inl rfl
  | detach u => exact Or.inr rfl
  | setTime u time => exact Or.inl rfl
  | setOneshot u => exact Or.inl rfl
  | setPeriodic u => exact Or.inl rfl

theorem call_quiet (h : a.called = []) (c : Call T) : (a.call c).called = [] := by
  rcases call_called a c with hsame | herase
  · exact hsame.trans h
  · rw [herase, h, List.erase_nil]

/-- The timer that is called stays so, or has been started or stopped by its function. -/
theorem calls_called (calls : List (Call T)) (h : a.called = [u] ∨ a.called = []) :
    (calls.foldl Alarms.call a).called = [u] ∨ (calls.foldl Alarms.call a).called = [] := by
  induction calls generalizing a with
  | nil => exact h
  | cons c calls ih =>
    refine ih ?_
    rcases call_called a c with hsame | herase
    · rw [hsame]
      exact h
    · rw [herase]
      rcases h with h | h
      · rw [h, List.erase_cons]
        split_ifs
        · exact Or.inr rfl
        · exact Or.inl rfl
      · rw [h]
        exact Or.inr rfl

theorem Stands.calls {calls : List (Call T)} (h : Stands a t x waits) (hcalls : ∀ c ∈ calls, c.timer ≠ t) :
    Stands (calls.foldl Alarms.call a) t x waits ∧ (a.called = [t] → (calls.foldl Alarms.call a).called = [t]) := by
  induction calls generalizing a with
  | nil => exact ⟨h, id⟩
  | cons c calls ih =>
    have hc := hcalls c List.mem_cons_self
    obtain ⟨hstands, hcalled⟩ := ih (h.call hc) fun d hd => hcalls d (List.mem_cons_of_mem c hd)
    refine ⟨hstands, fun ht => hcalled ?_⟩
    rcases call_called a c with hsame | herase
    · exact hsame.trans ht
    · rw [herase, ht, List.erase_cons_tail (by simpa using hc.symm), List.erase_nil]

theorem fire_called (h : a.called = []) : (a.fire callback u).called = [] := by
  have hout : (a.takeOut u).called = [u] ∨ (a.takeOut u).called = [] := by
    rw [Alarms.takeOut]
    dsimp only
    rw [h, List.erase_nil]
    exact Or.inl rfl
  rw [Alarms.fire, Alarms.putBack]
  rcases calls_called (callback u (a.takeOut u).code) hout with hcalled | hcalled
  · rw [if_neg (by rw [hcalled]; exact List.cons_ne_nil u [])]
    split_ifs
    · rw [Alarms.start]
      dsimp only
      rw [hcalled]
      simp
    · dsimp only
      rw [hcalled]
      simp
  · rw [if_pos hcalled]
    exact hcalled

theorem Stands.fire_other (h : Stands a t x waits) (hu : u ≠ t) (hcb : ∀ u s, ∀ c ∈ callback u s, c.timer ≠ t) :
    Stands (a.fire callback u) t x waits := by
  have hout : Stands (a.takeOut u) t x waits := by
    refine ⟨?_, (List.mem_erase_of_ne hu.symm).trans h.2⟩
    rw [Alarms.takeOut]
    dsimp only
    rw [Function.update_of_ne hu.symm, h.1]
  obtain ⟨hcalls, -⟩ := hout.calls (hcb u (a.takeOut u).code)
  rw [Alarms.fire, Alarms.putBack]
  split_ifs
  · exact hcalls
  · exact Stands.start hcalls hu
  · exact hcalls

/-- What becomes of a timer when it is called. -/
def Alarm.next (x : Alarm) (now : ℕ) : Alarm :=
  if x.repeats then { x with due := now + x.period, running := true } else { x with running := false }

theorem Stands.fire_self (h : Stands a t x true) (hrun : x.running = true) (hlaw : Lawful callback)
    (htimely : Timely 1 a) (hcalled : a.called = [])
    (hcb : ∀ u s, ∀ c ∈ callback u s, c.timer ≠ t) :
    Stands (a.fire callback t) t (x.next a.now) x.repeats := by
  have hout : Stands (a.takeOut t) t { x with running := x.repeats } false := by
    refine ⟨?_, ?_⟩
    · rw [Alarms.takeOut]
      dsimp only
      rw [Function.update_self, h.1, hrun, Bool.and_true]
    · exact iff_of_false htimely.nodup.not_mem_erase Bool.false_ne_true
  have hlist : (a.takeOut t).called = [t] := by
    rw [Alarms.takeOut]
    dsimp only
    rw [hcalled, List.erase_nil]
  obtain ⟨hcalls, hkept⟩ := hout.calls (hcb t (a.takeOut t).code)
  have hnow : ((callback t (a.takeOut t).code).foldl Alarms.call (a.takeOut t)).now = a.now :=
    (calls_code (htimely.takeOut t) (Nat.le_refl 1) (hlaw t (a.takeOut t).code)).2.2
  set a₁ := (callback t (a.takeOut t).code).foldl Alarms.call (a.takeOut t) with ha₁
  have hne : ¬ a₁.called = [] := by
    rw [hkept hlist]
    exact List.cons_ne_nil t []
  rw [Alarms.fire, Alarms.putBack, ← ha₁, if_neg hne, hcalls.1]
  cases hrep : x.repeats with
  | true =>
    rw [if_pos ⟨rfl, rfl⟩]
    refine ⟨?_, ?_⟩
    · rw [Alarms.start]
      dsimp only
      rw [Function.update_self, hcalls.1, hnow, Alarm.next, if_pos hrep]
    · rw [mem_start_queue]
      exact iff_of_true (Or.inl rfl) rfl
  | false =>
    rw [if_neg fun hr => Bool.false_ne_true hr.2]
    refine ⟨?_, ?_⟩
    · change a₁.alarm t = _
      rw [hcalls.1, Alarm.next, hrep]
      rfl
    · exact hcalls.2

def Alarm.checked (x : Alarm) (now : ℕ) : Alarm := if x.running ∧ x.due ≤ now then x.next now else x

theorem Alarm.next_running (x : Alarm) (now : ℕ) : (x.next now).running = x.repeats := by
  rw [Alarm.next]
  cases hrep : x.repeats with
  | true => rfl
  | false => rfl

theorem Alarm.next_not_due (x : Alarm) (now : ℕ) (hperiod : 1 ≤ x.period) :
    ¬ ((x.next now).running = true ∧ (x.next now).due ≤ now) := by
  rintro ⟨hrun, hdue⟩
  rw [x.next_running] at hrun
  rw [Alarm.next, if_pos hrun] at hdue
  dsimp only at hdue
  omega

theorem check_called (callback : Callback T) (n : ℕ) (h : a.called = []) :
    ∀ r ∈ a.check callback n, r.1.called = [] := by
  induction n generalizing a with
  | zero =>
    rcases a.idle_or_due with hidle | ⟨t, rest, hqueue, hdue⟩
    · rw [check_idle callback 0 hidle]
      intro r hr
      cases hr
      exact h
    · rw [(check_succ callback 0 hqueue hdue).1]
      intro r hr
      cases hr
  | succ n ih =>
    rcases a.idle_or_due with hidle | ⟨t, rest, hqueue, hdue⟩
    · rw [check_idle callback (n + 1) hidle]
      intro r hr
      cases hr
      exact h
    · rw [(check_succ callback n hqueue hdue).2]
      intro r hr
      obtain ⟨r', hr', rfl⟩ := Option.map_eq_some_iff.mp hr
      exact ih (fire_called h) r' hr'

/-- What a check does for a timer: it is called once if it is due. -/
def Served (t : T) (x : Alarm) (now : ℕ) (r : Alarms T × List T) : Prop :=
  Stands r.1 t (x.checked now) (x.checked now).running ∧
    r.2.filter (fun u => u = t) = if x.running ∧ x.due ≤ now then [t] else []

omit [DecidableEq T] in
/-- Where a timer that waits is due, the first one is. -/
theorem Stands.head_due (h : Stands a t x true) (htimely : Timely 1 a) (hdue : x.due ≤ a.now) :
    ∃ u rest, a.queue = u :: rest ∧ (a.alarm u).due ≤ a.now := by
  have ht := h.2.mpr rfl
  obtain ⟨u, rest, hqueue⟩ := List.exists_cons_of_ne_nil (List.ne_nil_of_mem ht)
  refine ⟨u, rest, hqueue, not_lt.mp fun hlt => ?_⟩
  have hlate := htimely.none_due hqueue (Nat.not_le.mpr hlt) t ht
  rw [h.1] at hlate
  omega

theorem Stands.served_idle (h : Stands a t x x.running) (htimely : Timely 1 a)
    (hidle : ∀ u ∈ a.queue.head?, ¬ (a.alarm u).due ≤ a.now) : Served t x a.now (a, []) := by
  have hnot : ¬ (x.running = true ∧ x.due ≤ a.now) := by
    rintro ⟨hrun, hdue⟩
    rw [hrun] at h
    obtain ⟨u, rest, hqueue, hu⟩ := h.head_due htimely hdue
    exact hidle u (by rw [hqueue]; rfl) hu
  rw [Served, Alarm.checked, if_neg hnot, if_neg hnot]
  exact ⟨h, rfl⟩

theorem Stands.served (hlaw : Lawful callback) (hcb : ∀ u s, ∀ c ∈ callback u s, c.timer ≠ t) (n : ℕ)
    (h : Stands a t x x.running) (htimely : Timely 1 a) (hcalled : a.called = []) (hperiod : 1 ≤ x.period) :
    ∀ r ∈ a.check callback n, Served t x a.now r := by
  induction n generalizing a x with
  | zero =>
    rcases a.idle_or_due with hidle | ⟨u, rest, hqueue, hdue⟩
    · rw [check_idle callback 0 hidle]
      intro r hr
      cases hr
      exact h.served_idle htimely hidle
    · rw [(check_succ callback 0 hqueue hdue).1]
      intro r hr
      cases hr
  | succ n ih =>
    rcases a.idle_or_due with hidle | ⟨u, rest, hqueue, hdue⟩
    · rw [check_idle callback (n + 1) hidle]
      intro r hr
      cases hr
      exact h.served_idle htimely hidle
    · obtain ⟨-, htimely', hnow⟩ := fire_code htimely (Nat.le_refl 1) hlaw u
      rw [(check_succ callback n hqueue hdue).2]
      intro r hr
      obtain ⟨r', hr', rfl⟩ := Option.map_eq_some_iff.mp hr
      by_cases hut : u = t
      · subst hut
        have hrun : x.running = true := h.2.mp (hqueue ▸ List.mem_cons_self)
        rw [h.1] at hdue
        rw [hrun] at h
        have hstands := h.fire_self hrun hlaw htimely hcalled hcb
        rw [← x.next_running a.now] at hstands
        have hperiod' : 1 ≤ (x.next a.now).period := by
          rw [Alarm.next]
          split_ifs
          · exact hperiod
          · exact hperiod
        obtain ⟨hserved, hfilter⟩ := ih hstands htimely' (fire_called hcalled) hperiod' r' hr'
        have hnot := x.next_not_due a.now hperiod
        rw [hnow, Alarm.checked, if_neg hnot] at hserved
        rw [hnow, if_neg hnot] at hfilter
        rw [Served, Alarm.checked, if_pos ⟨hrun, hdue⟩, if_pos ⟨hrun, hdue⟩]
        refine ⟨hserved, ?_⟩
        dsimp only
        rw [List.filter_cons_of_pos (by simp), hfilter]
      · obtain ⟨hserved, hfilter⟩ := ih (h.fire_other hut hcb) htimely' (fire_called hcalled) hperiod r' hr'
        rw [hnow] at hserved hfilter
        refine ⟨hserved, ?_⟩
        dsimp only
        rw [List.filter_cons_of_neg (by simpa using hut), hfilter]

/-- How often a timer is called in some ticks, the first time after `r` of them. -/
def Alarm.calls (x : Alarm) (ticks r : ℕ) : ℕ :=
  if x.repeats then (ticks + x.period - r) / x.period else min 1 ((ticks + x.period - r) / x.period)

def Alarm.times (x : Alarm) (now k ticks : ℕ) : List ℕ :=
  if x.running then (List.range (x.calls ticks (x.due - now))).map fun i => k + (x.due - now) + i * x.period else []

/-- Between ticks the timer is ahead. -/
structure Alarm.Ahead (x : Alarm) (now : ℕ) : Prop where
  period : 1 ≤ x.period
  due : x.running = true → now < x.due ∧ x.due ≤ now + x.period

theorem Alarm.Ahead.times_zero (h : x.Ahead n) (k : ℕ) : x.times n k 0 = [] := by
  rw [Alarm.times]
  split_ifs with hrun
  · obtain ⟨hlt, hle⟩ := h.due hrun
    have hzero : (0 + x.period - (x.due - n)) / x.period = 0 := Nat.div_eq_of_lt (by omega)
    rw [Alarm.calls, hzero]
    split_ifs
    · rfl
    · rfl
  · rfl

theorem Alarm.Ahead.checked (h : x.Ahead n) : (x.checked (n + 1)).Ahead (n + 1) := by
  have hperiod := h.period
  rw [Alarm.checked]
  split_ifs with hdue
  · rw [Alarm.next]
    split_ifs
    · exact ⟨hperiod, fun _ => ⟨Nat.lt_add_of_pos_right hperiod, le_rfl⟩⟩
    · exact ⟨hperiod, fun hrun => absurd hrun Bool.false_ne_true⟩
  · refine ⟨hperiod, fun hrun => ?_⟩
    have hnot : ¬ x.due ≤ n + 1 := fun hle => hdue ⟨hrun, hle⟩
    have hle := (h.due hrun).2
    omega

theorem Alarm.Ahead.times_succ (h : x.Ahead n) (k m : ℕ) :
    x.times n k (m + 1) =
      (if x.running ∧ x.due ≤ n + 1 then [k + 1] else []) ++ (x.checked (n + 1)).times (n + 1) (k + 1) m := by
  have hperiod := h.period
  by_cases hrun : x.running = true
  · obtain ⟨hlt, hle⟩ := h.due hrun
    by_cases hdue : x.due ≤ n + 1
    · have hone : x.due - n = 1 := by omega
      have hcalls : (m + 1 + x.period - 1) / x.period = m / x.period + 1 := by
        rw [show m + 1 + x.period - 1 = m + x.period by omega, Nat.add_div_right m hperiod]
      rw [Alarm.times, if_pos hrun, if_pos ⟨hrun, hdue⟩, Alarm.checked, if_pos ⟨hrun, hdue⟩, Alarm.calls, hone,
        hcalls, Alarm.next]
      cases hrep : x.repeats with
      | true =>
        have hrest : m + x.period - x.period = m := Nat.add_sub_cancel m x.period
        have hnext : n + 1 + x.period - (n + 1) = x.period := Nat.add_sub_cancel_left ..
        rw [if_pos rfl, if_pos rfl, Alarm.times, if_pos rfl, Alarm.calls]
        dsimp only
        rw [if_pos rfl, hnext, hrest, List.range_succ_eq_map, List.map_cons, List.map_map, Nat.zero_mul]
        refine congrArg (_ :: ·) (List.map_congr_left fun i _ => ?_)
        dsimp only [Function.comp_apply]
        rw [Nat.succ_mul]
        omega
      | false =>
        rw [if_neg Bool.false_ne_true, if_neg Bool.false_ne_true, Alarm.times, if_neg Bool.false_ne_true,
          Nat.min_eq_left (Nat.le_add_left 1 _)]
        rw [List.append_nil, List.range_one, List.map_singleton, Nat.zero_mul]
    · have hnot : ¬ (x.running = true ∧ x.due ≤ n + 1) := fun hx => hdue hx.2
      have hcalls : m + 1 + x.period - (x.due - n) = m + x.period - (x.due - (n + 1)) := by omega
      have hfirst : k + (x.due - n) = k + 1 + (x.due - (n + 1)) := by omega
      rw [Alarm.checked, if_neg hnot, if_neg hnot, Alarm.times, Alarm.times, if_pos hrun, if_pos hrun, Alarm.calls,
        Alarm.calls, hcalls, hfirst]
      rfl
  · have hnot : ¬ (x.running = true ∧ x.due ≤ n + 1) := fun hx => hrun hx.1
    rw [Alarm.checked, if_neg hnot, if_neg hnot, Alarm.times, Alarm.times, if_neg hrun, if_neg hrun]
    rfl

omit [DecidableEq T] in
theorem Untouched.tail {e : Event T} (h : Untouched callback t (e :: events)) : Untouched callback t events :=
  ⟨h.1, fun c hc => h.2 c (List.mem_cons_of_mem e hc)⟩

/-- What a run calls of a timer that nobody touches. -/
theorem Stands.run (hlaw : Lawful callback) (hevents : LawfulEvents events) (huntouched : Untouched callback t events)
    (h : Stands a t x x.running) (htimely : Timely 0 a) (hcalled : a.called = []) (hahead : x.Ahead a.now) (k : ℕ) :
    ∀ r ∈ a.run callback n k events, r.2.filter (fun y => y.2 = t) = (x.times a.now k (ticks events)).map (·, t) := by
  induction events generalizing a x k with
  | nil =>
    intro r hr
    cases hr
    rw [ticks, hahead.times_zero]
    rfl
  | cons e events ih =>
    have hrest : LawfulEvents events := fun c hc => hevents c (List.mem_cons_of_mem e hc)
    cases e with
    | call c =>
      obtain ⟨-, hcall⟩ := call_code htimely (Nat.zero_le 1) (hevents c List.mem_cons_self)
      have hquiet := call_quiet hcalled c
      have hnow := a.call_now c
      have hstands := h.call (huntouched.2 c List.mem_cons_self)
      have hrun := ih hrest huntouched.tail hstands hcall hquiet (hnow ▸ hahead) k
      rw [Alarms.run, ticks]
      rw [hnow] at hrun
      exact hrun
    | tick =>
      rw [Alarms.run, ticks]
      have hserved :=
        Stands.served (a := { a with now := a.now + 1 }) hlaw huntouched.1 n h htimely.tick hcalled hahead.period
      have hquiet := check_called (a := { a with now := a.now + 1 }) callback n hcalled
      have hchecked := (checked (a := { a with now := a.now + 1 }) hlaw n htimely.tick (Nat.le_refl 1)).2
      cases hc : ({ a with now := a.now + 1 } : Alarms T).check callback n with
      | none =>
        intro r hr
        cases hr
      | some r₁ =>
        obtain ⟨a₁, called⟩ := r₁
        obtain ⟨hstands, hfilter⟩ := hserved _ hc
        obtain ⟨htimely₁, hnow₁, -⟩ := hchecked _ hc
        dsimp only at hstands hfilter htimely₁ hnow₁
        intro r hr
        obtain ⟨r', hr', rfl⟩ := Option.map_eq_some_iff.mp hr
        have hahead₁ : (x.checked (a.now + 1)).Ahead a₁.now := hnow₁ ▸ hahead.checked
        have hlog := ih hrest huntouched.tail hstands htimely₁ (hquiet _ hc) hahead₁ (k + 1) r' hr'
        have hcalls :
            (called.map (k + 1, ·)).filter (fun y => y.2 = t) = (called.filter fun u => u = t).map (k + 1, ·) :=
          List.filter_map
        dsimp only
        rw [List.filter_append, hcalls, hfilter, hlog, hahead.times_succ, List.map_append, hnow₁]
        split_ifs
        · rfl
        · rfl

end WiotaDev.KernelTimers
