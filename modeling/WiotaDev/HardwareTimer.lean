import Mathlib.Algebra.Group.Nat.Hom
import Mathlib.Tactic.SplitIfs

/-! # The hardware timer: frequencies, counts and the compare register -/

namespace WiotaDev.HardwareTimer

def RT_EOK : ℤ := 0
def RT_EINVAL : ℤ := 10

def SYSTEM_CLK : ℕ := 96000000
def DEFAULT_PRESCALER : ℕ := 7
def DEFAULT_FREQ : ℕ := 1000000
def DEFAULT_CNT : ℕ := SYSTEM_CLK / ((DEFAULT_PRESCALER + 1) * DEFAULT_FREQ)

structure RtHwtimerInfo where
  maxfreq : ℕ
  minfreq : ℕ
  maxcnt : ℕ

/-- `TIM_DEV_INFO_CONFIG` -/
def info : RtHwtimerInfo where
  maxfreq := 1000000
  minfreq := 100
  maxcnt := 300000

inductive RtHwtimerMode | oneshot | period deriving DecidableEq

structure TimerRegs where
  enabled : Bool
  cnt : ℕ
  cmp : ℕ

structure Uc8x88Hwtimer where
  regs : TimerRegs
  freqCnt : ℕ
  opmode : RtHwtimerMode

def uc8x88TimerStart (t : Uc8x88Hwtimer) (pr : ℕ) (opmode : RtHwtimerMode) : Uc8x88Hwtimer :=
  { t with opmode := opmode, regs := ⟨true, 0, pr * t.freqCnt % 2 ^ 32⟩ }

def uc8x88TimerStop (t : Uc8x88Hwtimer) : Uc8x88Hwtimer :=
  { t with regs := { t.regs with enabled := false, cnt := 0 } }

def uc8x88TimerCounterGet (t : Uc8x88Hwtimer) : ℕ := t.regs.cnt / t.freqCnt

inductive HwtimerCtrl | freqSet (freq : ℕ) | other deriving DecidableEq

def uc8x88TimerCtrl (t : Uc8x88Hwtimer) : HwtimerCtrl → ℤ × Uc8x88Hwtimer
  | .freqSet freq =>
    (RT_EOK, { t with freqCnt := SYSTEM_CLK / ((DEFAULT_PRESCALER + 1) * freq % 2 ^ 32) })
  | .other => (-RT_EINVAL, t)

/-- The device of the timer framework, with the driver's object. -/
structure RtHwtimer where
  driver : Uc8x88Hwtimer
  freq : ℕ

/-- `HWTIMER_CTRL_FREQ_SET` as the framework handles it. -/
def rtHwtimerFreqSet (t : RtHwtimer) (f : ℕ) : ℤ × RtHwtimer :=
  if f > info.maxfreq ∨ f < info.minfreq then
    (-RT_EINVAL, t)
  else
    let (result, driver) := uc8x88TimerCtrl t.driver (.freqSet f)
    if result = RT_EOK then (result, ⟨driver, f⟩) else (result, ⟨driver, t.freq⟩)

/-- Opening the device sets the frequency it already has. -/
def rtHwtimerOpen (t : RtHwtimer) : RtHwtimer :=
  { t with driver := (uc8x88TimerCtrl t.driver (.freqSet t.freq)).2 }

/-- What happens to a timer: calls of the framework, and the counter as the hardware moves it. -/
inductive Event
  | openDevice
  | freqSet (f : ℕ)
  | start (pr : ℕ) (opmode : RtHwtimerMode)
  | stop
  | count (cnt : ℕ)

def step (t : RtHwtimer) : Event → RtHwtimer
  | .openDevice => rtHwtimerOpen t
  | .freqSet f => (rtHwtimerFreqSet t f).2
  | .start pr opmode => { t with driver := uc8x88TimerStart t.driver pr opmode }
  | .stop => { t with driver := uc8x88TimerStop t.driver }
  | .count cnt => { t with driver := { t.driver with regs := { t.driver.regs with cnt := cnt } } }

/-- The event leaves the frequency alone: it is no request, or one the framework turns down. -/
def KeepsFreq : Event → Prop
  | .freqSet f => f > info.maxfreq ∨ f < info.minfreq
  | _ => True

/-- The driver counts in units of the frequency the framework knows. -/
structure RunsAt (f : ℕ) (t : RtHwtimer) : Prop where
  freq : t.freq = f
  freqCnt : t.driver.freqCnt = SYSTEM_CLK / ((DEFAULT_PRESCALER + 1) * f % 2 ^ 32)

theorem runsAt_freqSet (t : RtHwtimer) {f : ℕ} (hmin : info.minfreq ≤ f) (hmax : f ≤ info.maxfreq) :
    RunsAt f (step t (.freqSet f)) := by
  have haccept : ¬(f > info.maxfreq ∨ f < info.minfreq) := by omega
  rw [step, rtHwtimerFreqSet, if_neg haccept]
  exact ⟨rfl, rfl⟩

theorem runsAt_step {f : ℕ} {t : RtHwtimer} (ht : RunsAt f t) {e : Event} (he : KeepsFreq e) :
    RunsAt f (step t e) := by
  cases e with
  | openDevice =>
    refine ⟨ht.freq, ?_⟩
    rw [← ht.freq]
    rfl
  | freqSet g =>
    have hrejected : g > info.maxfreq ∨ g < info.minfreq := he
    rw [step, rtHwtimerFreqSet, if_pos hrejected]
    exact ht
  | start pr opmode => exact ⟨ht.freq, ht.freqCnt⟩
  | stop => exact ⟨ht.freq, ht.freqCnt⟩
  | count cnt => exact ⟨ht.freq, ht.freqCnt⟩

theorem runsAt_run {f : ℕ} {t : RtHwtimer} (ht : RunsAt f t) {es : List Event}
    (hes : ∀ e ∈ es, KeepsFreq e) : RunsAt f (es.foldl step t) := by
  induction es generalizing t with
  | nil => exact ht
  | cons e es ih =>
    exact ih (runsAt_step ht (hes e List.mem_cons_self)) fun e he => hes e (List.mem_cons_of_mem _ he)

/-- Clock cycles for one unit of the count. -/
def cyclesPerCount (f : ℕ) : ℕ := SYSTEM_CLK / ((DEFAULT_PRESCALER + 1) * f)

theorem freqCnt_eq {f : ℕ} (hmax : f ≤ info.maxfreq) :
    SYSTEM_CLK / ((DEFAULT_PRESCALER + 1) * f % 2 ^ 32) = cyclesPerCount f := by
  have hfits : (DEFAULT_PRESCALER + 1) * f < 2 ^ 32 := by
    simp only [info, DEFAULT_PRESCALER] at *
    omega
  rw [Nat.mod_eq_of_lt hfits, cyclesPerCount]

theorem one_le_cyclesPerCount {f : ℕ} (hmin : info.minfreq ≤ f) (hmax : f ≤ info.maxfreq) :
    1 ≤ cyclesPerCount f := by
  simp only [info] at hmin hmax
  refine (Nat.one_le_div_iff ?_).mpr ?_ <;> simp only [DEFAULT_PRESCALER, SYSTEM_CLK] <;> omega

/-- After a frequency was set, a count is programmed and read back in range exactly when the
cycles it takes fit 32 bits. -/
theorem timerStart_inRange_iff (t : RtHwtimer) (f c : ℕ) (es : List Event) (opmode : RtHwtimerMode)
    (hmin : info.minfreq ≤ f) (hmax : f ≤ info.maxfreq) (hes : ∀ e ∈ es, KeepsFreq e) :
    let s := step (es.foldl step (step t (.freqSet f))) (.start c opmode)
    (s.driver.regs.cmp = c * s.driver.freqCnt ∧ 1 ≤ s.driver.freqCnt ∧
      ∀ cnt ≤ s.driver.regs.cmp, uc8x88TimerCounterGet (step s (.count cnt)).driver ≤ c) ↔
      c * cyclesPerCount f < 2 ^ 32 := by
  intro s
  have hruns := runsAt_run (runsAt_freqSet t hmin hmax) hes
  have hfreq : s.driver.freqCnt = cyclesPerCount f := hruns.freqCnt.trans (freqCnt_eq hmax)
  have hcmp : s.driver.regs.cmp = c * s.driver.freqCnt % 2 ^ 32 := rfl
  have hget : ∀ cnt, uc8x88TimerCounterGet (step s (.count cnt)).driver = cnt / s.driver.freqCnt :=
    fun cnt => rfl
  have hone := one_le_cyclesPerCount hmin hmax
  simp only [hget]
  rw [hfreq] at hcmp ⊢
  constructor
  · rintro ⟨hexact, -, -⟩
    rw [hcmp] at hexact
    exact hexact ▸ Nat.mod_lt _ (by omega)
  · intro hfits
    rw [Nat.mod_eq_of_lt hfits] at hcmp
    refine ⟨hcmp, hone, fun cnt hcnt => ?_⟩
    exact Nat.div_le_of_le_mul (by rw [Nat.mul_comm]; omega)

/-- The timer as the driver declares it. -/
def timer1 : RtHwtimer := ⟨⟨⟨false, 0, 0⟩, DEFAULT_CNT, .oneshot⟩, DEFAULT_FREQ⟩

/-- The longest count at 1 kHz, with a stop in between. -/
theorem timerStart_at_one_kilohertz :
    let s := step (step (step timer1 (.freqSet 1000)) .stop) (.start 300000 .oneshot)
    s.driver.regs.cmp = 300000 * s.driver.freqCnt ∧ 1 ≤ s.driver.freqCnt ∧
      ∀ cnt ≤ s.driver.regs.cmp, uc8x88TimerCounterGet (step s (.count cnt)).driver ≤ 300000 :=
  (timerStart_inRange_iff timer1 1000 300000 [.stop] .oneshot (by decide) (by decide)
    (by simp [KeepsFreq])).mpr (by decide)

/-- At 100 Hz a count of 35792 wraps to a compare value of less than one unit. -/
theorem timerStart_wraps_at_hundred_hertz :
    ¬(step (step timer1 (.freqSet 100)) (.start 35792 .oneshot)).driver.regs.cmp =
      35792 * (step (step timer1 (.freqSet 100)) (.start 35792 .oneshot)).driver.freqCnt := by
  decide

end WiotaDev.HardwareTimer
