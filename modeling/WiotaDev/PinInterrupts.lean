import WiotaDev.MaskRegister
import WiotaDev.PrefixRuns
import Mathlib.Logic.Function.Basic

/-! # The pin driver: attaching, detaching, enabling and disabling pin interrupts -/

namespace WiotaDev.PinInterrupts
open MaskRegister PrefixRuns

def RT_EOK : ℤ := 0
def RT_ENOSYS : ℤ := 6
def RT_EBUSY : ℤ := 7
def RT_EINVAL : ℤ := 10

def PIN_IRQ_MODE_RISING : BitVec 16 := 0
def PIN_IRQ_MODE_FALLING : BitVec 16 := 1
def PIN_IRQ_MODE_RISING_FALLING : BitVec 16 := 2
def PIN_IRQ_MODE_HIGH_LEVEL : BitVec 16 := 3
def PIN_IRQ_MODE_LOW_LEVEL : BitVec 16 := 4

def PIN_IRQ_DISABLE : BitVec 32 := 0
def PIN_IRQ_ENABLE : BitVec 32 := 1

inductive GpioIrqType | highLevel | lowLevel | riseEdge | fallEdge
  deriving DecidableEq, Repr

def GpioIrqType.value : GpioIrqType → BitVec 32
  | .highLevel => 0
  | .lowLevel => 1
  | .riseEdge => 2
  | .fallEdge => 3

structure PinIrqHdr where
  pin : ℤ := -1
  mode : BitVec 16 := 0
  hdr : ℕ := 0
  args : ℕ := 0
  deriving DecidableEq, Repr

/-- `ITEM_NUM(pin_irq_hdr_tab)`. -/
abbrev itemNum : ℕ := 19

abbrev Pin := Fin itemNum

/-- The driver's own data, the registers it writes, and the status register of the CPU. -/
structure Gpio where
  pinIrqHdrTab : ℤ → PinIrqHdr
  pinIrqEnableMask : BitVec 32
  inten : BitVec 32
  inttype0 : BitVec 32
  inttype1 : BitVec 32
  ier : BitVec 32
  mstatus : BitVec 32

/-- `csrrci a0, mstatus, 8`: the status register is returned and its interrupt bit is cleared. -/
def rtHwInterruptDisable (s : Gpio) : BitVec 32 × Gpio :=
  (s.mstatus, { s with mstatus := s.mstatus &&& ~~~8#32 })

def rtHwInterruptEnable (s : Gpio) (level : BitVec 32) : Gpio :=
  { s with mstatus := level }

def gpioSetIrqEn (s : Gpio) (pin : ℤ) (enable : ℕ) : Gpio :=
  { s with inten := if enable = 0 then clearBit s.inten pin.toNat else setBit s.inten pin.toNat }

def gpioSetIrqType (s : Gpio) (pin : ℤ) (type : GpioIrqType) : Gpio :=
  { s with
    inttype0 := if type.value &&& 1 = 0 then clearBit s.inttype0 pin.toNat
      else setBit s.inttype0 pin.toNat
    inttype1 := if type.value &&& 2 = 0 then clearBit s.inttype1 pin.toNat
      else setBit s.inttype1 pin.toNat }

def gpioIntEnable (s : Gpio) : Gpio :=
  { s with ier := setBit s.ier 25 }

def gpioIntDisable (s : Gpio) : Gpio :=
  { s with ier := clearBit s.ier 25 }

def uc8x88PinAttachIrq (s : Gpio) (pin : ℤ) (mode : BitVec 32) (hdr args : ℕ) : ℤ × Gpio :=
  if pin < 0 ∨ itemNum ≤ pin then
    (RT_ENOSYS, s)
  else
    let (level, s) := rtHwInterruptDisable s
    let entry := s.pinIrqHdrTab pin
    if entry.pin = pin ∧ entry.hdr = hdr ∧ entry.mode.setWidth 32 = mode ∧ entry.args = args then
      (RT_EOK, rtHwInterruptEnable s level)
    else if entry.pin ≠ -1 then
      (RT_EBUSY, rtHwInterruptEnable s level)
    else
      let s := { s with
        pinIrqHdrTab := Function.update s.pinIrqHdrTab pin ⟨pin, mode.setWidth 16, hdr, args⟩ }
      (RT_EOK, rtHwInterruptEnable s level)

def uc8x88PinDettachIrq (s : Gpio) (pin : ℤ) : ℤ × Gpio :=
  if pin < 0 ∨ itemNum ≤ pin then
    (RT_ENOSYS, s)
  else
    let (level, s) := rtHwInterruptDisable s
    if (s.pinIrqHdrTab pin).pin = -1 then
      (RT_EOK, rtHwInterruptEnable s level)
    else
      let s := { s with pinIrqHdrTab := Function.update s.pinIrqHdrTab pin ⟨-1, 0, 0, 0⟩ }
      (RT_EOK, rtHwInterruptEnable s level)

/-- The `switch` over the mode a pin was attached with, `none` where it returns at once. A mode
without a case leaves the type registers as they are. -/
def setAttachedIrqType (s : Gpio) (pin : ℤ) (mode : BitVec 16) : Option Gpio :=
  if mode = PIN_IRQ_MODE_RISING then
    some (gpioSetIrqType s pin .riseEdge)
  else if mode = PIN_IRQ_MODE_FALLING then
    some (gpioSetIrqType s pin .fallEdge)
  else if mode = PIN_IRQ_MODE_HIGH_LEVEL then
    some (gpioSetIrqType s pin .highLevel)
  else if mode = PIN_IRQ_MODE_LOW_LEVEL then
    some (gpioSetIrqType s pin .lowLevel)
  else if mode = PIN_IRQ_MODE_RISING_FALLING then
    none
  else
    some s

/-- The mask takes the pin's number, not the pin's bit. -/
def uc8x88PinIrqEnable (s : Gpio) (pin : ℤ) (enabled : BitVec 32) : ℤ × Gpio :=
  if enabled = PIN_IRQ_ENABLE then
    if pin < 0 ∨ itemNum ≤ pin then
      (RT_ENOSYS, s)
    else
      let (level, s) := rtHwInterruptDisable s
      if (s.pinIrqHdrTab pin).pin = -1 then
        (RT_ENOSYS, rtHwInterruptEnable s level)
      else
        match setAttachedIrqType s pin (s.pinIrqHdrTab pin).mode with
        | none => (-RT_EINVAL, s)
        | some s =>
          let s := gpioIntEnable (gpioSetIrqEn s pin 1)
          let s := { s with pinIrqEnableMask := s.pinIrqEnableMask ||| BitVec.ofInt 32 pin }
          (RT_EOK, rtHwInterruptEnable s level)
  else if enabled = PIN_IRQ_DISABLE then
    let (level, s) := rtHwInterruptDisable s
    let s := gpioSetIrqEn s pin 0
    let s := { s with pinIrqEnableMask := s.pinIrqEnableMask &&& ~~~BitVec.ofInt 32 pin }
    let s := if s.pinIrqEnableMask = 0 then gpioIntDisable s else s
    (RT_EOK, rtHwInterruptEnable s level)
  else
    (-RT_ENOSYS, s)

/-- A call of one of the driver's operations on one of its pins. -/
inductive PinCall
  | attach (pin : Pin) (mode : BitVec 32) (hdr args : ℕ)
  | detach (pin : Pin)
  | irqEnable (pin : Pin) (enabled : BitVec 32)
  deriving DecidableEq, Repr

def pinCall (s : Gpio) : PinCall → ℤ × Gpio
  | .attach pin mode hdr args => uc8x88PinAttachIrq s pin mode hdr args
  | .detach pin => uc8x88PinDettachIrq s pin
  | .irqEnable pin enabled => uc8x88PinIrqEnable s pin enabled

/-- The driver with a record of the pins that a call has enabled with success and that none has
disabled since. -/
structure Session where
  gpio : Gpio
  enabled : Pin → Bool

/-- What a call and its return code say about the pins' interrupts. -/
def noteCall (enabled : Pin → Bool) (code : ℤ) : PinCall → Pin → Bool
  | .irqEnable pin value =>
    if code = RT_EOK then Function.update enabled pin (decide (value = PIN_IRQ_ENABLE)) else enabled
  | _ => enabled

def Session.next (t : Session) (c : PinCall) : Session :=
  ⟨(pinCall t.gpio c).2, noteCall t.enabled (pinCall t.gpio c).1 c⟩

/-- Reset: nothing is attached, no pin's interrupt is on and neither is the global one. -/
structure Booted (s : Gpio) : Prop where
  free : ∀ pin : Pin, s.pinIrqHdrTab pin = {}
  mask : s.pinIrqEnableMask = 0
  inten : s.inten = 0
  ier : s.ier.getLsbD 25 = false

def Session.boot (s : Gpio) : Session :=
  ⟨s, fun _ => false⟩

/-- The global interrupt is on exactly when some pin's interrupt is. -/
def Session.InStep (t : Session) : Prop :=
  t.gpio.ier.getLsbD 25 = true ↔ ∃ pin, t.enabled pin = true

/-- After all calls the global interrupt is on exactly when some pin's is, and every call leaves
the interrupt level as it found it. -/
def Sound (t : Session) (calls : List PinCall) : Prop :=
  (∀ pre, pre <+: calls → (pre.foldl Session.next t).InStep) ∧
    ∀ pre c, pre ++ [c] <+: calls →
      (pinCall (pre.foldl Session.next t).gpio c).2.mstatus = (pre.foldl Session.next t).gpio.mstatus

/-- Enabling does not meet a pin attached for both edges while interrupts are on, and disabling a pin
whose number holds all bits left in the mask meets no other pin whose interrupt is on. -/
def CallOk (s : Gpio) : PinCall → Prop
  | .irqEnable pin value =>
    if value = PIN_IRQ_ENABLE then
      (s.pinIrqHdrTab pin).pin ≠ -1 → (s.pinIrqHdrTab pin).mode = PIN_IRQ_MODE_RISING_FALLING →
        s.mstatus &&& 8#32 = 0
    else if value = PIN_IRQ_DISABLE then
      s.pinIrqEnableMask &&& ~~~BitVec.ofInt 32 pin = 0 →
        ∀ other : Pin, other ≠ pin → s.inten.getLsbD other = false
    else True
  | _ => True

theorem restored (s : Gpio) :
    rtHwInterruptEnable (rtHwInterruptDisable s).2 (rtHwInterruptDisable s).1 = s := rfl

theorem pin_in_range (pin : Pin) : ¬((pin : ℤ) < 0 ∨ (itemNum : ℤ) ≤ pin) := by
  have := pin.isLt
  omega

/-- Attaching touches nothing but the table. -/
theorem attach_frame (s : Gpio) (pin : ℤ) (mode : BitVec 32) (hdr args : ℕ) :
    ∃ tab, (uc8x88PinAttachIrq s pin mode hdr args).2 = { s with pinIrqHdrTab := tab } := by
  rw [uc8x88PinAttachIrq]
  split_ifs
  · exact ⟨_, rfl⟩
  · simp only [restored]
    split_ifs
    · exact ⟨_, rfl⟩
    · exact ⟨_, rfl⟩
    · exact ⟨_, rfl⟩

/-- Detaching touches nothing but the table: the pin's interrupt stays on. -/
theorem detach_frame (s : Gpio) (pin : ℤ) :
    ∃ tab, (uc8x88PinDettachIrq s pin).2 = { s with pinIrqHdrTab := tab } := by
  rw [uc8x88PinDettachIrq]
  split_ifs
  · exact ⟨_, rfl⟩
  · simp only [restored]
    split_ifs
    · exact ⟨_, rfl⟩
    · exact ⟨_, rfl⟩

theorem setAttachedIrqType_eq_none {s : Gpio} {pin : ℤ} {mode : BitVec 16} :
    setAttachedIrqType s pin mode = none ↔ mode = PIN_IRQ_MODE_RISING_FALLING := by
  rw [setAttachedIrqType]
  constructor
  · intro h
    by_contra hne
    split_ifs at h
  · rintro rfl
    rfl

theorem setAttachedIrqType_frame {s s' : Gpio} {pin : ℤ} {mode : BitVec 16}
    (h : setAttachedIrqType s pin mode = some s') :
    ∃ t₀ t₁, s' = { s with inttype0 := t₀, inttype1 := t₁ } := by
  rw [setAttachedIrqType] at h
  split_ifs at h
  all_goals
    obtain rfl := Option.some.inj h
    exact ⟨_, _, rfl⟩

section EnableCases
variable (s : Gpio) (pin : Pin)

theorem enable_unattached (h : (s.pinIrqHdrTab pin).pin = -1) :
    uc8x88PinIrqEnable s pin PIN_IRQ_ENABLE = (RT_ENOSYS, s) := by
  rw [uc8x88PinIrqEnable, if_pos rfl, if_neg (pin_in_range pin)]
  exact if_pos h

theorem enable_bothEdges (h : (s.pinIrqHdrTab pin).pin ≠ -1)
    (hm : (s.pinIrqHdrTab pin).mode = PIN_IRQ_MODE_RISING_FALLING) :
    uc8x88PinIrqEnable s pin PIN_IRQ_ENABLE =
      (-RT_EINVAL, { s with mstatus := s.mstatus &&& ~~~8#32 }) := by
  rw [uc8x88PinIrqEnable, if_pos rfl, if_neg (pin_in_range pin)]
  refine (if_neg h).trans ?_
  rw [setAttachedIrqType_eq_none.mpr hm]

theorem enable_attached (h : (s.pinIrqHdrTab pin).pin ≠ -1)
    (hm : (s.pinIrqHdrTab pin).mode ≠ PIN_IRQ_MODE_RISING_FALLING) :
    ∃ t₀ t₁, uc8x88PinIrqEnable s pin PIN_IRQ_ENABLE =
      (RT_EOK, { s with
        inttype0 := t₀, inttype1 := t₁, inten := setBit s.inten pin, ier := setBit s.ier 25
        pinIrqEnableMask := s.pinIrqEnableMask ||| BitVec.ofInt 32 pin }) := by
  obtain ⟨s', hs'⟩ := Option.ne_none_iff_exists'.mp (mt setAttachedIrqType_eq_none.mp hm)
  obtain ⟨t₀, t₁, rfl⟩ := setAttachedIrqType_frame hs'
  refine ⟨t₀, t₁, ?_⟩
  rw [uc8x88PinIrqEnable, if_pos rfl, if_neg (pin_in_range pin)]
  refine (if_neg h).trans ?_
  rw [hs']
  rfl

theorem irqEnable_disable : uc8x88PinIrqEnable s pin PIN_IRQ_DISABLE =
    (RT_EOK, { s with
      inten := clearBit s.inten pin
      pinIrqEnableMask := s.pinIrqEnableMask &&& ~~~BitVec.ofInt 32 pin
      ier := if s.pinIrqEnableMask &&& ~~~BitVec.ofInt 32 pin = 0 then clearBit s.ier 25
        else s.ier }) := by
  rw [uc8x88PinIrqEnable, if_neg (by decide), if_pos rfl]
  by_cases h : s.pinIrqEnableMask &&& ~~~BitVec.ofInt 32 pin = 0
  · rw [if_pos h]
    exact congrArg (fun t => (RT_EOK, rtHwInterruptEnable t s.mstatus)) (if_pos h)
  · rw [if_neg h]
    exact congrArg (fun t => (RT_EOK, rtHwInterruptEnable t s.mstatus)) (if_neg h)

theorem irqEnable_other {value : BitVec 32} (he : value ≠ PIN_IRQ_ENABLE)
    (hd : value ≠ PIN_IRQ_DISABLE) : uc8x88PinIrqEnable s pin value = (-RT_ENOSYS, s) := by
  rw [uc8x88PinIrqEnable, if_neg he, if_neg hd]

end EnableCases

/-- What a call can do: it leaves all interrupts alone, or enables a pin's, or disables a pin's. -/
theorem next_cases (t : Session) (c : PinCall) :
    (∃ tab level, t.next c = ⟨{ t.gpio with pinIrqHdrTab := tab, mstatus := level }, t.enabled⟩ ∧
        (CallOk t.gpio c ↔ level = t.gpio.mstatus)) ∨
      (∃ (pin : Pin) (t₀ t₁ : BitVec 32), t.next c =
          ⟨{ t.gpio with
              inttype0 := t₀, inttype1 := t₁, inten := setBit t.gpio.inten pin
              ier := setBit t.gpio.ier 25
              pinIrqEnableMask := t.gpio.pinIrqEnableMask ||| BitVec.ofInt 32 pin },
            Function.update t.enabled pin true⟩ ∧ CallOk t.gpio c) ∨
      ∃ pin : Pin, t.next c =
          ⟨{ t.gpio with
              inten := clearBit t.gpio.inten pin
              pinIrqEnableMask := t.gpio.pinIrqEnableMask &&& ~~~BitVec.ofInt 32 pin
              ier := if t.gpio.pinIrqEnableMask &&& ~~~BitVec.ofInt 32 pin = 0
                then clearBit t.gpio.ier 25 else t.gpio.ier },
            Function.update t.enabled pin false⟩ ∧
        (CallOk t.gpio c ↔ (t.gpio.pinIrqEnableMask &&& ~~~BitVec.ofInt 32 pin = 0 →
          ∀ other : Pin, other ≠ pin → t.gpio.inten.getLsbD other = false)) := by
  cases c with
  | attach pin mode hdr args =>
    obtain ⟨tab, htab⟩ := attach_frame t.gpio pin mode hdr args
    refine .inl ⟨tab, t.gpio.mstatus, ?_, iff_of_true trivial rfl⟩
    rw [Session.next, pinCall, htab]
    rfl
  | detach pin =>
    obtain ⟨tab, htab⟩ := detach_frame t.gpio pin
    refine .inl ⟨tab, t.gpio.mstatus, ?_, iff_of_true trivial rfl⟩
    rw [Session.next, pinCall, htab]
    rfl
  | irqEnable pin value =>
    by_cases he : value = PIN_IRQ_ENABLE
    · subst he
      by_cases hpin : (t.gpio.pinIrqHdrTab pin).pin = -1
      · refine .inl ⟨t.gpio.pinIrqHdrTab, t.gpio.mstatus, ?_, iff_of_true ?_ rfl⟩
        · rw [Session.next, pinCall, enable_unattached t.gpio pin hpin]
          rfl
        · exact fun h => absurd hpin h
      by_cases hmode : (t.gpio.pinIrqHdrTab pin).mode = PIN_IRQ_MODE_RISING_FALLING
      · refine .inl ⟨t.gpio.pinIrqHdrTab, t.gpio.mstatus &&& ~~~8#32, ?_, ?_⟩
        · rw [Session.next, pinCall, enable_bothEdges t.gpio pin hpin hmode]
          rfl
        · rw [andNot_eq_self_iff]
          exact ⟨fun h => h hpin hmode, fun h _ _ => h⟩
      · obtain ⟨t₀, t₁, hen⟩ := enable_attached t.gpio pin hpin hmode
        refine .inr (.inl ⟨pin, t₀, t₁, ?_, fun _ h => absurd h hmode⟩)
        rw [Session.next, pinCall, hen]
        rfl
    by_cases hd : value = PIN_IRQ_DISABLE
    · subst hd
      refine .inr (.inr ⟨pin, ?_, Iff.rfl⟩)
      rw [Session.next, pinCall, irqEnable_disable]
      rfl
    · refine .inl ⟨t.gpio.pinIrqHdrTab, t.gpio.mstatus, ?_, iff_of_true ?_ rfl⟩
      · rw [Session.next, pinCall, irqEnable_other t.gpio pin he hd]
        rfl
      · rw [CallOk, if_neg he, if_neg hd]
        trivial

/-- The numbers of the pins whose interrupt is on. -/
def enabledNumbers (enabled : Pin → Bool) : Set (BitVec 32) :=
  {x | ∃ pin : Pin, enabled pin = true ∧ x = BitVec.ofInt 32 pin}

/-- The enable register holds the pins' interrupts, and the mask only bits of their numbers. -/
structure Tracked (t : Session) : Prop where
  inten : ∀ pin : Pin, t.gpio.inten.getLsbD pin = t.enabled pin
  mask : CoveredBy t.gpio.pinIrqEnableMask (enabledNumbers t.enabled)

theorem tracked_boot {s : Gpio} (h : Booted s) : Tracked (.boot s) where
  inten pin := by
    show s.inten.getLsbD pin = false
    rw [h.inten]
    exact BitVec.getLsbD_zero
  mask := by
    show CoveredBy s.pinIrqEnableMask _
    rw [h.mask]
    exact .zero _

theorem enabledNumbers_update_true (enabled : Pin → Bool) (pin : Pin) :
    insert (BitVec.ofInt 32 pin) (enabledNumbers enabled) ⊆
      enabledNumbers (Function.update enabled pin true) := by
  rintro x (rfl | ⟨p, hp, rfl⟩)
  · exact ⟨pin, Function.update_self pin true enabled, rfl⟩
  · refine ⟨p, ?_, rfl⟩
    by_cases h : p = pin
    · rw [h, Function.update_self]
    · rw [Function.update_of_ne h, hp]

theorem enabledNumbers_update_false (enabled : Pin → Bool) (pin : Pin) :
    enabledNumbers enabled \ {BitVec.ofInt 32 pin} ⊆
      enabledNumbers (Function.update enabled pin false) := by
  rintro x ⟨⟨p, hp, rfl⟩, hne⟩
  refine ⟨p, ?_, rfl⟩
  rw [Function.update_of_ne (by rintro rfl; exact hne rfl), hp]

theorem Tracked.next {t : Session} (h : Tracked t) (c : PinCall) : Tracked (t.next c) := by
  obtain ⟨tab, level, ht, -⟩ | ⟨pin, t₀, t₁, ht, -⟩ | ⟨pin, ht, -⟩ := next_cases t c
  · rw [ht]
    exact ⟨h.inten, h.mask⟩
  · rw [ht]
    refine ⟨fun p => ?_, (h.mask.or _).mono (enabledNumbers_update_true t.enabled pin)⟩
    show (setBit t.gpio.inten pin).getLsbD p = Function.update t.enabled pin true p
    rw [getLsbD_setBit _ (pin.isLt.trans (by decide)), h.inten, Function.update_apply]
    by_cases hp : p = pin
    · simp [hp]
    · simp [hp, Fin.val_inj]
  · rw [ht]
    refine ⟨fun p => ?_, (h.mask.andNot _).mono (enabledNumbers_update_false t.enabled pin)⟩
    show (clearBit t.gpio.inten pin).getLsbD p = Function.update t.enabled pin false p
    rw [getLsbD_clearBit, h.inten, Function.update_apply]
    by_cases hp : p = pin
    · simp [hp]
    · simp [hp, Fin.val_inj]

private theorem exists_update_false {enabled : Pin → Bool} {pin : Pin} :
    (∃ p, Function.update enabled pin false p = true) ↔ ∃ p, p ≠ pin ∧ enabled p = true := by
  constructor
  · rintro ⟨p, hp⟩
    rw [Function.update_apply] at hp
    split_ifs at hp with h
    exact ⟨p, h, hp⟩
  · rintro ⟨p, hne, hp⟩
    exact ⟨p, by rw [Function.update_of_ne hne, hp]⟩

/-- Where the global interrupt agrees with the pins', a call keeps that and the interrupt level
exactly if it is of the kind that `CallOk` describes. -/
theorem next_sound_iff {t : Session} (h : Tracked t) (hstep : t.InStep) (c : PinCall) :
    (t.next c).InStep ∧ (t.next c).gpio.mstatus = t.gpio.mstatus ↔ CallOk t.gpio c := by
  obtain ⟨tab, level, ht, hok⟩ | ⟨pin, t₀, t₁, ht, hok⟩ | ⟨pin, ht, hok⟩ := next_cases t c
  · rw [ht, hok]
    exact and_iff_right hstep
  · rw [ht]
    refine iff_of_true ⟨iff_of_true ?_ ⟨pin, Function.update_self pin true t.enabled⟩, rfl⟩ hok
    show (setBit t.gpio.ier 25).getLsbD 25 = true
    rw [getLsbD_setBit _ (by decide)]
    rfl
  · have hnext := h.next c
    rw [ht] at hnext ⊢
    rw [hok, and_iff_left rfl]
    by_cases hmask : t.gpio.pinIrqEnableMask &&& ~~~BitVec.ofInt 32 pin = 0
    · simp only [Session.InStep, if_pos hmask, getLsbD_clearBit, exists_update_false]
      constructor
      · intro hiff _ other hne
        rw [h.inten]
        by_contra hon
        exact absurd (hiff.mpr ⟨other, hne, (Bool.not_eq_false _).mp hon⟩) (by simp)
      · intro hall
        refine iff_of_false (by simp) ?_
        rintro ⟨other, hne, hon⟩
        rw [← h.inten, hall hmask other hne] at hon
        exact absurd hon (by decide)
    · refine iff_of_true ?_ fun h0 => absurd h0 hmask
      obtain ⟨x, p, hp, -⟩ := hnext.mask.nonempty hmask
      obtain ⟨q, -, hq⟩ := exists_update_false.mp ⟨p, hp⟩
      simp only [Session.InStep, if_neg hmask]
      exact iff_of_true (hstep.mpr ⟨q, hq⟩) ⟨p, hp⟩

/-- A level that every call leaves as it is stays the same along the run. -/
theorem sound_iff_level_kept (t : Session) (calls : List PinCall) :
    Sound t calls ↔ ∀ pre, pre <+: calls →
      (pre.foldl Session.next t).InStep ∧
        (pre.foldl Session.next t).gpio.mstatus = t.gpio.mstatus := by
  constructor
  · rintro ⟨hin, hlevel⟩ pre hpre
    refine ⟨hin pre hpre, ?_⟩
    induction pre using List.reverseRecOn with
    | nil => rfl
    | append_singleton pre c ih =>
      rw [List.foldl_append]
      exact (hlevel pre c hpre).trans (ih ((List.prefix_append pre [c]).trans hpre))
  · intro h
    refine ⟨fun pre hpre => (h pre hpre).1, fun pre c hpre => ?_⟩
    have hc := (h _ hpre).2
    rw [List.foldl_append] at hc
    exact hc.trans (h pre ((List.prefix_append pre [c]).trans hpre)).2.symm

/-- From reset, the global interrupt follows the pins' and the interrupt level is left as found, over
all of a sequence of calls, exactly if no call enables a pin attached for both edges while interrupts
are on, and none that disables a pin finds no bit in the mask beyond its number's while another pin's
interrupt is on. -/
theorem irq_calls_sound_iff (s : Gpio) (hboot : Booted s) (calls : List PinCall) :
    Sound (.boot s) calls ↔
      Along Session.next (fun t c => CallOk t.gpio c) (.boot s) calls := by
  rw [sound_iff_level_kept]
  refine forall_prefix_iff_along Tracked
    (fun _ t => t.InStep ∧ t.gpio.mstatus = (Session.boot s).gpio.mstatus)
    (fun t c ht _ => ht.next c) (tracked_boot hboot) ⟨?_, rfl⟩ ?_ calls
  · refine iff_of_false ?_ ?_
    · rw [Session.boot, hboot.ier]
      decide
    · rintro ⟨pin, hpin⟩
      exact absurd hpin (by simp [Session.boot])
  · rintro pre t c ht ⟨hin, hlevel⟩
    show (t.next c).InStep ∧ (t.next c).gpio.mstatus = _ ↔ _
    rw [← hlevel]
    exact next_sound_iff ht hin c

instance CallOk.decidable (s : Gpio) : ∀ c, Decidable (CallOk s c)
  | .attach .. => .isTrue trivial
  | .detach _ => .isTrue trivial
  | .irqEnable pin value =>
    inferInstanceAs (Decidable (if value = PIN_IRQ_ENABLE then
      (s.pinIrqHdrTab pin).pin ≠ -1 → (s.pinIrqHdrTab pin).mode = PIN_IRQ_MODE_RISING_FALLING →
        s.mstatus &&& 8#32 = 0
    else if value = PIN_IRQ_DISABLE then
      s.pinIrqEnableMask &&& ~~~BitVec.ofInt 32 pin = 0 →
        ∀ other : Pin, other ≠ pin → s.inten.getLsbD other = false
    else True))

/-- The device after reset, with interrupts on. -/
def resetGpio : Gpio :=
  ⟨fun _ => {}, 0, 0, 0, 0, 0, 8⟩

theorem booted_resetGpio : Booted resetGpio :=
  ⟨fun _ => rfl, rfl, rfl, by decide⟩

/-- A pin is attached, enabled and disabled again. -/
theorem irq_calls_sound_single : Sound (.boot resetGpio)
    [.attach 3 0 1 0, .irqEnable 3 PIN_IRQ_ENABLE, .irqEnable 3 PIN_IRQ_DISABLE] :=
  (irq_calls_sound_iff resetGpio booted_resetGpio _).mpr (by decide)

/-- With pins 0 and 1 on, disabling pin 1 empties the mask: the global interrupt goes off, and pin 0,
still enabled, is no longer heard. -/
theorem irq_calls_unsound : ¬ ∀ s, Booted s → ∀ calls, Sound (.boot s) calls := by
  intro h
  have hrun := (h resetGpio booted_resetGpio
    [.attach 0 0 1 0, .attach 1 0 1 0, .irqEnable 0 PIN_IRQ_ENABLE, .irqEnable 1 PIN_IRQ_ENABLE,
      .irqEnable 1 PIN_IRQ_DISABLE]).1 _ (List.prefix_refl _)
  exact absurd (hrun.mpr ⟨0, by decide⟩) (by decide)

/-- Enabling a pin attached for both edges returns with interrupts off. -/
example : (pinCall (pinCall resetGpio (.attach 3 2 1 0)).2 (.irqEnable 3 PIN_IRQ_ENABLE)).2.mstatus = 0 := by
  decide

end WiotaDev.PinInterrupts
