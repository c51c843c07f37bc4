import WiotaDev.PinInterrupts
import Mathlib.Data.List.Perm.Basic
import Mathlib.Data.List.Nodup

/-! # The pin driver: serving an interrupt from its status word -/

namespace WiotaDev.PinInterrupts
open MaskRegister

/-- The loop over the 32 shifts, `-1` where none of them is the word. -/
def bit2bitno (bit : BitVec 32) : ℤ :=
  match (List.range 32).find? fun i => 1#32 <<< i = bit with
  | some i => i
  | none => -1

/-- What the interrupt handler does in order: the two marks of the kernel and the calls of handlers. -/
inductive IrqStep
  | enter
  | call (hdr args : ℕ)
  | leave
  deriving DecidableEq, Repr

def pinIrqHdr (pinIrqHdrTab : ℤ → PinIrqHdr) (irqno : ℤ) : List IrqStep :=
  if irqno < 0 ∨ itemNum ≤ irqno then
    []
  else if (pinIrqHdrTab irqno).hdr ≠ 0 then
    [.call (pinIrqHdrTab irqno).hdr (pinIrqHdrTab irqno).args]
  else
    []

/-- The status register reads `irqStatus`. -/
def gpioHandler (pinIrqHdrTab : ℤ → PinIrqHdr) (irqStatus : BitVec 32) : List IrqStep :=
  [.enter] ++ pinIrqHdr pinIrqHdrTab (bit2bitno irqStatus) ++ [.leave]

/-- The pins of the table that are pending and have a handler. -/
def toServe (pinIrqHdrTab : ℤ → PinIrqHdr) (irqStatus : BitVec 32) : List ℕ :=
  (List.range itemNum).filter fun pin => irqStatus.getLsbD pin ∧ (pinIrqHdrTab pin).hdr ≠ 0

def handlerCall (pinIrqHdrTab : ℤ → PinIrqHdr) (pin : ℕ) : IrqStep :=
  .call (pinIrqHdrTab pin).hdr (pinIrqHdrTab pin).args

/-- Between the marks the handlers of the pending pins are called, each pin's once and with its own
argument, and no other handler is. -/
def Serves (pinIrqHdrTab : ℤ → PinIrqHdr) (irqStatus : BitVec 32) (steps : List IrqStep) : Prop :=
  ∃ calls, steps = [.enter] ++ calls ++ [.leave] ∧
    calls.Perm ((toServe pinIrqHdrTab irqStatus).map (handlerCall pinIrqHdrTab))

/-- The word has exactly one bit. -/
def SingleBit (irqStatus : BitVec 32) : Prop :=
  ∃ i < 32, irqStatus.getLsbD i = true ∧ ∀ j, irqStatus.getLsbD j = true → j = i

theorem bit2bitno_of_single {bit : BitVec 32} {i : ℕ} (hi : i < 32) (hset : bit.getLsbD i = true)
    (hother : ∀ j, bit.getLsbD j = true → j = i) : bit2bitno bit = i := by
  have hfind : (List.range 32).find? (fun i => 1#32 <<< i = bit) = some i := by
    rw [List.find?_range_eq_some]
    refine ⟨decide_eq_true ((one_shift_eq_iff hi).mpr ⟨hset, hother⟩), List.mem_range.mpr hi, ?_⟩
    intro j hj
    have hne : 1#32 <<< j ≠ bit := by
      intro heq
      have hj' := ((one_shift_eq_iff (hj.trans hi)).mp heq).1
      exact hj.ne (hother j hj')
    simpa using hne
  rw [bit2bitno, hfind]

theorem bit2bitno_of_not_single {bit : BitVec 32} (h : ¬ SingleBit bit) : bit2bitno bit = -1 := by
  have hfind : (List.range 32).find? (fun i => 1#32 <<< i = bit) = none := by
    rw [List.find?_range_eq_none]
    intro i hi
    have hne : 1#32 <<< i ≠ bit := by
      intro heq
      obtain ⟨hset, hother⟩ := (one_shift_eq_iff hi).mp heq
      exact h ⟨i, hi, hset, hother⟩
    simpa using hne
  rw [bit2bitno, hfind]

theorem mem_toServe {tab : ℤ → PinIrqHdr} {irqStatus : BitVec 32} {pin : ℕ} :
    pin ∈ toServe tab irqStatus ↔
      pin < itemNum ∧ irqStatus.getLsbD pin = true ∧ (tab pin).hdr ≠ 0 := by
  simp [toServe]

theorem nodup_toServe (tab : ℤ → PinIrqHdr) (irqStatus : BitVec 32) :
    (toServe tab irqStatus).Nodup := by
  apply List.Nodup.filter
  exact List.nodup_range

theorem toServe_of_single {irqStatus : BitVec 32} {i : ℕ} (tab : ℤ → PinIrqHdr)
    (hset : irqStatus.getLsbD i = true) (hother : ∀ j, irqStatus.getLsbD j = true → j = i) :
    toServe tab irqStatus = if i < itemNum ∧ (tab i).hdr ≠ 0 then [i] else [] := by
  split_ifs with h
  · have hperm : (toServe tab irqStatus).Perm [i] := by
      apply (List.perm_ext_iff_of_nodup (nodup_toServe tab irqStatus) (List.nodup_singleton i)).mpr
      intro j
      rw [mem_toServe, List.mem_singleton]
      constructor
      · rintro ⟨-, hj, -⟩
        exact hother j hj
      · rintro rfl
        exact ⟨h.1, hset, h.2⟩
    exact List.perm_singleton.mp hperm
  · rw [List.eq_nil_iff_forall_not_mem]
    intro j hj
    obtain ⟨hlt, hbit, hhdr⟩ := mem_toServe.mp hj
    obtain rfl := hother j hbit
    exact h ⟨hlt, hhdr⟩

/-- One pending pin is served, whether its bit belongs to the table or not. -/
theorem pinIrqHdr_of_single {irqStatus : BitVec 32} {i : ℕ} (tab : ℤ → PinIrqHdr) (hi : i < 32)
    (hset : irqStatus.getLsbD i = true) (hother : ∀ j, irqStatus.getLsbD j = true → j = i) :
    pinIrqHdr tab (bit2bitno irqStatus) = (toServe tab irqStatus).map (handlerCall tab) := by
  rw [bit2bitno_of_single hi hset hother, toServe_of_single tab hset hother, pinIrqHdr]
  by_cases hlt : i < itemNum
  · have hin : ¬ ((i : ℤ) < 0 ∨ (itemNum : ℤ) ≤ i) := by omega
    rw [if_neg hin]
    by_cases hhdr : (tab i).hdr ≠ 0
    · rw [if_pos hhdr, if_pos ⟨hlt, hhdr⟩]
      rfl
    · rw [if_neg hhdr, if_neg fun h => hhdr h.2]
      rfl
  · have hout : (i : ℤ) < 0 ∨ (itemNum : ℤ) ≤ i := by omega
    rw [if_pos hout, if_neg fun h => hlt h.1]
    rfl

/-- A word with no bit, or with several, calls no handler at all. -/
theorem pinIrqHdr_of_not_single {irqStatus : BitVec 32} (tab : ℤ → PinIrqHdr)
    (h : ¬ SingleBit irqStatus) : pinIrqHdr tab (bit2bitno irqStatus) = [] := by
  rw [bit2bitno_of_not_single h, pinIrqHdr, if_pos (Or.inl (by decide))]

theorem serves_gpioHandler_iff_perm (tab : ℤ → PinIrqHdr) (irqStatus : BitVec 32) :
    Serves tab irqStatus (gpioHandler tab irqStatus) ↔
      (pinIrqHdr tab (bit2bitno irqStatus)).Perm
        ((toServe tab irqStatus).map (handlerCall tab)) := by
  constructor
  · rintro ⟨calls, heq, hperm⟩
    rw [gpioHandler, List.append_left_inj, List.append_right_inj] at heq
    rwa [heq]
  · intro hperm
    exact ⟨_, rfl, hperm⟩

/-- The status word is read once: with two pins pending together nothing is served. -/
theorem gpioHandler_serves_iff (tab : ℤ → PinIrqHdr) (irqStatus : BitVec 32) :
    Serves tab irqStatus (gpioHandler tab irqStatus) ↔
      SingleBit irqStatus ∨
        ∀ pin < itemNum, irqStatus.getLsbD pin = true → (tab pin).hdr = 0 := by
  rw [serves_gpioHandler_iff_perm]
  by_cases hs : SingleBit irqStatus
  · obtain ⟨i, hi, hset, hother⟩ := hs
    rw [pinIrqHdr_of_single tab hi hset hother]
    exact iff_of_true (List.Perm.refl _) (Or.inl ⟨i, hi, hset, hother⟩)
  · rw [pinIrqHdr_of_not_single tab hs, List.nil_perm, List.map_eq_nil_iff,
      List.eq_nil_iff_forall_not_mem]
    constructor
    · intro hnone
      refine Or.inr fun pin hlt hbit => ?_
      by_contra hhdr
      exact hnone pin (mem_toServe.mpr ⟨hlt, hbit, hhdr⟩)
    · rintro (h | h)
      · exact absurd h hs
      · intro pin hpin
        obtain ⟨hlt, hbit, hhdr⟩ := mem_toServe.mp hpin
        exact hhdr (h pin hlt hbit)

/-- Handlers 7 and 9 on pins 2 and 3. -/
def twoPins : ℤ → PinIrqHdr := fun pin =>
  if pin = 2 then ⟨2, 0, 7, 70⟩ else if pin = 3 then ⟨3, 0, 9, 90⟩ else {}

theorem gpioHandler_two_pending :
    ¬ ∀ tab irqStatus, Serves tab irqStatus (gpioHandler tab irqStatus) := by
  intro h
  have hs := h twoPins 12#32
  rw [serves_gpioHandler_iff_perm] at hs
  exact absurd hs.length_eq (by decide)

example : gpioHandler twoPins 8#32 = [.enter, .call 9 90, .leave] := by decide

end WiotaDev.PinInterrupts
