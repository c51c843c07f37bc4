import Mathlib.Data.BitVec

/-! # Fields of a register

A field occupies the bits from `l` up to and including `h`. -/

namespace WiotaDev.RegisterFields

variable {w : ℕ}

/-- `(~((0xffffffff << H) << 1)) & (0xffffffff << L)`. -/
def fieldMask (w h l : ℕ) : BitVec w := ~~~((BitVec.allOnes w <<< h) <<< 1) &&& BitVec.allOnes w <<< l

def field (r : BitVec w) (h l : ℕ) : BitVec w := (r &&& fieldMask w h l) >>> l

def setField (r : BitVec w) (h l : ℕ) (c : BitVec w) : BitVec w :=
  (r &&& ~~~fieldMask w h l) ||| ((c <<< l) &&& fieldMask w h l)

theorem getLsbD_fieldMask (h l i : ℕ) :
    (fieldMask w h l).getLsbD i = (decide (i < w) && decide (l ≤ i) && decide (i ≤ h)) := by
  simp only [fieldMask, BitVec.getLsbD_and, BitVec.getLsbD_not, BitVec.getLsbD_shiftLeft,
    BitVec.getLsbD_allOnes]
  by_cases hw : i < w
  · have hback : i - 1 - h < w := by omega
    have hprev : i - 1 < w := by omega
    have hshift : i - l < w := by omega
    by_cases hh : i ≤ h
    · have hin : i < 1 ∨ i - 1 < h := by omega
      have hbelow : decide (i < l) = !decide (l ≤ i) := by
        rw [← decide_not, decide_eq_decide]
        omega
      rcases hin with hin | hin <;> simp [hw, hprev, hshift, hh, hin, hbelow]
    · have hone : ¬i < 1 := by omega
      have hpast : ¬i - 1 < h := by omega
      simp [hw, hprev, hback, hh, hone, hpast]
  · simp [hw]

/-- A value that fits its field is read back. -/
theorem field_setField (r : BitVec w) {h l : ℕ} (hl : l ≤ h) (hw : h < w) {c : BitVec w}
    (hc : c.toNat < 2 ^ (h - l + 1)) : field (setField r h l c) h l = c := by
  apply BitVec.eq_of_getLsbD_eq
  intro i hi
  simp only [field, setField, BitVec.getLsbD_ushiftRight, BitVec.getLsbD_and, BitVec.getLsbD_or,
    BitVec.getLsbD_not, BitVec.getLsbD_shiftLeft, getLsbD_fieldMask]
  by_cases hin : l + i ≤ h
  · have hlt : l + i < w := by omega
    simp [hin, hlt]
  · have hzero : c.getLsbD i = false := by
      rw [BitVec.getLsbD]
      exact Nat.testBit_lt_two_pow (lt_of_lt_of_le hc (Nat.pow_le_pow_right (by omega) (by omega)))
    simp [hin, hzero]

/-- Writing one field leaves another one alone. -/
theorem field_setField_of_disjoint (r : BitVec w) {h l h' l' : ℕ} (hdisj : h < l' ∨ h' < l)
    (c : BitVec w) : field (setField r h' l' c) h l = field r h l := by
  apply BitVec.eq_of_getLsbD_eq
  intro i hi
  simp only [field, setField, BitVec.getLsbD_ushiftRight, BitVec.getLsbD_and, BitVec.getLsbD_or,
    BitVec.getLsbD_not, BitVec.getLsbD_shiftLeft, getLsbD_fieldMask]
  by_cases hlt : l + i < w
  · by_cases hin : l + i ≤ h
    · have hout : ¬l' ≤ l + i ∨ ¬l + i ≤ h' := by omega
      rcases hout with hout | hout <;> simp [hlt, hout]
    · simp [hin]
  · simp [hlt]

/-- Setting bits outside the field leaves it alone. -/
theorem field_or_of_disjoint (r b : BitVec w) {h l : ℕ}
    (hb : ∀ i, l ≤ i → i ≤ h → b.getLsbD i = false) : field (r ||| b) h l = field r h l := by
  apply BitVec.eq_of_getLsbD_eq
  intro i hi
  simp only [field, BitVec.getLsbD_ushiftRight, BitVec.getLsbD_and, BitVec.getLsbD_or,
    getLsbD_fieldMask]
  by_cases hin : l + i ≤ h
  · simp [hb (l + i) (by omega) hin]
  · simp [hin]

/-- Clearing bits outside the field leaves it alone. -/
theorem field_and_of_covering (r b : BitVec w) {h l : ℕ}
    (hb : ∀ i, l ≤ i → i ≤ h → b.getLsbD i = true) : field (r &&& b) h l = field r h l := by
  apply BitVec.eq_of_getLsbD_eq
  intro i hi
  simp only [field, BitVec.getLsbD_ushiftRight, BitVec.getLsbD_and, getLsbD_fieldMask]
  by_cases hin : l + i ≤ h
  · simp [hb (l + i) (by omega) hin]
  · simp [hin]

end WiotaDev.RegisterFields
