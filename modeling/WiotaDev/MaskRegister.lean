import Mathlib.Data.BitVec
import Mathlib.Data.Set.Insert

/-! # Single bits of a register, and words that cover a mask -/

namespace WiotaDev.MaskRegister

variable {w : ℕ}

/-- `r |= 1 << i`. -/
def setBit (r : BitVec w) (i : ℕ) : BitVec w :=
  r ||| (1#w <<< i)

/-- `r &= ~(1 << i)`. -/
def clearBit (r : BitVec w) (i : ℕ) : BitVec w :=
  r &&& ~~~(1#w <<< i)

private theorem getLsbD_one_shift (i j : ℕ) :
    (1#w <<< i).getLsbD j = (decide (j < w) && decide (j = i)) := by
  rw [← BitVec.twoPow_eq, BitVec.getLsbD_twoPow]
  by_cases h : j = i
  · subst h
    simp
  · simp [h, Ne.symm h]

theorem getLsbD_setBit (r : BitVec w) {i : ℕ} (hi : i < w) (j : ℕ) :
    (setBit r i).getLsbD j = (decide (j = i) || r.getLsbD j) := by
  rw [setBit, BitVec.getLsbD_or, getLsbD_one_shift]
  by_cases h : j = i
  · subst h
    simp [hi]
  · simp [h]

theorem getLsbD_clearBit (r : BitVec w) (i j : ℕ) :
    (clearBit r i).getLsbD j = (!decide (j = i) && r.getLsbD j) := by
  rw [clearBit, BitVec.getLsbD_and, BitVec.getLsbD_not, getLsbD_one_shift]
  by_cases hj : j < w
  · by_cases h : j = i
    · simp [h]
    · simp [hj, h]
  · rw [BitVec.getLsbD_of_ge r j (not_lt.mp hj)]
    simp

/-- A word is a single bit when that bit is set and no other one is. -/
theorem one_shift_eq_iff {r : BitVec w} {i : ℕ} (hi : i < w) :
    1#w <<< i = r ↔ r.getLsbD i = true ∧ ∀ j, r.getLsbD j = true → j = i := by
  constructor
  · rintro rfl
    refine ⟨by rw [getLsbD_one_shift]; simp [hi], fun j hj => ?_⟩
    rw [getLsbD_one_shift, Bool.and_eq_true] at hj
    exact of_decide_eq_true hj.2
  · rintro ⟨hset, hother⟩
    refine BitVec.eq_of_getLsbD_eq fun j hj => ?_
    rw [getLsbD_one_shift, decide_eq_true hj, Bool.true_and]
    by_cases hji : j = i
    · rw [hji, hset, decide_eq_true rfl]
    · rw [decide_eq_false hji]
      by_contra hbit
      exact hji (hother j (by simpa using (Ne.symm hbit)))

theorem andNot_eq_self_iff {r x : BitVec w} : r &&& ~~~x = r ↔ r &&& x = 0#w := by
  constructor
  · intro h
    refine BitVec.eq_of_getLsbD_eq fun j hj => ?_
    have hbit := congrArg (BitVec.getLsbD · j) h
    simp only [BitVec.getLsbD_and, BitVec.getLsbD_not, hj, decide_true, Bool.true_and] at hbit
    rw [BitVec.getLsbD_and, BitVec.getLsbD_zero]
    revert hbit
    cases r.getLsbD j <;> cases x.getLsbD j <;> decide
  · intro h
    refine BitVec.eq_of_getLsbD_eq fun j hj => ?_
    have hbit := congrArg (BitVec.getLsbD · j) h
    simp only [BitVec.getLsbD_and, BitVec.getLsbD_zero] at hbit
    rw [BitVec.getLsbD_and, BitVec.getLsbD_not, decide_eq_true hj]
    revert hbit
    cases r.getLsbD j <;> cases x.getLsbD j <;> decide

/-- Every bit of the mask is a bit of one of the words. -/
def CoveredBy (mask : BitVec w) (words : Set (BitVec w)) : Prop :=
  ∀ j, mask.getLsbD j = true → ∃ x ∈ words, x.getLsbD j = true

theorem CoveredBy.zero (words : Set (BitVec w)) : CoveredBy 0#w words := by
  intro j hj
  simp at hj

theorem CoveredBy.mono {mask : BitVec w} {words words' : Set (BitVec w)} (h : CoveredBy mask words)
    (hsub : words ⊆ words') : CoveredBy mask words' := by
  intro j hj
  obtain ⟨x, hx, hxj⟩ := h j hj
  exact ⟨x, hsub hx, hxj⟩

theorem CoveredBy.or {mask : BitVec w} {words : Set (BitVec w)} (h : CoveredBy mask words)
    (x : BitVec w) : CoveredBy (mask ||| x) (insert x words) := by
  intro j hj
  rw [BitVec.getLsbD_or, Bool.or_eq_true] at hj
  rcases hj with hj | hj
  · obtain ⟨y, hy, hyj⟩ := h j hj
    exact ⟨y, Set.mem_insert_of_mem x hy, hyj⟩
  · exact ⟨x, Set.mem_insert x words, hj⟩

/-- Clearing a word's bits leaves only bits of the other words. -/
theorem CoveredBy.andNot {mask : BitVec w} {words : Set (BitVec w)} (h : CoveredBy mask words)
    (x : BitVec w) : CoveredBy (mask &&& ~~~x) (words \ {x}) := by
  intro j hj
  rw [BitVec.getLsbD_and, BitVec.getLsbD_not, Bool.and_eq_true, Bool.and_eq_true] at hj
  obtain ⟨y, hy, hyj⟩ := h j hj.1
  refine ⟨y, ⟨hy, ?_⟩, hyj⟩
  rintro rfl
  rw [hyj] at hj
  exact absurd hj.2.2 (by decide)

/-- A mask with a bit set is covered by at least one word. -/
theorem CoveredBy.nonempty {mask : BitVec w} {words : Set (BitVec w)} (h : CoveredBy mask words)
    (hne : mask ≠ 0#w) : words.Nonempty := by
  by_contra hempty
  refine hne (BitVec.eq_of_getLsbD_eq fun j _ => ?_)
  rw [BitVec.getLsbD_zero]
  by_contra hj
  obtain ⟨x, hx, -⟩ := h j ((Bool.not_eq_false _).mp hj)
  exact hempty ⟨x, hx⟩

end WiotaDev.MaskRegister
