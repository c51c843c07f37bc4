import Mathlib.Algebra.BigOperators.Intervals
import Mathlib.Algebra.BigOperators.Ring.Finset
import Mathlib.Algebra.Order.BigOperators.Group.Finset

/-! # A distance walked off along consecutive stretches

Stretch `k` is `len k` long. Walking `x` from the start of stretch `i` ends in one stretch `j`
at one place `r` inside it. -/

namespace WiotaDev.StretchWalk
open Finset

variable {len : ℕ → ℕ}

/-- From the start of stretch `i` to the start of stretch `j`. -/
def distance (len : ℕ → ℕ) (i j : ℕ) : ℕ := ∑ k ∈ Ico i j, len k

/-- Walking `x` from the start of stretch `i` ends at `r` in stretch `j`. -/
structure Ends (len : ℕ → ℕ) (i x j r : ℕ) : Prop where
  le : i ≤ j
  total : distance len i j + r = x
  inside : r < len j

@[simp] theorem distance_self (i : ℕ) : distance len i i = 0 := by simp [distance]

theorem distance_add {i j k : ℕ} (hij : i ≤ j) (hjk : j ≤ k) :
    distance len i j + distance len j k = distance len i k :=
  sum_Ico_consecutive len hij hjk

theorem distance_succ {i j : ℕ} (h : i ≤ j) :
    distance len i (j + 1) = distance len i j + len j :=
  sum_Ico_succ_top h len

theorem distance_first {i j : ℕ} (h : i < j) :
    distance len i j = len i + distance len (i + 1) j :=
  sum_eq_sum_Ico_succ_bot h len

theorem distance_mono {i j k : ℕ} (h : j ≤ k) : distance len i j ≤ distance len i k :=
  sum_le_sum_of_subset (Ico_subset_Ico_right h)

theorem distance_mul (c i j : ℕ) : distance (fun k => len k * c) i j = distance len i j * c :=
  (sum_mul (Ico i j) len c).symm

theorem Ends.stop {i x : ℕ} (h : x < len i) : Ends len i x i x :=
  ⟨le_rfl, by rw [distance_self, Nat.zero_add], h⟩

/-- A whole stretch walked off. -/
theorem Ends.step {i x j r : ℕ} (hx : len i ≤ x) (h : Ends len (i + 1) (x - len i) j r) :
    Ends len i x j r := by
  have hle := h.le
  have htotal := h.total
  refine ⟨by omega, ?_, h.inside⟩
  rw [distance_first (by omega)]
  omega

/-- What is short of the start of stretch `n` ends before it. -/
theorem Ends.lt {i x j r n : ℕ} (h : Ends len i x j r) (hx : x < distance len i n) : j < n := by
  by_contra hn
  have hmono : distance len i n ≤ distance len i j := distance_mono (not_lt.mp hn)
  have htotal := h.total
  omega

/-- The walk ends in one place only. -/
theorem Ends.unique {i x j r j' r' : ℕ} (h : Ends len i x j r) (h' : Ends len i x j' r') :
    j = j' ∧ r = r' := by
  have hnot : ∀ {a p b q : ℕ}, Ends len i x a p → Ends len i x b q → ¬a < b := by
    intro a p b q ha hb hlt
    have hmono : distance len i (a + 1) ≤ distance len i b := distance_mono (by omega)
    rw [distance_succ ha.le] at hmono
    have hp := ha.inside
    have hta := ha.total
    have htb := hb.total
    omega
  obtain rfl : j = j' := le_antisymm (not_lt.mp (hnot h' h)) (not_lt.mp (hnot h h'))
  have ht := h.total
  have ht' := h'.total
  exact ⟨rfl, by omega⟩

end WiotaDev.StretchWalk
