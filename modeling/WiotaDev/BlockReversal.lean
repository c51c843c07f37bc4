import Mathlib.Data.Nat.Basic
import Mathlib.Tactic.SplitIfs
import Mathlib.Data.List.Range

/-! # Sequences in blocks of one width, and the reversal of each block -/

namespace WiotaDev.BlockReversal

variable {α : Type*} {w : ℕ}

/-- The position opposite to `i` in its block. -/
def mirror (w i : ℕ) : ℕ := w * (i / w) + (w - 1 - i % w)

/-- The first `n` blocks reversed, and everything behind them as it was. -/
def reverseBlocks (w n : ℕ) (f : ℕ → α) (i : ℕ) : α := if i / w < n then f (mirror w i) else f i

/-- The first `n` blocks read the same in both directions. -/
def Palindromic (w n : ℕ) (f : ℕ → α) : Prop :=
  ∀ k < n, ∀ j < w, f (w * k + j) = f (w * k + (w - 1 - j))

instance [DecidableEq α] (w n : ℕ) (f : ℕ → α) : Decidable (Palindromic w n f) :=
  inferInstanceAs (Decidable (∀ k < n, ∀ j < w, f (w * k + j) = f (w * k + (w - 1 - j))))

private theorem block_div {k j : ℕ} (hj : j < w) : (w * k + j) / w = k := by
  rw [Nat.mul_add_div (by omega), Nat.div_eq_of_lt hj, Nat.add_zero]

private theorem block_mod {k j : ℕ} (hj : j < w) : (w * k + j) % w = j := by
  rw [Nat.mul_add_mod, Nat.mod_eq_of_lt hj]

theorem mirror_block (k : ℕ) {j : ℕ} (hj : j < w) :
    mirror w (w * k + j) = w * k + (w - 1 - j) := by
  rw [mirror, block_div hj, block_mod hj]

/-- Every position is some place in some block. -/
theorem exists_block (hw : 0 < w) (i : ℕ) : ∃ k j, j < w ∧ i = w * k + j :=
  ⟨i / w, i % w, Nat.mod_lt i hw, (Nat.div_add_mod i w).symm⟩

theorem reverseBlocks_of_lt {n k j : ℕ} (f : ℕ → α) (hk : k < n) (hj : j < w) :
    reverseBlocks w n f (w * k + j) = f (w * k + (w - 1 - j)) := by
  rw [reverseBlocks, block_div hj, if_pos hk, mirror_block k hj]

theorem reverseBlocks_of_le {n k j : ℕ} (f : ℕ → α) (hk : n ≤ k) (hj : j < w) :
    reverseBlocks w n f (w * k + j) = f (w * k + j) := by
  rw [reverseBlocks, block_div hj, if_neg (not_lt.mpr hk)]

@[simp] theorem reverseBlocks_zero (f : ℕ → α) : reverseBlocks w 0 f = f := by
  funext i
  exact if_neg (Nat.not_lt_zero _)

/-- Blocks are reversed one after the other. -/
theorem reverseBlocks_succ (hw : 0 < w) (n : ℕ) (f : ℕ → α) (i : ℕ) :
    reverseBlocks w (n + 1) f i = if i / w = n then f (mirror w i) else reverseBlocks w n f i := by
  obtain ⟨k, j, hj, rfl⟩ := exists_block hw i
  simp only [reverseBlocks, block_div hj]
  split_ifs <;> first | rfl | omega

/-- The reversal changes nothing exactly when every block is a palindrome. -/
theorem reverseBlocks_eq_self_iff (hw : 0 < w) (n : ℕ) (f : ℕ → α) :
    reverseBlocks w n f = f ↔ Palindromic w n f := by
  constructor
  · intro h k hk j hj
    rw [← reverseBlocks_of_lt f hk hj, h]
  · intro h
    funext i
    obtain ⟨k, j, hj, rfl⟩ := exists_block hw i
    by_cases hk : k < n
    · rw [reverseBlocks_of_lt f hk hj, h k hk j hj]
    · exact reverseBlocks_of_le f (not_lt.mp hk) hj

/-- The values at the first positions, read block by block. -/
theorem flatMap_range_blocks (f : ℕ → α) (w n : ℕ) :
    (List.range n).flatMap (fun k => (List.range w).map fun j => f (w * k + j)) =
      (List.range (w * n)).map f := by
  induction n with
  | zero => rfl
  | succ n ih =>
    rw [List.range_succ, List.flatMap_append, ih, Nat.mul_succ, List.range_add, List.map_append,
      List.map_map, List.flatMap_cons, List.flatMap_nil, List.append_nil]
    rfl

end WiotaDev.BlockReversal
