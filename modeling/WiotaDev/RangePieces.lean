import Mathlib.Data.List.Basic
import Mathlib.Algebra.Order.Group.Nat
import Mathlib.Tactic.SplitIfs

/-! # A range cut into consecutive pieces

A piece has a start and a length; which data it carries is left open. -/

namespace WiotaDev.RangePieces

variable {α : Type*} (start len : α → ℕ)

/-- The pieces lie end to end and fill `[lo, hi)`. -/
def Consecutive : ℕ → List α → ℕ → Prop
  | lo, [], hi => lo = hi
  | lo, p :: ps, hi => start p = lo ∧ Consecutive (lo + len p) ps hi

/-- The piece holds the position `a`. -/
def Holds (a : ℕ) (p : α) : Prop := start p ≤ a ∧ a < start p + len p

instance (a : ℕ) (p : α) : Decidable (Holds start len a p) := inferInstanceAs (Decidable (_ ∧ _))

variable {start len}

theorem Consecutive.le {lo hi : ℕ} {ps : List α} (h : Consecutive start len lo ps hi) :
    lo ≤ hi := by
  induction ps generalizing lo with
  | nil => exact le_of_eq h
  | cons p ps ih => exact (Nat.le_add_right lo _).trans (ih h.2)

theorem Consecutive.append {lo mid hi : ℕ} {ps qs : List α} (hp : Consecutive start len lo ps mid)
    (hq : Consecutive start len mid qs hi) : Consecutive start len lo (ps ++ qs) hi := by
  induction ps generalizing lo with
  | nil =>
    obtain rfl : lo = mid := hp
    exact hq
  | cons p ps ih => exact ⟨hp.1, ih hp.2⟩

/-- Every position of the range is in exactly one piece and no other position is in any. -/
theorem Consecutive.countP_holds {lo hi : ℕ} {ps : List α} (h : Consecutive start len lo ps hi)
    (a : ℕ) : (ps.countP fun p => Holds start len a p) = if lo ≤ a ∧ a < hi then 1 else 0 := by
  induction ps generalizing lo with
  | nil =>
    obtain rfl : lo = hi := h
    rw [List.countP_nil, if_neg (by omega)]
  | cons p ps ih =>
    obtain ⟨hstart, hrest⟩ := h
    have hle := hrest.le
    rw [List.countP_cons, ih hrest]
    simp only [Holds, hstart, decide_eq_true_eq]
    split_ifs <;> omega

end WiotaDev.RangePieces
