import Mathlib.Order.Basic
import Mathlib.Data.Int.Order.Basic

/-! # Searching the place where a property of the integers stops to hold

The bounds of the search move past the code that was looked at, to either side. The codes next to
the crossing are both looked at on the way. -/

namespace WiotaDev.CrossingSearch

variable {high seen : ℤ → Prop} {lo hi left right mid : ℤ}

/-- What is known when the search has come down to the codes from `left` to `right`. -/
structure Bracket (high seen : ℤ → Prop) (lo hi left right : ℤ) : Prop where
  lo_le : lo ≤ left
  le_hi : right ≤ hi
  le : left ≤ right + 1
  below : ∀ c, lo ≤ c → c < left → high c
  above : ∀ c, right < c → c ≤ hi → ¬high c
  seen_left : left = lo ∨ seen (left - 1)
  seen_right : right = hi ∨ seen (right + 1)

/-- `k` is the first code that is not high, and it and the one before it were looked at. -/
structure Crossing (high seen : ℤ → Prop) (lo hi k : ℤ) : Prop where
  lo_le : lo ≤ k
  le_hi : k ≤ hi + 1
  below : ∀ c, lo ≤ c → c < k → high c
  above : ∀ c, k ≤ c → c ≤ hi → ¬high c
  seen_below : k = lo ∨ seen (k - 1)
  seen_above : k = hi + 1 ∨ seen k

theorem Bracket.start (h : lo ≤ hi) : Bracket high seen lo hi lo hi where
  lo_le := le_rfl
  le_hi := le_rfl
  le := by omega
  below c hc hlt := absurd hlt (not_lt.mpr hc)
  above c hlt hc := absurd hlt (not_lt.mpr hc)
  seen_left := .inl rfl
  seen_right := .inl rfl

theorem Bracket.mono {seen' : ℤ → Prop} (h : Bracket high seen lo hi left right)
    (hseen : ∀ c, seen c → seen' c) : Bracket high seen' lo hi left right :=
  { h with
    seen_left := h.seen_left.imp_right (hseen _)
    seen_right := h.seen_right.imp_right (hseen _) }

section Step
variable (h : Bracket high seen lo hi left right)
  (hdown : ∀ c c', lo ≤ c → c ≤ c' → c' ≤ hi → high c' → high c)
  (hmid : left ≤ mid) (hmid' : mid ≤ right) (hseen : seen mid)
include h hdown hmid hmid' hseen

theorem Bracket.up (hhigh : high mid) : Bracket high seen lo hi (mid + 1) right where
  lo_le := by have := h.lo_le; omega
  le_hi := h.le_hi
  le := by omega
  below c hc hlt := hdown c mid hc (by omega) (by have := h.le_hi; omega) hhigh
  above := h.above
  seen_left := .inr (by rwa [Int.add_sub_cancel])
  seen_right := h.seen_right

theorem Bracket.down (hlow : ¬high mid) : Bracket high seen lo hi left (mid - 1) where
  lo_le := h.lo_le
  le_hi := by have := h.le_hi; omega
  le := by omega
  below := h.below
  above c hlt hc hhigh := hlow (hdown mid c (by have := h.lo_le; omega) (by omega) hc hhigh)
  seen_left := h.seen_left
  seen_right := .inr (by rwa [Int.sub_add_cancel])

end Step

/-- When no more than one code is left and it is looked at, the crossing is found. -/
theorem Bracket.crossing (h : Bracket high seen lo hi left right) (hend : right ≤ left)
    (hseen : left = right → seen left) : ∃ k, Crossing high seen lo hi k := by
  have hle := h.le
  have hlo := h.lo_le
  have hhi := h.le_hi
  rcases eq_or_lt_of_le hend with heq | hlt
  · by_cases hhigh : high left
    · refine ⟨left + 1, by omega, by omega, fun c hc hlt => ?_, fun c hc hle' => ?_, ?_, ?_⟩
      · by_cases hc' : c = left
        · rwa [hc']
        · exact h.below c hc (by omega)
      · exact h.above c (by omega) hle'
      · exact .inr (by rw [Int.add_sub_cancel]; exact hseen heq.symm)
      · rw [← heq]
        exact h.seen_right.imp (by omega) id
    · refine ⟨left, hlo, by omega, h.below, fun c hc hle' => ?_, h.seen_left,
        .inr (hseen heq.symm)⟩
      by_cases hc' : c = left
      · rwa [hc']
      · exact h.above c (by omega) hle'
  · have hnext : left = right + 1 := by omega
    refine ⟨left, hlo, by omega, h.below, fun c hc hle' => h.above c (by omega) hle', h.seen_left,
      ?_⟩
    rw [hnext]
    exact h.seen_right.imp (by omega) id

end WiotaDev.CrossingSearch
