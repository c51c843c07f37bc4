import Mathlib.Algebra.Ring.Divisibility.Basic
import Mathlib.Data.Nat.ModEq
import Mathlib.Order.Bounds.Basic
import Mathlib.Tactic.Linarith

/-! # Slots of a wrapping counter

A counter counts modulo `W`, and every value congruent to `t` modulo `p` opens a slot. The first
part counts the steps to the next slot, the second divides a duration into equal periods under a
greatest length. Nothing here depends on a particular program. -/

namespace WiotaDev.SlotCycles

variable {W p t c : ℕ}

/-- The next slot opens after `n` steps. -/
def NextSlot (W p t c n : ℕ) : Prop := IsLeast {m | 1 ≤ m ∧ (c + m) % W % p = t} n

/-- The steps to the next slot of a counter that does not wrap. -/
def lead (p t c : ℕ) : ℕ := if c % p < t then t - c % p else p + t - c % p

/-- The steps to the next slot: behind the wrap the counter begins at zero. -/
def wrappedLead (W p t c : ℕ) : ℕ := if c + lead p t c < W then lead p t c else W - c + t

theorem lead_pos (hp : 0 < p) : 1 ≤ lead p t c := by
  have h := Nat.mod_lt c hp
  rw [lead]
  split <;> omega

/-- In the slot a whole period leads to the next one. -/
theorem lead_of_mod_eq (h : c % p = t) : lead p t c = p := by
  rw [lead, if_neg (by omega)]
  omega

theorem add_lead_mod (ht : t < p) : (c + lead p t c) % p = t := by
  have h := Nat.mod_lt c (Nat.zero_lt_of_lt ht)
  rw [lead]
  split
  · rw [← Nat.mod_add_mod, show c % p + (t - c % p) = t by omega, Nat.mod_eq_of_lt ht]
  · rw [← Nat.mod_add_mod, show c % p + (p + t - c % p) = t + p by omega, Nat.add_mod_right,
      Nat.mod_eq_of_lt ht]

theorem add_mod_ne {m : ℕ} (ht : t < p) (hm : 1 ≤ m) (hl : m < lead p t c) : (c + m) % p ≠ t := by
  have h := Nat.mod_lt c (Nat.zero_lt_of_lt ht)
  rw [lead] at hl
  rw [← Nat.mod_add_mod]
  by_cases hlt : c % p + m < p
  · rw [Nat.mod_eq_of_lt hlt]
    split at hl <;> omega
  · rw [Nat.mod_eq_sub_mod (Nat.le_of_not_lt hlt), Nat.mod_eq_of_lt (by split at hl <;> omega)]
    split at hl <;> omega

/-- The remainder by which the steps are counted back from a whole period. -/
theorem sub_mod_eq_lead (ht : t < p) : p - (c + p - t) % p = lead p t c := by
  have h := Nat.mod_lt c (Nat.zero_lt_of_lt ht)
  rw [show c + p - t = c + (p - t) by omega, ← Nat.mod_add_mod, lead]
  split
  · rw [Nat.mod_eq_of_lt (by omega)]
    omega
  · rw [Nat.mod_eq_sub_mod (by omega), Nat.mod_eq_of_lt (by omega)]
    omega

theorem nextSlot_wrappedLead (ht : t < p) (hc : c < W) (hW : p ≤ W) :
    NextSlot W p t c (wrappedLead W p t c) := by
  have hp := lead_pos (p := p) (t := t) (c := c) (Nat.zero_lt_of_lt ht)
  rw [wrappedLead]
  split
  case isTrue h =>
    refine ⟨⟨hp, ?_⟩, fun m hm => ?_⟩
    · rw [Nat.mod_eq_of_lt h, add_lead_mod ht]
    · obtain ⟨hpos, hslot⟩ := hm
      by_contra hlt
      have hfree := add_mod_ne ht hpos (Nat.lt_of_not_le hlt)
      rw [Nat.mod_eq_of_lt (show c + m < W by omega)] at hslot
      exact hfree hslot
  case isFalse h =>
    refine ⟨⟨by omega, ?_⟩, fun m hm => ?_⟩
    · rw [show c + (W - c + t) = t + W by omega, Nat.add_mod_right,
        Nat.mod_eq_of_lt (Nat.lt_of_lt_of_le ht hW), Nat.mod_eq_of_lt ht]
    · obtain ⟨hpos, hslot⟩ := hm
      by_contra hlt
      by_cases hwrap : c + m < W
      · have hfree := add_mod_ne (m := m) (c := c) ht hpos (by omega)
        rw [Nat.mod_eq_of_lt hwrap] at hslot
        exact hfree hslot
      · have hlow : c + m - W < t := by omega
        rw [Nat.mod_eq_sub_mod (Nat.le_of_not_lt hwrap),
          Nat.mod_eq_of_lt (show c + m - W < W by omega),
          Nat.mod_eq_of_lt (show c + m - W < p by omega)] at hslot
        omega

/-- The next slot is the only one. -/
theorem nextSlot_iff {n : ℕ} (ht : t < p) (hc : c < W) (hW : p ≤ W) :
    NextSlot W p t c n ↔ n = wrappedLead W p t c := by
  have hnext := nextSlot_wrappedLead ht hc hW
  constructor
  · intro h
    exact h.unique hnext
  · rintro rfl
    exact hnext

theorem le_add_lead (ht : t < p) : t ≤ c + lead p t c := by
  have h := Nat.mod_lt c (Nat.zero_lt_of_lt ht)
  have hle := Nat.mod_le c p
  rw [lead]
  split <;> omega

/-- The steps to the slot before and behind the wrap differ by a multiple of `W` over `f`. -/
theorem mul_lead_modEq_iff (ht : t < p) (hc : c < W) (f : ℕ) :
    f * lead p t c ≡ f * (W - c + t) [MOD W] ↔ W ∣ f * (c + lead p t c - t) := by
  have hle := le_add_lead (c := c) ht
  have hsplit : f * lead p t c + f * W = f * (W - c + t) + f * (c + lead p t c - t) := by
    rw [← Nat.mul_add, ← Nat.mul_add]
    congr 1
    omega
  rw [Nat.ModEq.comm, Nat.modEq_iff_dvd, ← Int.natCast_dvd_natCast]
  have hint : ((f * lead p t c : ℕ) : ℤ) - (f * (W - c + t) : ℕ) =
      (f * (c + lead p t c - t) : ℕ) - W * f := by
    have h := congrArg (Nat.cast (R := ℤ)) hsplit
    push_cast at h ⊢
    linarith
  rw [hint]
  exact dvd_sub_left (dvd_mul_right _ _)

/-- A duration over the number of periods that keeps each under the greatest length. -/
theorem period_bounds {s greatest : ℕ} (hs : 1 ≤ s) (hg : 0 < greatest) :
    1 ≤ s / ((s - 1) / greatest + 1) ∧ s / ((s - 1) / greatest + 1) ≤ greatest := by
  have hcover : s ≤ greatest * ((s - 1) / greatest + 1) := by
    have h := Nat.lt_mul_div_succ (s - 1) hg
    omega
  have hcount : (s - 1) / greatest + 1 ≤ s := by
    have h := Nat.div_le_self (s - 1) greatest
    omega
  constructor
  · exact Nat.div_pos hcount (Nat.succ_pos _)
  · exact Nat.div_le_of_le_mul (by rwa [Nat.mul_comm] at hcover)

/-- The periods cover the duration but for less than one unit each. -/
theorem period_mul_bounds (s n : ℕ) (hn : 0 < n) : s / n * n ≤ s ∧ s < s / n * n + n :=
  ⟨Nat.div_mul_le_self s n, Nat.lt_div_mul_add hn⟩

end WiotaDev.SlotCycles
