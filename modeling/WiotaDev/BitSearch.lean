import Mathlib.Data.BitVec
import Mathlib.Data.List.MinMax
import Mathlib.Algebra.Order.Group.Nat
import Mathlib.Tactic.SplitIfs

/-! # Searching a code bit by bit

The highest bit is tried first. A code that is judged too high loses the bit it tried, one that is
judged too low keeps it, and one that is neither ends the search. When the lowest bit is lost, the
code without it is tried as well. -/

namespace WiotaDev.BitSearch

inductive Verdict | high | low | inside deriving DecidableEq

/-- The codes tried with `n` bits to go, when the bits above them are those of `p`. -/
def tried (verdict : ℕ → Verdict) : ℕ → ℕ → List ℕ
  | 0, _ => []
  | n + 1, p =>
    (p + 2 ^ n) :: match verdict (p + 2 ^ n) with
      | .inside => []
      | .low => tried verdict n (p + 2 ^ n)
      | .high => if n = 0 then [p] else tried verdict n p

variable {verdict : ℕ → Verdict}

theorem tried_inside {n p : ℕ} (h : verdict (p + 2 ^ n) = .inside) :
    tried verdict (n + 1) p = [p + 2 ^ n] := by rw [tried, h]

theorem tried_low {n p : ℕ} (h : verdict (p + 2 ^ n) = .low) :
    tried verdict (n + 1) p = (p + 2 ^ n) :: tried verdict n (p + 2 ^ n) := by rw [tried, h]

theorem tried_high {n p : ℕ} (h : verdict (p + 2 ^ n) = .high) :
    tried verdict (n + 1) p =
      (p + 2 ^ n) :: if n = 0 then [p] else tried verdict n p := by rw [tried, h]

/-- The codes tried have the bits they started from. -/
theorem tried_range {n p c : ℕ} (hc : c ∈ tried verdict n p) : p ≤ c ∧ c < p + 2 ^ n := by
  induction n generalizing p with
  | zero => exact absurd hc List.not_mem_nil
  | succ n ih =>
    have hpow : 2 ^ (n + 1) = 2 ^ n + 2 ^ n := by rw [Nat.pow_succ]; omega
    have hpos : 0 < 2 ^ n := Nat.two_pow_pos n
    cases h : verdict (p + 2 ^ n) with
    | inside =>
      rw [tried_inside h] at hc
      obtain rfl := List.mem_singleton.mp hc
      omega
    | low =>
      rw [tried_low h] at hc
      rcases List.mem_cons.mp hc with rfl | hc
      · omega
      · have hin := ih hc
        omega
    | high =>
      rw [tried_high h] at hc
      rcases List.mem_cons.mp hc with rfl | hc
      · omega
      · by_cases hn : n = 0
        · rw [if_pos hn] at hc
          obtain rfl := List.mem_singleton.mp hc
          omega
        · rw [if_neg hn] at hc
          have hin := ih hc
          omega

/-- For verdicts that follow the order of the codes the search finds a code inside if there is
one. -/
theorem exists_inside (verdict : ℕ → Verdict) (top : ℕ)
    (hhigh : ∀ c d, c ≤ d → d < top → verdict c = .high → verdict d = .high)
    (hlow : ∀ c d, c ≤ d → d < top → verdict d = .low → verdict c = .low) {n p : ℕ}
    (htop : p + 2 ^ (n + 1) ≤ top)
    (h : ∃ c, p ≤ c ∧ c < p + 2 ^ (n + 1) ∧ verdict c = .inside) :
    ∃ c ∈ tried verdict (n + 1) p, verdict c = .inside := by
  induction n generalizing p with
  | zero =>
    obtain ⟨c, hp, hc, hin⟩ := h
    cases hv : verdict (p + 2 ^ 0) with
    | inside => exact ⟨p + 2 ^ 0, by rw [tried_inside hv]; exact List.mem_cons_self, hv⟩
    | low =>
      have habs := hlow c (p + 2 ^ 0) (by omega) (by omega) hv
      exact absurd (hin.symm.trans habs) (by simp)
    | high =>
      have hne : c ≠ p + 2 ^ 0 := by
        rintro rfl
        exact absurd (hin.symm.trans hv) (by simp)
      obtain rfl : c = p := by omega
      exact ⟨c, by rw [tried_high hv, if_pos rfl]; simp, hin⟩
  | succ n ih =>
    obtain ⟨c, hp, hc, hin⟩ := h
    have hpow : 2 ^ (n + 1 + 1) = 2 ^ (n + 1) + 2 ^ (n + 1) := by rw [Nat.pow_succ]; omega
    have hpos : 0 < 2 ^ (n + 1) := Nat.two_pow_pos (n + 1)
    cases hv : verdict (p + 2 ^ (n + 1)) with
    | inside => exact ⟨_, by rw [tried_inside hv]; exact List.mem_cons_self, hv⟩
    | low =>
      have hgt : p + 2 ^ (n + 1) ≤ c := by
        by_contra hlt
        have habs := hlow c _ (not_le.mp hlt).le (by omega) hv
        exact absurd (hin.symm.trans habs) (by simp)
      obtain ⟨d, hd, hdin⟩ := ih (by omega) ⟨c, hgt, by omega, hin⟩
      exact ⟨d, by rw [tried_low hv]; exact List.mem_cons_of_mem _ hd, hdin⟩
    | high =>
      have hlt : c < p + 2 ^ (n + 1) := by
        by_contra hge
        have habs := hhigh _ c (not_lt.mp hge) (by omega) hv
        exact absurd (hin.symm.trans habs) (by simp)
      obtain ⟨d, hd, hdin⟩ := ih (by omega) ⟨c, hp, hlt, hin⟩
      refine ⟨d, ?_, hdin⟩
      rw [tried_high hv, if_neg (by omega)]
      exact List.mem_cons_of_mem _ hd

/-- With bits to go something is tried. -/
theorem tried_ne_nil {n : ℕ} (hn : n ≠ 0) (p : ℕ) : tried verdict n p ≠ [] := by
  obtain ⟨k, rfl⟩ := Nat.exists_eq_succ_of_ne_zero hn
  rw [tried]
  exact List.cons_ne_nil _ _

section Best
variable {β : Type*} (cost : ℕ → ℕ) (record : ℕ → β) (costOf : β → ℕ)

/-- Keeping the record of a code that is strictly better. -/
def keep (b : β) (c : ℕ) : β := if cost c < costOf b then record c else b

variable {cost record costOf}

/-- What is kept over a list is the record of the first code of least cost. -/
theorem foldl_keep (hrecord : ∀ c, costOf (record c) = cost c) {init : β}
    (hinit : ∀ c, cost c < costOf init) (cs : List ℕ) :
    cs.foldl (keep cost record costOf) init = (cs.argmin cost).elim init record := by
  induction cs using List.reverseRecOn with
  | nil => rfl
  | append_singleton cs c ih =>
    rw [List.foldl_append, List.foldl_cons, List.foldl_nil, ih, List.argmin_concat]
    cases cs.argmin cost with
    | none => exact if_pos (hinit c)
    | some a =>
      simp only [Option.elim_some, keep, hrecord]
      split_ifs <;> rfl

end Best

section Bits
variable {w : ℕ}

/-- Setting a bit below the bits of a code. -/
theorem ofNat_or_two_pow {p k : ℕ} (hp : p % 2 ^ (k + 1) = 0) :
    BitVec.ofNat w p ||| BitVec.ofNat w (2 ^ k) = BitVec.ofNat w (p + 2 ^ k) := by
  obtain ⟨a, rfl⟩ := Nat.dvd_of_mod_eq_zero hp
  have hlt : 2 ^ k < 2 ^ (k + 1) := Nat.pow_lt_pow_right (by omega) (by omega)
  rw [Nat.two_pow_add_eq_or_of_lt hlt]
  apply BitVec.eq_of_getLsbD_eq
  intro i hi
  simp [hi]

/-- Taking that bit away again. -/
theorem ofNat_and_not_two_pow {p k : ℕ} (hp : p % 2 ^ (k + 1) = 0) :
    BitVec.ofNat w (p + 2 ^ k) &&& ~~~BitVec.ofNat w (2 ^ k) = BitVec.ofNat w p := by
  have hbit : p.testBit k = false := by
    obtain ⟨a, rfl⟩ := Nat.dvd_of_mod_eq_zero hp
    rw [Nat.testBit_two_pow_mul]
    simp
  rw [← ofNat_or_two_pow hp]
  apply BitVec.eq_of_getLsbD_eq
  intro i hi
  simp only [BitVec.getLsbD_and, BitVec.getLsbD_or, BitVec.getLsbD_not, BitVec.getLsbD_ofNat, hi,
    Nat.testBit_two_pow]
  by_cases hk : k = i
  · rw [← hk, hbit]
    simp
  · simp [hk]

theorem ofNat_two_pow_shift {k : ℕ} (hk : k + 1 < w) :
    BitVec.ofNat w (2 ^ (k + 1)) >>> 1 = BitVec.ofNat w (2 ^ k) := by
  apply BitVec.eq_of_toNat_eq
  rw [BitVec.toNat_ushiftRight, BitVec.toNat_ofNat, BitVec.toNat_ofNat,
    Nat.mod_eq_of_lt (Nat.pow_lt_pow_right (by omega) hk),
    Nat.mod_eq_of_lt (Nat.pow_lt_pow_right (by omega) (by omega)), Nat.shiftRight_eq_div_pow,
    Nat.pow_succ, Nat.pow_one, Nat.mul_div_cancel _ (by omega)]

end Bits

end WiotaDev.BitSearch
