import Mathlib.Data.List.Count
import Mathlib.Data.List.Nodup
import Mathlib.Data.List.ProdSigma
import Mathlib.Data.List.Perm.Subperm

/-! # Lists with blanked entries, and the pairs from two lists

An entry that is not wanted may be removed or may be overwritten by a blank. Both leave the same
entries when the blanks that come into the result stand in for wanted blanks behind it. -/

namespace WiotaDev.BlankedLists

section Blanked
variable {α : Type*} (p : α → Bool) (z : α)

/-- The entries that are not wanted are overwritten. -/
def blanked (xs : List α) : List α := xs.map fun x => if p x then x else z

variable {p z}

theorem blanked_perm (xs : List α) :
    (blanked p z xs).Perm (xs.filter p ++ List.replicate (xs.countP fun x => !p x) z) := by
  induction xs with
  | nil => exact List.Perm.refl _
  | cons x xs ih =>
    have hcons : blanked p z (x :: xs) = (if p x then x else z) :: blanked p z xs := rfl
    rw [hcons, List.countP_cons]
    cases hx : p x with
    | true =>
      rw [List.filter_cons_of_pos hx, if_pos rfl, Bool.not_true, if_neg Bool.false_ne_true,
        Nat.add_zero, List.cons_append]
      exact ih.cons x
    | false =>
      have hneg : ¬ p x = true := by rw [hx]; exact Bool.false_ne_true
      rw [List.filter_cons_of_neg hneg, if_neg Bool.false_ne_true, Bool.not_false, if_pos rfl,
        List.replicate_succ]
      exact (ih.cons z).trans List.perm_middle.symm

/-- As many entries as are wanted are taken from the list in which the others are blanked: they are
the wanted ones exactly when no wanted entry behind them is other than blank. -/
theorem take_blanked_perm_iff (xs : List α) :
    ((blanked p z xs).take (xs.countP p)).Perm (xs.filter p) ↔
      ∀ x ∈ xs.drop (xs.countP p), p x = true → x = z := by
  have hlen : (xs.take (xs.countP p)).length = xs.countP p :=
    List.length_take_of_le List.countP_le_length
  have hsplit : xs.filter p =
      (xs.take (xs.countP p)).filter p ++ (xs.drop (xs.countP p)).filter p := by
    rw [← List.filter_append, List.take_append_drop]
  have hcount : (xs.take (xs.countP p)).countP (fun x => !p x) =
      ((xs.drop (xs.countP p)).filter p).length := by
    have hall := List.length_eq_countP_add_countP p (l := xs.take (xs.countP p))
    have hfilter := congrArg List.length hsplit
    rw [List.length_append, ← List.countP_eq_length_filter, ← List.countP_eq_length_filter,
      ← List.countP_eq_length_filter] at hfilter
    rw [← List.countP_eq_length_filter]
    have hnot : (xs.take (xs.countP p)).countP (fun x => !p x) =
        (xs.take (xs.countP p)).countP fun x => decide (¬ p x = true) := by
      congr 1
      funext x
      cases p x <;> rfl
    omega
  have htake : (blanked p z xs).take (xs.countP p) = blanked p z (xs.take (xs.countP p)) := by
    rw [blanked, blanked, List.map_take]
  rw [htake, hsplit, (blanked_perm _).congr_left, List.perm_append_left_iff, hcount,
    List.replicate_perm, eq_comm, List.eq_replicate_iff]
  simp only [true_and, List.mem_filter, and_imp]

end Blanked

section Pairs
variable {α β : Type*} [DecidableEq α] [DecidableEq β]

theorem count_product (xs : List α) (ys : List β) (a : α) (b : β) :
    (xs ×ˢ ys).count (a, b) = xs.count a * ys.count b := by
  induction xs with
  | nil => rw [List.nil_product, List.count_nil, List.count_nil, Nat.zero_mul]
  | cons x xs ih =>
    rw [List.product_cons, List.count_append, ih, List.count_cons]
    by_cases h : x = a
    · have hmap : (ys.map fun b => (x, b)).count (a, b) = ys.count b := by
        rw [h]
        exact List.count_map_of_injective ys _ (fun _ _ heq => (Prod.mk.inj heq).2) b
      rw [hmap, if_pos (beq_iff_eq.mpr h), Nat.add_mul, Nat.one_mul, Nat.add_comm]
    · have hmap : (ys.map fun b => (x, b)).count (a, b) = 0 := by
        rw [List.count_eq_zero]
        intro hmem
        obtain ⟨y, -, hy⟩ := List.mem_map.mp hmem
        exact h (Prod.mk.inj hy).1
      rw [hmap, if_neg fun hb => h (beq_iff_eq.mp hb), Nat.zero_add, Nat.add_zero]

theorem product_perm_iff {xs : List α} (hne : xs ≠ []) {ys zs : List β} :
    (xs ×ˢ ys).Perm (xs ×ˢ zs) ↔ ys.Perm zs := by
  constructor
  · intro h
    obtain ⟨x, hx⟩ := List.exists_mem_of_ne_nil xs hne
    rw [List.perm_iff_count]
    intro b
    have hcount := h.count_eq (x, b)
    rw [count_product, count_product] at hcount
    exact Nat.eq_of_mul_eq_mul_left (List.count_pos_iff.mpr hx) hcount
  · intro h
    rw [List.perm_iff_count]
    rintro ⟨a, b⟩
    rw [count_product, count_product, h.count_eq]

theorem nodup_product_iff {xs : List α} {ys : List β} (hx : xs ≠ []) (hy : ys ≠ []) :
    (xs ×ˢ ys).Nodup ↔ xs.Nodup ∧ ys.Nodup := by
  constructor
  · intro h
    obtain ⟨x, hx⟩ := List.exists_mem_of_ne_nil xs hx
    obtain ⟨y, hy⟩ := List.exists_mem_of_ne_nil ys hy
    rw [List.nodup_iff_count_le_one] at h
    refine ⟨List.nodup_iff_count_le_one.mpr fun a => ?_, List.nodup_iff_count_le_one.mpr fun b => ?_⟩
    · have hcount := h (a, y)
      rw [count_product] at hcount
      exact Nat.le_trans (Nat.le_mul_of_pos_right _ (List.count_pos_iff.mpr hy)) hcount
    · have hcount := h (x, b)
      rw [count_product] at hcount
      exact Nat.le_trans (Nat.le_mul_of_pos_left _ (List.count_pos_iff.mpr hx)) hcount
  · rintro ⟨hxs, hys⟩
    exact hxs.product hys

end Pairs

end WiotaDev.BlankedLists
