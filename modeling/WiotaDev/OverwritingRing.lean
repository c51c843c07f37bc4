import Mathlib.Data.Fintype.Card
import Mathlib.Data.List.Nodup
import Mathlib.Data.Nat.ModEq

/-! # A ring that overwrites its oldest item

Items are written at successive positions of `n` cells, modulo `n`, so that the cells always hold the
last `n` items. From the next position on, the cells are in the order in which they were written. -/

namespace WiotaDev.OverwritingRing

variable {α : Type*} {n : ℕ}

/-- The last `n` items of a list, all of them where there are no more. -/
def latest (n : ℕ) (xs : List α) : List α := xs.drop (xs.length - n)

/-- While there is room the next item comes behind the others. -/
theorem latest_snoc_of_lt {xs : List α} (x : α) (h : xs.length < n) :
    latest n (xs ++ [x]) = latest n xs ++ [x] := by
  have hold : xs.length - n = 0 := by omega
  have hnew : (xs ++ [x]).length - n = 0 := by simp; omega
  rw [latest, latest, hold, hnew, List.drop_zero, List.drop_zero]

/-- The item that is lost when there is no more room. -/
theorem latest_eq_cons {xs : List α} (hn : 0 < n) (h : n ≤ xs.length) :
    ∃ y, xs[xs.length - n]? = some y ∧
      latest n xs = y :: xs.drop (xs.length - n + 1) := by
  have hlt : xs.length - n < xs.length := by omega
  refine ⟨xs[xs.length - n], List.getElem?_eq_getElem hlt, ?_⟩
  exact List.drop_eq_getElem_cons hlt

theorem latest_snoc_of_le {xs : List α} (x : α) (hn : 0 < n) (h : n ≤ xs.length) :
    latest n (xs ++ [x]) = xs.drop (xs.length - n + 1) ++ [x] := by
  have hlen : (xs ++ [x]).length - n = xs.length - n + 1 := by simp; omega
  rw [latest, hlen, List.drop_append_of_le_length (by omega)]

variable [NeZero n]

/-- The cell of a position. -/
def cell (n : ℕ) [NeZero n] (i : ℕ) : Fin n := Fin.ofNat n i

theorem cell_add_self (i : ℕ) : cell n (i + n) = cell n i := by
  apply Fin.ext
  show (i + n) % n = i % n
  exact Nat.add_mod_right i n

theorem cell_mod (i : ℕ) : cell n (i % n) = cell n i := by
  apply Fin.ext
  show i % n % n = i % n
  exact Nat.mod_mod i n

/-- Positions less than one round apart have different cells. -/
theorem cell_ne {i d : ℕ} (h0 : 0 < d) (hd : d < n) : cell n (i + d) ≠ cell n i := by
  intro he
  have hmod : i + d ≡ i + 0 [MOD n] := congrArg Fin.val he
  have hzero : d % n = 0 % n := Nat.ModEq.add_left_cancel' i hmod
  rw [Nat.mod_eq_of_lt hd, Nat.zero_mod] at hzero
  omega

/-- The cells after the items of `xs` have been written, from the next position on. -/
def Holds (cells : Fin n → Option α) (xs : List α) : Prop :=
  ∀ d < n, cells (cell n (xs.length + d)) =
    if n ≤ xs.length + d then xs[xs.length + d - n]? else none

theorem holds_nil {cells : Fin n → Option α} (h : ∀ j, cells j = none) :
    Holds cells ([] : List α) := by
  intro d hd
  rw [h, List.length_nil, if_neg (by omega)]

/-- The next item is written over the oldest. -/
theorem Holds.push {cells : Fin n → Option α} {xs : List α} (h : Holds cells xs) (x : α) :
    Holds (Function.update cells (cell n xs.length) (some x)) (xs ++ [x]) := by
  intro d hd
  have hlen : (xs ++ [x]).length + d = xs.length + (d + 1) := by simp; omega
  rw [hlen]
  rcases Nat.lt_or_ge (d + 1) n with hlt | hge
  · rw [Function.update_of_ne (cell_ne (Nat.succ_pos d) hlt), h (d + 1) hlt]
    split
    · rw [List.getElem?_append_left (by omega)]
    · rfl
  · have hdn : d + 1 = n := by omega
    rw [hdn, cell_add_self, Function.update_self, if_pos (by omega), Nat.add_sub_cancel,
      List.getElem?_append_right le_rfl, Nat.sub_self]
    rfl

/-- What is in the cell that is written next. -/
theorem Holds.next {cells : Fin n → Option α} {xs : List α} (h : Holds cells xs) :
    cells (cell n xs.length) = if n ≤ xs.length then xs[xs.length - n]? else none :=
  h 0 (Nat.pos_of_neZero n)

/-- One round of cells, from position `i` on. -/
def round (n : ℕ) [NeZero n] (i : ℕ) : List (Fin n) := (List.range n).map fun d => cell n (i + d)

theorem round_nodup (i : ℕ) : (round n i).Nodup := by
  apply List.Nodup.map_on _ List.nodup_range
  intro d hd e he heq
  rw [List.mem_range] at hd he
  rcases Nat.lt_trichotomy d e with hlt | rfl | hgt
  · refine absurd heq.symm ?_
    have := cell_ne (i := i + d) (d := e - d) (n := n) (by omega) (by omega)
    rwa [show i + d + (e - d) = i + e by omega] at this
  · rfl
  · refine absurd heq ?_
    have := cell_ne (i := i + e) (d := d - e) (n := n) (by omega) (by omega)
    rwa [show i + e + (d - e) = i + d by omega] at this

theorem mem_round (i : ℕ) (j : Fin n) : j ∈ round n i := by
  have hcard : (round n i).length = n := by rw [round, List.length_map, List.length_range]
  have huniv : (round n i).toFinset = Finset.univ := by
    apply Finset.eq_univ_of_card
    rw [List.toFinset_card_of_nodup (round_nodup i), hcard, Fintype.card_fin]
  exact List.mem_toFinset.mp (huniv ▸ Finset.mem_univ j)

theorem round_congr {i k : ℕ} (h : cell n i = cell n k) : round n i = round n k := by
  refine List.map_congr_left fun d _ => Fin.ext ?_
  have hmod : i % n = k % n := congrArg Fin.val h
  show (i + d) % n = (k + d) % n
  rw [Nat.add_mod, hmod, ← Nat.add_mod]

private theorem filterMap_range_drop (xs : List α) (m : ℕ) :
    (List.range m).filterMap (fun d => if m ≤ xs.length + d then xs[xs.length + d - m]? else none) =
      latest m xs := by
  induction m with
  | zero => rw [latest, Nat.sub_zero, List.drop_length]; rfl
  | succ m ih =>
    have hstep : ∀ d, (if m + 1 ≤ xs.length + (d + 1) then xs[xs.length + (d + 1) - (m + 1)]?
        else none) = if m ≤ xs.length + d then xs[xs.length + d - m]? else none := by
      intro d
      rw [← Nat.add_assoc, Nat.add_sub_add_right]
      exact if_congr Nat.add_le_add_iff_right rfl rfl
    rw [List.range_succ_eq_map, List.filterMap_cons, List.filterMap_map]
    simp only [Function.comp_def, Nat.succ_eq_add_one, hstep, ih, Nat.add_zero]
    rcases Nat.lt_or_ge xs.length (m + 1) with hlt | hge
    · rw [if_neg (Nat.not_le.mpr hlt), latest, latest, Nat.sub_eq_zero_of_le hlt.le,
        Nat.sub_eq_zero_of_le (Nat.le_of_lt_succ hlt)]
    · obtain ⟨y, hy, hcons⟩ := latest_eq_cons (Nat.succ_pos m) hge
      rw [if_pos hge, hcons, hy, latest, show xs.length - (m + 1) + 1 = xs.length - m by omega]

/-- From the next position on, one round reads the last `n` items in their order. -/
theorem Holds.readOut {cells : Fin n → Option α} {xs : List α} (h : Holds cells xs) :
    (round n xs.length).filterMap cells = latest n xs := by
  rw [round, List.filterMap_map, ← filterMap_range_drop]
  refine List.filterMap_congr fun d hd => ?_
  exact h d (List.mem_range.mp hd)

end WiotaDev.OverwritingRing
