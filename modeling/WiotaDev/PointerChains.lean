import Mathlib.Data.List.Basic
import Mathlib.Data.List.Infix
import Mathlib.Logic.Function.Basic

/-! # Chains of pointers

Nodes point to each other by `next`. A chain is the list of the nodes from a start to the node that
points nowhere. Nothing here depends on a particular program. -/

namespace WiotaDev.PointerChains

variable {ι : Type*}

/-- The nodes from `start` on are these, and the last one points nowhere. -/
def Chain (next : ι → Option ι) : Option ι → List ι → Prop
  | start, [] => start = none
  | start, a :: xs => start = some a ∧ Chain next (next a) xs

variable {next : ι → Option ι} {start : Option ι} {xs ys : List ι} {a b : ι}

theorem Chain.head? (h : Chain next start xs) : start = xs.head? := by
  cases xs with
  | nil => exact h
  | cons a xs => exact h.1

/-- The start tells whether the chain is empty. -/
theorem Chain.eq_none_iff (h : Chain next start xs) : start = none ↔ xs = [] := by
  rw [h.head?, List.head?_eq_none_iff]

/-- Pointers of other nodes do not matter. -/
theorem Chain.congr {next' : ι → Option ι} (h : Chain next start xs)
    (heq : ∀ a ∈ xs, next' a = next a) : Chain next' start xs := by
  induction xs generalizing start with
  | nil => exact h
  | cons a xs ih =>
    refine ⟨h.1, ?_⟩
    rw [heq a List.mem_cons_self]
    exact ih h.2 fun b hb => heq b (List.mem_cons_of_mem a hb)

variable [DecidableEq ι]

theorem Chain.update_of_notMem (h : Chain next start xs) (ha : a ∉ xs) (p : Option ι) :
    Chain (Function.update next a p) start xs := by
  apply h.congr
  intro b hb
  have hba : b ≠ a := fun heq => ha (heq ▸ hb)
  exact Function.update_of_ne hba p next

/-- A node that points to the start is put in front. -/
theorem Chain.push (h : Chain next start xs) (ha : a ∉ xs) :
    Chain (Function.update next a start) (some a) (a :: xs) := by
  refine ⟨rfl, ?_⟩
  rw [Function.update_self]
  exact h.update_of_notMem ha start

/-- A node that points nowhere is put behind the last one. -/
theorem Chain.concat (h : Chain next start (xs ++ [a])) (ha : a ∉ xs) (hb : b ∉ xs ++ [a])
    (hnone : next b = none) : Chain (Function.update next a (some b)) start (xs ++ [a, b]) := by
  induction xs generalizing start with
  | nil =>
    have hba : b ≠ a := fun h => hb (h ▸ List.mem_singleton_self _)
    refine ⟨h.1, ?_⟩
    rw [Function.update_self]
    refine ⟨rfl, ?_⟩
    rw [Function.update_of_ne hba]
    exact hnone
  | cons c xs ih =>
    have hca : c ≠ a := fun h => ha (h ▸ List.mem_cons_self)
    refine ⟨h.1, ?_⟩
    rw [Function.update_of_ne hca]
    exact ih h.2 (fun hmem => ha (List.mem_cons_of_mem c hmem))
      (fun hmem => hb (List.mem_cons_of_mem c hmem))

end WiotaDev.PointerChains
