import Mathlib.Data.List.Basic
import Mathlib.Logic.Function.Basic

/-! # Who has an item

The items of a pool are kept in a list or are with one party each, and go from one to the other.
Nothing here depends on a particular program. -/

namespace WiotaDev.Ownership

variable {ι T : Type*}

/-- Each item is in the list or with one party. -/
structure Owned (pool : ι → Prop) (kept : List ι) (item : T → Option ι) : Prop where
  items : ∀ i, pool i ↔ i ∈ kept ∨ ∃ t, item t = some i
  apart : ∀ t i, item t = some i → i ∉ kept
  alone : ∀ t t' i, item t = some i → item t' = some i → t = t'

variable {pool : ι → Prop} {kept kept' : List ι} {item : T → Option ι} {t : T} {a : ι}

theorem Owned.congr (h : Owned pool kept item) (hmem : ∀ i, i ∈ kept ↔ i ∈ kept') :
    Owned pool kept' item where
  items i := by
    rw [h.items, hmem]
  apart t i hi := by
    rw [← hmem]
    exact h.apart t i hi
  alone := h.alone

/-- A new item is put into the list. -/
theorem Owned.grow {pool' : ι → Prop} (h : Owned pool kept item) (ha : ¬ pool a)
    (hpool : ∀ i, pool' i ↔ i = a ∨ pool i) : Owned pool' (a :: kept) item where
  items i := by
    rw [hpool, h.items, List.mem_cons, or_assoc]
  apart t i hi hmem := by
    rcases List.mem_cons.mp hmem with rfl | hmem
    · exact ha ((h.items i).mpr (Or.inr ⟨t, hi⟩))
    · exact h.apart t i hi hmem
  alone := h.alone

variable [DecidableEq T]

/-- An item goes from the list to a party. -/
theorem Owned.take (h : Owned pool (a :: kept) item) (ht : item t = none) (ha : a ∉ kept) :
    Owned pool kept (Function.update item t (some a)) where
  items i := by
    rw [h.items, List.mem_cons]
    constructor
    · rintro ((rfl | hi) | ⟨t', ht'⟩)
      · exact Or.inr ⟨t, Function.update_self _ _ _⟩
      · exact Or.inl hi
      · have hne : t' ≠ t := by
          rintro rfl
          rw [ht] at ht'
          cases ht'
        exact Or.inr ⟨t', by rw [Function.update_of_ne hne, ht']⟩
    · rintro (hi | ⟨t', ht'⟩)
      · exact Or.inl (Or.inr hi)
      · by_cases hne : t' = t
        · rw [hne, Function.update_self] at ht'
          exact Or.inl (Or.inl (Option.some.inj ht').symm)
        · rw [Function.update_of_ne hne] at ht'
          exact Or.inr ⟨t', ht'⟩
  apart t' i hi := by
    by_cases hne : t' = t
    · rw [hne, Function.update_self] at hi
      exact Option.some.inj hi ▸ ha
    · rw [Function.update_of_ne hne] at hi
      exact fun hmem => h.apart t' i hi (List.mem_cons_of_mem a hmem)
  alone t₁ t₂ i h₁ h₂ := by
    by_cases hne₁ : t₁ = t
    · by_cases hne₂ : t₂ = t
      · rw [hne₁, hne₂]
      · rw [hne₁, Function.update_self] at h₁
        rw [Function.update_of_ne hne₂] at h₂
        exact absurd (Option.some.inj h₁ ▸ List.mem_cons_self) (h.apart t₂ i h₂)
    · rw [Function.update_of_ne hne₁] at h₁
      by_cases hne₂ : t₂ = t
      · rw [hne₂, Function.update_self] at h₂
        exact absurd (Option.some.inj h₂ ▸ List.mem_cons_self) (h.apart t₁ i h₁)
      · rw [Function.update_of_ne hne₂] at h₂
        exact h.alone t₁ t₂ i h₁ h₂

/-- An item goes from a party to the list. -/
theorem Owned.give (h : Owned pool kept item) (ht : item t = some a) :
    Owned pool (a :: kept) (Function.update item t none) where
  items i := by
    rw [h.items, List.mem_cons]
    constructor
    · rintro (hi | ⟨t', ht'⟩)
      · exact Or.inl (Or.inr hi)
      · by_cases hne : t' = t
        · rw [hne, ht] at ht'
          exact Or.inl (Or.inl (Option.some.inj ht').symm)
        · exact Or.inr ⟨t', by rw [Function.update_of_ne hne, ht']⟩
    · rintro ((rfl | hi) | ⟨t', ht'⟩)
      · exact Or.inr ⟨t, ht⟩
      · exact Or.inl hi
      · by_cases hne : t' = t
        · rw [hne, Function.update_self] at ht'
          cases ht'
        · rw [Function.update_of_ne hne] at ht'
          exact Or.inr ⟨t', ht'⟩
  apart t' i hi := by
    by_cases hne : t' = t
    · rw [hne, Function.update_self] at hi
      cases hi
    · rw [Function.update_of_ne hne] at hi
      intro hmem
      rcases List.mem_cons.mp hmem with rfl | hmem
      · exact hne (h.alone t' t i hi ht)
      · exact h.apart t' i hi hmem
  alone t₁ t₂ i h₁ h₂ := by
    by_cases hne₁ : t₁ = t
    · rw [hne₁, Function.update_self] at h₁
      cases h₁
    · by_cases hne₂ : t₂ = t
      · rw [hne₂, Function.update_self] at h₂
        cases h₂
      · rw [Function.update_of_ne hne₁] at h₁
        rw [Function.update_of_ne hne₂] at h₂
        exact h.alone t₁ t₂ i h₁ h₂

end WiotaDev.Ownership
