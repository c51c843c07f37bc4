import Mathlib.Data.Finset.Insert
import Mathlib.Data.Finset.Range

/-! # Assembling content from blocks

Content of `size` items is delivered in blocks of `b` items; a place that no block has
filled holds `blank`. What is assembled depends on the set of delivered blocks only, not
on their order or multiplicity. -/

namespace WiotaDev.BlockAssembly

universe u
variable {α : Type u}

/-- Number of blocks of `b` items that `size` items fill. -/
def blocks (b size : ℕ) : ℕ := (size + (b - 1)) / b

/-- What has been assembled from the blocks in `d`. -/
def contents (content : ℕ → α) (blank : α) (b : ℕ) (d : Finset ℕ) (a : ℕ) : α :=
  if a / b ∈ d then content a else blank

variable (content : ℕ → α) (blank : α) (b : ℕ)

theorem contents_of_mem {d : Finset ℕ} {a : ℕ} (h : a / b ∈ d) :
    contents content blank b d a = content a := if_pos h

theorem contents_of_notMem {d : Finset ℕ} {a : ℕ} (h : a / b ∉ d) :
    contents content blank b d a = blank := if_neg h

/-- A delivered block fills its own places. -/
theorem contents_insert_self {d : Finset ℕ} {a k : ℕ} (h : a / b = k) :
    contents content blank b (insert k d) a = content a :=
  contents_of_mem content blank b (by rw [h]; exact Finset.mem_insert_self k d)

/-- A delivered block changes no place of another block. -/
theorem contents_insert_of_ne {d : Finset ℕ} {a k : ℕ} (h : a / b ≠ k) :
    contents content blank b (insert k d) a = contents content blank b d a := by
  simp only [contents, Finset.mem_insert, h, false_or]

theorem block_lt {size a : ℕ} (hb : 0 < b) (h : a < size) : a / b < blocks b size := by
  have hle : a / b * b ≤ a := Nat.div_mul_le_self a b
  have hlt : a / b + 1 ≤ (size + (b - 1)) / b := by
    rw [Nat.le_div_iff_mul_le hb, Nat.add_mul]
    omega
  exact hlt

/-- Once every block is delivered the content is there. -/
theorem contents_complete {size : ℕ} {d : Finset ℕ} (hb : 0 < b)
    (h : Finset.range (blocks b size) ⊆ d) {a : ℕ} (ha : a < size) :
    contents content blank b d a = content a :=
  contents_of_mem content blank b (h (Finset.mem_range.mpr (block_lt b hb ha)))

end WiotaDev.BlockAssembly
