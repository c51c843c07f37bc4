import WiotaDev.ResourceLedger
import Mathlib.Data.List.Basic
import Mathlib.Logic.Function.Basic

/-! # Blocks of a heap

A block keeps the size that it was allocated with. A write that leaves its block is noted down, and
the ledger notes what is used or freed while it is not allocated. -/

namespace WiotaDev.HeapBlocks
open ResourceLedger

variable {α : Type*}

/-- The bytes of the buffer from `offset` on are replaced; what would come behind it is dropped. -/
def overwrite (buf : List α) (offset : ℕ) (bytes : List α) : List α :=
  (buf.take offset ++ bytes ++ buf.drop (offset + bytes.length)).take buf.length

theorem overwrite_eq {buf bytes : List α} {offset : ℕ} (h : offset + bytes.length ≤ buf.length) :
    overwrite buf offset bytes = buf.take offset ++ bytes ++ buf.drop (offset + bytes.length) := by
  rw [overwrite, List.take_of_length_le]
  simp only [List.length_append, List.length_take, List.length_drop]
  omega

/-- The whole buffer is replaced. -/
theorem overwrite_all {buf bytes : List α} (h : bytes.length = buf.length) :
    overwrite buf 0 bytes = bytes := by
  rw [overwrite_eq (by omega), List.take_zero, List.nil_append, Nat.zero_add,
    List.drop_eq_nil_of_le h.ge, List.append_nil]

/-- What stands between a front and a back is replaced by as many bytes. -/
theorem overwrite_middle (front old back bytes : List α) (h : bytes.length = old.length) :
    overwrite (front ++ old ++ back) front.length bytes = front ++ bytes ++ back := by
  rw [overwrite_eq, List.append_assoc front old back, List.take_left, ← List.append_assoc,
    List.drop_left' (by rw [List.length_append, h])]
  simp only [List.length_append]
  omega

/-- What has been written is found behind what stands before it. -/
theorem take_overwrite {buf bytes : List α} {offset : ℕ} (h : offset + bytes.length ≤ buf.length) :
    (overwrite buf offset bytes).take (offset + bytes.length) = buf.take offset ++ bytes := by
  have hlen : (buf.take offset ++ bytes).length = offset + bytes.length := by
    rw [List.length_append, List.length_take, Nat.min_eq_left (by omega)]
  rw [overwrite_eq h, ← hlen, List.take_left]

structure Heap (α : Type*) where
  ledger : Ledger
  block : ℕ → List α
  outside : List ℕ

namespace Heap

def empty : Heap α := ⟨Ledger.empty, fun _ => [], []⟩

/-- A new block; `fresh` is what it holds before anything is written to it. -/
def malloc (h : Heap α) (size : ℕ) (fresh : ℕ → α) : ℕ × Heap α :=
  (h.ledger.next, { h with
    ledger := h.ledger.create
    block := Function.update h.block h.ledger.next ((List.range size).map fresh) })

def write (h : Heap α) (p offset : ℕ) (bytes : List α) : Heap α where
  ledger := h.ledger.use p
  block := Function.update h.block p (overwrite (h.block p) offset bytes)
  outside := if offset + bytes.length ≤ (h.block p).length then h.outside else h.outside ++ [p]

def free (h : Heap α) (p : ℕ) : Heap α := { h with ledger := h.ledger.free p }

/-- The listed blocks are those that are allocated, nothing has been misused, and no write has left
its block. -/
structure Sound (h : Heap α) (ps : List ℕ) : Prop where
  owns : h.ledger.Owns ps
  inside : h.outside = []

variable {h : Heap α} {p q size : ℕ} {fresh : ℕ → α} {ps : List ℕ}

theorem empty_sound : (empty : Heap α).Sound [] := ⟨Ledger.empty_owns, rfl⟩

theorem Sound.malloc (hs : h.Sound ps) (size : ℕ) (fresh : ℕ → α) :
    (h.malloc size fresh).2.Sound ((h.malloc size fresh).1 :: ps) :=
  ⟨hs.owns.create, hs.inside⟩

theorem Sound.write (hs : h.Sound ps) (hp : p ∈ ps) (offset : ℕ) (bytes : List α)
    (hfits : offset + bytes.length ≤ (h.block p).length) : (h.write p offset bytes).Sound ps := by
  have huse : h.ledger.use p = h.ledger := Ledger.use_of_mem ((hs.owns.mem p).mpr hp)
  refine ⟨?_, ?_⟩
  · rw [Heap.write, huse]
    exact hs.owns
  · rw [Heap.write, if_pos hfits]
    exact hs.inside

theorem Sound.free (hs : h.Sound (p :: ps)) : (h.free p).Sound ps := ⟨hs.owns.free, hs.inside⟩

/-- A new block is none of the allocated ones. -/
theorem Sound.malloc_ne (hs : h.Sound ps) (hp : p ∈ ps) (size : ℕ) (fresh : ℕ → α) :
    p ≠ (h.malloc size fresh).1 := by
  rintro rfl
  exact Ledger.next_notMem ((hs.owns.mem _).mpr hp)

@[simp] theorem block_malloc (h : Heap α) (size : ℕ) (fresh : ℕ → α) :
    (h.malloc size fresh).2.block (h.malloc size fresh).1 = (List.range size).map fresh :=
  Function.update_self ..

theorem block_malloc_of_ne (hne : p ≠ (h.malloc size fresh).1) :
    (h.malloc size fresh).2.block p = h.block p :=
  Function.update_of_ne hne ..

@[simp] theorem block_write (h : Heap α) (p offset : ℕ) (bytes : List α) :
    (h.write p offset bytes).block p = overwrite (h.block p) offset bytes :=
  Function.update_self ..

theorem block_write_of_ne (hne : q ≠ p) (offset : ℕ) (bytes : List α) :
    (h.write p offset bytes).block q = h.block q :=
  Function.update_of_ne hne ..

@[simp] theorem block_free (h : Heap α) (p : ℕ) : (h.free p).block = h.block := rfl

/-- A new block set to zero. -/
def zeroed (h : Heap α) (size : ℕ) (fresh : ℕ → α) (zero : α) : Heap α :=
  (h.malloc size fresh).2.write (h.malloc size fresh).1 0 (List.replicate size zero)

theorem block_zeroed (h : Heap α) (size : ℕ) (fresh : ℕ → α) (zero : α) :
    (h.zeroed size fresh zero).block (h.malloc size fresh).1 = List.replicate size zero := by
  rw [zeroed, block_write, overwrite_all]
  rw [block_malloc, List.length_replicate, List.length_map, List.length_range]

theorem Sound.zeroed (hs : h.Sound ps) (size : ℕ) (fresh : ℕ → α) (zero : α) :
    (h.zeroed size fresh zero).Sound ((h.malloc size fresh).1 :: ps) := by
  apply (hs.malloc size fresh).write List.mem_cons_self
  rw [block_malloc, List.length_replicate, List.length_map, List.length_range, Nat.zero_add]

theorem Sound.block_zeroed_of_mem (hs : h.Sound ps) (hp : p ∈ ps) (size : ℕ) (fresh : ℕ → α)
    (zero : α) : (h.zeroed size fresh zero).block p = h.block p := by
  have hne := hs.malloc_ne hp size fresh
  rw [Heap.zeroed, block_write_of_ne hne, block_malloc_of_ne hne]

end Heap

end WiotaDev.HeapBlocks
