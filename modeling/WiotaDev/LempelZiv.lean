import Mathlib.Data.List.Basic
import Mathlib.Tactic.Common
import Mathlib.Algebra.Ring.Nat

/-! # Literal runs and back references

The instructions of a Lempel-Ziv code, what they expand to, and when a list of them
reproduces the beginning of a memory. Nothing here depends on a particular program. -/

namespace WiotaDev.LempelZiv
variable {α : Type}

/-- The `n` values from `start` on. -/
def values (mem : ℕ → α) (start n : ℕ) : List α := (List.range n).map fun i => mem (start + i)

@[simp] theorem values_length (mem : ℕ → α) (start n : ℕ) : (values mem start n).length = n := by
  simp [values]

@[simp] theorem values_zero (mem : ℕ → α) (start : ℕ) : values mem start 0 = [] := rfl

theorem values_succ (mem : ℕ → α) (start n : ℕ) :
    values mem start (n + 1) = values mem start n ++ [mem (start + n)] := by
  simp [values, List.range_succ]

theorem values_append (mem : ℕ → α) (start n m : ℕ) :
    values mem start n ++ values mem (start + n) m = values mem start (n + m) := by
  induction m with
  | zero => simp
  | succ m ih => rw [values_succ, ← List.append_assoc, ih, ← Nat.add_assoc, values_succ,
      Nat.add_assoc]

theorem values_getElem? (mem : ℕ → α) (start : ℕ) {n i : ℕ} (hi : i < n) :
    (values mem start n)[i]? = some (mem (start + i)) := by
  simp [values, hi]

theorem values_congr {mem mem' : ℕ → α} {start n : ℕ}
    (h : ∀ i, start ≤ i → i < start + n → mem i = mem' i) :
    values mem start n = values mem' start n := by
  apply List.map_congr_left
  intro i hi
  exact h _ (by omega) (by have := List.mem_range.mp hi; omega)

/-- The list stands in the memory from `start` on. -/
def Holds (mem : ℕ → α) (start : ℕ) (l : List α) : Prop := values mem start l.length = l

theorem holds_append {mem : ℕ → α} {start : ℕ} {l l' : List α} :
    Holds mem start (l ++ l') ↔ Holds mem start l ∧ Holds mem (start + l.length) l' := by
  rw [Holds, List.length_append, ← values_append,
    List.append_eq_append_iff_of_size_eq_left (values_length ..)]
  rfl

theorem holds_cons {mem : ℕ → α} {start : ℕ} {x : α} {l : List α} :
    Holds mem start (x :: l) ↔ mem start = x ∧ Holds mem (start + 1) l := by
  rw [← List.singleton_append, holds_append]
  simp [Holds, values]

/-- One step of a decoder: a run as it stands, or `len` values each of which stands `distance`
behind the end. -/
inductive Instr (α : Type) where
  | literals (run : List α)
  | copy (distance len : ℕ)

/-- Values are taken from behind the end one at a time, so a copy may reach into itself. -/
def copyFrom (distance : ℕ) : ℕ → List α → List α
  | 0, out => out
  | len + 1, out => copyFrom distance len (out ++ (out[out.length - distance]?).toList)

def Instr.apply (out : List α) : Instr α → List α
  | .literals run => out ++ run
  | .copy distance len => copyFrom distance len out

def Instr.size : Instr α → ℕ
  | .literals run => run.length
  | .copy _ len => len

/-- The instruction takes nothing from before the start of an output of `n` values. -/
def Instr.Fits (n : ℕ) : Instr α → Prop
  | .literals _ => True
  | .copy distance _ => 1 ≤ distance ∧ distance ≤ n

def expandFrom (out : List α) (instrs : List (Instr α)) : List α := instrs.foldl Instr.apply out

def totalSize (instrs : List (Instr α)) : ℕ := (instrs.map Instr.size).sum

/-- Every instruction fits the output it finds. -/
def ValidFrom : ℕ → List (Instr α) → Prop
  | _, [] => True
  | n, i :: is => i.Fits n ∧ ValidFrom (n + i.size) is

theorem copyFrom_length {distance : ℕ} (len : ℕ) {out : List α} (h₁ : 1 ≤ distance)
    (h₂ : distance ≤ out.length) : (copyFrom distance len out).length = out.length + len := by
  induction len generalizing out with
  | zero => rfl
  | succ len ih =>
    have hget : out[out.length - distance]? = some out[out.length - distance] :=
      List.getElem?_eq_getElem (by omega)
    rw [copyFrom, hget, Option.toList_some, ih (by rw [List.length_append]; omega)]
    simp
    omega

/-- A copy at distance 1 repeats the last value. -/
theorem copyFrom_one (b : α) (len : ℕ) (out : List α) :
    copyFrom 1 len (out ++ [b]) = out ++ [b] ++ List.replicate len b := by
  induction len generalizing out with
  | zero => simp [copyFrom]
  | succ len ih =>
    have hget : (out ++ [b])[(out ++ [b]).length - 1]? = some b := by simp
    rw [copyFrom, hget, Option.toList_some, ih (out ++ [b]), List.replicate_succ]
    simp

/-- A copy of what the memory repeats at that distance extends a prefix of the memory. -/
theorem copyFrom_values {mem : ℕ → α} {distance n : ℕ} (len : ℕ) (h₁ : 1 ≤ distance)
    (h₂ : distance ≤ n) (hrepeats : ∀ i, n ≤ i → i < n + len → mem i = mem (i - distance)) :
    copyFrom distance len (values mem 0 n) = values mem 0 (n + len) := by
  induction len generalizing n with
  | zero => rfl
  | succ len ih =>
    have hget : (values mem 0 n)[(values mem 0 n).length - distance]? = some (mem n) := by
      rw [values_length, values_getElem? mem 0 (by omega), hrepeats n (Nat.le_refl n) (by omega),
        Nat.zero_add]
    have hnext : values mem 0 n ++ [mem n] = values mem 0 (n + 1) := by
      rw [values_succ, Nat.zero_add]
    rw [copyFrom, hget, Option.toList_some, hnext, ih (Nat.le_succ_of_le h₂)]
    · rw [Nat.succ_add_eq_add_succ]
    · intro i hi hlt
      exact hrepeats i (by omega) (by omega)

theorem Instr.apply_length {i : Instr α} {out : List α} (h : i.Fits out.length) :
    (i.apply out).length = out.length + i.size := by
  cases i with
  | literals run => exact List.length_append
  | copy distance len => exact copyFrom_length len h.1 h.2

theorem totalSize_cons (i : Instr α) (is : List (Instr α)) :
    totalSize (i :: is) = i.size + totalSize is := by
  simp [totalSize]

theorem expandFrom_append (out : List α) (is js : List (Instr α)) :
    expandFrom out (is ++ js) = expandFrom (expandFrom out is) js := List.foldl_append

theorem validFrom_append {n : ℕ} {is js : List (Instr α)} :
    ValidFrom n (is ++ js) ↔ ValidFrom n is ∧ ValidFrom (n + totalSize is) js := by
  induction is generalizing n with
  | nil => simp [ValidFrom, totalSize]
  | cons i is ih => simp [ValidFrom, ih, totalSize_cons, and_assoc, Nat.add_assoc]

theorem expandFrom_length (out : List α) {is : List (Instr α)} (h : ValidFrom out.length is) :
    (expandFrom out is).length = out.length + totalSize is := by
  induction is generalizing out with
  | nil => simp [expandFrom, totalSize]
  | cons i is ih =>
    have hlen := Instr.apply_length h.1
    have hrest : (expandFrom (i.apply out) is).length = (i.apply out).length + totalSize is :=
      ih (i.apply out) (by rw [hlen]; exact h.2)
    rw [totalSize_cons, ← Nat.add_assoc, ← hlen, ← hrest]
    rfl

/-- The instructions are valid and give the first `n` values of the memory. -/
structure Reproduces (mem : ℕ → α) (n : ℕ) (is : List (Instr α)) : Prop where
  valid : ValidFrom 0 is
  expands : expandFrom [] is = values mem 0 n

namespace Reproduces
variable {mem : ℕ → α} {n : ℕ} {is : List (Instr α)}

theorem nil (mem : ℕ → α) : Reproduces mem 0 [] := ⟨trivial, rfl⟩

theorem totalSize_eq (h : Reproduces mem n is) : totalSize is = n := by
  have hlen := expandFrom_length ([] : List α) h.valid
  rw [h.expands, values_length] at hlen
  simpa using hlen.symm

theorem snoc (h : Reproduces mem n is) {i : Instr α} (hfits : i.Fits n)
    (happly : i.apply (values mem 0 n) = values mem 0 (n + i.size)) :
    Reproduces mem (n + i.size) (is ++ [i]) where
  valid := validFrom_append.mpr ⟨h.valid, by rwa [h.totalSize_eq, Nat.zero_add], trivial⟩
  expands := by rw [expandFrom_append, h.expands]; exact happly

theorem literals (h : Reproduces mem n is) (k : ℕ) :
    Reproduces mem (n + k) (is ++ [.literals (values mem n k)]) := by
  have hnext := h.snoc (i := .literals (values mem n k)) trivial (by
    have happend := values_append mem 0 n k
    rw [Nat.zero_add] at happend
    rw [Instr.apply, Instr.size, happend, values_length])
  rwa [Instr.size, values_length] at hnext

theorem copy (h : Reproduces mem n is) {distance : ℕ} (len : ℕ) (h₁ : 1 ≤ distance)
    (h₂ : distance ≤ n) (hrepeats : ∀ i, n ≤ i → i < n + len → mem i = mem (i - distance)) :
    Reproduces mem (n + len) (is ++ [.copy distance len]) :=
  h.snoc (i := .copy distance len) ⟨h₁, h₂⟩ (copyFrom_values len h₁ h₂ hrepeats)

end Reproduces

end WiotaDev.LempelZiv
