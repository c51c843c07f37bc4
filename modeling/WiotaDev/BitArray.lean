import WiotaDev.WordBytes

/-! # Bit sets stored in a fixed array of bytes

Bit `k` of the array is bit `k % 8` of byte `k / 8`. Marking a position changes no other
one, and a full count of marked positions means that every position is marked. -/

namespace WiotaDev.BitArray
open WordBytes

variable {n : ℕ}

/-- Bit `k`; positions behind the array read as clear. -/
def test (m : Vector Byte n) (k : ℕ) : Bool :=
  if h : k / 8 < n then m[k / 8].getLsbD (k % 8) else false

/-- Bit `k` set, every other bit kept. Positions behind the array change nothing. -/
def mark (m : Vector Byte n) (k : ℕ) : Vector Byte n :=
  if h : k / 8 < n then m.set (k / 8) (m[k / 8] ||| 1#8 <<< (k % 8)) else m

def clear (n : ℕ) : Vector Byte n := Vector.replicate n 0#8

@[simp] theorem test_clear (k : ℕ) : test (clear n) k = false := by
  simp [test, clear]

private theorem getLsbD_one_shiftLeft {b i : ℕ} (hi : i < 8) :
    (1#8 <<< b).getLsbD i = decide (i = b) := by
  rw [BitVec.getLsbD_shiftLeft, BitVec.getLsbD_one]
  by_cases h : i < b
  · simp [h, show i ≠ b by omega]
  · simp [h, hi, show i - b = 0 ↔ i = b by omega]

/-- Marking changes exactly the marked position. -/
theorem test_mark (m : Vector Byte n) {k : ℕ} (hk : k / 8 < n) (j : ℕ) :
    test (mark m k) j = (decide (j = k) || test m j) := by
  unfold test mark
  simp only [hk, dite_true]
  by_cases hj : j / 8 < n
  · simp only [hj, dite_true, Vector.getElem_set]
    by_cases he : k / 8 = j / 8
    · have hbit : (j % 8 = k % 8) ↔ j = k := by omega
      simp only [he, if_true, BitVec.getLsbD_or,
        getLsbD_one_shiftLeft (Nat.mod_lt j (by decide)), hbit, Bool.or_comm]
    · have hne : j ≠ k := fun h => he (by rw [h])
      simp [he, hne]
  · have hne : j ≠ k := fun h => hj (by rw [h]; exact hk)
    simp [hj, hne]

/-- Counting the marked positions below a bound reaches the bound exactly when
every one of them is marked. -/
theorem countP_range_eq_iff (p : ℕ → Bool) (b : ℕ) :
    b ≤ (List.range b).countP p ↔ ∀ k < b, p k = true := by
  have hle : (List.range b).countP p ≤ b := by
    simpa using (List.countP_le_length (p := p) (l := List.range b))
  constructor
  · intro h k hk
    have he : (List.range b).countP p = (List.range b).length := by
      rw [List.length_range]
      omega
    exact List.countP_eq_length.mp he k (List.mem_range.mpr hk)
  · intro h
    have he : (List.range b).countP p = (List.range b).length :=
      List.countP_eq_length.mpr fun k hk => h k (List.mem_range.mp hk)
    rw [he, List.length_range]

end WiotaDev.BitArray
