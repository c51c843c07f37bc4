import WiotaDev.WordBytes

/-! # NOR flash cells

Erasing sets a range of cells to all ones; programming can only clear bits, so a
cell becomes the conjunction of its content and the data. The rules below are
about ranges of cells over arbitrary content. -/

namespace WiotaDev.NorFlash
open WordBytes

/-- Cell content by address. -/
abbrev Cells := ℕ → Byte

/-- Cells after an erase of `[lo, lo + len)`. -/
def eraseRange (m : Cells) (lo len : ℕ) : Cells := fun a =>
  if lo ≤ a ∧ a < lo + len then BitVec.allOnes 8 else m a

/-- Cells after programming `[lo, lo + len)` with `data 0, ..., data (len - 1)`. -/
def programRange (m : Cells) (lo len : ℕ) (data : ℕ → Byte) : Cells := fun a =>
  if lo ≤ a ∧ a < lo + len then m a &&& data (a - lo) else m a

theorem eraseRange_inside (m : Cells) {lo len a : ℕ} (h : lo ≤ a ∧ a < lo + len) :
    eraseRange m lo len a = BitVec.allOnes 8 := by simp [eraseRange, h]

theorem programRange_inside (m : Cells) {lo len a : ℕ} (data : ℕ → Byte)
    (h : lo ≤ a ∧ a < lo + len) : programRange m lo len data a = m a &&& data (a - lo) := by
  simp [programRange, h]

theorem programRange_outside (m : Cells) {lo len a : ℕ} (data : ℕ → Byte)
    (h : ¬ (lo ≤ a ∧ a < lo + len)) : programRange m lo len data a = m a := by
  simp only [programRange, h, if_false]

@[simp] theorem eraseRange_zero (m : Cells) (lo : ℕ) : eraseRange m lo 0 = m := by
  funext a
  simp only [eraseRange, ite_eq_right_iff]
  omega

@[simp] theorem programRange_zero (m : Cells) (lo : ℕ) (data : ℕ → Byte) :
    programRange m lo 0 data = m := by
  funext a
  simp only [programRange, ite_eq_right_iff]
  omega

/-- Two adjacent erases are one erase. -/
theorem eraseRange_append (m : Cells) (lo k l : ℕ) :
    eraseRange (eraseRange m lo k) (lo + k) l = eraseRange m lo (k + l) := by
  funext a
  unfold eraseRange
  split_ifs <;> first | rfl | omega

/-- Two adjacent programs are one program. -/
theorem programRange_append (m : Cells) (lo k l : ℕ) (data : ℕ → Byte) :
    programRange (programRange m lo k data) (lo + k) l (fun i => data (k + i)) =
      programRange m lo (k + l) data := by
  funext a
  simp only [programRange]
  split_ifs with h₁ h₂ h₃ h₃ h₄ h₅ <;> first | omega | rfl | skip
  congr 2
  omega

/-- Only the data of the range count. -/
theorem programRange_congr (m : Cells) {lo len : ℕ} {data other : ℕ → Byte}
    (h : ∀ i < len, data i = other i) : programRange m lo len data = programRange m lo len other := by
  funext a
  by_cases ha : lo ≤ a ∧ a < lo + len
  · rw [programRange_inside m data ha, programRange_inside m other ha, h (a - lo) (by omega)]
  · rw [programRange_outside m data ha, programRange_outside m other ha]

/-- A programmed erased cell holds the data. -/
theorem programRange_erased (m : Cells) {lo len a : ℕ} (data : ℕ → Byte)
    (h : lo ≤ a ∧ a < lo + len) (he : m a = BitVec.allOnes 8) :
    programRange m lo len data a = data (a - lo) := by
  rw [programRange_inside m data h, he, BitVec.allOnes_and]

/-- Read-modify-write: a program whose data outside `[from, from + k)` repeats the
content of the cells is a program of `[from, from + k)` alone. -/
theorem programRange_widen (m : Cells) {lo len start k : ℕ} (data part : ℕ → Byte)
    (hlo : lo ≤ start) (hhi : start + k ≤ lo + len)
    (hin : ∀ i < k, data (start - lo + i) = part i)
    (hout : ∀ a, lo ≤ a → a < lo + len → ¬ (start ≤ a ∧ a < start + k) → data (a - lo) = m a) :
    programRange m lo len data = programRange m start k part := by
  funext a
  by_cases hp : start ≤ a ∧ a < start + k
  · rw [programRange_inside m data (by omega), programRange_inside m part hp]
    have hi := hin (a - start) (by omega)
    rw [← hi]
    congr 2
    omega
  · rw [programRange_outside m part hp]
    by_cases hw : lo ≤ a ∧ a < lo + len
    · rw [programRange_inside m data hw, hout a hw.1 hw.2 hp, BitVec.and_self]
    · rw [programRange_outside m data hw]

end WiotaDev.NorFlash
