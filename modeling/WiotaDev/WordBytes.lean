import Mathlib.Data.BitVec
import Mathlib.Data.List.GetD
import Mathlib.Tactic.IntervalCases

/-! # Bytes of fixed-width words

Little-endian memory images of 16- and 32-bit words, the byte swap of a 32-bit
word, words that a copied text runs over, and reading words from a buffer. Nothing here
depends on a particular program. -/

namespace WiotaDev.WordBytes

abbrev Byte := BitVec 8

/-- Byte `j` of a 32-bit word in little-endian memory. -/
def byteOf (w : BitVec 32) (j : ℕ) : Byte := w.extractLsb' (8 * j) 8

/-- The 32-bit word stored in the four bytes `f 0`, ..., `f 3`. -/
def wordOf (f : ℕ → Byte) : BitVec 32 := f 3 ++ f 2 ++ f 1 ++ f 0

/-- Byte `j` of a 16-bit word in little-endian memory. -/
def halfByteOf (w : BitVec 16) (j : ℕ) : Byte := w.extractLsb' (8 * j) 8

/-- The 16-bit word stored in the two bytes `f 0` and `f 1`. -/
def halfOf (f : ℕ → Byte) : BitVec 16 := f 1 ++ f 0

theorem byteOf_wordOf (f : ℕ → Byte) {j : ℕ} (hj : j < 4) : byteOf (wordOf f) j = f j := by
  apply BitVec.eq_of_getLsbD_eq
  intro i hi
  simp only [byteOf, wordOf, BitVec.getLsbD_extractLsb', BitVec.getLsbD_append, hi,
    decide_true, Bool.true_and]
  interval_cases j <;> interval_cases i <;> simp

theorem wordOf_byteOf (w : BitVec 32) : wordOf (byteOf w) = w := by
  apply BitVec.eq_of_getLsbD_eq
  intro i hi
  simp only [wordOf, byteOf, BitVec.getLsbD_append, BitVec.getLsbD_extractLsb']
  interval_cases i <;> simp

/-- A word is its four memory bytes. -/
theorem eq_iff_byteOf (v w : BitVec 32) : v = w ↔ ∀ j < 4, byteOf v j = byteOf w j := by
  constructor
  · rintro rfl j hj
    rfl
  · intro h
    rw [← wordOf_byteOf v, ← wordOf_byteOf w]
    simp only [wordOf, h 0 (by omega), h 1 (by omega), h 2 (by omega), h 3 (by omega)]

theorem halfByteOf_halfOf (f : ℕ → Byte) {j : ℕ} (hj : j < 2) :
    halfByteOf (halfOf f) j = f j := by
  apply BitVec.eq_of_getLsbD_eq
  intro i hi
  simp only [halfByteOf, halfOf, BitVec.getLsbD_extractLsb', BitVec.getLsbD_append, hi,
    decide_true, Bool.true_and]
  interval_cases j <;> interval_cases i <;> simp

theorem halfOf_halfByteOf (w : BitVec 16) : halfOf (halfByteOf w) = w := by
  apply BitVec.eq_of_getLsbD_eq
  intro i hi
  simp only [halfOf, halfByteOf, BitVec.getLsbD_append, BitVec.getLsbD_extractLsb']
  interval_cases i <;> simp

/-- A word only depends on its four memory bytes. -/
theorem wordOf_congr {f g : ℕ → Byte} (h : ∀ j < 4, f j = g j) : wordOf f = wordOf g := by
  simp only [wordOf, h 0 (by omega), h 1 (by omega), h 2 (by omega), h 3 (by omega)]

theorem halfOf_congr {f g : ℕ → Byte} (h : ∀ j < 2, f j = g j) : halfOf f = halfOf g := by
  simp only [halfOf, h 0 (by omega), h 1 (by omega)]

/-- `BSWAP_32`: the four bytes of a word in reverse order. -/
def bswap32 (x : BitVec 32) : BitVec 32 :=
  (x &&& 0xff000000#32) >>> 24 ||| (x &&& 0x00ff0000#32) >>> 8 |||
    (x &&& 0x0000ff00#32) <<< 8 ||| (x &&& 0x000000ff#32) <<< 24

theorem byteOf_bswap32 (w : BitVec 32) {j : ℕ} (hj : j < 4) :
    byteOf (bswap32 w) j = byteOf w (3 - j) := by
  apply BitVec.eq_of_getLsbD_eq
  intro i hi
  simp only [byteOf, bswap32, BitVec.getLsbD_extractLsb', BitVec.getLsbD_or,
    BitVec.getLsbD_ushiftRight, BitVec.getLsbD_shiftLeft, BitVec.getLsbD_and]
  interval_cases j <;> interval_cases i <;> simp

/-- The memory image of a 32-bit word. -/
def bytesOf (w : BitVec 32) : List Byte := [byteOf w 0, byteOf w 1, byteOf w 2, byteOf w 3]

/-- The memory image of a 16-bit word. -/
def halfBytesOf (w : BitVec 16) : List Byte := [halfByteOf w 0, halfByteOf w 1]

@[simp] theorem bytesOf_length (w : BitVec 32) : (bytesOf w).length = 4 := rfl

@[simp] theorem halfBytesOf_length (w : BitVec 16) : (halfBytesOf w).length = 2 := rfl

/-- Any four bytes are the image of a word. -/
theorem exists_bytesOf {l : List Byte} (h : l.length = 4) : ∃ w, bytesOf w = l := by
  refine ⟨wordOf fun j => l.getD j 0, ?_⟩
  match l, h with
  | [_, _, _, _], _ =>
    simp only [bytesOf, byteOf_wordOf _ (show 0 < 4 by omega), byteOf_wordOf _ (show 1 < 4 by omega),
      byteOf_wordOf _ (show 2 < 4 by omega), byteOf_wordOf _ (show 3 < 4 by omega)]
    rfl

theorem exists_halfBytesOf {l : List Byte} (h : l.length = 2) : ∃ w, halfBytesOf w = l := by
  refine ⟨halfOf fun j => l.getD j 0, ?_⟩
  match l, h with
  | [_, _], _ =>
    simp only [halfBytesOf, halfByteOf_halfOf _ (show 0 < 2 by omega),
      halfByteOf_halfOf _ (show 1 < 2 by omega)]
    rfl

/-- The word `k` bytes behind the place that `text` is copied to. -/
def overWord (text : List Byte) (k : ℕ) (w : BitVec 32) : BitVec 32 :=
  wordOf fun j => text.getD (k + j) (byteOf w j)

def overHalf (text : List Byte) (k : ℕ) (w : BitVec 16) : BitVec 16 :=
  halfOf fun j => text.getD (k + j) (halfByteOf w j)

theorem byteOf_overWord (text : List Byte) (k : ℕ) (w : BitVec 32) {j : ℕ} (hj : j < 4) :
    byteOf (overWord text k w) j = text.getD (k + j) (byteOf w j) := byteOf_wordOf _ hj

/-- A text that ends before a word leaves it. -/
theorem overWord_of_le {text : List Byte} {k : ℕ} (h : text.length ≤ k) (w : BitVec 32) :
    overWord text k w = w := by
  refine Eq.trans (wordOf_congr fun j _ => ?_) (wordOf_byteOf w)
  exact List.getD_eq_default _ _ (by omega)

theorem overHalf_of_le {text : List Byte} {k : ℕ} (h : text.length ≤ k) (w : BitVec 16) :
    overHalf text k w = w := by
  refine Eq.trans (halfOf_congr fun j _ => ?_) (halfOf_halfByteOf w)
  exact List.getD_eq_default _ _ (by omega)

/-- A buffer as a program sees it that is not stopped at its end: the bytes of its content,
and the byte the memory holds at every other distance from its start. -/
structure Buffer where
  bytes : List Byte
  behind : ℕ → Byte

namespace Buffer
variable (b : Buffer)

def byte (i : ℕ) : Byte := b.bytes.getD i (b.behind i)

def word (i : ℕ) : BitVec 32 := wordOf fun j => b.byte (i + j)

def half (i : ℕ) : BitVec 16 := halfOf fun j => b.byte (i + j)

variable {b}

/-- Reading what stands behind a prefix. -/
theorem byte_of_append (pre mid post : List Byte) (hb : b.bytes = pre ++ mid ++ post) {j : ℕ}
    (hj : j < mid.length) : b.byte (pre.length + j) = mid[j] := by
  rw [Buffer.byte, hb, List.getD_eq_getElem?_getD, List.append_assoc, List.getElem?_append_right
    (by omega), Nat.add_sub_cancel_left, List.getElem?_append_left hj, List.getElem?_eq_getElem hj]
  rfl

theorem word_of_append {pre post : List Byte} {w : BitVec 32}
    (hb : b.bytes = pre ++ bytesOf w ++ post) : b.word pre.length = w := by
  refine Eq.trans (wordOf_congr fun j hj => ?_) (wordOf_byteOf w)
  rw [byte_of_append _ _ _ hb (j := j) (by simpa using hj)]
  interval_cases j <;> rfl

theorem half_of_append {pre post : List Byte} {w : BitVec 16}
    (hb : b.bytes = pre ++ halfBytesOf w ++ post) : b.half pre.length = w := by
  refine Eq.trans (halfOf_congr fun j hj => ?_) (halfOf_halfByteOf w)
  rw [byte_of_append _ _ _ hb (j := j) (by simpa using hj)]
  interval_cases j <;> rfl

end Buffer

end WiotaDev.WordBytes
