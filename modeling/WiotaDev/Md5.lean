import WiotaDev.WordBytes

/-! # The block function of MD5

`md5_process` as it stands in `tiny_md5.c`, with the roles of the four registers written out in
turn, and the algorithm that it is to compute: 64 alike steps, after each of which the registers
change their places. -/

namespace WiotaDev.Md5
open WordBytes

abbrev Word := BitVec 32

structure State where
  a : Word
  b : Word
  c : Word
  d : Word
  deriving DecidableEq

/-- The words of a block. -/
def wordsOf (data : List Byte) (k : ℕ) : Word := wordOf fun j => data.getD (4 * k + j) 0

/-! ## `md5_process` -/

def S (x : Word) (n : ℕ) : Word := x <<< n ||| (x &&& 0xFFFFFFFF) >>> (32 - n)

/-- The last three arguments of `P`. -/
structure Call where
  k : ℕ
  s : ℕ
  t : Word

/-- `P`, with the function `F` of its round. -/
def P (F : Word → Word → Word → Word) (X : ℕ → Word) (call : Call) (a b c d : Word) : Word :=
  S (a + (F b c d + X call.k + call.t)) call.s + b

/-- Four lines of `md5_process`, for `A`, `D`, `C` and `B` in turn. -/
structure Four where
  first : Call
  second : Call
  third : Call
  fourth : Call

def four (F : Word → Word → Word → Word) (X : ℕ → Word) (r : State) (lines : Four) : State :=
  let A := P F X lines.first r.a r.b r.c r.d
  let D := P F X lines.second r.d A r.b r.c
  let C := P F X lines.third r.c D A r.b
  let B := P F X lines.fourth r.b C D A
  ⟨A, B, C, D⟩

def round1 : List Four := [
  ⟨⟨0, 7, 0xD76AA478⟩, ⟨1, 12, 0xE8C7B756⟩, ⟨2, 17, 0x242070DB⟩, ⟨3, 22, 0xC1BDCEEE⟩⟩,
  ⟨⟨4, 7, 0xF57C0FAF⟩, ⟨5, 12, 0x4787C62A⟩, ⟨6, 17, 0xA8304613⟩, ⟨7, 22, 0xFD469501⟩⟩,
  ⟨⟨8, 7, 0x698098D8⟩, ⟨9, 12, 0x8B44F7AF⟩, ⟨10, 17, 0xFFFF5BB1⟩, ⟨11, 22, 0x895CD7BE⟩⟩,
  ⟨⟨12, 7, 0x6B901122⟩, ⟨13, 12, 0xFD987193⟩, ⟨14, 17, 0xA679438E⟩, ⟨15, 22, 0x49B40821⟩⟩]

def round2 : List Four := [
  ⟨⟨1, 5, 0xF61E2562⟩, ⟨6, 9, 0xC040B340⟩, ⟨11, 14, 0x265E5A51⟩, ⟨0, 20, 0xE9B6C7AA⟩⟩,
  ⟨⟨5, 5, 0xD62F105D⟩, ⟨10, 9, 0x02441453⟩, ⟨15, 14, 0xD8A1E681⟩, ⟨4, 20, 0xE7D3FBC8⟩⟩,
  ⟨⟨9, 5, 0x21E1CDE6⟩, ⟨14, 9, 0xC33707D6⟩, ⟨3, 14, 0xF4D50D87⟩, ⟨8, 20, 0x455A14ED⟩⟩,
  ⟨⟨13, 5, 0xA9E3E905⟩, ⟨2, 9, 0xFCEFA3F8⟩, ⟨7, 14, 0x676F02D9⟩, ⟨12, 20, 0x8D2A4C8A⟩⟩]

def round3 : List Four := [
  ⟨⟨5, 4, 0xFFFA3942⟩, ⟨8, 11, 0x8771F681⟩, ⟨11, 16, 0x6D9D6122⟩, ⟨14, 23, 0xFDE5380C⟩⟩,
  ⟨⟨1, 4, 0xA4BEEA44⟩, ⟨4, 11, 0x4BDECFA9⟩, ⟨7, 16, 0xF6BB4B60⟩, ⟨10, 23, 0xBEBFBC70⟩⟩,
  ⟨⟨13, 4, 0x289B7EC6⟩, ⟨0, 11, 0xEAA127FA⟩, ⟨3, 16, 0xD4EF3085⟩, ⟨6, 23, 0x04881D05⟩⟩,
  ⟨⟨9, 4, 0xD9D4D039⟩, ⟨12, 11, 0xE6DB99E5⟩, ⟨15, 16, 0x1FA27CF8⟩, ⟨2, 23, 0xC4AC5665⟩⟩]

def round4 : List Four := [
  ⟨⟨0, 6, 0xF4292244⟩, ⟨7, 10, 0x432AFF97⟩, ⟨14, 15, 0xAB9423A7⟩, ⟨5, 21, 0xFC93A039⟩⟩,
  ⟨⟨12, 6, 0x655B59C3⟩, ⟨3, 10, 0x8F0CCC92⟩, ⟨10, 15, 0xFFEFF47D⟩, ⟨1, 21, 0x85845DD1⟩⟩,
  ⟨⟨8, 6, 0x6FA87E4F⟩, ⟨15, 10, 0xFE2CE6E0⟩, ⟨6, 15, 0xA3014314⟩, ⟨13, 21, 0x4E0811A1⟩⟩,
  ⟨⟨4, 6, 0xF7537E82⟩, ⟨11, 10, 0xBD3AF235⟩, ⟨2, 15, 0x2AD7D2BB⟩, ⟨9, 21, 0xEB86D391⟩⟩]

def F1 (x y z : Word) : Word := z ^^^ (x &&& (y ^^^ z))

def F2 (x y z : Word) : Word := y ^^^ (z &&& (x ^^^ y))

def F3 (x y z : Word) : Word := x ^^^ y ^^^ z

def F4 (x y z : Word) : Word := y ^^^ (x ||| ~~~z)

def md5Process (state : State) (data : List Byte) : State :=
  let X := wordsOf data
  let r := round1.foldl (four F1 X) state
  let r := round2.foldl (four F2 X) r
  let r := round3.foldl (four F3 X) r
  let r := round4.foldl (four F4 X) r
  ⟨state.a + r.a, state.b + r.b, state.c + r.c, state.d + r.d⟩

/-! ## The algorithm -/

/-- The integer part of `2 ^ 32` times the absolute sine of 1, ..., 64. -/
def sines : List (BitVec 32) := [
  0xd76aa478, 0xe8c7b756, 0x242070db, 0xc1bdceee, 0xf57c0faf, 0x4787c62a,
  0xa8304613, 0xfd469501, 0x698098d8, 0x8b44f7af, 0xffff5bb1, 0x895cd7be,
  0x6b901122, 0xfd987193, 0xa679438e, 0x49b40821, 0xf61e2562, 0xc040b340,
  0x265e5a51, 0xe9b6c7aa, 0xd62f105d, 0x02441453, 0xd8a1e681, 0xe7d3fbc8,
  0x21e1cde6, 0xc33707d6, 0xf4d50d87, 0x455a14ed, 0xa9e3e905, 0xfcefa3f8,
  0x676f02d9, 0x8d2a4c8a, 0xfffa3942, 0x8771f681, 0x6d9d6122, 0xfde5380c,
  0xa4beea44, 0x4bdecfa9, 0xf6bb4b60, 0xbebfbc70, 0x289b7ec6, 0xeaa127fa,
  0xd4ef3085, 0x04881d05, 0xd9d4d039, 0xe6db99e5, 0x1fa27cf8, 0xc4ac5665,
  0xf4292244, 0x432aff97, 0xab9423a7, 0xfc93a039, 0x655b59c3, 0x8f0ccc92,
  0xffeff47d, 0x85845dd1, 0x6fa87e4f, 0xfe2ce6e0, 0xa3014314, 0x4e0811a1,
  0xf7537e82, 0xbd3af235, 0x2ad7d2bb, 0xeb86d391]

def shifts : List (List ℕ) :=
  [[7, 12, 17, 22], [5, 9, 14, 20], [4, 11, 16, 23], [6, 10, 15, 21]]

/-- The auxiliary function of a round. -/
def auxiliary : ℕ → Word → Word → Word → Word
  | 0, x, y, z => (x &&& y) ||| (~~~x &&& z)
  | 1, x, y, z => (x &&& z) ||| (y &&& ~~~z)
  | 2, x, y, z => x ^^^ y ^^^ z
  | _, x, y, z => y ^^^ (x ||| ~~~z)

/-- The word that a step of a round takes. -/
def wordIndex (round i : ℕ) : ℕ :=
  match round with
  | 0 => i % 16
  | 1 => (5 * i + 1) % 16
  | 2 => (3 * i + 5) % 16
  | _ => 7 * i % 16

/-- Step `i` of 64. -/
def step (X : ℕ → Word) (r : State) (i : ℕ) : State :=
  let f := auxiliary (i / 16) r.b r.c r.d
  let sum := r.a + f + X (wordIndex (i / 16) i) + sines.getD i 0
  ⟨r.d, r.b + sum.rotateLeft ((shifts.getD (i / 16) []).getD (i % 4) 0), r.b, r.c⟩

def compress (state : State) (data : List Byte) : State :=
  let r := (List.range 64).foldl (step (wordsOf data)) state
  ⟨state.a + r.a, state.b + r.b, state.c + r.c, state.d + r.d⟩

/-! ## `md5_process` is the algorithm -/

/-- The numbers of step `i`. -/
def callOf (i : ℕ) : Call :=
  ⟨wordIndex (i / 16) i, (shifts.getD (i / 16) []).getD (i % 4) 0, sines.getD i 0⟩

/-- A line of `md5_process`, after which the registers change their places. -/
def line (F : Word → Word → Word → Word) (X : ℕ → Word) (r : State) (call : Call) : State :=
  ⟨r.d, P F X call r.a r.b r.c r.d, r.b, r.c⟩

def Four.lines (l : Four) : List Call := [l.first, l.second, l.third, l.fourth]

/-- After four lines each register is in its place again. -/
theorem four_eq (F : Word → Word → Word → Word) (X : ℕ → Word) (r : State) (lines : Four) :
    four F X r lines = lines.lines.foldl (line F X) r := rfl

theorem foldl_four (F : Word → Word → Word → Word) (X : ℕ → Word) (r : State) (round : List Four) :
    round.foldl (four F X) r = (round.flatMap Four.lines).foldl (line F X) r := by
  induction round generalizing r with
  | nil => rfl
  | cons lines round ih => rw [List.foldl_cons, List.flatMap_cons, List.foldl_append, ih, four_eq]

theorem S_eq_rotateLeft (x : Word) {n : ℕ} (hn : n < 32) : S x n = x.rotateLeft n := by
  have hall : (0xFFFFFFFF : Word) = BitVec.allOnes 32 := rfl
  rw [S, hall, BitVec.and_allOnes, BitVec.rotateLeft, BitVec.rotateLeftAux, Nat.mod_eq_of_lt hn]

theorem F1_eq (x y z : Word) : F1 x y z = auxiliary 0 x y z := by
  apply BitVec.eq_of_getLsbD_eq
  intro i hi
  simp only [F1, auxiliary, BitVec.getLsbD_xor, BitVec.getLsbD_and, BitVec.getLsbD_or,
    BitVec.getLsbD_not, hi, decide_true, Bool.true_and]
  cases x.getLsbD i <;> cases y.getLsbD i <;> cases z.getLsbD i <;> rfl

theorem F2_eq (x y z : Word) : F2 x y z = auxiliary 1 x y z := by
  apply BitVec.eq_of_getLsbD_eq
  intro i hi
  simp only [F2, auxiliary, BitVec.getLsbD_xor, BitVec.getLsbD_and, BitVec.getLsbD_or,
    BitVec.getLsbD_not, hi, decide_true, Bool.true_and]
  cases x.getLsbD i <;> cases y.getLsbD i <;> cases z.getLsbD i <;> rfl

theorem F3_eq (x y z : Word) : F3 x y z = auxiliary 2 x y z := rfl

theorem F4_eq (x y z : Word) : F4 x y z = auxiliary 3 x y z := rfl

/-- A line with the numbers of a step is that step. -/
theorem line_callOf {F : Word → Word → Word → Word} {i : ℕ} (hi : i < 64)
    (hF : ∀ x y z, F x y z = auxiliary (i / 16) x y z) (X : ℕ → Word) (r : State) :
    line F X r (callOf i) = step X r i := by
  have hshift : ∀ j < 64, (shifts.getD (j / 16) []).getD (j % 4) 0 < 32 := by decide
  simp only [line, step, P, callOf, hF, S_eq_rotateLeft _ (hshift i hi), State.mk.injEq, true_and,
    and_true]
  rw [BitVec.add_comm, BitVec.add_assoc r.a, BitVec.add_assoc r.a, BitVec.add_assoc]

/-- The lines of one round are its sixteen steps. -/
private theorem foldl_round {F : Word → Word → Word → Word} {round : List Four} {j : ℕ} (hj : j < 4)
    (hlines : round.flatMap Four.lines = (List.range' (16 * j) 16).map callOf)
    (hF : ∀ x y z, F x y z = auxiliary j x y z) (X : ℕ → Word) (r : State) :
    round.foldl (four F X) r = (List.range' (16 * j) 16).foldl (step X) r := by
  rw [foldl_four, hlines, List.foldl_map]
  apply List.foldl_ext
  intro r i hi
  have hrange := List.mem_range'_1.mp hi
  have hround : i / 16 = j := by omega
  exact line_callOf (by omega) (by rwa [hround]) X r

theorem md5Process_eq (state : State) (data : List Byte) :
    md5Process state data = compress state data := by
  have hsteps : List.range 64 = List.range' (16 * 0) 16 ++ List.range' (16 * 1) 16 ++
      List.range' (16 * 2) 16 ++ List.range' (16 * 3) 16 := rfl
  rw [md5Process, compress, hsteps]
  simp only [List.foldl_append]
  rw [foldl_round (by decide : 0 < 4) rfl F1_eq, foldl_round (by decide : 1 < 4) rfl F2_eq,
    foldl_round (by decide : 2 < 4) rfl F3_eq, foldl_round (by decide : 3 < 4) rfl F4_eq]

end WiotaDev.Md5
