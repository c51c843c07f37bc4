import WiotaDev.FastLzDecompressor
import Mathlib.Logic.Function.Basic

/-! # The compressor of `fastlz.c`

A hash table remembers where three bytes were last seen. What has been written is a coded
list of instructions, the place for the code of a run of literals, and that run so far. -/

namespace WiotaDev.FastLzBlocks
open WordBytes LempelZiv

def HASH_LOG : ℕ := 10

def HASH_SIZE : ℕ := 2 ^ HASH_LOG

/-- The compressor in its loops: the output ends with the `copy` literals that have not been
counted yet, behind the place of their code. -/
structure Compressor where
  ip : ℕ
  out : List Byte
  copy : ℕ
  htab : ℕ → ℕ

section Compressor
variable (mem : ℕ → Byte)

/-- `FASTLZ_READU16`. -/
def readU16 (p : ℕ) : ℕ := (mem p).toNat ||| (mem (p + 1)).toNat <<< 8

/-- `HASH_FUNCTION`. -/
def hashFunction (p : ℕ) : ℕ :=
  (readU16 mem p ^^^ (readU16 mem (p + 1) ^^^ readU16 mem p >>> (16 - HASH_LOG))) &&&
    (HASH_SIZE - 1)

/-- Level 2 looks for a run of four bytes first. -/
def IsRun (lvl : Level) (ip : ℕ) : Prop :=
  lvl = .two ∧ mem ip = mem (ip - 1) ∧ readU16 mem (ip - 1) = readU16 mem (ip + 1)

instance (lvl : Level) (ip : ℕ) : Decidable (IsRun mem lvl ip) :=
  inferInstanceAs (Decidable (_ ∧ _))

/-- From this distance on there is no code. -/
def Level.limit : Level → ℕ
  | .one => Level.one.MAX_DISTANCE
  | .two => MAX_FARDISTANCE

/-- The distance of a match at `anchor` and how many bytes of it have been compared. -/
def findMatch (lvl : Level) (htab : ℕ → ℕ) (anchor : ℕ) : Option (ℕ × ℕ) × (ℕ → ℕ) :=
  if IsRun mem lvl anchor then (some (1, 3), htab)
  else
    let hval := hashFunction mem anchor
    let ref := htab hval
    let distance := anchor - ref
    let htab := Function.update htab hval anchor
    if distance = 0 ∨ lvl.limit ≤ distance ∨ mem ref ≠ mem anchor ∨
        mem (ref + 1) ≠ mem (anchor + 1) ∨ mem (ref + 2) ≠ mem (anchor + 2) then (none, htab)
    else if lvl = .two ∧ lvl.MAX_DISTANCE ≤ distance then
      if mem (anchor + 3) ≠ mem (ref + 3) ∨ mem (anchor + 4) ≠ mem (ref + 4) then (none, htab)
      else (some (distance, 5), htab)
    else (some (distance, 3), htab)

/-- `while (ip < ip_bound) if (*ref++ != x) break; else ip++;` with what is left to the bound. -/
def extendRun (x : Byte) : ℕ → ℕ → ℕ → ℕ
  | 0, _, ip => ip
  | n + 1, ref, ip => if mem ref ≠ x then ip else extendRun x n (ref + 1) (ip + 1)

/-- At most `n` times `if (*ref++ != *ip++) break;`, and whether there was a break. -/
def compareBytes : ℕ → ℕ → ℕ → ℕ × Bool
  | 0, _, ip => (ip, false)
  | n + 1, ref, ip =>
    if mem ref ≠ mem ip then (ip + 1, true) else compareBytes n (ref + 1) (ip + 1)

/-- Where `ip` stands once the match has been followed as far as it goes. -/
def matchEnd (length anchor distance len : ℕ) : ℕ :=
  let ip := anchor + len
  let ref := ip - distance
  if distance - 1 = 0 then extendRun mem (mem (ip - 1)) (length - 2 - ip) ref ip
  else
    match compareBytes mem 8 ref ip with
    | (ip, true) => ip
    | (ip, false) => (compareBytes mem (length - 2 - ip) (ref + 8) ip).1

/-- The count of the literals is put in its place, or the place is taken back. -/
def closeRun (out : List Byte) (copy : ℕ) : List Byte :=
  if copy ≠ 0 then out.set (out.length - copy - 1) (BitVec.ofNat 8 (copy - 1)) else out.dropLast

/-- `while (len > MAX_LEN - 2)`: the matches split off, and the length that is left. -/
def splitMatch (distance : ℕ) : ℕ → ℕ → List Byte × ℕ
  | 0, len => ([], len)
  | fuel + 1, len =>
    if MAX_LEN - 2 < len then
      let (rest, left) := splitMatch distance fuel (len - (MAX_LEN - 2))
      (BitVec.ofNat 8 (7 * 32 + distance / 256) :: BitVec.ofNat 8 (MAX_LEN - 2 - 7 - 2) ::
        BitVec.ofNat 8 (distance % 256) :: rest, left)
    else ([], len)

/-- `for (len -= 7; len >= 255; len -= 255) *op++ = 255; *op++ = len;` -/
def putLength : ℕ → ℕ → List Byte
  | 0, len => [BitVec.ofNat 8 len]
  | fuel + 1, len => if 255 ≤ len then 255 :: putLength fuel (len - 255) else [BitVec.ofNat 8 len]

/-- The code of a match; both numbers are biased. -/
def Level.putMatch (len distance : ℕ) : Level → List Byte
  | .one =>
    let (split, len) := splitMatch distance len len
    split ++
      if len < 7 then
        [BitVec.ofNat 8 (len * 32 + distance / 256), BitVec.ofNat 8 (distance % 256)]
      else
        [BitVec.ofNat 8 (7 * 32 + distance / 256), BitVec.ofNat 8 (len - 7),
          BitVec.ofNat 8 (distance % 256)]
  | .two =>
    if distance < Level.two.MAX_DISTANCE then
      if len < 7 then
        [BitVec.ofNat 8 (len * 32 + distance / 256), BitVec.ofNat 8 (distance % 256)]
      else
        BitVec.ofNat 8 (7 * 32 + distance / 256) ::
          (putLength (len - 7) (len - 7) ++ [BitVec.ofNat 8 (distance % 256)])
    else
      let far := distance - Level.two.MAX_DISTANCE
      if len < 7 then
        [BitVec.ofNat 8 (len * 32 + 31), 255, BitVec.ofNat 8 (far / 256),
          BitVec.ofNat 8 (far % 256)]
      else
        BitVec.ofNat 8 (7 * 32 + 31) :: (putLength (len - 7) (len - 7) ++
          [255, BitVec.ofNat 8 (far / 256), BitVec.ofNat 8 (far % 256)])

/-- One byte as a literal; a full run is followed by the place of the next code. -/
def Compressor.literal (c : Compressor) : Compressor :=
  if c.copy + 1 = MAX_COPY then
    { c with ip := c.ip + 1, out := c.out ++ [mem c.ip, BitVec.ofNat 8 (MAX_COPY - 1)], copy := 0 }
  else { c with ip := c.ip + 1, out := c.out ++ [mem c.ip], copy := c.copy + 1 }

/-- One round of the main loop. -/
def compressStep (lvl : Level) (length : ℕ) (c : Compressor) : Compressor :=
  match findMatch mem lvl c.htab c.ip with
  | (none, htab) => { c with htab := htab }.literal mem
  | (some (distance, len), htab) =>
    let ip := matchEnd mem length c.ip distance len - 3
    let htab := Function.update htab (hashFunction mem ip) ip
    { ip := ip + 2
      out := closeRun c.out c.copy ++ lvl.putMatch (ip - c.ip) (distance - 1) ++
        [BitVec.ofNat 8 (MAX_COPY - 1)]
      copy := 0
      htab := Function.update htab (hashFunction mem (ip + 1)) (ip + 1) }

/-- At most `n` rounds of `while (ip < ip_limit)`. -/
def mainLoop (lvl : Level) (length : ℕ) : ℕ → Compressor → Compressor
  | 0, c => c
  | n + 1, c => if c.ip + 12 < length then mainLoop lvl length n (compressStep mem lvl length c) else c

/-- At most `n` rounds of the loop over the left-over. -/
def leftOver (length : ℕ) : ℕ → Compressor → Compressor
  | 0, c => c
  | n + 1, c => if c.ip < length then leftOver length n (c.literal mem) else c

def Compressor.start : Compressor :=
  ⟨2, [BitVec.ofNat 8 (MAX_COPY - 1), mem 0, mem 1], 2, fun _ => 0⟩

/-- `fastlz1_compress` and `fastlz2_compress`, the hash table having been allocated. -/
def Level.compress (lvl : Level) (length : ℕ) : List Byte :=
  if length < 4 then
    if length ≠ 0 then BitVec.ofNat 8 (length - 1) :: values mem 0 length else []
  else
    let c := leftOver mem length length (mainLoop mem lvl length length (Compressor.start mem))
    match lvl with
    | .one => closeRun c.out c.copy
    | .two => (closeRun c.out c.copy).modifyHead (· ||| 32)

/-- What is written, or -1 where there is no memory for the hash table. -/
def fastlzCompress (alloc : Bool) (length : ℕ) : Option (List Byte) :=
  if alloc = false then none
  else if length < 65536 then some (Level.one.compress mem length)
  else some (Level.two.compress mem length)

end Compressor

end WiotaDev.FastLzBlocks
