import WiotaDev.LempelZiv
import WiotaDev.WordBytes
import Mathlib.Logic.Relation

/-! # The decompressor of `fastlz.c`

The source file compiles its coder twice, once for each `FASTLZ_LEVEL`. A pointer is its
distance from the start of its buffer; what stands behind the input is part of the memory
the decompressor reads. -/

namespace WiotaDev.FastLzBlocks
open WordBytes LempelZiv

/-- `FASTLZ_LEVEL`. -/
inductive Level where
  | one
  | two
  deriving DecidableEq

def MAX_COPY : ℕ := 32

def MAX_LEN : ℕ := 256 + 8

def Level.MAX_DISTANCE : Level → ℕ
  | .one => 8192
  | .two => 8191

def MAX_FARDISTANCE : ℕ := 65535 + Level.two.MAX_DISTANCE - 1

/-- The decompressor in its loop, with the code it has read and what it has written. -/
structure Decoder where
  ip : ℕ
  out : List Byte
  ctrl : ℕ

/-- What a match names: where the input goes on, its length less 3, and `op - ref`. -/
structure Match where
  ip : ℕ
  len : ℕ
  back : ℕ

inductive Progress where
  | failed
  | finished (out : List Byte)
  | running (d : Decoder)

section Decompressor
variable (mem : ℕ → Byte)

/-- `do { code = *ip++; len += code; } while (code == 255);` with at most `fuel` rounds; `len` is
an unsigned word. -/
def readLength : ℕ → ℕ → ℕ → Option (ℕ × ℕ)
  | 0, _, _ => none
  | fuel + 1, ip, len =>
    if mem ip = 255 then readLength fuel (ip + 1) ((len + 255) % 2 ^ 32)
    else some (ip + 1, (len + (mem ip).toNat) % 2 ^ 32)

/-- The bytes that give the length of a match, with the length so far. -/
def readLen (lvl : Level) (fuel ip len : ℕ) : Option (ℕ × ℕ) :=
  if len = 7 - 1 then
    match lvl with
    | .one => some (ip + 1, len + (mem ip).toNat)
    | .two => readLength mem fuel ip len
  else some (ip, len)

/-- The bytes that give the distance of a match, `ofs` being what the code says of it. -/
def readRef (lvl : Level) (ofs ip len : ℕ) : Match :=
  if lvl = .two ∧ mem ip = 255 ∧ ofs = 31 * 256 then
    ⟨ip + 3, len, (mem (ip + 1)).toNat * 256 + (mem (ip + 2)).toNat + lvl.MAX_DISTANCE⟩
  else ⟨ip + 1, len, ofs + (mem ip).toNat⟩

def readMatch (lvl : Level) (fuel ip ctrl : ℕ) : Option Match :=
  match readLen mem lvl fuel ip (ctrl / 32 - 1) with
  | none => none
  | some (ip, len) => some (readRef mem lvl (ctrl % 32 * 256) ip len)

/-- A match is written byte by byte; a run of the byte written last is not read again. -/
def copyMatch (out : List Byte) (len back : ℕ) : List Byte :=
  if back = 0 then out ++ List.replicate (len + 3) (out.getLastD 0)
  else copyFrom (back + 1) (len + 3) out

/-- The next code, where the input still has one. -/
def advance (length ip : ℕ) (out : List Byte) : Progress :=
  if ip < length then .running ⟨ip + 1, out, (mem ip).toNat⟩ else .finished out

/-- One round of the loop; there is none only where a length does not end. -/
def decompressStep (lvl : Level) (length maxout fuel : ℕ) (d : Decoder) : Option Progress :=
  if 32 ≤ d.ctrl then
    match readMatch mem lvl fuel d.ip d.ctrl with
    | none => none
    | some m =>
      if maxout < d.out.length + m.len + 3 then some .failed
      else if d.out.length < m.back + 1 then some .failed
      else some (advance mem length m.ip (copyMatch d.out m.len m.back))
  else if maxout < d.out.length + (d.ctrl + 1) then some .failed
  else if length < d.ip + (d.ctrl + 1) then some .failed
  else some (advance mem length (d.ip + (d.ctrl + 1)) (d.out ++ values mem d.ip (d.ctrl + 1)))

/-- The decompressed bytes; a failure returns 0. -/
def decompressLoop (lvl : Level) (length maxout fuel : ℕ) : ℕ → Decoder → Option (List Byte)
  | 0, _ => none
  | n + 1, d =>
    match decompressStep mem lvl length maxout fuel d with
    | none => none
    | some .failed => some []
    | some (.finished out) => some out
    | some (.running d') => decompressLoop lvl length maxout fuel n d'

def Decoder.start : Decoder := ⟨1, [], (mem 0).toNat % 32⟩

/-- `fastlz1_decompress` and `fastlz2_decompress`. -/
def Level.decompress (lvl : Level) (length maxout fuel : ℕ) : Option (List Byte) :=
  decompressLoop mem lvl length maxout fuel fuel (Decoder.start mem)

def fastlzDecompress (length maxout fuel : ℕ) : Option (List Byte) :=
  if (mem 0).toNat / 32 + 1 = 1 then Level.one.decompress mem length maxout fuel
  else if (mem 0).toNat / 32 + 1 = 2 then Level.two.decompress mem length maxout fuel
  else some []

end Decompressor

/-! ## The coded form of an instruction -/

/-- The instructions a level has a code for. -/
def Encodable : Level → Instr Byte → Prop
  | _, .literals run => 1 ≤ run.length ∧ run.length ≤ MAX_COPY
  | .one, .copy distance len => 3 ≤ len ∧ len ≤ MAX_LEN ∧ distance ≤ Level.one.MAX_DISTANCE
  | .two, .copy distance len => 3 ≤ len ∧ distance ≤ Level.two.MAX_DISTANCE + 65536

/-- The bytes of a length that does not fit the code. -/
def lengthBytes : Level → ℕ → List Byte
  | .one, len => [BitVec.ofNat 8 len]
  | .two, len => List.replicate (len / 255) 255 ++ [BitVec.ofNat 8 (len % 255)]

/-- A distance, less one, is coded far. -/
def Far (lvl : Level) (distance : ℕ) : Prop := lvl = .two ∧ Level.two.MAX_DISTANCE ≤ distance

instance (lvl : Level) (distance : ℕ) : Decidable (Far lvl distance) :=
  inferInstanceAs (Decidable (_ ∧ _))

def distanceCode (lvl : Level) (distance : ℕ) : ℕ := if Far lvl distance then 31 else distance / 256

def distanceBytes (lvl : Level) (distance : ℕ) : List Byte :=
  if Far lvl distance then [255, BitVec.ofNat 8 ((distance - Level.two.MAX_DISTANCE) / 256),
    BitVec.ofNat 8 ((distance - Level.two.MAX_DISTANCE) % 256)]
  else [BitVec.ofNat 8 (distance % 256)]

def codeOf (lvl : Level) : Instr Byte → ℕ
  | .literals run => run.length - 1
  | .copy distance len => min (len - 2) 7 * 32 + distanceCode lvl (distance - 1)

def operandsOf (lvl : Level) : Instr Byte → List Byte
  | .literals run => run
  | .copy distance len =>
    (if len - 2 < 7 then [] else lengthBytes lvl (len - 2 - 7)) ++ distanceBytes lvl (distance - 1)

def encode (lvl : Level) (i : Instr Byte) : List Byte :=
  BitVec.ofNat 8 (codeOf lvl i) :: operandsOf lvl i

def serial (lvl : Level) (is : List (Instr Byte)) : List Byte := is.flatMap (encode lvl)

theorem serial_cons (lvl : Level) (i : Instr Byte) (is : List (Instr Byte)) :
    serial lvl (i :: is) =
      BitVec.ofNat 8 (codeOf lvl i) :: (operandsOf lvl i ++ serial lvl is) := rfl

theorem length_le_serial (lvl : Level) (is : List (Instr Byte)) :
    is.length ≤ (serial lvl is).length := by
  induction is with
  | nil => exact Nat.zero_le _
  | cons i is ih =>
    rw [serial_cons, List.length_cons, List.length_cons, List.length_append]
    omega

theorem distanceCode_lt {lvl : Level} {distance : ℕ} (h : ¬ Far lvl distance → distance < 8192) :
    distanceCode lvl distance < 32 := by
  rw [distanceCode]
  split
  · decide
  · rename_i hnear
    have := h hnear
    omega

private theorem near_of {lvl : Level} {distance : ℕ} (hone : lvl = .one → distance < 8192)
    (hfar : ¬ Far lvl distance) : distance < 8192 := by
  cases lvl with
  | one => exact hone rfl
  | two => exact Nat.lt_succ_of_lt (Nat.lt_of_not_le fun h => hfar ⟨rfl, h⟩)

theorem Encodable.run {lvl : Level} {run : List Byte} (h : Encodable lvl (.literals run)) :
    1 ≤ run.length ∧ run.length ≤ 32 := by
  cases lvl with
  | one | two => exact h

theorem Encodable.len {lvl : Level} {distance len : ℕ} (h : Encodable lvl (.copy distance len)) :
    3 ≤ len ∧ (lvl = .one → len ≤ 264) := by
  cases lvl with
  | one => exact ⟨h.1, fun _ => h.2.1⟩
  | two => exact ⟨h.1, fun hlvl => absurd hlvl (by decide)⟩

theorem Encodable.distance {lvl : Level} {distance len : ℕ}
    (h : Encodable lvl (.copy distance len)) :
    (lvl = .one → distance ≤ 8192) ∧ (lvl = .two → distance ≤ 8191 + 65536) := by
  cases lvl with
  | one => exact ⟨fun _ => h.2.2, fun hlvl => absurd hlvl (by decide)⟩
  | two => exact ⟨fun hlvl => absurd hlvl (by decide), fun _ => h.2⟩

theorem Encodable.distanceCode_lt {lvl : Level} {distance len : ℕ}
    (h : Encodable lvl (.copy distance len)) : distanceCode lvl (distance - 1) < 32 := by
  apply FastLzBlocks.distanceCode_lt
  intro hfar
  apply near_of ?_ hfar
  intro hlvl
  have hmax := h.distance.1 hlvl
  omega

theorem codeOf_lt {lvl : Level} {i : Instr Byte} (h : Encodable lvl i) : codeOf lvl i < 256 := by
  cases i with
  | literals run =>
    have hmax := h.run.2
    rw [codeOf]
    omega
  | copy distance len =>
    have hcode := h.distanceCode_lt
    rw [codeOf]
    omega

section Reading
variable {mem : ℕ → Byte}

/-- The loop over a length ends with the first byte other than 255. -/
theorem readLength_replicate {q ip fuel : ℕ} {r : Byte} (len : ℕ) (hr : r ≠ 255) (hfuel : q < fuel)
    (hword : len + 255 * q + r.toNat < 2 ^ 32)
    (hmem : Holds mem ip (List.replicate q 255 ++ [r])) :
    readLength mem fuel ip len = some (ip + (q + 1), len + 255 * q + r.toNat) := by
  induction q generalizing ip fuel len with
  | zero =>
    obtain ⟨fuel, rfl⟩ := Nat.exists_eq_add_of_lt hfuel
    have hbyte := (holds_cons.mp hmem).1
    rw [Nat.mul_zero, Nat.add_zero] at hword
    rw [readLength, if_neg (by rwa [hbyte]), hbyte, Nat.mod_eq_of_lt hword]
    rfl
  | succ q ih =>
    obtain ⟨fuel, rfl⟩ := Nat.exists_eq_add_of_lt hfuel
    obtain ⟨hbyte, hrest⟩ := holds_cons.mp hmem
    have hlen : (len + 255) % 2 ^ 32 = len + 255 := Nat.mod_eq_of_lt (by omega)
    rw [readLength, if_pos hbyte, hlen, ih (len + 255) (by omega) (by omega) hrest]
    simp only [Option.some.injEq, Prod.mk.injEq]
    omega

theorem readLen_encoded (lvl : Level) {ip len : ℕ} (fuel : ℕ) (hlen : 1 ≤ len)
    (hone : lvl = .one → len - 7 < 256) (hword : len < 2 ^ 32)
    (hfuel : (if len < 7 then [] else lengthBytes lvl (len - 7)).length ≤ fuel)
    (hmem : Holds mem ip (if len < 7 then [] else lengthBytes lvl (len - 7))) :
    readLen mem lvl fuel ip (min len 7 - 1) =
      some (ip + (if len < 7 then [] else lengthBytes lvl (len - 7)).length, len - 1) := by
  by_cases hshort : len < 7
  · rw [readLen.eq_def, if_neg (by omega), if_pos hshort, Nat.min_eq_left (by omega)]
    rfl
  rw [if_neg hshort] at hmem hfuel
  rw [readLen.eq_def, if_pos (by omega), if_neg hshort, Nat.min_eq_right (by omega)]
  cases lvl with
  | one =>
    have hbyte := (holds_cons.mp hmem).1
    simp only [hbyte, lengthBytes, List.length_singleton, BitVec.toNat_ofNat,
      Nat.mod_eq_of_lt (hone rfl), Option.some.injEq, Prod.mk.injEq, true_and]
    omega
  | two =>
    have hr : (BitVec.ofNat 8 ((len - 7) % 255) : Byte) ≠ 255 := by
      intro h
      have hnat := congrArg BitVec.toNat h
      have h255 : (255 : Byte).toNat = 255 := rfl
      rw [BitVec.toNat_ofNat, h255] at hnat
      omega
    have hq : (len - 7) / 255 < fuel := by
      rw [lengthBytes, List.length_append, List.length_replicate, List.length_singleton] at hfuel
      exact hfuel
    have hlast : ((BitVec.ofNat 8 ((len - 7) % 255) : Byte)).toNat = (len - 7) % 255 := by
      rw [BitVec.toNat_ofNat]
      omega
    simp only [lengthBytes] at hmem ⊢
    rw [readLength_replicate (7 - 1) hr hq (by omega) hmem]
    simp only [List.length_append, List.length_replicate, List.length_singleton,
      BitVec.toNat_ofNat, Nat.reducePow, Option.some.injEq, Prod.mk.injEq, true_and]
    omega

theorem readRef_encoded (lvl : Level) {ip distance : ℕ} (len : ℕ)
    (hone : lvl = .one → distance < 8192)
    (htwo : lvl = .two → distance < 8191 + 65536)
    (hmem : Holds mem ip (distanceBytes lvl distance)) :
    readRef mem lvl (distanceCode lvl distance * 256) ip len =
      ⟨ip + (distanceBytes lvl distance).length, len, distance⟩ := by
  by_cases hfar : Far lvl distance
  · have hlvl := hfar.1
    have hmin : 8191 ≤ distance := hfar.2
    have hmax : distance < 8191 + 65536 := htwo hlvl
    rw [distanceBytes, if_pos hfar] at hmem ⊢
    obtain ⟨h₀, hmem⟩ := holds_cons.mp hmem
    obtain ⟨h₁, hmem⟩ := holds_cons.mp hmem
    have h₂ := (holds_cons.mp hmem).1
    rw [readRef, if_pos ⟨hlvl, h₀, by rw [distanceCode, if_pos hfar]⟩, h₁, h₂, hlvl]
    simp only [BitVec.toNat_ofNat, Nat.reducePow, Level.MAX_DISTANCE, List.length_cons,
      List.length_nil, Match.mk.injEq, true_and]
    omega
  · have hnear := near_of hone hfar
    rw [distanceBytes, if_neg hfar] at hmem ⊢
    have h₀ := (holds_cons.mp hmem).1
    have hbyte : (mem ip).toNat = distance % 256 := by
      rw [h₀, BitVec.toNat_ofNat]
      omega
    have hplain : ¬ (lvl = .two ∧ mem ip = 255 ∧ distanceCode lvl distance * 256 = 31 * 256) := by
      rintro ⟨hlvl, h255, hcode⟩
      have hlt : distance < 8191 := Nat.lt_of_not_le fun h => hfar ⟨hlvl, h⟩
      rw [h255] at hbyte
      rw [distanceCode, if_neg hfar] at hcode
      have h255' : (255 : Byte).toNat = 255 := rfl
      omega
    rw [readRef, if_neg hplain, hbyte, distanceCode, if_neg hfar]
    simp only [List.length_singleton, Match.mk.injEq, true_and]
    omega

end Reading

theorem copyMatch_eq {out : List Byte} {len back : ℕ} (h : back < out.length) :
    copyMatch out len back = copyFrom (back + 1) (len + 3) out := by
  rw [copyMatch]
  split
  · rename_i hback
    rcases List.eq_nil_or_concat out with rfl | ⟨init, b, rfl⟩
    · exact absurd h (Nat.not_lt_zero back)
    · rw [List.concat_eq_append, hback, Nat.zero_add, copyFrom_one, List.getLastD_concat]
  · rfl

/-! ## Decompressing the coded form of instructions -/

section Decoding
variable {mem : ℕ → Byte} {lvl : Level} {length maxout fuel : ℕ}

private theorem decompressStep_literals {ip : ℕ} {out run : List Byte}
    (henc : Encodable lvl (.literals run)) (hroom : out.length + run.length ≤ maxout)
    (hmem : Holds mem ip run) (hend : ip + run.length ≤ length) :
    decompressStep mem lvl length maxout fuel ⟨ip, out, run.length - 1⟩ =
      some (advance mem length (ip + run.length) (out ++ run)) := by
  obtain ⟨hmin, hmax⟩ := henc.run
  have hrun : values mem ip run.length = run := hmem
  simp only [decompressStep, Nat.sub_add_cancel hmin]
  rw [if_neg (by omega), if_neg (by omega), if_neg (by omega), hrun]

private theorem decompressStep_copy {ip distance len : ℕ} {out : List Byte}
    (henc : Encodable lvl (.copy distance len)) (h₁ : 1 ≤ distance) (h₂ : distance ≤ out.length)
    (hroom : out.length + len ≤ maxout) (hword : len < 2 ^ 32)
    (hfuel : (operandsOf lvl (.copy distance len)).length ≤ fuel)
    (hmem : Holds mem ip (operandsOf lvl (.copy distance len))) :
    decompressStep mem lvl length maxout fuel ⟨ip, out, codeOf lvl (.copy distance len)⟩ =
      some (advance mem length (ip + (operandsOf lvl (.copy distance len)).length)
        (copyFrom distance len out)) := by
  obtain ⟨hmin, hmax⟩ := henc.len
  obtain ⟨hone, htwo⟩ := henc.distance
  have hcode := henc.distanceCode_lt
  simp only [operandsOf] at hmem hfuel ⊢
  obtain ⟨hlen, hdistance⟩ := holds_append.mp hmem
  rw [List.length_append] at hfuel ⊢
  have hreadLen := readLen_encoded lvl fuel (by omega)
    (fun h => by have := hmax h; omega) (by omega) (by omega) hlen
  have hreadRef := readRef_encoded lvl (len - 2 - 1)
    (fun h => by have := hone h; omega) (fun h => by have := htwo h; omega) hdistance
  have hread : readMatch mem lvl fuel ip (codeOf lvl (.copy distance len)) =
      some ⟨ip + (if len - 2 < 7 then [] else lengthBytes lvl (len - 2 - 7)).length +
        (distanceBytes lvl (distance - 1)).length, len - 2 - 1, distance - 1⟩ := by
    have hdiv : codeOf lvl (.copy distance len) / 32 = min (len - 2) 7 := by
      rw [codeOf]
      omega
    have hmod : codeOf lvl (.copy distance len) % 32 = distanceCode lvl (distance - 1) := by
      rw [codeOf]
      omega
    simp only [readMatch, hdiv, hmod, hreadLen, hreadRef]
  have hctrl : 32 ≤ codeOf lvl (.copy distance len) := by
    rw [codeOf]
    omega
  simp only [decompressStep, hread, if_pos hctrl]
  rw [if_neg (by omega), if_neg (by omega), copyMatch_eq (by omega), Nat.sub_add_cancel h₁,
    Nat.add_assoc]
  rw [show len - 2 - 1 + 3 = len by omega]

theorem decompressStep_encoded {i : Instr Byte} {ip : ℕ} {out : List Byte} (henc : Encodable lvl i)
    (hfits : i.Fits out.length) (hroom : out.length + i.size ≤ maxout) (hword : i.size < 2 ^ 32)
    (hmem : Holds mem ip (operandsOf lvl i)) (hend : ip + (operandsOf lvl i).length ≤ length)
    (hfuel : length ≤ fuel) :
    decompressStep mem lvl length maxout fuel ⟨ip, out, codeOf lvl i⟩ =
      some (advance mem length (ip + (operandsOf lvl i).length) (i.apply out)) := by
  cases i with
  | literals run => exact decompressStep_literals henc hroom hmem hend
  | copy distance len =>
    exact decompressStep_copy henc hfits.1 hfits.2 hroom hword (by omega) hmem

/-- The loop works through the rest of the input. -/
private theorem decompressLoop_encoded (is : List (Instr Byte)) {i : Instr Byte} {ip n : ℕ}
    {out : List Byte} (henc : ∀ j ∈ i :: is, Encodable lvl j)
    (hvalid : ValidFrom out.length (i :: is)) (hroom : out.length + totalSize (i :: is) ≤ maxout)
    (hword : totalSize (i :: is) < 2 ^ 32)
    (hmem : Holds mem ip (operandsOf lvl i ++ serial lvl is))
    (hend : ip + (operandsOf lvl i ++ serial lvl is).length = length) (hfuel : length ≤ fuel)
    (hn : is.length < n) :
    decompressLoop mem lvl length maxout fuel n ⟨ip, out, codeOf lvl i⟩ =
      some (expandFrom out (i :: is)) := by
  induction is generalizing i ip n out with
  | nil =>
    obtain ⟨n, rfl⟩ := Nat.exists_eq_add_of_lt hn
    rw [totalSize_cons] at hroom hword
    rw [serial, List.flatMap_nil, List.append_nil] at hmem hend
    rw [decompressLoop, decompressStep_encoded (henc i List.mem_cons_self) hvalid.1 (by omega)
      (by omega) hmem (by omega) hfuel, advance, if_neg (by omega)]
    rfl
  | cons j js ih =>
    obtain ⟨n, rfl⟩ := Nat.exists_eq_add_of_lt hn
    have hcode : (BitVec.ofNat 8 (codeOf lvl j)).toNat = codeOf lvl j := by
      rw [BitVec.toNat_ofNat]
      exact Nat.mod_eq_of_lt (codeOf_lt (henc j (by simp)))
    have hsize := totalSize_cons i (j :: js)
    rw [serial_cons] at hmem hend
    rw [List.length_append, List.length_cons] at hend
    obtain ⟨hi, hrest⟩ := holds_append.mp hmem
    obtain ⟨hnext, hjs⟩ := holds_cons.mp hrest
    have hlen := Instr.apply_length hvalid.1
    rw [decompressLoop, decompressStep_encoded (henc i List.mem_cons_self) hvalid.1 (by omega)
      (by omega) hi (by omega) hfuel, advance, if_pos (by omega), hnext, hcode]
    refine ih (fun k hk => henc k (List.mem_cons_of_mem i hk)) ?_ (by omega) (by omega) hjs
      (by omega) ?_
    · rw [hlen]
      exact hvalid.2
    · rw [List.length_cons] at hn ⊢
      omega

/-- A coded list of instructions expands, its first byte being read without its level. -/
theorem Level.decompress_encoded {i : Instr Byte} {is : List (Instr Byte)}
    (hcode : (mem 0).toNat % 32 = codeOf lvl i) (henc : ∀ j ∈ i :: is, Encodable lvl j)
    (hvalid : ValidFrom 0 (i :: is)) (hroom : totalSize (i :: is) ≤ maxout)
    (hword : totalSize (i :: is) < 2 ^ 32)
    (hmem : Holds mem 1 (operandsOf lvl i ++ serial lvl is))
    (hend : (serial lvl (i :: is)).length = length) (hfuel : length ≤ fuel) :
    lvl.decompress mem length maxout fuel = some (expandFrom [] (i :: is)) := by
  have hshort := length_le_serial lvl (i :: is)
  rw [List.length_cons, hend] at hshort
  rw [serial_cons, List.length_cons] at hend
  rw [Level.decompress, Decoder.start, hcode]
  apply decompressLoop_encoded is henc
  · exact hvalid
  · rwa [List.length_nil, Nat.zero_add]
  · exact hword
  · exact hmem
  · omega
  · exact hfuel
  · omega

end Decoding

/-! ## What the decompressor does with any input -/

section Safety
variable {mem : ℕ → Byte} {lvl : Level} {length maxout fuel : ℕ}

/-- The decompressor goes on from one state to the next. -/
def Next (mem : ℕ → Byte) (lvl : Level) (length maxout fuel : ℕ) (d d' : Decoder) : Prop :=
  decompressStep mem lvl length maxout fuel d = some (.running d')

/-- What a round may do: fail, copy what stands in the output `m.back + 1` bytes before its end,
or take literals from inside the input, in either case into what is left of the output. -/
inductive Round (mem : ℕ → Byte) (lvl : Level) (length maxout fuel : ℕ) (d : Decoder) :
    Progress → Prop
  | failed : Round mem lvl length maxout fuel d .failed
  | copy (m : Match) (hctrl : 32 ≤ d.ctrl) (hread : readMatch mem lvl fuel d.ip d.ctrl = some m)
      (hback : m.back + 1 ≤ d.out.length) (hroom : d.out.length + (m.len + 3) ≤ maxout) :
      Round mem lvl length maxout fuel d
        (advance mem length m.ip (copyFrom (m.back + 1) (m.len + 3) d.out))
  | literals (hctrl : d.ctrl < 32) (hread : d.ip + (d.ctrl + 1) ≤ length)
      (hroom : d.out.length + (d.ctrl + 1) ≤ maxout) :
      Round mem lvl length maxout fuel d
        (advance mem length (d.ip + (d.ctrl + 1)) (d.out ++ values mem d.ip (d.ctrl + 1)))

theorem readLength_ip {fuel ip len : ℕ} {r : ℕ × ℕ} (h : readLength mem fuel ip len = some r) :
    ip ≤ r.1 := by
  induction fuel generalizing ip len with
  | zero => exact absurd h (by simp [readLength])
  | succ fuel ih =>
    rw [readLength] at h
    split at h
    · exact Nat.le_of_succ_le (ih h)
    · cases h
      exact Nat.le_succ ip

theorem readMatch_ip {ip ctrl : ℕ} {m : Match} (h : readMatch mem lvl fuel ip ctrl = some m) :
    ip ≤ m.ip := by
  rw [readMatch] at h
  split at h
  · cases h
  · rename_i ip' len hlen
    cases h
    have hlater : ip ≤ ip' := by
      rw [readLen.eq_def] at hlen
      split at hlen
      · cases lvl with
        | one =>
          cases hlen
          exact Nat.le_succ ip
        | two => exact readLength_ip hlen
      · cases hlen
        exact Nat.le_refl ip
    rw [readRef]
    split
    · exact hlater.trans (Nat.le_add_right ..)
    · exact hlater.trans (Nat.le_succ ip')

theorem decompressStep_round {d : Decoder} {p : Progress}
    (h : decompressStep mem lvl length maxout fuel d = some p) :
    Round mem lvl length maxout fuel d p := by
  rw [decompressStep] at h
  split at h
  · rename_i hctrl
    split at h
    · cases h
    rename_i m hm
    split at h
    · cases h
      exact .failed
    split at h
    · cases h
      exact .failed
    rw [copyMatch_eq (by omega)] at h
    cases h
    exact .copy m hctrl hm (by omega) (by omega)
  split at h
  · cases h
    exact .failed
  split at h
  · cases h
    exact .failed
  cases h
  exact .literals (by omega) (by omega) (by omega)

/-- A round that does not fail goes on behind what it has read, with what fits the output. -/
theorem Round.advances {d : Decoder} {p : Progress} (h : Round mem lvl length maxout fuel d p) :
    p = .failed ∨ ∃ (ip : ℕ) (out : List Byte), d.ip ≤ ip ∧ out.length ≤ maxout ∧
      p = advance mem length ip out := by
  cases h with
  | failed => exact .inl rfl
  | copy m _ hread hback hroom =>
    refine .inr ⟨m.ip, _, readMatch_ip hread, ?_, rfl⟩
    rw [copyFrom_length _ (Nat.succ_pos m.back) hback]
    exact hroom
  | literals _ _ hroom =>
    refine .inr ⟨_, _, Nat.le_add_right .., ?_, rfl⟩
    rw [List.length_append, values_length]
    exact hroom

theorem decompressStep_one_ne_none (d : Decoder) :
    decompressStep mem .one length maxout fuel d ≠ none := by
  have hlen (len : ℕ) : readLen mem .one fuel d.ip len ≠ none := by
    rw [readLen.eq_def]
    split
    · exact Option.some_ne_none _
    · exact Option.some_ne_none _
  have hmatch : readMatch mem .one fuel d.ip d.ctrl ≠ none := by
    rw [readMatch]
    split
    · exact absurd ‹_› (hlen _)
    · exact Option.some_ne_none _
  rw [decompressStep]
  split
  · split
    · exact absurd ‹_› hmatch
    · split
      · exact Option.some_ne_none _
      · split
        · exact Option.some_ne_none _
        · exact Option.some_ne_none _
  · split
    · exact Option.some_ne_none _
    · split
      · exact Option.some_ne_none _
      · exact Option.some_ne_none _

/-- What holds of the decompressor wherever it is in its loop. -/
structure Decoder.Safe (length maxout : ℕ) (d : Decoder) : Prop where
  ip_le : d.ip ≤ length
  out_le : d.out.length ≤ maxout

theorem safe_of_next {d d' : Decoder} (hnext : Next mem lvl length maxout fuel d d') :
    d'.Safe length maxout ∧ d.ip < d'.ip := by
  rcases (decompressStep_round hnext).advances with hfailed | ⟨ip, out, hip, hout, hrunning⟩
  · cases hfailed
  rw [advance] at hrunning
  split at hrunning
  · cases hrunning
    exact ⟨⟨by assumption, hout⟩, Nat.lt_succ_of_le hip⟩
  · cases hrunning

theorem finished_le {d : Decoder} {out : List Byte}
    (hfinished : decompressStep mem lvl length maxout fuel d = some (.finished out)) :
    out.length ≤ maxout := by
  rcases (decompressStep_round hfinished).advances with hfailed | ⟨ip, out, -, hout, hrunning⟩
  · cases hfailed
  rw [advance] at hrunning
  split at hrunning
  · cases hrunning
  · cases hrunning
    exact hout

theorem Decoder.start_safe (hlength : 1 ≤ length) : (Decoder.start mem).Safe length maxout :=
  ⟨hlength, Nat.zero_le _⟩

/-- Any number of rounds keeps what the decompressor writes in bounds. -/
theorem Decoder.Safe.run {d d' : Decoder} (h : d.Safe length maxout)
    (hrun : Relation.ReflTransGen (Next mem lvl length maxout fuel) d d') :
    d'.Safe length maxout := by
  cases hrun with
  | refl => exact h
  | tail _ hnext => exact (safe_of_next hnext).1

/-- Level 1 always comes to an end, as each round reads at least one byte. -/
private theorem decompressLoop_one {n : ℕ} {d : Decoder} (h : d.Safe length maxout)
    (hn : length - d.ip < n) :
    ∃ out, decompressLoop mem .one length maxout fuel n d = some out ∧ out.length ≤ maxout := by
  induction n generalizing d with
  | zero => exact absurd hn (Nat.not_lt_zero _)
  | succ n ih =>
    rw [decompressLoop]
    cases hstep : decompressStep mem .one length maxout fuel d with
    | none => exact absurd hstep (decompressStep_one_ne_none d)
    | some p =>
      cases p with
      | failed => exact ⟨[], rfl, Nat.zero_le _⟩
      | finished out => exact ⟨out, rfl, finished_le hstep⟩
      | running d' =>
        obtain ⟨hsafe, hip⟩ := safe_of_next hstep
        have hle := hsafe.ip_le
        exact ih hsafe (by omega)

/-- Two memories a level 1 decompressor does not tell apart. -/
private theorem decompressStep_one_congr {mem' : ℕ → Byte} {d : Decoder} (hip : d.ip ≤ length)
    (hmem : ∀ i < length + 2, mem i = mem' i) :
    decompressStep mem .one length maxout fuel d = decompressStep mem' .one length maxout fuel d := by
  have hadvance (ip : ℕ) (out : List Byte) : advance mem length ip out = advance mem' length ip out := by
    rw [advance, advance]
    split
    · rw [hmem ip (by omega)]
    · rfl
  rw [decompressStep, decompressStep]
  split
  · have h₀ := hmem d.ip (by omega)
    have h₁ := hmem (d.ip + 1) (by omega)
    have hmatch : readMatch mem .one fuel d.ip d.ctrl = readMatch mem' .one fuel d.ip d.ctrl := by
      by_cases hlong : d.ctrl / 32 - 1 = 6
      · simp [readMatch, readLen, readRef, hlong, h₀, h₁]
      · simp [readMatch, readLen, readRef, hlong, h₀]
    simp only [hmatch, hadvance]
  · split
    · rfl
    split
    · rfl
    rw [hadvance, values_congr fun i _ hlt => hmem i (by omega)]

private theorem decompressLoop_one_congr {mem' : ℕ → Byte} {n : ℕ} {d : Decoder}
    (h : d.Safe length maxout) (hmem : ∀ i < length + 2, mem i = mem' i) :
    decompressLoop mem .one length maxout fuel n d =
      decompressLoop mem' .one length maxout fuel n d := by
  induction n generalizing d with
  | zero => rfl
  | succ n ih =>
    rw [decompressLoop, decompressLoop, ← decompressStep_one_congr h.ip_le hmem]
    cases hstep : decompressStep mem .one length maxout fuel d with
    | none => rfl
    | some p =>
      cases p with
      | failed => rfl
      | finished out => rfl
      | running d' => exact ih (safe_of_next hstep).1

/-- Whatever the input is, at level 1 each round stays in the output and takes nothing from before
its start, the decompressor ends, and it reads at most two bytes behind the input. -/
theorem decompress_one_safe (mem : ℕ → Byte) {length fuel : ℕ} (maxout : ℕ) (hlength : 1 ≤ length)
    (hfuel : length ≤ fuel) :
    (∀ d, Relation.ReflTransGen (Next mem .one length maxout fuel) (Decoder.start mem) d →
      d.out.length ≤ maxout ∧ ∃ p, decompressStep mem .one length maxout fuel d = some p ∧
        Round mem .one length maxout fuel d p) ∧
    (∃ out, Level.one.decompress mem length maxout fuel = some out ∧ out.length ≤ maxout) ∧
    ∀ mem' : ℕ → Byte, (∀ i < length + 2, mem i = mem' i) →
      Level.one.decompress mem' length maxout fuel = Level.one.decompress mem length maxout fuel := by
  have hstart (mem : ℕ → Byte) : (Decoder.start mem).Safe length maxout :=
    Decoder.start_safe hlength
  refine ⟨fun d hrun => ⟨((hstart mem).run hrun).out_le, ?_⟩, ?_, fun mem' hmem => ?_⟩
  · obtain ⟨p, hp⟩ := Option.ne_none_iff_exists'.mp (decompressStep_one_ne_none d)
    exact ⟨p, hp, decompressStep_round hp⟩
  · apply decompressLoop_one (hstart mem)
    change length - 1 < fuel
    omega
  · have hsame : Decoder.start mem = Decoder.start mem' := by
      rw [Decoder.start, Decoder.start, hmem 0 (by omega)]
    rw [Level.decompress, Level.decompress, ← hsame, decompressLoop_one_congr (hstart mem) hmem]

/-- On an input that announces more literals than it holds. -/
theorem ones_decompress_one_safe :
    (∀ d, Relation.ReflTransGen (Next (fun _ => 255) .one 8 100 8) (Decoder.start fun _ => 255) d →
      d.out.length ≤ 100 ∧ ∃ p, decompressStep (fun _ => 255) .one 8 100 8 d = some p ∧
        Round (fun _ => 255) .one 8 100 8 d p) ∧
    (∃ out, Level.one.decompress (fun _ => 255) 8 100 8 = some out ∧ out.length ≤ 100) ∧
    ∀ mem' : ℕ → Byte, (∀ i < 8 + 2, 255 = mem' i) →
      Level.one.decompress mem' 8 100 8 = Level.one.decompress (fun _ => 255) 8 100 8 :=
  decompress_one_safe (fun _ => 255) 100 (by decide) (by decide)

/-- One literal, and the code of a match whose length goes on behind the input. -/
def overrun (k : ℕ) (last : Byte) : ℕ → Byte
  | 0 => 32
  | 1 => 7
  | 2 => 7 * 32
  | i + 3 => if i < k then 255 else if i = k then last else 0

private theorem overrun_holds (k : ℕ) (last : Byte) :
    Holds (overrun k last) 3 (List.replicate k 255 ++ [last]) := by
  rw [holds_append, List.length_replicate]
  constructor
  · rw [Holds, List.length_replicate]
    apply List.eq_replicate_iff.mpr
    refine ⟨values_length .., fun b hb => ?_⟩
    obtain ⟨i, hi, rfl⟩ := List.mem_map.mp hb
    rw [Nat.add_comm, overrun, if_pos (List.mem_range.mp hi)]
  · rw [holds_cons, Nat.add_comm, overrun, if_neg (Nat.lt_irrefl k), if_pos rfl]
    exact ⟨rfl, rfl⟩

private theorem decompress_overrun (k : ℕ) {last : Byte} (hlast : last ≠ 255) {maxout fuel : ℕ}
    (hword : 255 * k + last.toNat + 6 < 2 ^ 32) (hroom : 255 * k + last.toNat + 10 ≤ maxout)
    (hfuel : k + 2 ≤ fuel) :
    Level.two.decompress (overrun k last) 3 maxout fuel =
      some (List.replicate (255 * k + last.toNat + 10) 7) := by
  obtain ⟨n, rfl⟩ := Nat.exists_eq_add_of_le hfuel
  have hrounds : k < k + 2 + n := by omega
  have hlength := readLength_replicate (7 - 1) hlast hrounds (by omega)
    (overrun_holds k last)
  have hzero : overrun k last (3 + (k + 1)) = 0 := by
    rw [Nat.add_comm, overrun, if_neg (by omega), if_neg (by omega)]
  have hmatch : readMatch (overrun k last) .two (k + 2 + n) 3 224 =
      some ⟨3 + (k + 1) + 1, 7 - 1 + 255 * k + last.toNat, 0⟩ := by
    simp [readMatch, readLen, hlength, readRef, hzero]
  have hfirst : decompressStep (overrun k last) .two 3 maxout (k + 2 + n) ⟨1, [], 0⟩ =
      some (.running ⟨3, [7], 224⟩) := by
    rw [decompressStep, if_neg (by decide), if_neg (by simp; omega), if_neg (by decide)]
    rfl
  have hsecond : decompressStep (overrun k last) .two 3 maxout (k + 2 + n) ⟨3, [7], 224⟩ =
      some (.finished (copyMatch [7] (7 - 1 + 255 * k + last.toNat) 0)) := by
    rw [decompressStep, if_pos (by decide)]
    simp only [hmatch, List.length_singleton]
    rw [if_neg (by omega), if_neg (by omega), advance, if_neg (by omega)]
  have hstart : Decoder.start (overrun k last) = ⟨1, [], 0⟩ := by simp [Decoder.start, overrun]
  have hwritten : copyMatch [7] (7 - 1 + 255 * k + last.toNat) 0 =
      List.replicate (255 * k + last.toNat + 10) 7 := by
    rw [copyMatch, if_pos rfl, List.getLastD_cons, List.getLastD_nil, List.singleton_append,
      ← List.replicate_succ]
    congr 1
    omega
  have htwo : k + 2 + n = k + n + 1 + 1 := by omega
  rw [Level.decompress, hstart, htwo, decompressLoop, ← htwo, hfirst]
  simp only [decompressLoop, hsecond, hwritten]

/-- At level 2 an input of three bytes can make the decompressor read on as far as the size of its
output is an `int`. -/
theorem decompress_two_reads_on {k : ℕ} (hk : k ≤ 8421504) :
    ∃ (mem mem' : ℕ → Byte) (maxout fuel : ℕ), maxout < 2 ^ 31 ∧
      (∀ i, i ≠ 3 + k → mem i = mem' i) ∧ ∃ out out', out ≠ out' ∧
        Level.two.decompress mem 3 maxout fuel = some out ∧
        Level.two.decompress mem' 3 maxout fuel = some out' := by
  have hzero : 255 * k + (0 : Byte).toNat + 10 ≤ 255 * k + 11 := by simp
  have hone : 255 * k + (1 : Byte).toNat + 10 ≤ 255 * k + 11 := by simp
  refine ⟨overrun k 0, overrun k 1, 255 * k + 11, k + 2, by omega, fun i hi => ?_, _, _, ?_,
    decompress_overrun k (by decide) (by omega) hzero (Nat.le_refl _),
    decompress_overrun k (by decide) (by omega) hone (Nat.le_refl _)⟩
  · match i with
    | 0 | 1 | 2 => rfl
    | i + 3 =>
      have hne : i ≠ k := fun h => hi (by rw [h, Nat.add_comm])
      simp only [overrun, if_neg hne]
  · intro h
    have hlen := congrArg List.length h
    simp at hlen

theorem megabyte_decompress_two_reads_on :
    ∃ (mem mem' : ℕ → Byte) (maxout fuel : ℕ), maxout < 2 ^ 31 ∧
      (∀ i, i ≠ 3 + 1048576 → mem i = mem' i) ∧ ∃ out out', out ≠ out' ∧
        Level.two.decompress mem 3 maxout fuel = some out ∧
        Level.two.decompress mem' 3 maxout fuel = some out' :=
  decompress_two_reads_on (by decide)

end Safety

end WiotaDev.FastLzBlocks
