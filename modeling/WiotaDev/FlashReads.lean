import WiotaDev.OnChipFlash
import Mathlib.Tactic.IntervalCases

/-! # The on-chip flash driver: reading through the RX FIFO of the SPI controller -/

namespace WiotaDev.FlashReads
open WordBytes OnChipFlash

def FLASH_CMD_READ : BitVec 32 := 0x03
def SPI_DEFAULT_DUMMY : BitVec 32 := 0

/-- The registers of the controller when a transaction starts. -/
structure ReadCommand where
  cmd : BitVec 32
  addr : BitVec 32
  len : BitVec 32
  dummy : BitVec 32

namespace ReadCommand
variable (c : ReadCommand)

/-- The length of the data in bits. -/
def bits : ℕ := (c.len >>> 16).toNat

def start : ℕ := (c.addr >>> 8).toNat

/-- How many words the controller pushes to the RX FIFO. -/
def words : ℕ := (c.bits + 31) / 32

/-- Word `k` holds the addressed bytes in order. Behind the last of them it holds `filler`. -/
def rxWord (flash filler : ℕ → Byte) (k : ℕ) : BitVec 32 :=
  wordOf fun j => if 8 * (4 * k + j) < c.bits then flash (c.start + 4 * k + j) else filler (4 * k + j)

end ReadCommand

/-- Memory, and the addresses stored to in their order. -/
structure Memory where
  byteAt : ℕ → Byte
  touched : List ℕ

/-- `data[i] = word` for a pointer `data` to 32-bit words. -/
def Memory.store (m : Memory) (data i : ℕ) (word : BitVec 32) : Memory where
  byteAt a := if data + 4 * i ≤ a ∧ a < data + 4 * i + 4 then byteOf word (a - (data + 4 * i))
    else m.byteAt a
  touched := m.touched ++ (List.range 4).map fun j => data + 4 * i + j

/-- The inner `do` loop: `j` words moved to `data[i]` and on. -/
def readBurst (rx : ℕ → BitVec 32) (data i : ℕ) : ℕ → Memory → Memory
  | 0, m => m
  | j + 1, m => readBurst rx data (i + 1) j (m.store data i (rx i))

/-- The loop of `spi_read_fifo`. Status read `n` shows `level n` words unless fewer are still to
come; no result means that the loop is still waiting when `fuel` runs out. -/
def drainLoop (rx : ℕ → BitVec 32) (available : ℕ) (level : ℕ → Byte) (numWords data : ℕ) :
    ℕ → ℕ → ℕ → Memory → Option Memory
  | 0, _, _, _ => none
  | fuel + 1, n, i, m =>
    let j := min (level n).toNat (available - i)
    if j = 0 then
      drainLoop rx available level numWords data fuel (n + 1) i m
    else if i + j ≥ numWords then
      some (readBurst rx data i j m)
    else
      drainLoop rx available level numWords data fuel (n + 1) (i + j) (readBurst rx data i j m)

def spiReadFifo (rx : ℕ → BitVec 32) (available : ℕ) (level : ℕ → Byte) (fuel data datalen : ℕ)
    (m : Memory) : Option Memory :=
  let numWords := datalen >>> 5 &&& 0x7FF
  if datalen = 0 then
    some m
  else if datalen &&& 0x1F ≠ 0 then
    drainLoop rx available level (numWords + 1) data fuel 0 0 m
  else
    drainLoop rx available level numWords data fuel 0 0 m

/-- `usLen << 19` keeps the low 13 bits of the length. -/
def readCommand (nAddr usLen : ℕ) : ReadCommand where
  cmd := FLASH_CMD_READ <<< 24
  addr := BitVec.ofNat 32 nAddr <<< 8
  len := 0x1808 ||| BitVec.ofNat 32 usLen <<< 19
  dummy := SPI_DEFAULT_DUMMY

/-- The length is a 16-bit parameter. -/
def flashRead (flash filler : ℕ → Byte) (level : ℕ → Byte) (fuel nAddr pData len : ℕ) (m : Memory) :
    Option Memory :=
  let usLen := len % 2 ^ 16
  if usLen = 0 then
    some m
  else
    let c := readCommand nAddr usLen
    spiReadFifo (c.rxWord flash filler) c.words level fuel pData (usLen <<< 3) m

def uc8x88FlashRead (flash filler : ℕ → Byte) (level : ℕ → Byte) (fuel : ℕ) (r : RomRange)
    (buf : ℕ) (m : Memory) : Option (ℤ × Memory) :=
  let addr := 0x00000000 + r.offset
  (flashRead flash filler level fuel 0 0 0 m).bind fun m =>
    (flashRead flash filler level fuel addr buf r.size m).map fun m => (r.size, m)

/-- The first `k` words moved to memory. -/
def stored (rx : ℕ → BitVec 32) (data : ℕ) (m : Memory) : ℕ → Memory
  | 0 => m
  | k + 1 => (stored rx data m k).store data k (rx k)

theorem readBurst_stored (rx : ℕ → BitVec 32) (data : ℕ) (m : Memory) (i j : ℕ) :
    readBurst rx data i j (stored rx data m i) = stored rx data m (i + j) := by
  induction j generalizing i with
  | zero => rfl
  | succ j ih =>
    have hstep : readBurst rx data i (j + 1) (stored rx data m i) =
        readBurst rx data (i + 1) j (stored rx data m (i + 1)) := rfl
    rw [hstep, ih, Nat.add_right_comm, Nat.add_assoc]

theorem mem_touched_stored (rx : ℕ → BitVec 32) (data : ℕ) (m : Memory) (k a : ℕ) :
    a ∈ (stored rx data m k).touched ↔ a ∈ m.touched ∨ data ≤ a ∧ a < data + 4 * k := by
  induction k with
  | zero => simp [stored]
  | succ k ih =>
    simp only [stored, Memory.store, List.mem_append, ih, List.mem_map, List.mem_range]
    constructor
    · rintro ((h | ⟨hlo, hhi⟩) | ⟨j, hj, rfl⟩)
      · exact .inl h
      · exact .inr (by omega)
      · exact .inr (by omega)
    · rintro (h | ⟨hlo, hhi⟩)
      · exact .inl (.inl h)
      · by_cases hk : a < data + 4 * k
        · exact .inl (.inr ⟨hlo, hk⟩)
        · exact .inr ⟨a - (data + 4 * k), by omega, by omega⟩

theorem byteAt_stored (rx : ℕ → BitVec 32) (data : ℕ) (m : Memory) {k i : ℕ} (hi : i < 4 * k) :
    (stored rx data m k).byteAt (data + i) = byteOf (rx (i / 4)) (i % 4) := by
  induction k with
  | zero => omega
  | succ k ih =>
    rw [stored, Memory.store]
    by_cases hk : i < 4 * k
    · simp only [if_neg (show ¬(data + 4 * k ≤ data + i ∧ data + i < data + 4 * k + 4) by omega)]
      exact ih hk
    · have hdiv : i / 4 = k := by omega
      have hmod : data + i - (data + 4 * k) = i % 4 := by omega
      simp only [if_pos (show data + 4 * k ≤ data + i ∧ data + i < data + 4 * k + 4 by omega),
        hdiv, hmod]

section Loop
variable (rx : ℕ → BitVec 32) (level : ℕ → Byte) (data : ℕ) (m : Memory)

/-- When the words to come are those the loop counts on, it ends with all of them in memory. -/
theorem drainLoop_result {words fuel n i : ℕ} (hi : i < words) {m' : Memory}
    (h : drainLoop rx words level words data fuel n i (stored rx data m i) = some m') :
    m' = stored rx data m words := by
  induction fuel generalizing n i with
  | zero => exact absurd h (by simp [drainLoop])
  | succ fuel ih =>
    rw [drainLoop, readBurst_stored] at h
    by_cases hj : min (level n).toNat (words - i) = 0
    · rw [if_pos hj] at h
      exact ih hi h
    · rw [if_neg hj] at h
      by_cases hend : i + min (level n).toNat (words - i) ≥ words
      · have hall : i + min (level n).toNat (words - i) = words := by omega
        rw [if_pos hend, hall] at h
        exact (Option.some.inj h).symm
      · rw [if_neg hend] at h
        exact ih (not_le.mp hend) h

/-- A status read that shows words ends the loop or leaves fewer words to come. -/
private theorem burst {words : ℕ} (n : ℕ) {i : ℕ} (hi : i < words)
    (hj : min (level n).toNat (words - i) ≠ 0) (left : ℕ) (hleft : words - i = left)
    (hrest : ∀ k < left, ∀ (n : ℕ) {i : ℕ}, i < words → words - i = k →
      ∃ fuel, (drainLoop rx words level words data fuel n i (stored rx data m i)).isSome) :
    ∃ fuel, (drainLoop rx words level words data fuel n i (stored rx data m i)).isSome := by
  by_cases hend : i + min (level n).toNat (words - i) ≥ words
  · refine ⟨1, ?_⟩
    rw [drainLoop, if_neg hj, if_pos hend]
    rfl
  · obtain ⟨fuel, hfuel⟩ := hrest _ (by omega) (n + 1) (not_le.mp hend) rfl
    refine ⟨fuel + 1, ?_⟩
    rw [drainLoop, if_neg hj, if_neg hend, readBurst_stored]
    exact hfuel

/-- As long as words keep coming the loop ends. -/
theorem drainLoop_returns (hfair : ∀ n, ∃ n', n ≤ n' ∧ level n' ≠ 0) {words : ℕ} (n : ℕ) {i : ℕ}
    (hi : i < words) :
    ∃ fuel, (drainLoop rx words level words data fuel n i (stored rx data m i)).isSome := by
  -- The words left decrease with every burst, the reads up to the next burst with every poll.
  induction hleft : words - i using Nat.strong_induction_on generalizing n i with
  | _ left ih =>
    obtain ⟨n', hn, hlevel⟩ := hfair n
    induction hgap : n' - n generalizing n with
    | zero =>
      obtain rfl : n = n' := by omega
      have hpos : (level n).toNat ≠ 0 := fun h => hlevel (BitVec.eq_of_toNat_eq h)
      have hj : min (level n).toNat (words - i) ≠ 0 := by omega
      exact burst rx level data m n hi hj left hleft ih
    | succ gap ihgap =>
      by_cases hj : min (level n).toNat (words - i) = 0
      · obtain ⟨fuel, hfuel⟩ := ihgap (n + 1) (by omega) (by omega)
        refine ⟨fuel + 1, ?_⟩
        rw [drainLoop, if_pos hj]
        exact hfuel
      · exact burst rx level data m n hi hj left hleft ih

/-- Where no word comes, the loop waits for ever. -/
theorem drainLoop_waits (numWords fuel n i : ℕ) :
    drainLoop rx 0 level numWords data fuel n i m = none := by
  induction fuel generalizing n with
  | zero => rfl
  | succ fuel ih =>
    rw [drainLoop, Nat.zero_sub, Nat.min_zero, if_pos rfl]
    exact ih (n + 1)

end Loop

/-- The words the controller sends and the words the loop counts on are the same. -/
theorem readCommand_bits (nAddr usLen : ℕ) : (readCommand nAddr usLen).bits = usLen % 2 ^ 13 * 8 := by
  have hfield : (readCommand nAddr usLen).len >>> 16 =
      (BitVec.ofNat 32 usLen <<< 3) &&& 0xFFFF#32 := by
    apply BitVec.eq_of_getLsbD_eq
    intro i hi
    simp only [readCommand, BitVec.getLsbD_ushiftRight, BitVec.getLsbD_or, BitVec.getLsbD_and,
      BitVec.getLsbD_shiftLeft]
    interval_cases i <;> simp
  have hmask : (0xFFFF#32).toNat = 2 ^ 16 - 1 := rfl
  rw [ReadCommand.bits, hfield, BitVec.toNat_and, hmask, Nat.and_two_pow_sub_one_eq_mod,
    BitVec.toNat_shiftLeft, BitVec.toNat_ofNat, Nat.shiftLeft_eq]
  omega

theorem readCommand_start {nAddr usLen : ℕ} (h : nAddr < 2 ^ 24) :
    (readCommand nAddr usLen).start = nAddr := by
  rw [ReadCommand.start, readCommand, BitVec.toNat_ushiftRight, BitVec.toNat_shiftLeft,
    BitVec.toNat_ofNat, Nat.shiftLeft_eq, Nat.shiftRight_eq_div_pow]
  omega

/-- How many words a read asks for: the length as the length register keeps it, in words. -/
def wordsOf (size : ℕ) : ℕ := (size % 2 ^ 16 % 2 ^ 13 + 3) / 4

theorem flashRead_eq (flash filler : ℕ → Byte) (level : ℕ → Byte) (fuel nAddr pData : ℕ) {size : ℕ}
    (h : size % 2 ^ 16 ≠ 0) (m : Memory) :
    flashRead flash filler level fuel nAddr pData size m =
      drainLoop ((readCommand nAddr (size % 2 ^ 16)).rxWord flash filler) (wordsOf size) level
        (wordsOf size) pData fuel 0 0 m := by
  have hwords : (readCommand nAddr (size % 2 ^ 16)).words = wordsOf size := by
    rw [ReadCommand.words, readCommand_bits, wordsOf]
    omega
  have hlen : (size % 2 ^ 16) <<< 3 = size % 2 ^ 16 * 8 := Nat.shiftLeft_eq _ 3
  have hnum : (size % 2 ^ 16 * 8) >>> 5 &&& 0x7FF = size % 2 ^ 16 * 8 / 32 % 2 ^ 11 := by
    rw [Nat.shiftRight_eq_div_pow]
    exact Nat.and_two_pow_sub_one_eq_mod _ 11
  have hrem : size % 2 ^ 16 * 8 &&& 0x1F = size % 2 ^ 16 * 8 % 2 ^ 5 :=
    Nat.and_two_pow_sub_one_eq_mod _ 5
  simp only [flashRead, if_neg h, spiReadFifo, hwords, hlen, hnum, hrem]
  rw [if_neg (by omega)]
  by_cases hpart : size % 2 ^ 16 * 8 % 2 ^ 5 ≠ 0
  · rw [if_pos hpart]
    congr 1
    rw [wordsOf]
    omega
  · rw [if_neg hpart]
    congr 1
    rw [wordsOf]
    omega

/-- The first call reads nothing. -/
theorem uc8x88FlashRead_eq (flash filler : ℕ → Byte) (level : ℕ → Byte) (fuel : ℕ) (r : RomRange)
    (buf : ℕ) (m : Memory) :
    uc8x88FlashRead flash filler level fuel r buf m =
      (flashRead flash filler level fuel r.offset buf r.size m).map fun m => ((r.size : ℤ), m) := by
  simp only [uc8x88FlashRead, Nat.zero_add]
  rfl

/-- The range is in the buffer, and nothing behind the buffer was stored to. -/
structure HoldsRange (flash : ℕ → Byte) (r : RomRange) (buf : ℕ) (m : Memory) : Prop where
  bytes : ∀ i < r.size, buf + i ∈ m.touched ∧ m.byteAt (buf + i) = flash (r.offset + i)
  inside : ∀ a ∈ m.touched, a < buf + r.size

/-- A read that returns has stored the words it asked for and nothing else. -/
theorem uc8x88FlashRead_result {flash filler : ℕ → Byte} {level : ℕ → Byte} {fuel : ℕ}
    {r : RomRange} {buf : ℕ} {byteAt : ℕ → Byte} {n : ℤ} {m : Memory}
    (h : uc8x88FlashRead flash filler level fuel r buf ⟨byteAt, []⟩ = some (n, m)) :
    n = r.size ∧ (r.size % 2 ^ 16 = 0 ∧ m = ⟨byteAt, []⟩ ∨ r.size % 2 ^ 16 ≠ 0 ∧ 0 < wordsOf r.size ∧
      m = stored ((readCommand r.offset (r.size % 2 ^ 16)).rxWord flash filler) buf ⟨byteAt, []⟩
        (wordsOf r.size)) := by
  rw [uc8x88FlashRead_eq, Option.map_eq_some_iff] at h
  obtain ⟨m', hread, heq⟩ := h
  obtain ⟨rfl, rfl⟩ := Prod.mk.inj heq
  refine ⟨rfl, ?_⟩
  by_cases hlen : r.size % 2 ^ 16 = 0
  · rw [flashRead, if_pos hlen] at hread
    exact .inl ⟨hlen, (Option.some.inj hread).symm⟩
  · rw [flashRead_eq _ _ _ _ _ _ hlen] at hread
    rcases Nat.eq_zero_or_pos (wordsOf r.size) with hzero | hpos
    · rw [hzero, drainLoop_waits] at hread
      exact absurd hread (by simp)
    · exact .inr ⟨hlen, hpos, drainLoop_result _ _ _ ⟨byteAt, []⟩ hpos hread⟩

/-- The words hold the bytes of the range. -/
theorem rxWord_byte (flash filler : ℕ → Byte) (r : RomRange) (hfits : r.size < 2 ^ 13) {i : ℕ}
    (hi : i < r.size) :
    byteOf ((readCommand r.offset (r.size % 2 ^ 16)).rxWord flash filler (i / 4)) (i % 4) =
      flash (r.offset + i) := by
  have hrom := r.inRom
  have hstart : (readCommand r.offset (r.size % 2 ^ 16)).start = r.offset := by
    refine readCommand_start ?_
    simp only [ROM_SIZE] at hrom
    omega
  rw [ReadCommand.rxWord, byteOf_wordOf _ (by omega), readCommand_bits, hstart, if_pos (by omega)]
  exact congrArg flash (by omega)

/-- The words stored are as many bytes as the range only for whole words that fit. -/
theorem size_of_holdsRange {flash filler : ℕ → Byte} {level : ℕ → Byte} {fuel : ℕ} {r : RomRange}
    {buf : ℕ} {byteAt : ℕ → Byte} {n : ℤ} {m : Memory}
    (h : uc8x88FlashRead flash filler level fuel r buf ⟨byteAt, []⟩ = some (n, m))
    (hholds : HoldsRange flash r buf m) : r.size % 4 = 0 ∧ r.size < 2 ^ 13 := by
  obtain ⟨hbytes, hinside⟩ := hholds
  obtain ⟨-, ⟨hlen, rfl⟩ | ⟨hlen, hpos, rfl⟩⟩ := uc8x88FlashRead_result h
  · have hzero : r.size = 0 := by
      by_contra hne
      exact absurd (hbytes 0 (Nat.pos_of_ne_zero hne)).1 List.not_mem_nil
    omega
  · have hlast := hinside (buf + (4 * wordsOf r.size - 1))
      ((mem_touched_stored _ _ _ _ _).mpr (.inr (by omega)))
    have hcover := (mem_touched_stored _ _ _ _ _).mp (hbytes (r.size - 1) (by omega)).1
    have hend : r.size ≤ 4 * wordsOf r.size := by
      rcases hcover with hin | hin
      · exact absurd hin List.not_mem_nil
      · omega
    rw [wordsOf] at hlast hend hpos
    omega

/-- A read of whole words that fit returns. -/
theorem uc8x88FlashRead_returns (flash filler : ℕ → Byte) {level : ℕ → Byte}
    (hfair : ∀ n, ∃ n', n ≤ n' ∧ level n' ≠ 0) {r : RomRange} (hpos : 0 < r.size)
    (hfits : r.size < 2 ^ 13) (buf : ℕ) (m : Memory) :
    ∃ fuel m', uc8x88FlashRead flash filler level fuel r buf m = some (↑r.size, m') := by
  have hwords : 0 < wordsOf r.size := by
    rw [wordsOf]
    omega
  obtain ⟨fuel, hfuel⟩ := drainLoop_returns
    ((readCommand r.offset (r.size % 2 ^ 16)).rxWord flash filler) level buf m hfair 0 hwords
  obtain ⟨m', hm⟩ := Option.isSome_iff_exists.mp hfuel
  refine ⟨fuel, m', ?_⟩
  rw [uc8x88FlashRead_eq, flashRead_eq _ _ _ _ _ _ (by omega)]
  exact Option.map_eq_some_iff.mpr ⟨m', hm, rfl⟩

/-- A read returns the range in the buffer and leaves what is behind it alone exactly for lengths
that are whole words and fit the length register. -/
theorem uc8x88FlashRead_holds_iff (flash filler : ℕ → Byte) (level : ℕ → Byte)
    (hfair : ∀ n, ∃ n', n ≤ n' ∧ level n' ≠ 0) (r : RomRange) (buf : ℕ) (byteAt : ℕ → Byte) :
    (∃ fuel m, uc8x88FlashRead flash filler level fuel r buf ⟨byteAt, []⟩ = some (↑r.size, m) ∧
      HoldsRange flash r buf m) ↔ r.size % 4 = 0 ∧ r.size < 2 ^ 13 := by
  constructor
  · rintro ⟨fuel, m, hread, hholds⟩
    exact size_of_holdsRange hread hholds
  · rintro ⟨hwhole, hfits⟩
    rcases Nat.eq_zero_or_pos r.size with hzero | hpos
    · refine ⟨0, ⟨byteAt, []⟩, ?_, fun i hi => absurd hi (by omega), fun a ha => ?_⟩
      · rw [uc8x88FlashRead_eq, hzero]
        rfl
      · exact absurd ha List.not_mem_nil
    · obtain ⟨fuel, m, hread⟩ := uc8x88FlashRead_returns flash filler hfair hpos hfits buf ⟨byteAt, []⟩
      have hwords : 4 * wordsOf r.size = r.size := by
        rw [wordsOf]
        omega
      obtain ⟨-, ⟨hnone, -⟩ | ⟨-, -, rfl⟩⟩ := uc8x88FlashRead_result hread
      · omega
      · refine ⟨fuel, _, hread, fun i hi => ⟨?_, ?_⟩, fun a ha => ?_⟩
        · exact (mem_touched_stored _ _ _ _ _).mpr (.inr (by omega))
        · rw [byteAt_stored _ _ _ (by omega)]
          exact rxWord_byte flash filler r hfits hi
        · rcases (mem_touched_stored _ _ _ _ _).mp ha with hin | hin
          · exact absurd hin List.not_mem_nil
          · omega

/-- Two words, while the FIFO shows one word at a time. -/
theorem read_of_two_words :
    ∃ fuel m, uc8x88FlashRead (BitVec.ofNat 8) (fun _ => 0) (fun _ => 1) fuel
        ⟨4, 8, by decide⟩ 0 ⟨fun _ => 0, []⟩ = some (8, m) ∧
      HoldsRange (BitVec.ofNat 8) ⟨4, 8, by decide⟩ 0 m :=
  (uc8x88FlashRead_holds_iff (BitVec.ofNat 8) (fun _ => 0) (fun _ => 1)
    (fun n => ⟨n, le_rfl, by decide⟩) ⟨4, 8, by decide⟩ 0 fun _ => 0).mpr (by decide)

/-- A read of one byte stores three more behind it. -/
theorem read_of_one_byte_overruns :
    ¬∃ fuel m, uc8x88FlashRead (BitVec.ofNat 8) (fun _ => 0) (fun _ => 1) fuel
        ⟨4, 1, by decide⟩ 0 ⟨fun _ => 0, []⟩ = some (1, m) ∧
      HoldsRange (BitVec.ofNat 8) ⟨4, 1, by decide⟩ 0 m := by
  rintro ⟨fuel, m, hread, -, hinside⟩
  obtain ⟨-, ⟨hlen, -⟩ | ⟨-, -, rfl⟩⟩ := uc8x88FlashRead_result hread
  · exact absurd hlen (by decide)
  · have hlast := hinside 3 ((mem_touched_stored _ _ _ _ _).mpr (.inr (by decide)))
    exact absurd hlast (by decide)

end WiotaDev.FlashReads
