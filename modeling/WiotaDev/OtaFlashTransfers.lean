import WiotaDev.OtaFlashLaws

/-! # Whole transfers with the OTA flash: written data, erased ranges and checked images -/

namespace WiotaDev.OtaFlash
open WordBytes NorFlash

/-- A write of an erased range is accepted, a read of the range returns what was written, and no cell
outside of the range has changed. -/
theorem write_then_read (fl : Flash) (buf : ℕ → Byte) {offset size : ℕ} (hsize : 1 ≤ size)
    (hend : offset + size ≤ FLASH_SECTOR_SIZE * FLASH_PAGE_SIZE)
    (herased : ∀ a, offset ≤ a → a < offset + size → fl.cell a = 0xFF#8) :
    (otaFlashWrite offset buf size fl).1 = size ∧
      ucWiotaOtaFlashRead (otaFlashWrite offset buf size fl).2 offset size =
        (List.range size).map buf ∧
      ∀ a, ¬ (offset ≤ a ∧ a < offset + size) →
        (otaFlashWrite offset buf size fl).2.cell a = fl.cell a := by
  simp only [FLASH_SECTOR_SIZE, FLASH_PAGE_SIZE] at hend
  have hacc : ¬ WriteRefused offset size := by
    rw [WriteRefused, FLASH_SECTOR_SIZE, FLASH_PAGE_SIZE]
    omega
  have hcell := otaFlashWriteLoop_cell buf offset size 0 fl (by omega)
  simp only [Nat.add_zero, Nat.sub_zero, Nat.zero_add] at hcell
  rw [otaFlashWrite_accepted buf fl hacc]
  refine ⟨rfl, ?_, fun a ha => ?_⟩
  · rw [ucWiotaOtaFlashRead_eq]
    refine List.map_congr_left fun i hi => ?_
    have hi := List.mem_range.mp hi
    have hmod : (offset + i) % 2 ^ 32 = offset + i := Nat.mod_eq_of_lt (by omega)
    have hrange : offset ≤ offset + i ∧ offset + i < offset + size := by omega
    rw [hmod, hcell, programRange_erased fl.cell _ hrange (herased _ hrange.1 hrange.2),
      Nat.add_sub_cancel_left]
  · rw [hcell, programRange_outside fl.cell _ ha]

theorem write_then_read_across : ucWiotaOtaFlashRead
    (otaFlashWrite 3 (fun i => BitVec.ofNat 8 i) 2 ⟨fun _ => 0xFF#8, []⟩).2 3 2 = [0#8, 1#8] :=
  (write_then_read ⟨fun _ => 0xFF#8, []⟩ (fun i => BitVec.ofNat 8 i) (by decide) (by decide)
    fun _ _ _ => rfl).2.1

def ErasedBy (ops : List FlashOp) (a : ℕ) : Prop :=
  ∃ sector, .erase4K sector ∈ ops ∧ sector ≤ a ∧ a < sector + 4096

/-- The commands given erase sectors that meet the range, each address of the range lies in one of
them, and the cells in these sectors, and no others, have been erased. -/
def ErasesRange (start size : ℕ) (fl fl' : Flash) : Prop :=
  ∃ new, fl'.ops = new ++ fl.ops ∧
    (∀ op ∈ new, ∃ sector, op = .erase4K sector ∧ sector % 4096 = 0 ∧
      sector < start + size ∧ start < sector + 4096) ∧
    (∀ a, start ≤ a → a < start + size → ErasedBy new a) ∧
    (∀ a, ErasedBy new a → fl'.cell a = 0xFF#8) ∧
    ∀ a, ¬ ErasedBy new a → fl'.cell a = fl.cell a

private theorem erasesRange_aligned {start size : ℕ} (fl : Flash) (ha : start % 4096 = 0)
    (hend : start + size ≤ 2 ^ 31) :
    (ucWiotaOtaFlashErase start size fl).2 = true ∧
      ErasesRange start size fl (ucWiotaOtaFlashErase start size fl).1 := by
  obtain ⟨hret, hcell, new, hops, hmem⟩ := ucWiotaOtaFlashErase_spec start size fl ha hend
  have herased : ∀ a, ErasedBy new a ↔ start ≤ a ∧ a < start + 4096 * ((size + 4095) / 4096) := by
    intro a
    constructor
    · rintro ⟨sector, hsec, h₁, h₂⟩
      obtain ⟨i, hi, heq⟩ := (hmem _).mp hsec
      obtain rfl := FlashOp.erase4K.inj heq
      omega
    · rintro ⟨h₁, h₂⟩
      exact ⟨start + 4096 * ((a - start) / 4096),
        (hmem _).mpr ⟨(a - start) / 4096, by omega, rfl⟩, by omega, by omega⟩
  refine ⟨hret, new, hops, fun op hop => ?_, fun a h₁ h₂ => ?_, fun a ha => ?_, fun a ha => ?_⟩
  · obtain ⟨i, hi, rfl⟩ := (hmem op).mp hop
    exact ⟨_, rfl, by omega, by omega, by omega⟩
  · exact (herased a).mpr (by omega)
  · rw [hcell]
    exact eraseRange_inside _ ((herased a).mp ha)
  · rw [hcell]
    exact if_neg (mt (herased a).mpr ha)

/-- An erase that starts inside a sector erases that sector alone: the bytes it has covered come out
as a negative number, which is more than any size. -/
theorem ucWiotaOtaFlashErase_unaligned {start size : ℕ} (fl : Flash) (ha : start % 4096 ≠ 0)
    (hpos : 0 < size) (hend : start + size ≤ 2 ^ 31) :
    ucWiotaOtaFlashErase start size fl =
      (ucWiotaFlashErase4K (start / 4096 * 4096) fl, true) := by
  have hz : size ≠ 0 := by omega
  have hlt : start / 4096 * 4096 < start := by omega
  have hover : ¬ (start + 2 ^ 32 - (start / 4096 * 4096 + 4096) % 2 ^ 32) % 2 ^ 32 < size := by omega
  simp only [ucWiotaOtaFlashErase, if_neg hz, if_pos hlt]
  rw [eraseLoop, if_neg hover, otaFlashErase_sector fl (by omega) (by omega)]

/-- An erase inside of the flash does what it should exactly if it starts on a sector boundary or ends
in the sector where it starts. -/
theorem ucWiotaOtaFlashErase_erases_iff (fl : Flash) {start size : ℕ} (hpos : 0 < size)
    (hend : start + size ≤ 2 ^ 31) :
    ((ucWiotaOtaFlashErase start size fl).2 = true ∧
        ErasesRange start size fl (ucWiotaOtaFlashErase start size fl).1) ↔
      start % 4096 = 0 ∨ start % 4096 + size ≤ 4096 := by
  by_cases ha : start % 4096 = 0
  · exact iff_of_true (erasesRange_aligned fl ha hend) (.inl ha)
  rw [ucWiotaOtaFlashErase_unaligned fl ha hpos hend, or_iff_right ha, and_iff_right rfl]
  have herased : ∀ a, ErasedBy [.erase4K (start / 4096 * 4096)] a ↔
      start / 4096 * 4096 ≤ a ∧ a < start / 4096 * 4096 + 4096 := by
    intro a
    constructor
    · rintro ⟨sector, hsec, h⟩
      obtain rfl := FlashOp.erase4K.inj (List.mem_singleton.mp hsec)
      exact h
    · intro h
      exact ⟨_, List.mem_singleton.mpr rfl, h⟩
  constructor
  · rintro ⟨new, hops, -, hcover, -⟩
    have hops : [.erase4K (start / 4096 * 4096)] ++ fl.ops = new ++ fl.ops := hops
    have hlast := hcover (start + size - 1) (by omega) (by omega)
    rw [← List.append_cancel_right hops, herased] at hlast
    omega
  · intro hle
    refine ⟨[.erase4K (start / 4096 * 4096)], rfl, fun op hop => ?_, fun a h₁ h₂ => ?_,
      fun a ha => ?_, fun a ha => ?_⟩
    · exact ⟨_, List.mem_singleton.mp hop, by omega, by omega, by omega⟩
    · exact (herased a).mpr (by omega)
    · exact eraseRange_inside _ ((herased a).mp ha)
    · exact if_neg (mt (herased a).mpr ha)

theorem ucWiotaOtaFlashErase_erases_half : ErasesRange 2048 2048 ⟨fun _ => 0#8, []⟩
    (ucWiotaOtaFlashErase 2048 2048 ⟨fun _ => 0#8, []⟩).1 :=
  ((ucWiotaOtaFlashErase_erases_iff ⟨fun _ => 0#8, []⟩ (by decide) (by decide)).mpr (by decide)).2

/-- An erase from the middle of the first sector to the end of the second leaves the second. -/
theorem ucWiotaOtaFlashErase_misses : ¬ ∀ (fl : Flash) (start size : ℕ), 0 < size →
    start + size ≤ FLASH_SECTOR_SIZE * FLASH_PAGE_SIZE →
      (ucWiotaOtaFlashErase start size fl).2 = true ∧
        ErasesRange start size fl (ucWiotaOtaFlashErase start size fl).1 := by
  intro h
  obtain ⟨-, new, hops, -, hcover, -⟩ := h ⟨fun _ => 0#8, []⟩ 2048 6144 (by decide) (by decide)
  rw [ucWiotaOtaFlashErase_unaligned _ (by decide) (by decide) (by decide)] at hops
  have hops : [.erase4K (2048 / 4096 * 4096)] ++ [] = new ++ [] := hops
  rw [← List.append_cancel_right hops] at hcover
  obtain ⟨sector, hsec, h₁, h₂⟩ := hcover 8000 (by decide) (by decide)
  obtain rfl := FlashOp.erase4K.inj (List.mem_singleton.mp hsec)
  omega

/-- What the check relies on of `tiny_md5.c`. -/
structure TinyMd5.Documented (md : TinyMd5) : Prop where
  streaming : md.Streaming
  update_nil : ∀ c, md.update c [] = c
  finish_length : ∀ c, (md.finish c).length = 16

def TinyMd5.digest (md : TinyMd5) (message : List Byte) : List Byte :=
  md.finish (md.update md.starts message)

theorem hexText_length (digest : List Byte) : (hexText digest).length = 2 * digest.length := by
  induction digest with
  | nil => rfl
  | cons b digest ih =>
    rw [hexText, List.flatMap_cons, List.length_append, ← hexText, ih, List.length_cons]
    exact (Nat.mul_succ 2 _).symm ▸ Nat.add_comm _ _

def Flash.image (fl : Flash) (addr size : ℕ) : List Byte :=
  (List.range size).map fun i => fl.cell ((addr + i) % 2 ^ 32)

/-- The check returns, and answers whether the digest of the range is the given one. -/
theorem ucWiotaOtaCheckFlashData_eq {md : TinyMd5} (hmd : md.Documented) (fl : Flash)
    (flashAddr : ℕ) {flashSize : ℕ} (hsize : flashSize < 2 ^ 31) (md5 : List Byte) :
    ucWiotaOtaCheckFlashData md fl flashAddr flashSize md5 =
      some (if hexText (md.digest (fl.image flashAddr flashSize)) = md5.take 32 then 0 else 2) := by
  have hloop : checkFlashLoop md fl flashAddr flashSize (2 ^ 23 + 1) 0 md.starts =
      some (md.update md.starts (fl.image flashAddr flashSize)) := by
    by_cases hz : flashSize = 0
    · rw [hz, checkFlashLoop, if_neg (lt_irrefl 0), Flash.image, List.range_zero, List.map_nil,
        hmd.update_nil]
    · rw [checkFlashLoop_eq md hmd.streaming fl flashAddr flashSize (2 ^ 23 + 1) 0 _ (by omega)
        (by omega) hsize.le, ucWiotaOtaFlashRead_eq]
      rfl
  have htake : ∀ c, (hexText (md.finish c)).take 32 = hexText (md.finish c) := by
    intro c
    refine List.take_of_length_le ?_
    rw [hexText_length, hmd.finish_length]
  rw [ucWiotaOtaCheckFlashData, hloop, Option.map_some, TinyMd5.digest]
  simp only [htake]

end WiotaDev.OtaFlash
