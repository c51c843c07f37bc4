import WiotaDev.OtaFlash

/-! # Effect of the OTA flash routines on cells and command history

A read returns the addressed cells, a write is one program of the addressed range,
and an erase that starts on a sector boundary erases whole sectors from there. -/

namespace WiotaDev.OtaFlash
open WordBytes NorFlash

private theorem word_address (x i : ℕ) (h : x % 2 ^ 32 % 4 + i < 4) :
    x % 2 ^ 32 / 4 * 4 + (x % 2 ^ 32 % 4 + i) = (x + i) % 2 ^ 32 := by omega

@[simp] theorem ucWiotaFlashWrite_cell (word : BitVec 32) (a : ℕ) (fl : Flash) :
    (ucWiotaFlashWrite word a fl).cell =
      programRange fl.cell a 4 (fun i => byteOf word (3 - i)) := rfl

@[simp] theorem ucWiotaFlashErase4K_cell (a : ℕ) (fl : Flash) :
    (ucWiotaFlashErase4K a fl).cell = eraseRange fl.cell a 4096 := rfl

@[simp] theorem ucWiotaFlashErase4K_ops (a : ℕ) (fl : Flash) :
    (ucWiotaFlashErase4K a fl).ops = .erase4K a :: fl.ops := rfl

/-- After the byte swap, byte `j` in memory is the cell at offset `j`. -/
theorem byteOf_flashRead (fl : Flash) (a : ℕ) {j : ℕ} (hj : j < 4) :
    byteOf (bswap32 (ucWiotaFlashRead fl a)) j = fl.cell (a + j) := by
  rw [byteOf_bswap32 _ hj, ucWiotaFlashRead, byteOf_wordOf _ (by omega)]
  congr 1
  omega

theorem readWord_eq (fl : Flash) {addr size index : ℕ} (h : index < size) :
    readWord fl addr size index = (List.range (orderLen addr size index)).map
      fun i => fl.cell ((addr + index + i) % 2 ^ 32) := by
  obtain ⟨-, hword⟩ := orderLen_le addr h
  apply List.map_congr_left
  intro i hi
  have hi := List.mem_range.mp hi
  rw [byteOf_flashRead fl _ (by omega), word_address _ _ (by omega)]

theorem otaFlashReadLoop_eq (fl : Flash) (addr size index : ℕ) (buf : List Byte)
    (h : index ≤ size) : otaFlashReadLoop fl addr size index buf =
      buf ++ (List.range (size - index)).map fun i => fl.cell ((addr + index + i) % 2 ^ 32) := by
  induction index, buf using otaFlashReadLoop.induct fl addr size with
  | case1 index buf hlt ih =>
    obtain ⟨hle, -⟩ := orderLen_le addr hlt
    have hsplit : size - index =
        orderLen addr size index + (size - (index + orderLen addr size index)) := by omega
    rw [otaFlashReadLoop, dif_pos hlt, ih hle, readWord_eq fl hlt, hsplit, List.range_add,
      List.map_append, List.map_map, List.append_assoc]
    simp only [Function.comp_def, Nat.add_assoc]
  | case2 index buf hge =>
    rw [otaFlashReadLoop, dif_neg hge, show size - index = 0 by omega]
    simp

theorem ucWiotaOtaFlashRead_eq (fl : Flash) (offset size : ℕ) :
    ucWiotaOtaFlashRead fl offset size =
      (List.range size).map fun i => fl.cell ((offset + i) % 2 ^ 32) := by
  simpa [ucWiotaOtaFlashRead] using otaFlashReadLoop_eq fl offset size 0 [] (Nat.zero_le _)

theorem ucWiotaOtaFlashRead_add (fl : Flash) (offset m n : ℕ) :
    ucWiotaOtaFlashRead fl offset (m + n) =
      ucWiotaOtaFlashRead fl offset m ++ ucWiotaOtaFlashRead fl (offset + m) n := by
  simp only [ucWiotaOtaFlashRead_eq, List.range_add, List.map_append, List.map_map]
  simp only [Function.comp_def, Nat.add_assoc]

theorem ucWiotaOtaFlashRead_word (fl : Flash) {a j : ℕ} (ha : a + 4 ≤ 2 ^ 32) (hj : j < 4) :
    (ucWiotaOtaFlashRead fl a 4).getD j 0 = fl.cell (a + j) := by
  have hm : (a + j) % 2 ^ 32 = a + j := Nat.mod_eq_of_lt (by omega)
  rw [ucWiotaOtaFlashRead_eq, List.getD_eq_getElem?_getD, List.getElem?_map,
    List.getElem?_range hj, Option.map_some, Option.getD_some, hm]

/-- The programmed words are those that the written range touches. -/
theorem otaFlashWriteLoop_ops (buf : ℕ → Byte) (addr size index : ℕ) (fl : Flash) :
    ∃ new, (otaFlashWriteLoop buf addr size index fl).ops = new ++ fl.ops ∧
      ∀ op, op ∈ new ↔ ∃ i, index ≤ i ∧ i < size ∧ op = .program ((addr + i) % 2 ^ 32 / 4 * 4) := by
  induction index, fl using otaFlashWriteLoop.induct buf addr size with
  | case1 index fl hlt ih =>
    obtain ⟨hle, hword⟩ := orderLen_le addr hlt
    have hpos := orderLen_pos addr hlt
    obtain ⟨new, hops, hmem⟩ := ih
    refine ⟨new ++ [.program ((addr + index) % 2 ^ 32 / 4 * 4)], ?_, fun op => ?_⟩
    · rw [otaFlashWriteLoop, dif_pos hlt, hops]
      simp [writeWord, ucWiotaFlashWrite]
    · have hsame : ∀ i, index ≤ i → i < index + orderLen addr size index →
          (addr + i) % 2 ^ 32 / 4 * 4 = (addr + index) % 2 ^ 32 / 4 * 4 := by
        intro i hi hi'
        have hw := word_address (addr + index) (i - index) (by omega)
        rw [show addr + index + (i - index) = addr + i by omega] at hw
        omega
      simp only [List.mem_append, List.mem_singleton, hmem]
      constructor
      · rintro (⟨i, hi, his, rfl⟩ | rfl)
        · exact ⟨i, by omega, his, rfl⟩
        · exact ⟨index, le_refl _, hlt, rfl⟩
      · rintro ⟨i, hi, his, rfl⟩
        by_cases hb : i < index + orderLen addr size index
        · exact Or.inr (by rw [hsame i hi hb])
        · exact Or.inl ⟨i, by omega, his, rfl⟩
  | case2 index fl hge =>
    refine ⟨[], by rw [otaFlashWriteLoop, dif_neg hge]; rfl, fun op => ?_⟩
    simp only [List.not_mem_nil, false_iff]
    rintro ⟨i, hi, his, -⟩
    omega

/-- One round of the write loop programs exactly its share of the range. -/
theorem writeWord_cell (buf : ℕ → Byte) {addr size index : ℕ} (fl : Flash)
    (h : addr + size ≤ 2 ^ 32) (hlt : index < size) :
    (writeWord buf addr size index fl).cell =
      programRange fl.cell (addr + index) (orderLen addr size index) (fun i => buf (index + i)) := by
  obtain ⟨hle, hword⟩ := orderLen_le addr hlt
  have hbyte : ∀ i < 4, byteOf (bswap32 (wordOf (writeBuf buf addr size index fl))) (3 - i) =
      writeBuf buf addr size index fl i := by
    intro i hi
    rw [byteOf_bswap32 _ (by omega), byteOf_wordOf _ (by omega), show 3 - (3 - i) = i by omega]
  rw [writeWord, ucWiotaFlashWrite_cell]
  apply programRange_widen fl.cell
  · omega
  · omega
  · intro i hi
    rw [show addr + index - (addr + index) % 2 ^ 32 / 4 * 4 = (addr + index) % 2 ^ 32 % 4 by omega,
      hbyte _ (by omega), writeBuf, if_pos (by omega), Nat.add_sub_cancel_left]
  · intro a ha ha' hne
    rw [hbyte _ (by omega), writeBuf, if_neg (by omega), if_pos (by omega),
      ucWiotaOtaFlashRead_word fl (by omega) (by omega), Nat.add_sub_cancel' ha]

theorem otaFlashWriteLoop_cell (buf : ℕ → Byte) (addr size index : ℕ) (fl : Flash)
    (h : addr + size ≤ 2 ^ 32) : (otaFlashWriteLoop buf addr size index fl).cell =
      programRange fl.cell (addr + index) (size - index) (fun i => buf (index + i)) := by
  induction index, fl using otaFlashWriteLoop.induct buf addr size with
  | case1 index fl hlt ih =>
    obtain ⟨hle, -⟩ := orderLen_le addr hlt
    have hsplit : size - index =
        orderLen addr size index + (size - (index + orderLen addr size index)) := by omega
    rw [otaFlashWriteLoop, dif_pos hlt, ih, writeWord_cell buf fl h hlt, hsplit,
      ← programRange_append fl.cell (addr + index)]
    simp only [Nat.add_assoc]
  | case2 index fl hge =>
    rw [otaFlashWriteLoop, dif_neg hge, show size - index = 0 by omega, programRange_zero]

/-- A write is refused when it is empty or its end lies behind the first megabyte. -/
def WriteRefused (offset size : ℕ) : Prop :=
  (offset + size) % 2 ^ 32 > FLASH_SECTOR_SIZE * FLASH_PAGE_SIZE ∨ size < 1

instance (offset size : ℕ) : Decidable (WriteRefused offset size) :=
  inferInstanceAs (Decidable (_ ∨ _))

theorem otaFlashWrite_refused {offset size : ℕ} (buf : ℕ → Byte) (fl : Flash)
    (h : WriteRefused offset size) : otaFlashWrite offset buf size fl = (-RT_EINVAL, fl) := by
  rw [otaFlashWrite]
  rcases h with h | h
  · simp only [h, if_true]
  · simp only [h, if_true, ite_self]

theorem otaFlashWrite_accepted {offset size : ℕ} (buf : ℕ → Byte) (fl : Flash)
    (h : ¬ WriteRefused offset size) :
    otaFlashWrite offset buf size fl = (↑size, otaFlashWriteLoop buf offset size 0 fl) := by
  simp only [WriteRefused, not_or] at h
  simp only [otaFlashWrite, h.1, h.2, if_false]

@[simp] theorem otaFlashErase_sector {a : ℕ} (fl : Flash) (ha : a % 4096 = 0) (hlt : a < 2 ^ 32) :
    otaFlashErase a 4096 fl = ucWiotaFlashErase4K a fl := by
  have he : a / FLASH_SECTOR_SIZE * FLASH_SECTOR_SIZE = a := by
    simp only [FLASH_SECTOR_SIZE]
    omega
  simp only [otaFlashErase, he, Nat.reduceAdd, Nat.reduceDiv, List.range_one, List.foldl_cons,
    List.foldl_nil, Nat.zero_mul, Nat.add_zero, Nat.mod_eq_of_lt hlt]

/-- An erase loop that does not wrap erases `n` sectors and returns. -/
theorem eraseLoop_spec (eraseSize n fuel a size : ℕ) (fl : Flash)
    (hn : n = (eraseSize - size + 4095) / 4096) (hfuel : n < fuel) (ha : a % 4096 = 0)
    (haddr : n = 0 ∨ a + 4096 * n ≤ 2 ^ 32) (hsize : n = 0 ∨ size + 4096 * n < 2 ^ 32) :
    (eraseLoop eraseSize fuel a size fl).2 = true ∧
      (eraseLoop eraseSize fuel a size fl).1.cell = eraseRange fl.cell a (4096 * n) ∧
      ∃ new, (eraseLoop eraseSize fuel a size fl).1.ops = new ++ fl.ops ∧
        ∀ op, op ∈ new ↔ ∃ i < n, op = .erase4K (a + 4096 * i) := by
  induction n generalizing fuel a size fl with
  | zero =>
    obtain ⟨fuel, rfl⟩ : ∃ k, fuel = k + 1 := ⟨fuel - 1, by omega⟩
    have hge : ¬ size < eraseSize := by omega
    simp [eraseLoop, hge]
  | succ n ih =>
    obtain ⟨fuel, rfl⟩ : ∃ k, fuel = k + 1 := ⟨fuel - 1, by omega⟩
    have hlt : size < eraseSize := by omega
    have hs : (size + 4096) % 2 ^ 32 = size + 4096 := Nat.mod_eq_of_lt (by omega)
    have hnext : n = 0 ∨ (a + 4096) % 2 ^ 32 = a + 4096 := by omega
    obtain ⟨hret, hcell, new, hops, hmem⟩ := ih fuel ((a + 4096) % 2 ^ 32) (size + 4096)
      (ucWiotaFlashErase4K a fl) (by omega) (by omega) (by omega) (by omega) (by omega)
    rw [eraseLoop, if_pos hlt, otaFlashErase_sector fl ha (by omega), hs]
    refine ⟨hret, ?_, new ++ [.erase4K a], ?_, fun op => ?_⟩
    · rw [hcell, ucWiotaFlashErase4K]
      rcases hnext with rfl | hnext
      · simp
      · rw [hnext, eraseRange_append, Nat.mul_add, Nat.add_comm (4096 * n)]
    · rw [hops]
      simp [ucWiotaFlashErase4K]
    · simp only [List.mem_append, List.mem_singleton, hmem]
      constructor
      · rintro (⟨i, hi, rfl⟩ | rfl)
        · exact ⟨i + 1, by omega, congrArg FlashOp.erase4K (by omega)⟩
        · exact ⟨0, by omega, rfl⟩
      · rintro ⟨i, hi, rfl⟩
        cases i with
        | zero => exact Or.inr rfl
        | succ i => exact Or.inl ⟨i, by omega, congrArg FlashOp.erase4K (by omega)⟩

private theorem eraseLoop_extends (eraseSize fuel a size : ℕ) (fl : Flash) :
    ∃ new, (eraseLoop eraseSize fuel a size fl).1.ops = new ++ fl.ops := by
  induction fuel generalizing a size fl with
  | zero => exact ⟨[], rfl⟩
  | succ fuel ih =>
    rw [eraseLoop]
    split
    · obtain ⟨new, hops⟩ := ih ((a + 4096) % 2 ^ 32) ((size + 4096) % 2 ^ 32)
        (otaFlashErase a 4096 fl)
      refine ⟨new ++ [.erase4K (a / FLASH_SECTOR_SIZE * FLASH_SECTOR_SIZE % 2 ^ 32)], ?_⟩
      rw [hops]
      simp [otaFlashErase, ucWiotaFlashErase4K, List.range_succ]
    · exact ⟨[], rfl⟩

/-- However the loop ends, it erases every sector it counts past. -/
theorem eraseLoop_mem (eraseSize fuel a size k : ℕ) (fl : Flash) (ha : a % 4096 = 0)
    (hlt : a < 2 ^ 32) (hfuel : k < fuel) (hsize : size + 4096 * k < eraseSize) :
    ∃ new, (eraseLoop eraseSize fuel a size fl).1.ops = new ++ fl.ops ∧
      .erase4K ((a + 4096 * k) % 2 ^ 32) ∈ new := by
  obtain ⟨fuel, rfl⟩ : ∃ j, fuel = j + 1 := ⟨fuel - 1, by omega⟩
  rw [eraseLoop, if_pos (by omega), otaFlashErase_sector fl ha hlt]
  cases k with
  | zero =>
    obtain ⟨new, hops⟩ := eraseLoop_extends eraseSize fuel ((a + 4096) % 2 ^ 32)
      ((size + 4096) % 2 ^ 32) (ucWiotaFlashErase4K a fl)
    refine ⟨new ++ [.erase4K a], by rw [hops]; simp, ?_⟩
    rw [Nat.mul_zero, Nat.add_zero, Nat.mod_eq_of_lt hlt]
    exact List.mem_append_right _ List.mem_cons_self
  | succ k =>
    obtain ⟨new, hops, hmem⟩ := eraseLoop_mem eraseSize fuel ((a + 4096) % 2 ^ 32)
      ((size + 4096) % 2 ^ 32) k (ucWiotaFlashErase4K a fl) (by omega)
      (Nat.mod_lt _ (by decide)) (by omega) (by omega)
    refine ⟨new ++ [.erase4K a], by rw [hops]; simp, List.mem_append_left _ ?_⟩
    rwa [show ((a + 4096) % 2 ^ 32 + 4096 * k) % 2 ^ 32 = (a + 4096 * (k + 1)) % 2 ^ 32 by omega] at hmem

/-- An erase from a sector boundary that ends inside the address space covers the whole
sectors of its range and returns. -/
theorem ucWiotaOtaFlashErase_spec (start size : ℕ) (fl : Flash) (ha : start % 4096 = 0)
    (h : start + size ≤ 2 ^ 31) :
    (ucWiotaOtaFlashErase start size fl).2 = true ∧
      (ucWiotaOtaFlashErase start size fl).1.cell =
        eraseRange fl.cell start (4096 * ((size + 4095) / 4096)) ∧
      ∃ new, (ucWiotaOtaFlashErase start size fl).1.ops = new ++ fl.ops ∧
        ∀ op, op ∈ new ↔ ∃ i < (size + 4095) / 4096, op = .erase4K (start + 4096 * i) := by
  have hstart : start / 4096 * 4096 = start := by omega
  by_cases hz : size = 0
  · simp [ucWiotaOtaFlashErase, hz]
  · simp only [ucWiotaOtaFlashErase, hz, if_false, hstart, lt_irrefl]
    exact eraseLoop_spec size _ _ start 0 fl (by omega) (by omega) ha (by omega) (by omega)

/-- An erase of more than `4096 * k` bytes reaches sector `k`. -/
theorem ucWiotaOtaFlashErase_mem (start size k : ℕ) (fl : Flash) (ha : start % 4096 = 0)
    (hlt : start < 2 ^ 32) (hk : k < 2 ^ 20) (h : 4096 * k < size) :
    ∃ new, (ucWiotaOtaFlashErase start size fl).1.ops = new ++ fl.ops ∧
      .erase4K ((start + 4096 * k) % 2 ^ 32) ∈ new := by
  have hstart : start / 4096 * 4096 = start := by omega
  have hz : size ≠ 0 := by omega
  simp only [ucWiotaOtaFlashErase, hz, if_false, hstart, lt_irrefl]
  exact eraseLoop_mem size _ start 0 k fl ha hlt (by omega) (by omega)

/-- The check hashes the cells of its range, piece by piece. -/
theorem checkFlashLoop_eq (md : TinyMd5) (hmd : md.Streaming) (fl : Flash)
    (flashAddr flashSize fuel dataOffset : ℕ) (ctx : md.Ctx) (hlt : dataOffset < flashSize)
    (hfuel : (flashSize - dataOffset + 511) / 512 < fuel) (hsize : flashSize ≤ 2 ^ 31) :
    checkFlashLoop md fl flashAddr flashSize fuel dataOffset ctx =
      some (md.update ctx
        (ucWiotaOtaFlashRead fl (flashAddr + dataOffset) (flashSize - dataOffset))) := by
  have hread : ∀ off n, ucWiotaOtaFlashRead fl ((flashAddr + off) % 2 ^ 32) n =
      ucWiotaOtaFlashRead fl (flashAddr + off) n := by
    intro off n
    rw [ucWiotaOtaFlashRead_eq, ucWiotaOtaFlashRead_eq]
    exact List.map_congr_left fun i _ => congrArg fl.cell (Nat.mod_add_mod _ _ _)
  induction fuel generalizing dataOffset ctx with
  | zero => omega
  | succ fuel ih =>
    rw [checkFlashLoop, if_pos hlt]
    by_cases hlast : flashSize ≤ dataOffset + 512
    · have hlen : (if (dataOffset + 512) % 2 ^ 32 > flashSize then flashSize - dataOffset else 512) =
          flashSize - dataOffset := by
        split_ifs <;> omega
      have hoff : (dataOffset + (flashSize - dataOffset)) % 2 ^ 32 = flashSize := by omega
      obtain ⟨fuel, rfl⟩ : ∃ k, fuel = k + 1 := ⟨fuel - 1, by omega⟩
      simp only [hlen, hoff]
      rw [checkFlashLoop, if_neg (lt_irrefl _), hread]
    · have hlen : (if (dataOffset + 512) % 2 ^ 32 > flashSize then flashSize - dataOffset else 512) =
          512 := by
        split_ifs <;> omega
      have hoff : (dataOffset + 512) % 2 ^ 32 = dataOffset + 512 := Nat.mod_eq_of_lt (by omega)
      have hsplit : flashSize - dataOffset = 512 + (flashSize - (dataOffset + 512)) := by omega
      simp only [hlen]
      rw [hoff, ih _ _ (by omega) (by omega), hread, hmd, hsplit, ← Nat.add_assoc,
        ucWiotaOtaFlashRead_add]

/-- The check succeeds on a range that holds a message with the given digest. -/
theorem ucWiotaOtaCheckFlashData_eq_zero (md : TinyMd5) (hmd : md.Streaming) (fl : Flash)
    (flashAddr : ℕ) (message md5 : List Byte) (hpos : 0 < message.length)
    (hend : flashAddr + message.length ≤ 2 ^ 31)
    (hcell : ∀ a < message.length, fl.cell (flashAddr + a) = message.getD a 0)
    (hmd5 : (hexText (md.finish (md.update md.starts message))).take 32 = md5.take 32) :
    ucWiotaOtaCheckFlashData md fl flashAddr message.length md5 = some 0 := by
  have hmsg : ucWiotaOtaFlashRead fl (flashAddr + 0) (message.length - 0) = message := by
    rw [ucWiotaOtaFlashRead_eq]
    apply List.ext_getElem
    · simp
    · intro a h₁ h₂
      have hmod : (flashAddr + 0 + a) % 2 ^ 32 = flashAddr + a := Nat.mod_eq_of_lt (by omega)
      rw [List.getElem_map, List.getElem_range, hmod, hcell a h₂]
      simp [h₂]
  rw [ucWiotaOtaCheckFlashData, checkFlashLoop_eq md hmd fl flashAddr message.length _ 0 _ hpos
    (by omega) (by omega), hmsg, Option.map_some]
  simp only [hmd5, if_true]

private theorem eraseLoop_returns (eraseSize n fuel a size : ℕ) (fl : Flash) (hfuel : n < fuel)
    (hn : eraseSize ≤ size + 4096 * n) (hsize : size + 4096 * n < 2 ^ 32) :
    (eraseLoop eraseSize fuel a size fl).2 = true := by
  induction n generalizing fuel a size fl with
  | zero =>
    obtain ⟨fuel, rfl⟩ : ∃ k, fuel = k + 1 := ⟨fuel - 1, by omega⟩
    rw [eraseLoop, if_neg (by omega)]
  | succ n ih =>
    obtain ⟨fuel, rfl⟩ : ∃ k, fuel = k + 1 := ⟨fuel - 1, by omega⟩
    rw [eraseLoop]
    split
    · exact ih fuel _ _ _ (by omega) (by omega) (by omega)
    · rfl

private theorem eraseLoop_never_returns (eraseSize fuel a size : ℕ) (fl : Flash)
    (he : 2 ^ 32 - 4096 < eraseSize) (hs : size % 4096 = 0) (hlt : size < 2 ^ 32) :
    (eraseLoop eraseSize fuel a size fl).2 = false := by
  induction fuel generalizing a size fl with
  | zero => rfl
  | succ fuel ih =>
    rw [eraseLoop, if_pos (by omega)]
    exact ih _ _ _ (by omega) (Nat.mod_lt _ (by decide))

/-- An erase from a sector boundary returns unless its size rounds up to `2 ^ 32`. -/
theorem ucWiotaOtaFlashErase_returns_iff {start size : ℕ} (fl : Flash) (ha : start % 4096 = 0)
    (h : size < 2 ^ 32) :
    (ucWiotaOtaFlashErase start size fl).2 = true ↔ size ≤ 2 ^ 32 - 4096 := by
  have hstart : start / 4096 * 4096 = start := by omega
  by_cases hz : size = 0
  · simp [ucWiotaOtaFlashErase, hz]
  · simp only [ucWiotaOtaFlashErase, hz, if_false, hstart, lt_irrefl]
    by_cases hle : size ≤ 2 ^ 32 - 4096
    · have hret := eraseLoop_returns size ((size + 4095) / 4096) (2 ^ 20 + 1) start 0 fl
        (by omega) (by omega) (by omega)
      exact iff_of_true hret hle
    · have hret := eraseLoop_never_returns size (2 ^ 20 + 1) start 0 fl (by omega) (by omega)
        (by omega)
      rw [hret]
      exact iff_of_false Bool.false_ne_true hle

end WiotaDev.OtaFlash
