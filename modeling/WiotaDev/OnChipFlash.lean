import WiotaDev.NorFlash
import WiotaDev.RangePieces
import Mathlib.Data.Nat.Bitwise
import Mathlib.Tactic.SplitIfs

/-! # The on-chip flash driver: erasing sectors and programming pages -/

namespace WiotaDev.OnChipFlash
open WordBytes NorFlash RangePieces

def RT_EOK : ℤ := 0
def RT_ERROR : ℤ := 1

def ROM_SIZE : ℕ := 512 * 1024
def FLASH_PAGE_BIT_SHIFT : ℕ := 8
def FLASH_PAGE_MASK : ℕ := 0xFF
def FLASH_PAGE_SIZE : ℕ := 256
def FLASH_SECTOR_SIZE : ℕ := 4096

/-- A range that passes the assertion at the head of the driver's functions. -/
structure RomRange where
  offset : ℕ
  size : ℕ
  inRom : offset + size < ROM_SIZE

/-- A program command as the flash chip receives it. -/
structure PageProgram where
  addr : ℕ
  data : List Byte
  deriving DecidableEq, Repr

def PageProgram.len (p : PageProgram) : ℕ := p.data.length

/-- What the driver does in order, without the waiting and without the write enable latch. -/
inductive FlashStep
  | irqDisable
  | program (p : PageProgram)
  | eraseSector (nBaseAddr : ℕ)
  | irqEnable
  deriving DecidableEq, Repr

/-- The address register takes 24 bits. -/
def flashPageProgram (mem : ℕ → Byte) (nAddr pData usLen : ℕ) : List PageProgram :=
  if usLen = 0 then
    []
  else
    [⟨nAddr * 256 % 2 ^ 32 / 256, (List.range usLen).map fun k => mem (pData + k)⟩]

/-- The length and the number of pages are 16-bit. -/
def flashWrite (mem : ℕ → Byte) (nAddr pData len : ℕ) : List PageProgram :=
  let usLen := len % 2 ^ 16
  if usLen = 0 then
    []
  else
    let usPage := if usLen &&& FLASH_PAGE_MASK > 0 then (usLen >>> FLASH_PAGE_BIT_SHIFT) + 1
      else usLen >>> FLASH_PAGE_BIT_SHIFT
    (List.range usPage).flatMap fun i =>
      let nTmp := i <<< FLASH_PAGE_BIT_SHIFT
      let usLenTmp := if nTmp + FLASH_PAGE_SIZE ≤ usLen then FLASH_PAGE_SIZE else usLen - nTmp
      flashPageProgram mem (nAddr + nTmp) (pData + nTmp) usLenTmp

/-- The `while` loop over whole pages and the write of what is left. -/
def writePages (mem : ℕ → Byte) (newAddr writeData leftLen : ℕ) : List PageProgram :=
  if leftLen > FLASH_PAGE_SIZE then
    flashWrite mem newAddr writeData FLASH_PAGE_SIZE ++
      writePages mem (newAddr + FLASH_PAGE_SIZE) (writeData + FLASH_PAGE_SIZE)
        (leftLen - FLASH_PAGE_SIZE)
  else
    flashWrite mem newAddr writeData leftLen
termination_by leftLen
decreasing_by
  simp only [FLASH_PAGE_SIZE] at *
  omega

def uc8x88FlashPageWrite (mem : ℕ → Byte) (addr buf size : ℕ) : ℤ × List PageProgram :=
  if size = 0 then
    (-RT_ERROR, [])
  else
    let addrResv := addr &&& FLASH_PAGE_MASK
    let lenResv := FLASH_PAGE_SIZE - addrResv
    if size ≤ lenResv then
      (RT_EOK, flashWrite mem addr buf size)
    else
      (RT_EOK, flashWrite mem addr buf lenResv ++
        writePages mem (addr + lenResv) (buf + lenResv) (size - lenResv))

def uc8x88FlashWrite (mem : ℕ → Byte) (r : RomRange) (buf : ℕ) : ℤ × List FlashStep :=
  let addr := 0x00000000 + r.offset
  (r.size, [.irqDisable] ++ (uc8x88FlashPageWrite mem 0 0 0).2.map .program ++
    (flashWrite mem 0 0 0).map .program ++
    (uc8x88FlashPageWrite mem addr buf r.size).2.map .program ++ [.irqEnable])

def flashEraseSector (nBaseAddr : ℕ) : FlashStep :=
  .eraseSector (nBaseAddr * 256 % 2 ^ 32 / 256)

/-- The `for` loop from `index` on. -/
def eraseSectors (mem : ℕ → Byte) (addr size index : ℕ) : List FlashStep :=
  if index < size then
    (flashWrite mem 0 0 0).map .program ++ [flashEraseSector (addr + index)] ++
      eraseSectors mem addr size (index + FLASH_SECTOR_SIZE)
  else
    []
termination_by size - index
decreasing_by
  simp only [FLASH_SECTOR_SIZE]
  omega

def uc8x88FlashErase (mem : ℕ → Byte) (r : RomRange) : ℤ × List FlashStep :=
  let addr := (0x00000000 + r.offset) / FLASH_SECTOR_SIZE * FLASH_SECTOR_SIZE
  (RT_EOK, [.irqDisable] ++ eraseSectors mem addr r.size 0 ++ [.irqEnable])

/-- A program command inside the chip: the address counts within the page and wraps at its end. -/
def programPage (m : Cells) (p : PageProgram) : Cells :=
  (List.range p.len).foldl
    (fun m k =>
      programRange m (p.addr / FLASH_PAGE_SIZE * FLASH_PAGE_SIZE +
        (p.addr % FLASH_PAGE_SIZE + k) % FLASH_PAGE_SIZE) 1 fun _ => p.data.getD k 0) m

/-- The cells after one step of the driver. -/
def cellsAfter (m : Cells) : FlashStep → Cells
  | .irqDisable => m
  | .irqEnable => m
  | .program p => programPage m p
  | .eraseSector a => eraseRange m (a / FLASH_SECTOR_SIZE * FLASH_SECTOR_SIZE) FLASH_SECTOR_SIZE

@[simp] theorem flashWrite_zero (mem : ℕ → Byte) (nAddr pData : ℕ) :
    flashWrite mem nAddr pData 0 = [] := rfl

private theorem pages_of_le {len : ℕ} (hpos : 0 < len) (hle : len ≤ 256) :
    (if len &&& FLASH_PAGE_MASK > 0 then (len >>> FLASH_PAGE_BIT_SHIFT) + 1
      else len >>> FLASH_PAGE_BIT_SHIFT) = 1 := by
  have hmask : len &&& FLASH_PAGE_MASK = len % 256 := Nat.and_two_pow_sub_one_eq_mod len 8
  have hshift : len >>> FLASH_PAGE_BIT_SHIFT = len / 256 := Nat.shiftRight_eq_div_pow len 8
  rw [hmask, hshift]
  split_ifs <;> omega

/-- At most one page of data is one program command. -/
theorem flashWrite_of_le {mem : ℕ → Byte} {nAddr pData len : ℕ} (haddr : nAddr < 2 ^ 24)
    (hpos : 0 < len) (hle : len ≤ 256) :
    flashWrite mem nAddr pData len =
      [⟨nAddr, (List.range len).map fun k => mem (pData + k)⟩] := by
  have hlen : len % 2 ^ 16 = len := by omega
  have htmp : (if 0 + FLASH_PAGE_SIZE ≤ len then FLASH_PAGE_SIZE else len - 0) = len := by
    rw [FLASH_PAGE_SIZE]
    by_cases h : 0 + 256 ≤ len
    · rw [if_pos h]
      omega
    · rw [if_neg h]
      omega
  have hreg : nAddr * 256 % 2 ^ 32 / 256 = nAddr := by omega
  simp only [flashWrite, hlen, if_neg hpos.ne', pages_of_le hpos hle, List.range_one,
    List.flatMap_cons, List.flatMap_nil, List.append_nil, Nat.zero_shiftLeft, htmp, Nat.add_zero,
    flashPageProgram, hreg]

/-- Program commands that write the buffer to `[lo, hi)`: `offset` is where its first byte goes. -/
structure Splits (mem : ℕ → Byte) (offset buf lo : ℕ) (programs : List PageProgram) (hi : ℕ) :
    Prop where
  consecutive : Consecutive PageProgram.addr PageProgram.len lo programs hi
  bytes : ∀ p ∈ programs, ∀ k, (hk : k < p.data.length) →
    p.data.get ⟨k, hk⟩ = mem (buf + (p.addr - offset) + k)
  length : ∀ p ∈ programs, 1 ≤ p.len ∧ p.len ≤ 256
  inPage : ∀ p ∈ programs, p.addr % 256 + p.len ≤ 256

theorem Splits.append {mem : ℕ → Byte} {offset buf lo mid hi : ℕ} {ps qs : List PageProgram}
    (hp : Splits mem offset buf lo ps mid) (hq : Splits mem offset buf mid qs hi) :
    Splits mem offset buf lo (ps ++ qs) hi := by
  refine ⟨hp.consecutive.append hq.consecutive, fun p h => ?_, fun p h => ?_, fun p h => ?_⟩
  · exact (List.mem_append.mp h).elim (hp.bytes p) (hq.bytes p)
  · exact (List.mem_append.mp h).elim (hp.length p) (hq.length p)
  · exact (List.mem_append.mp h).elim (hp.inPage p) (hq.inPage p)

/-- A write of at most one page that does not cross a page boundary. -/
theorem flashWrite_splits (mem : ℕ → Byte) (offset buf : ℕ) {nAddr len : ℕ}
    (haddr : nAddr < 2 ^ 24) (hpos : 0 < len) (hpage : nAddr % 256 + len ≤ 256) :
    Splits mem offset buf nAddr (flashWrite mem nAddr (buf + (nAddr - offset)) len)
      (nAddr + len) := by
  rw [flashWrite_of_le haddr hpos (by omega)]
  have hlen : PageProgram.len ⟨nAddr, (List.range len).map fun k => mem (buf + (nAddr - offset) + k)⟩
      = len := by simp [PageProgram.len]
  refine ⟨⟨rfl, by rw [hlen]; rfl⟩, fun p hp => ?_, fun p hp => ?_, fun p hp => ?_⟩
  · obtain rfl := List.mem_singleton.mp hp
    intro k hk
    simp
  · obtain rfl := List.mem_singleton.mp hp
    rw [hlen]
    omega
  · obtain rfl := List.mem_singleton.mp hp
    rw [hlen]
    exact hpage

/-- The loop from a page boundary on. -/
theorem writePages_splits (mem : ℕ → Byte) (offset buf : ℕ) {newAddr leftLen : ℕ}
    (hoff : offset ≤ newAddr) (hfits : newAddr + leftLen < 2 ^ 24) (hpos : 0 < leftLen)
    (haligned : newAddr % 256 = 0) :
    Splits mem offset buf newAddr (writePages mem newAddr (buf + (newAddr - offset)) leftLen)
      (newAddr + leftLen) := by
  induction leftLen using Nat.strong_induction_on generalizing newAddr with
  | _ leftLen ih =>
    rw [writePages]
    by_cases hmore : leftLen > FLASH_PAGE_SIZE
    · rw [if_pos hmore]
      have hbig : 256 < leftLen := hmore
      have hfirst : Splits mem offset buf newAddr
          (flashWrite mem newAddr (buf + (newAddr - offset)) 256) (newAddr + 256) :=
        flashWrite_splits mem offset buf (by omega) (by omega) (by omega)
      have hrest := ih (leftLen - 256) (by omega) (show offset ≤ newAddr + 256 by omega)
        (by omega) (by omega) (by omega)
      have hptr : buf + (newAddr + 256 - offset) = buf + (newAddr - offset) + 256 := by omega
      have hend : newAddr + 256 + (leftLen - 256) = newAddr + leftLen := by omega
      rw [hptr, hend] at hrest
      exact hfirst.append hrest
    · rw [if_neg hmore]
      have hsmall : leftLen ≤ 256 := not_lt.mp hmore
      exact flashWrite_splits mem offset buf (by omega) hpos (by omega)

theorem uc8x88FlashPageWrite_splits (mem : ℕ → Byte) (buf : ℕ) {addr size : ℕ}
    (hfits : addr + size < 2 ^ 24) (hpos : 0 < size) :
    Splits mem addr buf addr (uc8x88FlashPageWrite mem addr buf size).2 (addr + size) := by
  have hmask : addr &&& FLASH_PAGE_MASK = addr % 256 := Nat.and_two_pow_sub_one_eq_mod addr 8
  have hptr : buf + (addr - addr) = buf := by omega
  rw [uc8x88FlashPageWrite, if_neg hpos.ne']
  simp only [hmask, FLASH_PAGE_SIZE]
  by_cases hle : size ≤ 256 - addr % 256
  · rw [if_pos hle]
    have hone := flashWrite_splits mem addr buf (show addr < 2 ^ 24 by omega) hpos (by omega)
    rwa [hptr] at hone
  · rw [if_neg hle]
    have hhead := flashWrite_splits mem addr buf (show addr < 2 ^ 24 by omega)
      (show 0 < 256 - addr % 256 by omega) (by omega)
    have hrest := writePages_splits mem addr buf (show addr ≤ addr + (256 - addr % 256) by omega)
      (show addr + (256 - addr % 256) + (size - (256 - addr % 256)) < 2 ^ 24 by omega) (by omega)
      (by omega)
    have hnext : buf + (addr + (256 - addr % 256) - addr) = buf + (256 - addr % 256) := by omega
    have hend : addr + (256 - addr % 256) + (size - (256 - addr % 256)) = addr + size := by omega
    rw [hptr] at hhead
    rw [hnext, hend] at hrest
    exact hhead.append hrest

def FlashStep.program? : FlashStep → Option PageProgram
  | .program p => some p
  | _ => none

/-- The program commands among the steps of the driver. -/
def programs (steps : List FlashStep) : List PageProgram :=
  steps.filterMap FlashStep.program?

@[simp] theorem programs_map_program (ps : List PageProgram) :
    programs (ps.map .program) = ps := by
  induction ps with
  | nil => rfl
  | cons p ps ih =>
    have hcons : programs (.program p :: ps.map .program) =
        p :: programs (ps.map .program) := rfl
    rw [List.map_cons, hcons, ih]

@[simp] theorem programs_append (xs ys : List FlashStep) :
    programs (xs ++ ys) = programs xs ++ programs ys := List.filterMap_append

theorem programs_uc8x88FlashWrite (mem : ℕ → Byte) (r : RomRange) (buf : ℕ) :
    programs (uc8x88FlashWrite mem r buf).2 = (uc8x88FlashPageWrite mem r.offset buf r.size).2 := by
  have hdis : programs [.irqDisable] = [] := rfl
  have hen : programs [.irqEnable] = [] := rfl
  have hnone : (uc8x88FlashPageWrite mem 0 0 0).2 = [] := rfl
  simp only [uc8x88FlashWrite, programs_append, programs_map_program, hdis, hen, hnone,
    flashWrite_zero, List.nil_append, List.append_nil, Nat.zero_add]

/-- The program commands of a write lie end to end over the range, none of them crosses a page, and
every byte of the range is programmed once, with the byte of the buffer that belongs there. -/
theorem uc8x88FlashWrite_splits (mem : ℕ → Byte) (r : RomRange) (buf : ℕ) (hpos : 1 ≤ r.size) :
    Splits mem r.offset buf r.offset (programs (uc8x88FlashWrite mem r buf).2)
        (r.offset + r.size) ∧
      ∀ a, ((programs (uc8x88FlashWrite mem r buf).2).countP fun p =>
          Holds PageProgram.addr PageProgram.len a p) =
        if r.offset ≤ a ∧ a < r.offset + r.size then 1 else 0 := by
  have hrom : r.offset + r.size < 512 * 1024 := r.inRom
  have hsplits := uc8x88FlashPageWrite_splits mem buf
    (show r.offset + r.size < 2 ^ 24 by omega) hpos
  rw [programs_uc8x88FlashWrite]
  exact ⟨hsplits, hsplits.consecutive.countP_holds⟩

/-- Three bytes over the end of the first page. -/
def overPageEnd : RomRange := ⟨254, 3, by decide⟩

theorem uc8x88FlashWrite_overPageEnd :
    Splits (fun k => BitVec.ofNat 8 k) 254 7 254
        (programs (uc8x88FlashWrite (fun k => BitVec.ofNat 8 k) overPageEnd 7).2) 257 ∧
      ∀ a, ((programs (uc8x88FlashWrite (fun k => BitVec.ofNat 8 k) overPageEnd 7).2).countP fun p =>
          Holds PageProgram.addr PageProgram.len a p) =
        if 254 ≤ a ∧ a < 257 then 1 else 0 :=
  uc8x88FlashWrite_splits (fun k => BitVec.ofNat 8 k) overPageEnd 7 (by decide)

/-- A program command that stays in its page does not wrap. -/
theorem programPage_eq {p : PageProgram} (m : Cells) (h : p.addr % 256 + p.len ≤ 256) :
    programPage m p = programRange m p.addr p.len fun k => p.data.getD k 0 := by
  have hfold : ∀ n ≤ p.len, (List.range n).foldl
      (fun m k => programRange m (p.addr / FLASH_PAGE_SIZE * FLASH_PAGE_SIZE +
        (p.addr % FLASH_PAGE_SIZE + k) % FLASH_PAGE_SIZE) 1 fun _ => p.data.getD k 0) m =
      programRange m p.addr n fun k => p.data.getD k 0 := by
    intro n hn
    induction n with
    | zero => rw [List.range_zero, List.foldl_nil, programRange_zero]
    | succ n ih =>
      have hcell : p.addr / FLASH_PAGE_SIZE * FLASH_PAGE_SIZE +
          (p.addr % FLASH_PAGE_SIZE + n) % FLASH_PAGE_SIZE = p.addr + n := by
        simp only [FLASH_PAGE_SIZE]
        omega
      have hbyte : ∀ i < 1, p.data.getD n 0 = p.data.getD (n + i) 0 := by
        intro i hi
        obtain rfl : i = 0 := by omega
        rfl
      rw [List.range_succ, List.foldl_append, ih (by omega), List.foldl_cons, List.foldl_nil, hcell,
        programRange_congr _ hbyte, programRange_append]
  exact hfold p.len le_rfl

/-- What the program commands leave in the cells is one program of the whole range. -/
theorem Splits.foldl_programPage {mem : ℕ → Byte} {offset buf lo hi : ℕ} {ps : List PageProgram}
    (h : Splits mem offset buf lo ps hi) (hoff : offset ≤ lo) (m : Cells) :
    ps.foldl programPage m =
      programRange m lo (hi - lo) fun k => mem (buf + (lo - offset) + k) := by
  induction ps generalizing lo m with
  | nil =>
    obtain rfl : lo = hi := h.consecutive
    rw [Nat.sub_self, programRange_zero, List.foldl_nil]
  | cons p ps ih =>
    obtain ⟨hstart, hrest⟩ := h.consecutive
    have hp : p ∈ p :: ps := List.mem_cons_self
    have htail : Splits mem offset buf (lo + p.len) ps hi :=
      ⟨hrest, fun q hq => h.bytes q (List.mem_cons_of_mem p hq),
        fun q hq => h.length q (List.mem_cons_of_mem p hq),
        fun q hq => h.inPage q (List.mem_cons_of_mem p hq)⟩
    have hdata : ∀ k < p.len, p.data.getD k 0 = mem (buf + (lo - offset) + k) := by
      intro k hk
      rw [← hstart, ← h.bytes p hp k hk]
      exact List.getD_eq_getElem _ _ hk
    have hnext : (fun k => mem (buf + (lo + p.len - offset) + k)) =
        fun i => mem (buf + (lo - offset) + (p.len + i)) := by
      funext i
      congr 1
      omega
    have hsum : p.len + (hi - (lo + p.len)) = hi - lo := by
      have hle := hrest.le
      omega
    rw [List.foldl_cons, programPage_eq m (h.inPage p hp), hstart, programRange_congr m hdata,
      ih htail (by omega), hnext,
      programRange_append m lo p.len (hi - (lo + p.len)) fun k => mem (buf + (lo - offset) + k), hsum]

theorem foldl_cellsAfter_program (ps : List PageProgram) (m : Cells) :
    (ps.map FlashStep.program).foldl cellsAfter m = ps.foldl programPage m := by
  induction ps generalizing m with
  | nil => rfl
  | cons p ps ih => exact ih (programPage m p)

/-- In the chip a write is one program of the whole range with the bytes of the buffer. -/
theorem cellsAfter_uc8x88FlashWrite (mem : ℕ → Byte) (r : RomRange) (buf : ℕ) (m : Cells) :
    (uc8x88FlashWrite mem r buf).2.foldl cellsAfter m =
      programRange m r.offset r.size fun k => mem (buf + k) := by
  have hrom : r.offset + r.size < 512 * 1024 := r.inRom
  have hsteps : (uc8x88FlashWrite mem r buf).2.foldl cellsAfter m =
      (uc8x88FlashPageWrite mem r.offset buf r.size).2.foldl programPage m := by
    have hnone : (uc8x88FlashPageWrite mem 0 0 0).2 = [] := rfl
    simp only [uc8x88FlashWrite, hnone, flashWrite_zero, List.map_nil, List.append_nil,
      List.foldl_append, foldl_cellsAfter_program, Nat.zero_add]
    rfl
  rw [hsteps]
  rcases Nat.eq_zero_or_pos r.size with hzero | hpos
  · rw [hzero, programRange_zero]
    rfl
  · have hsplits := uc8x88FlashPageWrite_splits mem buf
      (show r.offset + r.size < 2 ^ 24 by omega) hpos
    rw [hsplits.foldl_programPage le_rfl m, Nat.sub_self, Nat.add_zero, Nat.add_sub_cancel_left]

/-- The steps of the erase loop: one sector for each 4096 bytes that `size` counts. -/
theorem eraseSectors_eq (mem : ℕ → Byte) {addr size index : ℕ} (haddr : addr + size + 4096 < 2 ^ 24) :
    eraseSectors mem addr size index = (List.range ((size - index + 4095) / 4096)).map
      fun k => .eraseSector (addr + (index + k * 4096)) := by
  induction hleft : size - index using Nat.strong_induction_on generalizing index with
  | _ left ih =>
    rw [eraseSectors]
    by_cases hmore : index < size
    · have hreg : (addr + index) * 256 % 2 ^ 32 / 256 = addr + index := by omega
      have hcount : (left + 4095) / 4096 = (size - (index + 4096) + 4095) / 4096 + 1 := by omega
      have hrest := @ih (size - (index + 4096)) (by omega) (index + 4096) rfl
      rw [if_pos hmore, flashWrite_zero, List.map_nil, List.nil_append, List.singleton_append,
        FLASH_SECTOR_SIZE, hrest, hcount, List.range_succ_eq_map, List.map_cons, List.map_map,
        flashEraseSector, hreg, Nat.zero_mul, Nat.add_zero]
      congr 1
      apply List.map_congr_left
      intro k _
      simp only [Function.comp_apply, FlashStep.eraseSector.injEq]
      omega
    · have hnone : (left + 4095) / 4096 = 0 := by omega
      rw [if_neg hmore, hnone]
      rfl

def FlashStep.sector? : FlashStep → Option ℕ
  | .eraseSector a => some a
  | _ => none

/-- The addresses of the sector erases among the steps of the driver. -/
def sectors (steps : List FlashStep) : List ℕ :=
  steps.filterMap FlashStep.sector?

/-- The steps erase every byte of the range, whatever the cells hold, and only sectors that have a
byte of the range. -/
def Erases (r : RomRange) (steps : List FlashStep) : Prop :=
  (∀ a, r.offset ≤ a → a < r.offset + r.size →
    ∀ m : Cells, steps.foldl cellsAfter m a = BitVec.allOnes 8) ∧
  ∀ e ∈ sectors steps, ∃ a, r.offset ≤ a ∧ a < r.offset + r.size ∧
    a / FLASH_SECTOR_SIZE = e / FLASH_SECTOR_SIZE

theorem foldl_cellsAfter_erase (as : List ℕ) (m : Cells) (a : ℕ) :
    (as.map FlashStep.eraseSector).foldl cellsAfter m a =
      if ∃ e ∈ as, e / 4096 = a / 4096 then BitVec.allOnes 8 else m a := by
  induction as generalizing m with
  | nil => simp
  | cons e as ih =>
    have hsector : e / 4096 * 4096 ≤ a ∧ a < e / 4096 * 4096 + 4096 ↔ e / 4096 = a / 4096 := by omega
    rw [List.map_cons, List.foldl_cons, ih]
    simp only [cellsAfter, eraseRange, FLASH_SECTOR_SIZE, hsector, List.exists_mem_cons_iff]
    by_cases hrest : ∃ x ∈ as, x / 4096 = a / 4096
    · rw [if_pos hrest, if_pos (Or.inr hrest)]
    · rw [if_neg hrest]
      simp only [hrest, or_false]

/-- The sectors that the erase loop reaches. -/
def reached (r : RomRange) : List ℕ :=
  (List.range ((r.size + 4095) / 4096)).map fun k =>
    r.offset / FLASH_SECTOR_SIZE * FLASH_SECTOR_SIZE + k * 4096

theorem uc8x88FlashErase_steps (mem : ℕ → Byte) (r : RomRange) :
    (uc8x88FlashErase mem r).2 =
      [.irqDisable] ++ (reached r).map FlashStep.eraseSector ++ [.irqEnable] := by
  have hrom : r.offset + r.size < 512 * 1024 := r.inRom
  have hbase : r.offset / FLASH_SECTOR_SIZE * FLASH_SECTOR_SIZE + r.size + 4096 < 2 ^ 24 := by
    simp only [FLASH_SECTOR_SIZE]
    omega
  simp only [uc8x88FlashErase, Nat.zero_add, eraseSectors_eq mem hbase, reached, List.map_map,
    Nat.sub_zero]
  rfl

theorem sectors_uc8x88FlashErase (mem : ℕ → Byte) (r : RomRange) :
    sectors (uc8x88FlashErase mem r).2 = reached r := by
  have hmap : ∀ as : List ℕ, (as.map FlashStep.eraseSector).filterMap FlashStep.sector? = as := by
    intro as
    induction as with
    | nil => rfl
    | cons a as ih =>
      rw [List.map_cons]
      exact congrArg (a :: ·) ih
  rw [uc8x88FlashErase_steps, sectors, List.filterMap_append, List.filterMap_append, hmap]
  exact List.append_nil _

theorem cellsAfter_uc8x88FlashErase (mem : ℕ → Byte) (r : RomRange) (m : Cells) (a : ℕ) :
    (uc8x88FlashErase mem r).2.foldl cellsAfter m a =
      if ∃ e ∈ reached r, e / 4096 = a / 4096 then BitVec.allOnes 8 else m a := by
  rw [uc8x88FlashErase_steps, List.foldl_append, List.foldl_append]
  exact foldl_cellsAfter_erase (reached r) m a

theorem exists_reached_iff (r : RomRange) (s : ℕ) :
    (∃ e ∈ reached r, e / 4096 = s) ↔
      ∃ k, k * 4096 < r.size ∧ r.offset / 4096 + k = s := by
  simp only [reached, List.mem_map, List.mem_range, FLASH_SECTOR_SIZE]
  constructor
  · rintro ⟨-, ⟨k, hk, rfl⟩, hs⟩
    exact ⟨k, by omega, by omega⟩
  · rintro ⟨k, hk, hs⟩
    exact ⟨_, ⟨k, by omega, rfl⟩, by omega⟩

/-- Every sector that the loop erases has a byte of the range. -/
theorem reached_intersects {r : RomRange} (hpos : 1 ≤ r.size) {e : ℕ} (he : e ∈ reached r) :
    ∃ a, r.offset ≤ a ∧ a < r.offset + r.size ∧ a / FLASH_SECTOR_SIZE = e / FLASH_SECTOR_SIZE := by
  obtain ⟨k, hk, hs⟩ := (exists_reached_iff r (e / 4096)).mp ⟨e, he, rfl⟩
  simp only [FLASH_SECTOR_SIZE, ← hs]
  rcases Nat.eq_zero_or_pos k with hkzero | hkpos
  · rw [hkzero]
    exact ⟨r.offset, le_rfl, Nat.lt_add_of_pos_right hpos, rfl⟩
  · have hfirst : (r.offset / 4096 + k) * 4096 = r.offset / 4096 * 4096 + k * 4096 :=
      Nat.add_mul _ _ _
    refine ⟨(r.offset / 4096 + k) * 4096, ?_, ?_, Nat.mul_div_cancel _ (by decide)⟩
    · rw [hfirst]
      omega
    · rw [hfirst]
      exact Nat.add_lt_add_of_le_of_lt (Nat.div_mul_le_self r.offset 4096) hk

/-- The number of sectors is counted from the size alone: the last sector of the range is missed when
the offset in the first sector pushes the end of the range over one more boundary. -/
theorem uc8x88FlashErase_erases_iff (mem : ℕ → Byte) (r : RomRange) (hpos : 1 ≤ r.size) :
    Erases r (uc8x88FlashErase mem r).2 ↔
      r.offset % FLASH_SECTOR_SIZE + (r.size - 1) % FLASH_SECTOR_SIZE < FLASH_SECTOR_SIZE := by
  have hcell : ∀ a, (∀ m : Cells, (uc8x88FlashErase mem r).2.foldl cellsAfter m a =
      BitVec.allOnes 8) ↔ ∃ k, k * 4096 < r.size ∧ r.offset / 4096 + k = a / 4096 := by
    intro a
    rw [← exists_reached_iff]
    constructor
    · intro hall
      by_contra hnot
      have hzero := hall fun _ => 0#8
      rw [cellsAfter_uc8x88FlashErase, if_neg hnot] at hzero
      exact absurd hzero (by decide)
    · intro hin m
      rw [cellsAfter_uc8x88FlashErase, if_pos hin]
  constructor
  · rintro ⟨hbytes, -⟩
    obtain ⟨k, hk, hs⟩ := (hcell (r.offset + r.size - 1)).mp
      (hbytes (r.offset + r.size - 1) (by omega) (by omega))
    simp only [FLASH_SECTOR_SIZE]
    omega
  · intro hcond
    simp only [FLASH_SECTOR_SIZE] at hcond
    refine ⟨fun a hlo hhi => (hcell a).mpr ?_, fun e he => ?_⟩
    · exact ⟨a / 4096 - r.offset / 4096, by omega, by omega⟩
    · rw [sectors_uc8x88FlashErase] at he
      exact reached_intersects hpos he

/-- Two bytes, the last one of a sector and the first one of the next. -/
def overSectorEnd : RomRange := ⟨4095, 2, by decide⟩

theorem uc8x88FlashErase_overSectorEnd :
    Erases overSectorEnd (uc8x88FlashErase (fun _ => 0) overSectorEnd).2 ↔
      4095 % FLASH_SECTOR_SIZE + (2 - 1) % FLASH_SECTOR_SIZE < FLASH_SECTOR_SIZE :=
  uc8x88FlashErase_erases_iff (fun _ => 0) overSectorEnd (by decide)

theorem uc8x88FlashErase_misses_last_sector :
    ¬ ∀ mem r, 1 ≤ r.size → Erases r (uc8x88FlashErase mem r).2 := by
  intro h
  have hbytes := (h (fun _ => 0) overSectorEnd (by decide)).1 4096 (show 4095 ≤ 4096 by omega)
    (show 4096 < 4095 + 2 by omega)
  have hcell := hbytes fun _ => 0#8
  rw [cellsAfter_uc8x88FlashErase, if_neg] at hcell
  · exact absurd hcell (by decide)
  · rw [exists_reached_iff]
    rintro ⟨k, hk, hs⟩
    simp only [overSectorEnd] at hk hs
    omega

end WiotaDev.OnChipFlash
