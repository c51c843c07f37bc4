import WiotaDev.NorFlash
import Mathlib.Tactic.Linarith

/-! # The OTA flash routines (`uc_ota_flash.c`)

The flash device keeps its cells and the history of the commands it executed. The
controller exchanges words most significant byte first, which is why the routines
swap the bytes of every word; `cell a` is the byte that an OTA read returns for
address `a`. Addresses are 32-bit and wrap. -/

namespace WiotaDev.OtaFlash
open WordBytes NorFlash

def FLASH_SECTOR_SIZE : ℕ := 4096
def FLASH_PAGE_SIZE : ℕ := 256
def RT_EINVAL : ℤ := 10

/-- One command executed by the flash device, with its first address. -/
inductive FlashOp where
  | erase4K (addr : ℕ)
  | program (addr : ℕ)
  deriving DecidableEq, Repr

/-- The addresses a command changes: a 4 KB sector or a 4-byte word. -/
def FlashOp.Within (lo hi : ℕ) : FlashOp → Prop
  | .erase4K a => lo ≤ a ∧ a + 4096 ≤ hi
  | .program a => lo ≤ a ∧ a + 4 ≤ hi

/-- Cells and history of the device, the newest command first. -/
structure Flash where
  cell : Cells
  ops : List FlashOp

/-- `uc_wiota_flash_erase_4K`: a sector becomes 0xFF. -/
def ucWiotaFlashErase4K (flashAddr : ℕ) (fl : Flash) : Flash :=
  ⟨eraseRange fl.cell flashAddr 4096, .erase4K flashAddr :: fl.ops⟩

/-- `uc_wiota_flash_read` of one word. -/
def ucWiotaFlashRead (fl : Flash) (flashAddr : ℕ) : BitVec 32 :=
  wordOf fun j => fl.cell (flashAddr + (3 - j))

/-- `uc_wiota_flash_write` of one word: its bits are cleared into the cells. -/
def ucWiotaFlashWrite (word : BitVec 32) (flashAddr : ℕ) (fl : Flash) : Flash :=
  ⟨programRange fl.cell flashAddr 4 (fun i => byteOf word (3 - i)), .program flashAddr :: fl.ops⟩

/-- `order_len`: the part of a word that an access of `size` bytes handles at `index`. -/
def orderLen (addr size index : ℕ) : ℕ :=
  let addrOffset := (addr + index) % 2 ^ 32 % 4
  if index + 4 - addrOffset > size then size - index else 4 - addrOffset

theorem orderLen_pos (addr : ℕ) {size index : ℕ} (h : index < size) : 0 < orderLen addr size index := by
  simp only [orderLen]
  split_ifs <;> omega

/-- A round stays inside the access and inside its word. -/
theorem orderLen_le (addr : ℕ) {size index : ℕ} (h : index < size) :
    index + orderLen addr size index ≤ size ∧
      (addr + index) % 2 ^ 32 % 4 + orderLen addr size index ≤ 4 := by
  simp only [orderLen]
  split_ifs <;> omega

/-- One round of the read loop: the bytes it copies into the buffer. -/
def readWord (fl : Flash) (addr size index : ℕ) : List Byte :=
  let addrOffset := (addr + index) % 2 ^ 32 % 4
  let readAddr := (addr + index) % 2 ^ 32 / 4 * 4
  let readData := bswap32 (ucWiotaFlashRead fl readAddr)
  (List.range (orderLen addr size index)).map fun i => byteOf readData (addrOffset + i)

/-- The loop of `uc_wiota_ota_flash_read`. -/
def otaFlashReadLoop (fl : Flash) (addr size index : ℕ) (buf : List Byte) : List Byte :=
  if _h : index < size then
    otaFlashReadLoop fl addr size (index + orderLen addr size index)
      (buf ++ readWord fl addr size index)
  else buf
termination_by size - index
decreasing_by
  have := orderLen_pos addr _h
  omega

/-- `uc_wiota_ota_flash_read`: the bytes stored into the buffer. -/
def ucWiotaOtaFlashRead (fl : Flash) (offset size : ℕ) : List Byte :=
  otaFlashReadLoop fl offset size 0 []

/-- The word that a round of the write loop programs: the buffer bytes of this round
over what the flash holds in the rest of a partial word. -/
def writeBuf (buf : ℕ → Byte) (addr size index : ℕ) (fl : Flash) (j : ℕ) : Byte :=
  let addrOffset := (addr + index) % 2 ^ 32 % 4
  let writeAddr := (addr + index) % 2 ^ 32 / 4 * 4
  let len := orderLen addr size index
  if addrOffset ≤ j ∧ j < addrOffset + len then buf (index + (j - addrOffset))
  else if addrOffset > 0 ∨ len < 4 then (ucWiotaOtaFlashRead fl writeAddr 4).getD j 0
  else 0

/-- One round of the write loop. -/
def writeWord (buf : ℕ → Byte) (addr size index : ℕ) (fl : Flash) : Flash :=
  ucWiotaFlashWrite (bswap32 (wordOf (writeBuf buf addr size index fl)))
    ((addr + index) % 2 ^ 32 / 4 * 4) fl

/-- The loop of `ota_flash_write`. -/
def otaFlashWriteLoop (buf : ℕ → Byte) (addr size index : ℕ) (fl : Flash) : Flash :=
  if _h : index < size then
    otaFlashWriteLoop buf addr size (index + orderLen addr size index)
      (writeWord buf addr size index fl)
  else fl
termination_by size - index
decreasing_by
  have := orderLen_pos addr _h
  omega

/-- `ota_flash_write`, with its return value. -/
def otaFlashWrite (offset : ℕ) (buf : ℕ → Byte) (size : ℕ) (fl : Flash) : ℤ × Flash :=
  let endAddr := (offset + size) % 2 ^ 32
  if endAddr > FLASH_SECTOR_SIZE * FLASH_PAGE_SIZE then (-RT_EINVAL, fl)
  else if size < 1 then (-RT_EINVAL, fl)
  else (size, otaFlashWriteLoop buf offset size 0 fl)

/-- `uc_wiota_ota_flash_write`; the result of `ota_flash_write` is dropped by the
source and kept here for the history of calls. -/
def ucWiotaOtaFlashWrite (dataBuf : ℕ → Byte) (flashAddr length : ℕ) (fl : Flash) : ℤ × Flash :=
  otaFlashWrite flashAddr dataBuf length fl

/-- `ota_flash_erase` with its loop over `size`, which every caller sets to 4096. -/
def otaFlashErase (offset size : ℕ) (fl : Flash) : Flash :=
  let addr := offset / FLASH_SECTOR_SIZE * FLASH_SECTOR_SIZE
  (List.range ((size + 4095) / 4096)).foldl
    (fun fl i => ucWiotaFlashErase4K ((addr + i * FLASH_SECTOR_SIZE) % 2 ^ 32) fl) fl

/-- The loop of `uc_wiota_ota_flash_erase`. `size` counts up by 4096 and wraps at
`2 ^ 32`, so it takes `2 ^ 20` values at most; a loop that has not ended by then
never does. -/
def eraseLoop (eraseSize : ℕ) : ℕ → ℕ → ℕ → Flash → Flash × Bool
  | 0, _, _, fl => (fl, false)
  | fuel + 1, eraseAddr, size, fl =>
    if size < eraseSize then
      eraseLoop eraseSize fuel ((eraseAddr + 4096) % 2 ^ 32) ((size + 4096) % 2 ^ 32)
        (otaFlashErase eraseAddr 4096 fl)
    else (fl, true)

/-- `uc_wiota_ota_flash_erase`; the flag says whether it returns. -/
def ucWiotaOtaFlashErase (startAddr eraseSize : ℕ) (fl : Flash) : Flash × Bool :=
  if eraseSize = 0 then (fl, true)
  else
    let eraseAddr := startAddr / 4096 * 4096
    if eraseAddr < startAddr then
      let fl := otaFlashErase eraseAddr 4096 fl
      let eraseAddr := (eraseAddr + 4096) % 2 ^ 32
      eraseLoop eraseSize (2 ^ 20 + 1) eraseAddr ((startAddr + 2 ^ 32 - eraseAddr) % 2 ^ 32) fl
    else eraseLoop eraseSize (2 ^ 20 + 1) eraseAddr 0 fl

/-- The interface of `tiny_md5.c` that the check uses. -/
structure TinyMd5 where
  Ctx : Type
  starts : Ctx
  update : Ctx → List Byte → Ctx
  finish : Ctx → List Byte

/-- Hashing consecutive pieces hashes their concatenation. -/
def TinyMd5.Streaming (md : TinyMd5) : Prop :=
  ∀ c a b, md.update (md.update c a) b = md.update c (a ++ b)

/-- The interface over a function from messages to digests. -/
def TinyMd5.ofDigest (digest : List Byte → List Byte) : TinyMd5 where
  Ctx := List Byte
  starts := []
  update := (· ++ ·)
  finish := digest

theorem TinyMd5.ofDigest_streaming (digest : List Byte → List Byte) :
    (TinyMd5.ofDigest digest).Streaming := fun c a b => List.append_assoc c a b

/-- The digest of the message "a", and no other. -/
def md5OfA (message : List Byte) : List Byte :=
  if message = [0x61] then
    [0x0c, 0xc1, 0x75, 0xb9, 0xc0, 0xf1, 0xb6, 0xa8, 0x31, 0xc3, 0x99, 0xe2, 0x69, 0x77, 0x26, 0x61]
  else []

def hexDigit (n : ℕ) : Byte := if n < 10 then BitVec.ofNat 8 (0x30 + n) else BitVec.ofNat 8 (0x57 + n)

/-- The `"%02x"` text of a digest. -/
def hexText (digest : List Byte) : List Byte :=
  digest.flatMap fun b => [hexDigit (b.toNat / 16), hexDigit (b.toNat % 16)]

/-- The loop of `uc_wiota_ota_check_flash_data`. `data_offset` counts up by 512 and
wraps at `2 ^ 32`; a loop that has not ended after `2 ^ 23` rounds never does. -/
def checkFlashLoop (md : TinyMd5) (fl : Flash) (flashAddr flashSize : ℕ) :
    ℕ → ℕ → md.Ctx → Option md.Ctx
  | 0, _, _ => none
  | fuel + 1, dataOffset, ctx =>
    if dataOffset < flashSize then
      let readLen :=
        if (dataOffset + 512) % 2 ^ 32 > flashSize then flashSize - dataOffset else 512
      checkFlashLoop md fl flashAddr flashSize fuel ((dataOffset + readLen) % 2 ^ 32)
        (md.update ctx (ucWiotaOtaFlashRead fl ((flashAddr + dataOffset) % 2 ^ 32) readLen))
    else some ctx

/-- `uc_wiota_ota_check_flash_data`, `none` when it never returns. The read returns the
length it was asked for, so the return value 1 cannot occur. -/
def ucWiotaOtaCheckFlashData (md : TinyMd5) (fl : Flash) (flashAddr flashSize : ℕ)
    (md5 : List Byte) : Option ℤ :=
  (checkFlashLoop md fl flashAddr flashSize (2 ^ 23 + 1) 0 md.starts).map fun ctx =>
    let calcMd5 := hexText (md.finish ctx)
    if calcMd5.take 32 = md5.take 32 then 0 else 2

end WiotaDev.OtaFlash
