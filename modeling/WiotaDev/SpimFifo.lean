import WiotaDev.BlockReversal
import WiotaDev.WordBytes
import Mathlib.Logic.Function.Basic
import Mathlib.Data.Nat.Bitwise

/-! # The SPI master: filling and draining its FIFOs -/

namespace WiotaDev.SpimFifo
open WordBytes BlockReversal

def SPILEN_NUM_MASK : ℕ := 0x7FF

/-- One pass of the loop: the bytes of word `i` exchanged through `temp`. -/
def swapWord (data : ℕ → Byte) (i : ℕ) : ℕ → Byte :=
  let temp := data (4 * i)
  let data := Function.update data (4 * i) (data (4 * i + 3))
  let data := Function.update data (4 * i + 3) temp
  let temp := data (4 * i + 1)
  let data := Function.update data (4 * i + 1) (data (4 * i + 2))
  Function.update data (4 * i + 2) temp

def spimDataBigLittleEndianChange (data : ℕ → Byte) (numWords : ℕ) : ℕ → Byte :=
  (List.range numWords).foldl swapWord data

/-- `num_words`, from the length in bits that `datalen *= 8` leaves. -/
def numWords (datalen : ℕ) : ℕ := (datalen * 8 % 2 ^ 32) >>> 5 &&& SPILEN_NUM_MASK

/-- `((uint32_t *)data)[i]` -/
def loadWord (data : ℕ → Byte) (i : ℕ) : BitVec 32 := wordOf fun j => data (4 * i + j)

/-- `((uint32_t *)data)[i] = word` -/
def storeWord (data : ℕ → Byte) (i : ℕ) (word : BitVec 32) : ℕ → Byte :=
  (List.range 4).foldl (fun data j => Function.update data (4 * i + j) (byteOf word j)) data

/-- `send_data`: the last bytes, the first of them in the highest place. -/
def sendData (wdata : ℕ → Byte) (start remainLen : ℕ) : BitVec 32 :=
  wordOf ((List.range remainLen).foldl
    (fun data8 i => Function.update data8 (3 - i % 4) (wdata (start + i))) fun _ => 0)

/-- The last bytes taken out of `recv_data`. -/
def takeRemainder (rdata : ℕ → Byte) (start remainLen : ℕ) (recvData : BitVec 32) : ℕ → Byte :=
  (List.range remainLen).foldl
    (fun rdata i => Function.update rdata (start + i)
      (byteOf recvData ((remainLen - 1) - i % remainLen))) rdata

/-- The buffer that was sent as it is left behind, and the words pushed to the TX FIFO. -/
structure Sent where
  wdata : ℕ → Byte
  words : List (BitVec 32)

def spimWriteFifo (wdata : ℕ → Byte) (datalen : ℕ) : Sent :=
  let remainLen := datalen % 4
  let n := numWords datalen
  let wdata := spimDataBigLittleEndianChange wdata n
  let words := (List.range n).map (loadWord wdata)
  if remainLen ≠ 0 then
    ⟨wdata, words ++ [sendData wdata (n * 4) remainLen]⟩
  else
    ⟨wdata, words⟩

/-- `rx k` is the word the `k`-th read of the RX FIFO pops. What the last loop drains is dropped. -/
def spimReadFifo (rx : ℕ → BitVec 32) (rdata : ℕ → Byte) (datalen : ℕ) : ℕ → Byte :=
  let remainLen := datalen % 4
  let n := numWords datalen
  let rdata := (List.range n).foldl (fun rdata i => storeWord rdata i (rx i)) rdata
  let rdata := spimDataBigLittleEndianChange rdata n
  if remainLen ≠ 0 then
    takeRemainder rdata (n * 4) remainLen (rx n)
  else
    rdata

structure Exchanged extends Sent where
  rdata : ℕ → Byte

def spimWriteReadFifo (rx : ℕ → BitVec 32) (wdata rdata : ℕ → Byte) (datalen : ℕ) : Exchanged :=
  let remainLen := datalen % 4
  let n := numWords datalen
  let wdata := spimDataBigLittleEndianChange wdata n
  let done := (List.range n).foldl
    (fun (s : Exchanged) i =>
      { s with words := s.words ++ [loadWord s.wdata i], rdata := storeWord s.rdata i (rx i) })
    ⟨⟨wdata, []⟩, rdata⟩
  if remainLen ≠ 0 then
    { done with
      words := done.words ++ [sendData done.wdata (n * 4) remainLen]
      rdata := takeRemainder done.rdata (n * 4) remainLen (rx n) }
  else
    done

theorem numWords_eq {datalen : ℕ} (h : datalen < 2 ^ 13) : numWords datalen = datalen / 4 := by
  have hbits : datalen * 8 % 2 ^ 32 = datalen * 8 := by omega
  rw [numWords, hbits, Nat.shiftRight_eq_div_pow, SPILEN_NUM_MASK,
    show (0x7FF : ℕ) = 2 ^ 11 - 1 from rfl, Nat.and_two_pow_sub_one_eq_mod]
  omega

theorem swapWord_apply (data : ℕ → Byte) (i a : ℕ) :
    swapWord data i a = if a / 4 = i then data (mirror 4 a) else data a := by
  obtain ⟨k, j, hj, rfl⟩ := exists_block (show 0 < 4 by omega) a
  rw [mirror_block k hj]
  have hk : (4 * k + j) / 4 = k := by omega
  simp only [swapWord, hk, Function.update_apply]
  split_ifs <;> first | rfl | omega | exact congrArg data (by omega)

theorem spimDataBigLittleEndianChange_eq (data : ℕ → Byte) (n : ℕ) :
    spimDataBigLittleEndianChange data n = reverseBlocks 4 n data := by
  induction n with
  | zero => exact (reverseBlocks_zero data).symm
  | succ n ih =>
    have hstep : spimDataBigLittleEndianChange data (n + 1) =
        swapWord (spimDataBigLittleEndianChange data n) n := by
      simp only [spimDataBigLittleEndianChange, List.range_succ, List.foldl_append, List.foldl_cons,
        List.foldl_nil]
    funext a
    obtain ⟨k, j, hj, rfl⟩ := exists_block (show 0 < 4 by omega) a
    rw [hstep, ih, swapWord_apply, reverseBlocks_succ (by omega), mirror_block k hj]
    by_cases hk : (4 * k + j) / 4 = n
    · rw [if_pos hk, if_pos hk]
      exact reverseBlocks_of_le data (by omega) (by omega)
    · rw [if_neg hk, if_neg hk]

theorem storeWord_apply (data : ℕ → Byte) (i : ℕ) (word : BitVec 32) (a : ℕ) :
    storeWord data i word a = if a / 4 = i then byteOf word (a % 4) else data a := by
  obtain ⟨k, j, hj, rfl⟩ := exists_block (show 0 < 4 by omega) a
  have hk : (4 * k + j) / 4 = k := by omega
  have hm : (4 * k + j) % 4 = j := by omega
  simp only [storeWord, List.range_succ, List.range_zero, List.nil_append, List.cons_append,
    List.foldl_cons, List.foldl_nil, Function.update_apply, hk, hm]
  split_ifs <;> first | rfl | omega | exact congrArg (byteOf word) (by omega)

/-- The whole words as they were read from the RX FIFO, in memory order. -/
def rawWords (rx : ℕ → BitVec 32) (rdata : ℕ → Byte) (n a : ℕ) : Byte :=
  if a / 4 < n then byteOf (rx (a / 4)) (a % 4) else rdata a

/-- The loop over the whole words stores them in their order. -/
theorem foldl_storeWord (rx : ℕ → BitVec 32) (rdata : ℕ → Byte) (n : ℕ) :
    (List.range n).foldl (fun rdata i => storeWord rdata i (rx i)) rdata = rawWords rx rdata n := by
  induction n with
  | zero => rfl
  | succ n ih =>
    funext a
    simp only [List.range_succ, List.foldl_append, List.foldl_cons, List.foldl_nil,
      storeWord_apply, ih, rawWords]
    split_ifs with h1 h2 h3 <;> first | rfl | omega | rw [h1]

theorem takeRemainder_apply (rdata : ℕ → Byte) (start remainLen : ℕ) (recvData : BitVec 32)
    (a : ℕ) :
    takeRemainder rdata start remainLen recvData a =
      if start ≤ a ∧ a < start + remainLen then
        byteOf recvData ((remainLen - 1) - (a - start) % remainLen)
      else rdata a := by
  suffices h : ∀ n, (List.range n).foldl
      (fun rdata i => Function.update rdata (start + i)
        (byteOf recvData ((remainLen - 1) - i % remainLen))) rdata a =
      if start ≤ a ∧ a < start + n then
        byteOf recvData ((remainLen - 1) - (a - start) % remainLen)
      else rdata a from h remainLen
  intro n
  induction n with
  | zero =>
    rw [if_neg (by omega)]
    rfl
  | succ n ih =>
    simp only [List.range_succ, List.foldl_append, List.foldl_cons, List.foldl_nil,
      Function.update_apply, ih]
    by_cases ha : a = start + n
    · rw [if_pos ha, if_pos (by omega), ha, Nat.add_sub_cancel_left]
    · rw [if_neg ha]
      split_ifs <;> first | rfl | omega

/-- The loop over the whole words of an exchange does what the two loops of a transfer in one
direction do. -/
private theorem exchange_loop (rx : ℕ → BitVec 32) (wdata rdata : ℕ → Byte) (n : ℕ) :
    (List.range n).foldl
      (fun (s : Exchanged) i =>
        { s with words := s.words ++ [loadWord s.wdata i], rdata := storeWord s.rdata i (rx i) })
      ⟨⟨wdata, []⟩, rdata⟩ =
      ⟨⟨wdata, (List.range n).map (loadWord wdata)⟩,
        (List.range n).foldl (fun rdata i => storeWord rdata i (rx i)) rdata⟩ := by
  induction n with
  | zero => rfl
  | succ n ih =>
    simp only [List.range_succ, List.foldl_append, ih, List.foldl_cons, List.foldl_nil,
      List.map_append, List.map_cons, List.map_nil]

theorem rawWords_palindromic_iff (rx : ℕ → BitVec 32) (rdata : ℕ → Byte) (n : ℕ) :
    Palindromic 4 n (rawWords rx rdata n) ↔ ∀ k < n, bswap32 (rx k) = rx k := by
  have hbyte : ∀ k < n, ∀ j < 4, rawWords rx rdata n (4 * k + j) = byteOf (rx k) j := by
    intro k hk j hj
    have hdiv : (4 * k + j) / 4 = k := by omega
    have hmod : (4 * k + j) % 4 = j := by omega
    rw [rawWords, hdiv, hmod, if_pos hk]
  refine forall₂_congr fun k hk => ?_
  rw [eq_comm, eq_iff_byteOf]
  refine forall₂_congr fun j hj => ?_
  rw [hbyte k hk j hj, hbyte k hk _ (by omega), byteOf_bswap32 _ hj]

section Lengths
variable {datalen : ℕ} (h : datalen < 2 ^ 13)
include h

theorem spimWriteFifo_wdata (wdata : ℕ → Byte) :
    (spimWriteFifo wdata datalen).wdata = reverseBlocks 4 (datalen / 4) wdata := by
  simp only [spimWriteFifo, numWords_eq h, spimDataBigLittleEndianChange_eq]
  split_ifs <;> rfl

theorem spimReadFifo_eq (rx : ℕ → BitVec 32) (rdata : ℕ → Byte) :
    spimReadFifo rx rdata datalen =
      takeRemainder (reverseBlocks 4 (datalen / 4) (rawWords rx rdata (datalen / 4)))
        (datalen / 4 * 4) (datalen % 4) (rx (datalen / 4)) := by
  simp only [spimReadFifo, numWords_eq h, spimDataBigLittleEndianChange_eq, foldl_storeWord]
  by_cases hrem : datalen % 4 ≠ 0
  · rw [if_pos hrem]
  · rw [if_neg hrem, not_not.mp hrem]
    rfl

theorem spimWriteReadFifo_rdata (rx : ℕ → BitVec 32) (wdata rdata : ℕ → Byte) :
    (spimWriteReadFifo rx wdata rdata datalen).rdata =
      takeRemainder (rawWords rx rdata (datalen / 4))
        (datalen / 4 * 4) (datalen % 4) (rx (datalen / 4)) := by
  simp only [spimWriteReadFifo, numWords_eq h, exchange_loop, foldl_storeWord]
  by_cases hrem : datalen % 4 ≠ 0
  · rw [if_pos hrem]
  · rw [if_neg hrem, not_not.mp hrem]
    rfl

end Lengths

/-- The bytes of a FIFO word as they leave on the wire. -/
def msbFirst (word : BitVec 32) : List Byte :=
  [byteOf word 3, byteOf word 2, byteOf word 1, byteOf word 0]

theorem msbFirst_loadWord (wdata : ℕ → Byte) {n k : ℕ} (hk : k < n) :
    msbFirst (loadWord (reverseBlocks 4 n wdata) k) =
      (List.range 4).map fun j => wdata (4 * k + j) := by
  have hbyte : ∀ j < 4, byteOf (loadWord (reverseBlocks 4 n wdata) k) (3 - j) =
      wdata (4 * k + j) := by
    intro j hj
    rw [loadWord, byteOf_wordOf _ (by omega), reverseBlocks_of_lt wdata hk (by omega)]
    exact congrArg wdata (by omega)
  simp only [msbFirst, List.range_succ, List.range_zero, List.nil_append, List.cons_append,
    List.map_cons, List.map_nil]
  rw [← hbyte 0 (by omega), ← hbyte 1 (by omega), ← hbyte 2 (by omega), ← hbyte 3 (by omega)]

theorem msbFirst_sendData (wdata : ℕ → Byte) (start : ℕ) {r : ℕ} (hr : r < 4) :
    (msbFirst (sendData wdata start r)).take r = (List.range r).map fun j => wdata (start + j) := by
  have hbyte : ∀ j < 4, byteOf (sendData wdata start r) j =
      (List.range r).foldl (fun (data8 : ℕ → Byte) i =>
        Function.update data8 (3 - i % 4) (wdata (start + i))) (fun _ => 0) j := by
    intro j hj
    exact byteOf_wordOf _ hj
  simp only [msbFirst, hbyte 0 (by omega), hbyte 1 (by omega), hbyte 2 (by omega),
    hbyte 3 (by omega)]
  interval_cases r <;> simp [List.range_succ, Function.update]

theorem sendData_congr {f g : ℕ → Byte} {start r : ℕ}
    (h : ∀ i < r, f (start + i) = g (start + i)) : sendData f start r = sendData g start r := by
  refine congrArg wordOf (List.foldl_ext _ _ _ fun data8 i hi => ?_)
  rw [h i (List.mem_range.mp hi)]

/-- On the wire the bytes of the buffer appear in their order: the exchange within whole words
and the reversed places of the remainder both undo the order of the FIFO. -/
theorem spimWriteFifo_wire (wdata : ℕ → Byte) {datalen : ℕ} (h : datalen < 2 ^ 13) :
    ((spimWriteFifo wdata datalen).words.flatMap msbFirst).take datalen =
      (List.range datalen).map wdata := by
  have hwhole : ((List.range (datalen / 4)).map
      (loadWord (reverseBlocks 4 (datalen / 4) wdata))).flatMap msbFirst =
      (List.range (4 * (datalen / 4))).map wdata := by
    rw [← flatMap_range_blocks, List.flatMap_map]
    refine List.flatMap_congr fun k hk => ?_
    exact msbFirst_loadWord wdata (List.mem_range.mp hk)
  have hsplit : datalen = 4 * (datalen / 4) + datalen % 4 := (Nat.div_add_mod datalen 4).symm
  simp only [spimWriteFifo, numWords_eq h, spimDataBigLittleEndianChange_eq]
  by_cases hrem : datalen % 4 ≠ 0
  · have hback : sendData (reverseBlocks 4 (datalen / 4) wdata) (datalen / 4 * 4) (datalen % 4) =
        sendData wdata (4 * (datalen / 4)) (datalen % 4) := by
      rw [Nat.mul_comm (datalen / 4) 4]
      refine sendData_congr fun i hi => ?_
      exact reverseBlocks_of_le wdata le_rfl (by omega)
    have hrest : datalen - 4 * (datalen / 4) = datalen % 4 := by omega
    rw [if_pos hrem, List.flatMap_append, hwhole, hback, List.take_append, List.length_map,
      List.length_range, List.take_of_length_le (by simp; omega), List.flatMap_cons,
      List.flatMap_nil, List.append_nil, hrest, msbFirst_sendData wdata _ (Nat.mod_lt _ (by omega))]
    conv_rhs => rw [hsplit, List.range_add, List.map_append, List.map_map]
    rfl
  · rw [if_neg hrem, hwhole]
    have hexact : 4 * (datalen / 4) = datalen := by omega
    rw [hexact]
    exact List.take_of_length_le (by simp)

/-- What is sent does not depend on whether something is received at the same time. -/
theorem spimWriteReadFifo_toSent (rx : ℕ → BitVec 32) (wdata rdata : ℕ → Byte) (datalen : ℕ) :
    (spimWriteReadFifo rx wdata rdata datalen).toSent = spimWriteFifo wdata datalen := by
  simp only [spimWriteReadFifo, spimWriteFifo, exchange_loop]
  split_ifs <;> rfl

/-- The two directions at once agree with each direction on its own exactly for the RX words that
read the same in both byte orders: the exchange leaves whole words as the FIFO delivers them. -/
theorem spimWriteReadFifo_agrees_iff (rx : ℕ → BitVec 32) (wdata rdata : ℕ → Byte) {datalen : ℕ}
    (hpos : 1 ≤ datalen) (hmax : datalen ≤ 8188) :
    ((spimWriteReadFifo rx wdata rdata datalen).words = (spimWriteFifo wdata datalen).words ∧
      (spimWriteReadFifo rx wdata rdata datalen).rdata = spimReadFifo rx rdata datalen) ↔
      ∀ k < datalen / 4, bswap32 (rx k) = rx k := by
  have hlen : datalen < 2 ^ 13 := by omega
  rw [← rawWords_palindromic_iff rx rdata, ← reverseBlocks_eq_self_iff (by omega),
    spimWriteReadFifo_toSent, spimWriteReadFifo_rdata hlen, spimReadFifo_eq hlen]
  constructor
  · rintro ⟨-, heq⟩
    funext a
    by_cases ha : a < datalen / 4 * 4
    · have hat := congrFun heq a
      rw [takeRemainder_apply, takeRemainder_apply, if_neg (by omega), if_neg (by omega)] at hat
      exact hat.symm
    · exact if_neg (by omega)
  · intro heq
    exact ⟨rfl, by rw [heq]⟩

/-- A word that reads the same in both orders and one byte more. -/
theorem exchange_of_mirrored_word :
    (spimWriteReadFifo (fun _ => 0x01020201#32) (fun _ => 7) (fun _ => 0) 5).words =
        (spimWriteFifo (fun _ => 7) 5).words ∧
      (spimWriteReadFifo (fun _ => 0x01020201#32) (fun _ => 7) (fun _ => 0) 5).rdata =
        spimReadFifo (fun _ => 0x01020201#32) (fun _ => 0) 5 :=
  (spimWriteReadFifo_agrees_iff _ _ _ (by decide) (by decide)).mpr (by decide)

/-- One word received in an exchange ends up with its bytes the other way round. -/
theorem exchange_reverses_received_word :
    ¬(spimWriteReadFifo (fun _ => 0x01020304#32) (fun _ => 7) (fun _ => 0) 4).rdata =
      spimReadFifo (fun _ => 0x01020304#32) (fun _ => 0) 4 := by
  intro h
  have hfirst := congrFun h 0
  revert hfirst
  decide

end WiotaDev.SpimFifo
