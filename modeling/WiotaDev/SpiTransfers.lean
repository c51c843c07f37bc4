import WiotaDev.RangePieces
import WiotaDev.SpimFifo

/-! # The SPI bus driver: a message sent and received in transactions of bounded length -/

namespace WiotaDev.SpiTransfers
open WordBytes BlockReversal RangePieces SpimFifo

def SPIM_CMD_RD : ℕ := 0
def SPIM_CMD_WR : ℕ := 1

def SPILEN_CLR_MASK : BitVec 32 := 0x003F
def SPILEN_ALR_MASK : BitVec 32 := 0x3F00
def SPILEN_RLR_MASK : BitVec 32 := 0xFF000000
def SPILEN_TLR_MASK : BitVec 32 := 0x00FF0000

def RT_SPI_CS_HIGH : BitVec 8 := 1 <<< 4
def RT_SPI_NO_CS : BitVec 8 := 1 <<< 5

inductive GpioValue | low | high deriving DecidableEq

/-- The value `spim_setup_cmd_addr` gives to `SPILEN`. -/
def spimSetupCmdAddr (cmdlen addrlen : ℕ) : BitVec 32 :=
  (BitVec.ofNat 32 (cmdlen * 8) &&& SPILEN_CLR_MASK) |||
    ((BitVec.ofNat 32 (addrlen * 8) <<< 8) &&& SPILEN_ALR_MASK)

def spimSetDatalen (spilen : BitVec 32) (datalen : ℕ) : BitVec 32 :=
  ((BitVec.ofNat 32 (datalen * 8) <<< 16) &&& (SPILEN_RLR_MASK ||| SPILEN_TLR_MASK)) |||
    (spilen &&& (SPILEN_CLR_MASK ||| SPILEN_ALR_MASK))

/-- One transaction of the controller: the command, `SPILEN` and the words pushed to the TX FIFO. -/
structure Transaction where
  cmd : ℕ
  spilen : BitVec 32
  words : List (BitVec 32)

/-- What the controller shifts out: as many bits as `SPILEN` asks for. -/
def Transaction.wire (t : Transaction) : List Byte :=
  (t.words.flatMap msbFirst).take ((t.spilen >>> 16).toNat / 8)

def transaction (cmd datalen : ℕ) (words : List (BitVec 32)) : Transaction :=
  ⟨cmd, spimSetDatalen (spimSetupCmdAddr 0 0) datalen, words⟩

def spimTransmitSend (data : ℕ → Byte) (datalen : ℕ) : Transaction × (ℕ → Byte) :=
  let sent := spimWriteFifo data datalen
  (transaction SPIM_CMD_WR datalen sent.words, sent.wdata)

def spimTransmitRecv (rx : ℕ → BitVec 32) (data : ℕ → Byte) (datalen : ℕ) :
    Transaction × (ℕ → Byte) :=
  (transaction SPIM_CMD_RD datalen [], spimReadFifo rx data datalen)

def spimTransmitSendRecv (rx : ℕ → BitVec 32) (wdata rdata : ℕ → Byte) (datalen : ℕ) :
    Transaction × (ℕ → Byte) × (ℕ → Byte) :=
  let done := spimWriteReadFifo rx wdata rdata datalen
  (transaction SPIM_CMD_WR datalen done.words, done.wdata, done.rdata)

/-- The buffers of a message are told apart; a null pointer is `none`. -/
structure SpiMessage where
  sendBuf : Option (ℕ → Byte)
  recvBuf : Option (ℕ → Byte)
  length : ℕ
  csTake : Bool
  csRelease : Bool

/-- What a pointer into the buffer sees. -/
def seenFrom (buf : ℕ → Byte) (p i : ℕ) : Byte := buf (p + i)

/-- The buffer after a callee changed what it saw from `p` on. -/
def putBack (buf : ℕ → Byte) (p : ℕ) (seen : ℕ → Byte) (a : ℕ) : Byte :=
  if a < p then buf a else seen (a - p)

structure Piece extends Transaction where
  start : ℕ
  length : ℕ

structure Progress where
  sendBuf : Option (ℕ → Byte)
  recvBuf : Option (ℕ → Byte)
  pieces : List Piece

/-- `/* start once data exchange */` -/
def exchangeOnce (rx : ℕ → ℕ → BitVec 32) (already sendLength : ℕ) (s : Progress) : Progress :=
  let rx := rx s.pieces.length
  match s.sendBuf, s.recvBuf with
  | some sendBuf, some recvBuf =>
    let (t, wdata, rdata) := spimTransmitSendRecv rx (seenFrom sendBuf already)
      (seenFrom recvBuf already) sendLength
    ⟨some (putBack sendBuf already wdata), some (putBack recvBuf already rdata),
      s.pieces ++ [⟨t, already, sendLength⟩]⟩
  | some sendBuf, none =>
    let (t, wdata) := spimTransmitSend (seenFrom sendBuf already) sendLength
    ⟨some (putBack sendBuf already wdata), none, s.pieces ++ [⟨t, already, sendLength⟩]⟩
  | none, some recvBuf =>
    let (t, rdata) := spimTransmitRecv rx (seenFrom recvBuf already) sendLength
    ⟨none, some (putBack recvBuf already rdata), s.pieces ++ [⟨t, already, sendLength⟩]⟩
  | none, none =>
    ⟨none, none, s.pieces ++ [⟨transaction SPIM_CMD_RD sendLength [], already, sendLength⟩]⟩

/-- `send_length`, which is 16-bit, and what is left of `message_length`. -/
def nextLength (messageLength : ℕ) : ℕ × ℕ :=
  if messageLength > 8188 then (8188, messageLength - 8188) else (messageLength % 2 ^ 16, 0)

theorem nextLength_lt {messageLength : ℕ} (h : messageLength ≠ 0) :
    (nextLength messageLength).2 < messageLength := by
  rw [nextLength]
  split_ifs
  · exact Nat.sub_lt (by omega) (by omega)
  · exact Nat.pos_of_ne_zero h

/-- The `while` loop; `rx n` are the words the RX FIFO yields during transaction `n`. -/
def xferLoop (rx : ℕ → ℕ → BitVec 32) (length messageLength : ℕ) (s : Progress) : Progress :=
  if messageLength = 0 then
    s
  else
    let sendLength := (nextLength messageLength).1
    let rest := (nextLength messageLength).2
    xferLoop rx length rest (exchangeOnce rx (length - sendLength - rest) sendLength s)
termination_by messageLength
decreasing_by exact nextLength_lt ‹_›

/-- The level of the chip select pin that selects the device. -/
def csActive (mode : BitVec 8) : GpioValue := if mode &&& RT_SPI_CS_HIGH ≠ 0 then .high else .low

def csIdle (mode : BitVec 8) : GpioValue := if mode &&& RT_SPI_CS_HIGH ≠ 0 then .low else .high

structure XferResult where
  message : SpiMessage
  pieces : List Piece
  csBefore : Option GpioValue
  csAfter : Option GpioValue
  returned : ℕ

def ux8x88SpiXfer (mode : BitVec 8) (rx : ℕ → ℕ → BitVec 32) (message : SpiMessage) : XferResult :=
  let s := xferLoop rx message.length message.length ⟨message.sendBuf, message.recvBuf, []⟩
  { message := { message with sendBuf := s.sendBuf, recvBuf := s.recvBuf }
    pieces := s.pieces
    csBefore := if message.csTake ∧ mode &&& RT_SPI_NO_CS = 0 then some (csActive mode) else none
    csAfter := if message.csRelease ∧ mode &&& RT_SPI_NO_CS = 0 then some (csIdle mode) else none
    returned := message.length }

/-- The piece a transfer would send if the buffer were only read. -/
def readPiece (sendBuf : Option (ℕ → Byte)) (start length : ℕ) : Piece :=
  match sendBuf with
  | some buf => ⟨transaction SPIM_CMD_WR length
      (spimWriteFifo (seenFrom buf start) length).words, start, length⟩
  | none => ⟨transaction SPIM_CMD_RD length [], start, length⟩

/-- The pieces of a message from `start` on, each of them read from the same buffer. -/
def readPieces (sendBuf : Option (ℕ → Byte)) (start messageLength : ℕ) : List Piece :=
  if messageLength = 0 then
    []
  else
    let sendLength := (nextLength messageLength).1
    readPiece sendBuf start sendLength ::
      readPieces sendBuf (start + sendLength) (nextLength messageLength).2
termination_by messageLength
decreasing_by exact nextLength_lt ‹_›

theorem nextLength_spec {messageLength : ℕ} (h : messageLength ≠ 0) :
    1 ≤ (nextLength messageLength).1 ∧ (nextLength messageLength).1 ≤ 8188 ∧
      (nextLength messageLength).1 + (nextLength messageLength).2 = messageLength ∧
      ((nextLength messageLength).1 % 4 = 0 ∨ (nextLength messageLength).2 = 0) := by
  by_cases hlong : messageLength > 8188
  · have hnext : nextLength messageLength = (8188, messageLength - 8188) := if_pos hlong
    rw [hnext]
    exact ⟨by omega, le_rfl, by omega, .inl (show 8188 % 4 = 0 by decide)⟩
  · have hnext : nextLength messageLength = (messageLength, 0) := by
      rw [nextLength, if_neg hlong, Nat.mod_eq_of_lt (by omega)]
    rw [hnext]
    exact ⟨by omega, by omega, rfl, .inr rfl⟩

/-- The bytes behind the reversed words are still those of the message. -/
theorem seenFrom_reverseBlocks (buf : ℕ → Byte) (q : ℕ) :
    seenFrom (reverseBlocks 4 q buf) (4 * q) = seenFrom buf (4 * q) := by
  funext i
  obtain ⟨k, j, hj, rfl⟩ := exists_block (show 0 < 4 by omega) i
  have hpos : 4 * q + (4 * k + j) = 4 * (q + k) + j := by omega
  rw [seenFrom, seenFrom, hpos]
  exact reverseBlocks_of_le buf (by omega) hj

/-- Reversing words behind the reversed ones reverses them as words of the whole buffer. -/
theorem putBack_reverseBlocks (buf : ℕ → Byte) (q n : ℕ) :
    putBack (reverseBlocks 4 q buf) (4 * q) (reverseBlocks 4 n (seenFrom buf (4 * q))) =
      reverseBlocks 4 (q + n) buf := by
  funext a
  obtain ⟨k, j, hj, rfl⟩ := exists_block (show 0 < 4 by omega) a
  by_cases hk : k < q
  · rw [putBack, if_pos (by omega), reverseBlocks_of_lt buf hk hj,
      reverseBlocks_of_lt buf (by omega) hj]
  · have hpos : 4 * k + j - 4 * q = 4 * (k - q) + j := by omega
    rw [putBack, if_neg (by omega), hpos]
    by_cases hn : k < q + n
    · rw [reverseBlocks_of_lt _ (by omega) hj, reverseBlocks_of_lt buf hn hj, seenFrom]
      exact congrArg buf (by omega)
    · rw [reverseBlocks_of_le _ (by omega) hj, reverseBlocks_of_le buf (by omega) hj, seenFrom]
      exact congrArg buf (by omega)

/-- One transaction sends what the message held there at first, and reverses the whole words it
sends in the buffer. -/
theorem exchangeOnce_spec (rx : ℕ → ℕ → BitVec 32) (sendBuf : Option (ℕ → Byte)) (q : ℕ)
    {sendLength : ℕ} (hlen : sendLength < 2 ^ 13) {s : Progress}
    (hs : s.sendBuf = sendBuf.map (reverseBlocks 4 q)) :
    (exchangeOnce rx (4 * q) sendLength s).pieces =
        s.pieces ++ [readPiece sendBuf (4 * q) sendLength] ∧
      (exchangeOnce rx (4 * q) sendLength s).sendBuf =
        sendBuf.map (reverseBlocks 4 (q + sendLength / 4)) := by
  obtain ⟨send, recv, pieces⟩ := s
  obtain rfl : send = sendBuf.map (reverseBlocks 4 q) := hs
  cases sendBuf with
  | none => cases recv <;> exact ⟨rfl, rfl⟩
  | some buf =>
    have hback := putBack_reverseBlocks buf q (sendLength / 4)
    rw [← spimWriteFifo_wdata hlen] at hback
    cases recv with
    | none =>
      simp only [exchangeOnce, spimTransmitSend, Option.map_some, seenFrom_reverseBlocks, hback]
      exact ⟨rfl, trivial⟩
    | some rbuf =>
      simp only [exchangeOnce, spimTransmitSendRecv, Option.map_some, seenFrom_reverseBlocks,
        spimWriteReadFifo_toSent, hback]
      exact ⟨rfl, trivial⟩

/-- The loop sends the message as it was at first, although it changes the buffer on its way. -/
theorem xferLoop_spec (rx : ℕ → ℕ → BitVec 32) (sendBuf : Option (ℕ → Byte)) (q : ℕ)
    {length messageLength : ℕ} (hsum : 4 * q + messageLength = length) {s : Progress}
    (hs : s.sendBuf = sendBuf.map (reverseBlocks 4 q)) :
    (xferLoop rx length messageLength s).pieces =
        s.pieces ++ readPieces sendBuf (4 * q) messageLength ∧
      (xferLoop rx length messageLength s).sendBuf =
        sendBuf.map (reverseBlocks 4 (length / 4)) := by
  induction messageLength using Nat.strong_induction_on generalizing q s with
  | _ messageLength ih =>
    rw [xferLoop, readPieces]
    by_cases h : messageLength = 0
    · have hq : length / 4 = q := by omega
      rw [if_pos h, if_pos h, hq, List.append_nil]
      exact ⟨rfl, hs⟩
    · obtain ⟨hpos, hmax, hparts, hwhole⟩ := nextLength_spec h
      have halready : length - (nextLength messageLength).1 - (nextLength messageLength).2 =
          4 * q := by omega
      obtain ⟨hpieces, hsend⟩ := exchangeOnce_spec rx sendBuf q
        (show (nextLength messageLength).1 < 2 ^ 13 by omega) hs
      simp only [if_neg h, halready]
      rcases hwhole with hwhole | hlast
      · obtain ⟨n, hn⟩ : 4 ∣ (nextLength messageLength).1 := Nat.dvd_of_mod_eq_zero hwhole
        have hstart : 4 * q + (nextLength messageLength).1 = 4 * (q + n) := by omega
        have hdiv : (nextLength messageLength).1 / 4 = n := by omega
        rw [hdiv] at hsend
        obtain ⟨hrest, hbuf⟩ := ih _ (nextLength_lt h) (q + n) (by omega) hsend
        rw [hrest, hpieces, hstart, List.append_assoc]
        exact ⟨rfl, hbuf⟩
      · have hdone : q + (nextLength messageLength).1 / 4 = length / 4 := by omega
        rw [hlast, xferLoop, if_pos rfl, readPieces, if_pos rfl, hpieces, hsend, hdone]
        exact ⟨rfl, rfl⟩

/-- The pieces of a transfer and what it leaves in the buffer that was sent. -/
theorem ux8x88SpiXfer_spec (mode : BitVec 8) (rx : ℕ → ℕ → BitVec 32) (m : SpiMessage) :
    (ux8x88SpiXfer mode rx m).pieces = readPieces m.sendBuf 0 m.length ∧
      (ux8x88SpiXfer mode rx m).message.sendBuf =
        m.sendBuf.map (reverseBlocks 4 (m.length / 4)) := by
  have hstart : m.sendBuf = m.sendBuf.map (reverseBlocks 4 0) := by
    cases m.sendBuf with
    | none => rfl
    | some buf => rw [Option.map_some, reverseBlocks_zero]
  exact xferLoop_spec rx m.sendBuf 0 (by omega) hstart

/-- A second transfer of the message sends the same words and the first one leaves the buffer
alone exactly when every whole word of it is a palindrome of bytes. -/
theorem ux8x88SpiXfer_keeps_iff (mode : BitVec 8) (rx rx' : ℕ → ℕ → BitVec 32) (m : SpiMessage) :
    ((ux8x88SpiXfer mode rx m).message.sendBuf = m.sendBuf ∧
      (ux8x88SpiXfer mode rx' (ux8x88SpiXfer mode rx m).message).pieces.map (·.words) =
        (ux8x88SpiXfer mode rx m).pieces.map (·.words)) ↔
      ∀ buf, m.sendBuf = some buf → Palindromic 4 (m.length / 4) buf := by
  obtain ⟨hfirst, hleft⟩ := ux8x88SpiXfer_spec mode rx m
  obtain ⟨hsecond, -⟩ := ux8x88SpiXfer_spec mode rx' (ux8x88SpiXfer mode rx m).message
  have hkept : (ux8x88SpiXfer mode rx m).message.sendBuf = m.sendBuf ↔
      ∀ buf, m.sendBuf = some buf → Palindromic 4 (m.length / 4) buf := by
    rw [hleft]
    cases m.sendBuf with
    | none => simp
    | some buf => simp [reverseBlocks_eq_self_iff]
  refine ⟨fun h => hkept.mp h.1, fun h => ⟨hkept.mpr h, ?_⟩⟩
  rw [hsecond, hfirst, hkept.mpr h]
  rfl

/-- The four bytes 1, 2, 3, 4 are left as 4, 3, 2, 1. -/
theorem xfer_reverses_word :
    ¬(ux8x88SpiXfer 0 (fun _ _ => 0) ⟨some fun i => BitVec.ofNat 8 (i + 1), none, 4, true, true⟩
      ).message.sendBuf = some fun i => BitVec.ofNat 8 (i + 1) := by
  rw [(ux8x88SpiXfer_spec _ _ _).2, Option.map_some]
  intro h
  have hfirst := congrFun (Option.some.inj h) 0
  revert hfirst
  decide

/-- The bits asked for are those of the bytes of the piece. -/
theorem transaction_bits (cmd : ℕ) {datalen : ℕ} (h : datalen < 2 ^ 13)
    (words : List (BitVec 32)) :
    ((transaction cmd datalen words).spilen >>> 16).toNat / 8 = datalen := by
  have hempty : spimSetupCmdAddr 0 0 = 0#32 := by decide
  have hfield : (transaction cmd datalen words).spilen >>> 16 =
      BitVec.ofNat 32 (datalen * 8) &&& 0xFFFF#32 := by
    apply BitVec.eq_of_getLsbD_eq
    intro i hi
    simp only [transaction, spimSetDatalen, hempty, SPILEN_RLR_MASK, SPILEN_TLR_MASK,
      BitVec.getLsbD_ushiftRight, BitVec.getLsbD_or, BitVec.getLsbD_and,
      BitVec.getLsbD_shiftLeft]
    interval_cases i <;> simp
  have hmask : (0xFFFF#32).toNat = 2 ^ 16 - 1 := rfl
  rw [hfield, BitVec.toNat_and, hmask, Nat.and_two_pow_sub_one_eq_mod, BitVec.toNat_ofNat]
  omega

theorem readPiece_wire (buf : ℕ → Byte) (start : ℕ) {length : ℕ} (h : length < 2 ^ 13) :
    (readPiece (some buf) start length).wire =
      (List.range length).map fun i => buf (start + i) := by
  rw [Transaction.wire, readPiece, transaction_bits _ h]
  exact spimWriteFifo_wire (seenFrom buf start) h

theorem readPiece_words_length (buf : ℕ → Byte) (start : ℕ) {length : ℕ} (h : length < 2 ^ 13) :
    (readPiece (some buf) start length).words.length = (length + 3) / 4 := by
  simp only [readPiece, transaction, spimWriteFifo, numWords_eq h]
  split_ifs with hrem
  · simp only [List.length_append, List.length_map, List.length_range, List.length_singleton]
    omega
  · simp only [List.length_map, List.length_range]
    omega

/-- The pieces of a message lie end to end and carry its bytes in order. -/
theorem readPieces_spec (buf : ℕ → Byte) (start messageLength : ℕ) :
    Consecutive Piece.start Piece.length start (readPieces (some buf) start messageLength)
        (start + messageLength) ∧
      (readPieces (some buf) start messageLength).flatMap (·.wire) =
        (List.range messageLength).map (fun i => buf (start + i)) ∧
      ∀ p ∈ readPieces (some buf) start messageLength, (1 ≤ p.length ∧ p.length ≤ 8188) ∧
        p.words.length = (p.length + 3) / 4 := by
  induction messageLength using Nat.strong_induction_on generalizing start with
  | _ messageLength ih =>
    rw [readPieces]
    by_cases h : messageLength = 0
    · subst h
      exact ⟨rfl, rfl, by simp⟩
    · obtain ⟨hpos, hmax, hparts, -⟩ := nextLength_spec h
      have hlen : (nextLength messageLength).1 < 2 ^ 13 := by omega
      obtain ⟨hends, hbytes, hall⟩ := ih _ (nextLength_lt h) (start + (nextLength messageLength).1)
      simp only [if_neg h]
      refine ⟨⟨rfl, ?_⟩, ?_, ?_⟩
      · have hend : start + messageLength =
            start + (nextLength messageLength).1 + (nextLength messageLength).2 := by omega
        rw [hend]
        exact hends
      · rw [List.flatMap_cons, readPiece_wire buf start hlen, hbytes]
        conv_rhs => rw [← hparts, List.range_add, List.map_append, List.map_map]
        refine congrArg _ (List.map_congr_left fun i hi => ?_)
        rw [Function.comp_apply, Nat.add_assoc]
      · intro p hp
        rcases List.mem_cons.mp hp with rfl | hp
        · exact ⟨⟨hpos, hmax⟩, readPiece_words_length buf start hlen⟩
        · exact hall p hp

/-- A message is sent in pieces of 1 to 8188 bytes that cover it once and in order, none of them
with its word count cut off, and the bytes that leave on the wire are those of the buffer. -/
theorem ux8x88SpiXfer_sends (mode : BitVec 8) (rx : ℕ → ℕ → BitVec 32) (m : SpiMessage)
    (buf : ℕ → Byte) (hbuf : m.sendBuf = some buf) :
    (∀ p ∈ (ux8x88SpiXfer mode rx m).pieces, 1 ≤ p.length ∧ p.length ≤ 8188) ∧
      Consecutive Piece.start Piece.length 0 (ux8x88SpiXfer mode rx m).pieces m.length ∧
      (ux8x88SpiXfer mode rx m).pieces.flatMap (·.wire) = (List.range m.length).map buf ∧
      ∀ p ∈ (ux8x88SpiXfer mode rx m).pieces,
        numWords p.length = p.length / 4 ∧ p.words.length = (p.length + 3) / 4 := by
  obtain ⟨hends, hbytes, hall⟩ := readPieces_spec buf 0 m.length
  rw [(ux8x88SpiXfer_spec mode rx m).1, hbuf]
  refine ⟨fun p hp => (hall p hp).1, ?_, ?_, fun p hp => ?_⟩
  · rwa [Nat.zero_add] at hends
  · rw [hbytes]
    simp only [Nat.zero_add]
  · obtain ⟨⟨-, hmax⟩, hwords⟩ := hall p hp
    exact ⟨numWords_eq (by omega), hwords⟩

/-- Two full pieces, and one with a remainder of one byte. -/
theorem xfer_sends_three_pieces :
    ((ux8x88SpiXfer 0 (fun _ _ => 0) ⟨some (BitVec.ofNat 8), none, 20001, true, true⟩).pieces.map
        fun p => (p.start, p.length)) = [(0, 8188), (8188, 8188), (16376, 3625)] ∧
      (ux8x88SpiXfer 0 (fun _ _ => 0) ⟨some (BitVec.ofNat 8), none, 20001, true, true⟩).pieces.flatMap
        (·.wire) = (List.range 20001).map (BitVec.ofNat 8) := by
  refine ⟨?_, (ux8x88SpiXfer_sends 0 (fun _ _ => 0) ⟨some (BitVec.ofNat 8), none, 20001, true, true⟩
    (BitVec.ofNat 8) rfl).2.2.1⟩
  rw [(ux8x88SpiXfer_spec 0 _ _).1]
  simp [readPieces, nextLength, readPiece]

end WiotaDev.SpiTransfers
