import WiotaDev.HeapBlocks
import WiotaDev.PacketRoundTrip
import WiotaDev.SimplifiedConfig
import Mathlib.Data.List.GetD

/-! # Payloads of the simplified AT module

A node sends a payload behind one header byte, compressed where that makes it shorter, and prints the
payload of what it receives. -/

namespace WiotaDev.SimplifiedPayload
open HeapBlocks WordBytes
open PacketCoding (FastLz)
open SimplifiedConfig (AtResult)

def UC_DATA_LENGTH_LIMIT : ℕ := 310
def GATEWAY_SEND_MAX_LEN : ℕ := 300
def CRC16_LEN : ℕ := 2
def COMPRESS_BUFFER_FACTOR : ℕ := 2
def DECOMPRESS_MAX_LEN : ℕ := 1024

/-- `sizeof(app_header_t)`. -/
def sizeofAppHeader : ℕ := 1

def sendMaxLen (gwMode : Bool) : ℕ :=
  if gwMode then GATEWAY_SEND_MAX_LEN else UC_DATA_LENGTH_LIMIT - sizeofAppHeader

/-- `is_compress` is the lowest bit of the header. -/
def isCompress (header : Byte) : Bool := header.getLsbD 0

def setIsCompress (flag : Bool) (header : Byte) : Byte :=
  if flag then header ||| 1 else header &&& ~~~1

/-- What `AT+SEND` meets: the modes, whether the n-th allocation succeeds, what the memory holds before
it is written, the bytes that arrive in time, and the result of the stack. -/
structure SendEnv where
  isGatewayMode : Bool
  connected : Bool
  otaUpgrade : Bool
  alloc : ℕ → Bool
  fresh : ℕ → Byte
  input : List Byte
  sendResult : Bool

inductive Sent where
  | wiota (packet : List Byte)
  | gateway (data : List Byte)
  deriving DecidableEq

structure SendRun where
  result : AtResult
  heap : Heap Byte
  sent : Option Sent

/-- What arrives in time is stored, up to the length that is asked for. -/
def atWiotaRecvPayload (input : List Byte) (h : Heap Byte) (payload offset payloadLen : ℕ) :
    Bool × Heap Byte :=
  (payloadLen ≤ input.length, h.write payload offset (input.take payloadLen))

/-- The compression into `compData` and what follows it. The two lengths are compared as unsigned
numbers. -/
def packData (lz : FastLz) (h : Heap Byte) (compData recvBuf headerLen dataLen : ℕ) :
    ℤ × Heap Byte × ℕ :=
  let output := lz.compress (((h.block recvBuf).drop headerLen).take dataLen)
  let h := h.write compData 0 (output.getD [])
  let compressedLen : ℤ := output.elim (-1) fun y => y.length
  let header := (h.block recvBuf).headD 0
  if compressedLen % 2 ^ 32 < dataLen then
    let h := h.write recvBuf 0 [setIsCompress true header]
    let h := h.write recvBuf headerLen ((h.block compData).take compressedLen.toNat)
    (0, h.free compData, headerLen + compressedLen.toNat)
  else
    let h := h.write recvBuf 0 [setIsCompress false header]
    (0, h.free compData, headerLen + dataLen)

/-- `data_buf` is `recvBuf` from `headerLen` on, and `header` is its first byte. -/
def atWiotaCompressAndPack (lz : FastLz) (alloc : Bool) (fresh : ℕ → Byte) (h : Heap Byte)
    (recvBuf headerLen dataLen : ℕ) : ℤ × Heap Byte × ℕ :=
  if alloc = false then
    (-2, h, 0)
  else
    let compDataLen := dataLen * COMPRESS_BUFFER_FACTOR
    packData lz (h.zeroed compDataLen fresh 0) (h.malloc compDataLen fresh).1 recvBuf headerLen
      dataLen

/-- The branch of a gateway, which sends the payload as it is. -/
def sendAsGateway (env : SendEnv) (recvLen : ℕ) : SendRun :=
  if env.otaUpgrade then
    ⟨.faile, .empty, none⟩
  else if env.alloc 0 = false then
    ⟨.faile, .empty, none⟩
  else
    let (recvBuf, h) := Heap.empty.malloc (recvLen + CRC16_LEN) env.fresh
    let (arrived, h) := atWiotaRecvPayload env.input h recvBuf 0 recvLen
    if arrived = false then
      ⟨.faile, h.free recvBuf, none⟩
    else
      ⟨if env.sendResult then .ok else .faile, h.free recvBuf,
        some (.gateway ((h.block recvBuf).take recvLen))⟩

/-- The branch of a node. -/
def sendAsNode (lz : FastLz) (env : SendEnv) (recvLen : ℕ) : SendRun :=
  let headerLen := sizeofAppHeader
  let payloadLen := recvLen
  let mallocLen := headerLen + payloadLen + CRC16_LEN
  if env.alloc 0 = false then
    ⟨.faile, .empty, none⟩
  else
    let recvBuf := (Heap.empty.malloc mallocLen env.fresh).1
    let h := Heap.empty.zeroed mallocLen env.fresh 0
    let (arrived, h) := atWiotaRecvPayload env.input h recvBuf headerLen payloadLen
    if arrived = false then
      ⟨.faile, h.free recvBuf, none⟩
    else
      let h := h.write recvBuf 0 [setIsCompress false ((h.block recvBuf).headD 0)]
      let (rc, h, dataLen) :=
        atWiotaCompressAndPack lz (env.alloc 1) env.fresh h recvBuf headerLen payloadLen
      if rc ≠ 0 then
        ⟨.faile, h.free recvBuf, none⟩
      else
        ⟨if env.sendResult then .ok else .faile, h.free recvBuf,
          some (.wiota ((h.block recvBuf).take dataLen))⟩

/-- `at_wiota_send_setup`, on the number that `parse` finds. -/
def atWiotaSendSetup (lz : FastLz) (env : SendEnv) (recvLen : Option ℕ) : SendRun :=
  match recvLen with
  | none => ⟨.parseFaile, .empty, none⟩
  | some recvLen =>
    if recvLen < 1 ∨ recvLen > sendMaxLen env.isGatewayMode then
      ⟨.faile, .empty, none⟩
    else if env.connected = false then
      ⟨.faile, .empty, none⟩
    else if env.isGatewayMode then
      sendAsGateway env recvLen
    else
      sendAsNode lz env recvLen

/-- `UC_RECV_MSG`, `UC_RECV_BC`, `UC_RECV_OTA`, `UC_RECV_SYNC_LOST` and the other types. -/
inductive RecvType where
  | msg | bc | ota | syncLost | other
  deriving DecidableEq

/-- The types that carry a payload. -/
def RecvType.IsData (type : RecvType) : Prop := type = .msg ∨ type = .bc ∨ type = .ota

instance (type : RecvType) : Decidable type.IsData := inferInstanceAs (Decidable (_ ∨ _))

/-- A line `+RECV:<type>,-<rssi>,<len>,` and the bytes behind it. -/
structure Printed where
  type : RecvType
  rssi : ℕ
  dataLen : ℕ
  data : List Byte
  deriving DecidableEq

/-- What the receiver meets. -/
structure RecvEnv where
  alloc : Bool
  fresh : ℕ → Byte
  rssi : ℕ

/-- `syncLost` tells that the loss of the synchronisation is reported and a connection asked for. -/
structure RecvRun where
  heap : Heap Byte
  printed : List Printed
  syncLost : Bool

/-- The length is an `unsigned short`. -/
def atWiotaDataPrintf (rssi : ℕ) (type : RecvType) (data : List Byte) (dataLen : ℕ) : Printed :=
  ⟨type, rssi, dataLen % 2 ^ 16, data.take (dataLen % 2 ^ 16)⟩

/-- `wiota_recv_callback` on a message; `data->data` is a block with the bytes of `packet`, or null. -/
def wiotaRecvCallback (lz : FastLz) (env : RecvEnv) (type : RecvType) (packet : Option (List Byte)) :
    RecvRun :=
  match packet with
  | none => ⟨.empty, [], decide (type = .syncLost)⟩
  | some packet =>
    let (data, h) := Heap.empty.malloc packet.length (packet.getD · 0)
    if ¬ type.IsData then
      ⟨h, [], decide (type = .syncLost)⟩
    else if packet.length < sizeofAppHeader then
      ⟨h, [], false⟩
    else
      let dataLen := packet.length - sizeofAppHeader
      let recvData := (h.block data).drop sizeofAppHeader
      if isCompress ((h.block data).headD 0) then
        if env.alloc = false then
          ⟨h.free data, [], false⟩
        else
          let decompressData := (h.malloc DECOMPRESS_MAX_LEN env.fresh).1
          let h := h.zeroed DECOMPRESS_MAX_LEN env.fresh 0
          let output := lz.decompress (recvData.take dataLen) DECOMPRESS_MAX_LEN
          let h := h.write decompressData 0 output
          if output.length > 0 then
            ⟨(h.free decompressData).free data,
              [atWiotaDataPrintf env.rssi type (h.block decompressData) output.length], false⟩
          else
            ⟨(h.free data).free decompressData, [], false⟩
      else
        ⟨h.free data, [atWiotaDataPrintf env.rssi type recvData dataLen], false⟩

/-- What is relied on of `fastlz_compress` and `fastlz_decompress` for the payloads of a node. -/
structure Inverts (lz : FastLz) : Prop where
  fits : ∀ x y, 1 ≤ x.length → x.length ≤ UC_DATA_LENGTH_LIMIT - 1 → lz.compress x = some y →
    y.length ≤ 2 * x.length
  undone : ∀ x y, 1 ≤ x.length → x.length ≤ UC_DATA_LENGTH_LIMIT - 1 → lz.compress x = some y →
    lz.decompress y DECOMPRESS_MAX_LEN = x

@[simp] theorem isCompress_setIsCompress (flag : Bool) (header : Byte) :
    isCompress (setIsCompress flag header) = flag := by
  cases flag with
  | true | false => simp [isCompress, setIsCompress]

/-- The packet is the payload behind its header, or a shorter compressed form of it. -/
def Packed (lz : FastLz) (header : Byte) (payload packet : List Byte) : Prop :=
  (∃ y, lz.compress payload = some y ∧ y.length < payload.length ∧
    packet = setIsCompress true header :: y) ∨
    packet = setIsCompress false header :: payload

theorem Packed.length_le {lz : FastLz} {header : Byte} {payload packet : List Byte}
    (h : Packed lz header payload packet) : packet.length ≤ payload.length + 1 := by
  rcases h with ⟨y, -, hlt, rfl⟩ | rfl
  · rw [List.length_cons]
    omega
  · rw [List.length_cons]

/-- The length of the compressed form is found smaller than that of the payload as an unsigned number:
the failure of `fastlz_compress` counts as a large one. -/
theorem compressedLen_lt_iff (output : Option (List Byte)) {dataLen : ℕ} (hlen : dataLen < 2 ^ 31)
    (hfits : ∀ y ∈ output, y.length < 2 ^ 32) :
    (output.elim (-1) fun y => (y.length : ℤ)) % 2 ^ 32 < (dataLen : ℤ) ↔
      ∃ y, output = some y ∧ y.length < dataLen := by
  cases output with
  | none =>
    simp only [Option.elim_none, reduceCtorEq, false_and, exists_false, iff_false, not_lt]
    omega
  | some y =>
    have hy := hfits y rfl
    simp only [Option.elim_some, Option.some.injEq, exists_eq_left']
    omega

section Pack
variable {lz : FastLz} {h : Heap Byte} {ps : List ℕ} {compData recvBuf : ℕ} {header : Byte}
  {payload tail : List Byte}

/-- Setting the header changes nothing behind it. -/
theorem overwrite_header (header other : Byte) (rest : List Byte) :
    overwrite (header :: rest) 0 [other] = other :: rest :=
  overwrite_middle [] [header] rest [other] rfl

theorem packData_spec (hlz : Inverts lz) (hs : h.Sound (compData :: ps)) (hp : recvBuf ∈ ps)
    (hblock : h.block recvBuf = header :: (payload ++ tail))
    (hcomp : (h.block compData).length = 2 * payload.length) (hmin : 1 ≤ payload.length)
    (hmax : payload.length ≤ UC_DATA_LENGTH_LIMIT - 1) :
    (packData lz h compData recvBuf 1 payload.length).1 = 0 ∧
      (packData lz h compData recvBuf 1 payload.length).2.1.Sound ps ∧
      Packed lz header payload
        (((packData lz h compData recvBuf 1 payload.length).2.1.block recvBuf).take
          (packData lz h compData recvBuf 1 payload.length).2.2) := by
  have hlimit : payload.length ≤ 309 := hmax
  have hne : recvBuf ≠ compData := by
    rintro rfl
    exact (List.nodup_cons.mp hs.owns.nodup).1 hp
  have hmem : recvBuf ∈ compData :: ps := List.mem_cons_of_mem compData hp
  have hdata : ((h.block recvBuf).drop 1).take payload.length = payload := by
    rw [hblock, List.drop_one, List.tail_cons, List.take_left]
  have hfits : ∀ y ∈ lz.compress payload, y.length ≤ 2 * payload.length :=
    fun y hy => hlz.fits payload y hmin hmax hy
  have houtput : ((lz.compress payload).getD []).length ≤ (h.block compData).length := by
    rw [hcomp]
    cases hcompress : lz.compress payload with
    | none => exact Nat.zero_le _
    | some y => exact hfits y hcompress
  have hs₁ := hs.write List.mem_cons_self 0 ((lz.compress payload).getD []) (by omega)
  have hrecv₁ := Heap.block_write_of_ne (h := h) hne 0 ((lz.compress payload).getD [])
  have hcomp₁ : ((h.write compData 0 ((lz.compress payload).getD [])).block compData).take
      ((lz.compress payload).getD []).length = (lz.compress payload).getD [] := by
    have htake := take_overwrite (show 0 + ((lz.compress payload).getD []).length ≤
      (h.block compData).length by omega)
    rwa [Nat.zero_add, List.take_zero, List.nil_append, ← Heap.block_write] at htake
  rw [hblock] at hrecv₁
  rw [packData, hdata]
  dsimp only
  generalize h.write compData 0 ((lz.compress payload).getD []) = h₁ at hs₁ hrecv₁ hcomp₁ ⊢
  have hs₂ : ∀ flag, (h₁.write recvBuf 0 [setIsCompress flag header]).Sound (compData :: ps) := by
    intro flag
    apply hs₁.write hmem
    rw [hrecv₁]
    simp
  have hrecv₂ : ∀ flag, (h₁.write recvBuf 0 [setIsCompress flag header]).block recvBuf =
      setIsCompress flag header :: (payload ++ tail) := by
    intro flag
    rw [Heap.block_write, hrecv₁, overwrite_header]
  rw [hrecv₁, List.headD_cons]
  by_cases hshort : ((lz.compress payload).elim (-1) fun y => (y.length : ℤ)) % 2 ^ 32 <
      (payload.length : ℤ)
  · rw [if_pos hshort]
    obtain ⟨y, hy, hlt⟩ := (compressedLen_lt_iff _ (by omega) (fun y hy => by
      have hle := hfits y hy
      omega)).mp hshort
    rw [hy, Option.getD_some] at hcomp₁
    have hread : ((h₁.write recvBuf 0 [setIsCompress true header]).block compData).take y.length =
        y := by rw [Heap.block_write_of_ne hne.symm, hcomp₁]
    simp only [hy, Option.elim_some, Int.toNat_natCast, hread]
    refine ⟨trivial, ?_, Or.inl ⟨y, hy, hlt, ?_⟩⟩
    · apply Heap.Sound.free
      apply (hs₂ true).write hmem
      rw [hrecv₂, List.length_cons, List.length_append]
      omega
    · rw [Heap.block_free, Heap.block_write, hrecv₂]
      apply take_overwrite
      rw [List.length_cons, List.length_append]
      omega
  · rw [if_neg hshort]
    refine ⟨rfl, (hs₂ false).free, Or.inr ?_⟩
    rw [Heap.block_free, hrecv₂, Nat.add_comm, List.take_succ_cons, List.take_left]

/-- The payload is packed where it stands. -/
theorem compressAndPack_spec (hlz : Inverts lz) (hs : h.Sound ps) (hp : recvBuf ∈ ps)
    (hblock : h.block recvBuf = header :: (payload ++ tail)) (hmin : 1 ≤ payload.length)
    (hmax : payload.length ≤ UC_DATA_LENGTH_LIMIT - 1) (fresh : ℕ → Byte) :
    (atWiotaCompressAndPack lz true fresh h recvBuf 1 payload.length).1 = 0 ∧
      (atWiotaCompressAndPack lz true fresh h recvBuf 1 payload.length).2.1.Sound ps ∧
      Packed lz header payload
        (((atWiotaCompressAndPack lz true fresh h recvBuf 1 payload.length).2.1.block recvBuf).take
          (atWiotaCompressAndPack lz true fresh h recvBuf 1 payload.length).2.2) := by
  rw [atWiotaCompressAndPack, if_neg (by decide)]
  apply packData_spec hlz (hs.zeroed _ fresh 0) hp
  · rw [hs.block_zeroed_of_mem hp, hblock]
  · rw [Heap.block_zeroed, List.length_replicate, COMPRESS_BUFFER_FACTOR, Nat.mul_comm]
  · exact hmin
  · exact hmax

end Pack

section Send
variable {lz : FastLz} {env : SendEnv} {payload : List Byte}

/-- A node's buffer once the payload has arrived: a header of zero, the payload, and room for the
checksum. -/
theorem recvPayload_block {rest : List Byte} (hinput : env.input = payload ++ rest) :
    ((Heap.empty.zeroed (sizeofAppHeader + payload.length + CRC16_LEN) env.fresh 0).write
        (Heap.empty.malloc (sizeofAppHeader + payload.length + CRC16_LEN) env.fresh).1 sizeofAppHeader
        (env.input.take payload.length)).block
        (Heap.empty.malloc (sizeofAppHeader + payload.length + CRC16_LEN) env.fresh).1 =
      0 :: (payload ++ [0, 0]) := by
  have hsplit : List.replicate (sizeofAppHeader + payload.length + CRC16_LEN) (0 : Byte) =
      [0] ++ List.replicate payload.length 0 ++ [0, 0] := by
    have hone : [(0 : Byte)] = List.replicate 1 0 := rfl
    have htwo : [(0 : Byte), 0] = List.replicate 2 0 := rfl
    rw [htwo, hone, List.replicate_append_replicate, List.replicate_append_replicate]
    rfl
  rw [Heap.block_write, Heap.block_zeroed, hinput, List.take_left, hsplit]
  exact overwrite_middle [0] _ [0, 0] payload List.length_replicate.symm

/-- Whatever happens, the node's heap is left as it was found. -/
theorem sendAsNode_sound (hlz : Inverts lz) {recvLen : ℕ} (hmin : 1 ≤ recvLen)
    (hmax : recvLen ≤ UC_DATA_LENGTH_LIMIT - 1) (env : SendEnv) :
    (sendAsNode lz env recvLen).heap.Sound [] ∧
      ∀ packet, (sendAsNode lz env recvLen).sent = some (.wiota packet) →
        Packed lz (setIsCompress false 0) (env.input.take recvLen) packet := by
  have hnone : ∀ result (h : Heap Byte), h.Sound [] →
      (⟨result, h, none⟩ : SendRun).heap.Sound [] ∧ ∀ packet,
        (⟨result, h, none⟩ : SendRun).sent = some (.wiota packet) →
          Packed lz (setIsCompress false 0) (env.input.take recvLen) packet :=
    fun _ _ hs => ⟨hs, fun _ h => absurd h (by simp)⟩
  rw [sendAsNode]
  by_cases halloc : env.alloc 0 = false
  · rw [if_pos halloc]
    exact hnone _ _ Heap.empty_sound
  rw [if_neg halloc]
  dsimp only [atWiotaRecvPayload]
  have hs₁ := Heap.empty_sound.zeroed (sizeofAppHeader + recvLen + CRC16_LEN) env.fresh (0 : Byte)
  have hs₂ := hs₁.write List.mem_cons_self sizeofAppHeader (env.input.take recvLen) (by
    rw [Heap.block_zeroed, List.length_replicate, List.length_take]
    omega)
  by_cases harrived : recvLen ≤ env.input.length
  · have hlen : (env.input.take recvLen).length = recvLen := by
      rw [List.length_take]
      omega
    have hblock₂ := recvPayload_block (List.take_append_drop recvLen env.input).symm
    rw [hlen] at hblock₂
    generalize (Heap.empty.malloc (sizeofAppHeader + recvLen + CRC16_LEN) env.fresh).1 = recvBuf
      at hs₂ hblock₂ ⊢
    generalize (Heap.empty.zeroed (sizeofAppHeader + recvLen + CRC16_LEN) env.fresh 0).write recvBuf
      sizeofAppHeader (env.input.take recvLen) = h₂ at hs₂ hblock₂ ⊢
    have hs₃ := hs₂.write List.mem_cons_self 0 [setIsCompress false 0] (by
      rw [hblock₂]
      simp)
    have hblock₃ : (h₂.write recvBuf 0 [setIsCompress false 0]).block recvBuf =
        setIsCompress false 0 :: (env.input.take recvLen ++ [0, 0]) := by
      rw [Heap.block_write, hblock₂, overwrite_header]
    rw [if_neg (by simpa using harrived), hblock₂, List.headD_cons]
    cases halloc' : env.alloc 1 with
    | false =>
      have hrc : atWiotaCompressAndPack lz false env.fresh
          (h₂.write recvBuf 0 [setIsCompress false 0]) recvBuf sizeofAppHeader recvLen =
            (-2, h₂.write recvBuf 0 [setIsCompress false 0], 0) := if_pos rfl
      rw [hrc]
      exact hnone _ _ hs₃.free
    | true =>
      obtain ⟨hrc, hs₄, hpacked⟩ := compressAndPack_spec hlz hs₃ List.mem_cons_self hblock₃
        (by rwa [hlen]) (by rwa [hlen]) env.fresh
      rw [hlen] at hrc hs₄ hpacked
      have hsize : sizeofAppHeader = 1 := rfl
      rw [hsize, if_neg (not_not.mpr hrc)]
      refine ⟨hs₄.free, fun packet hpacket => ?_⟩
      obtain rfl := Sent.wiota.inj (Option.some.inj hpacket)
      exact hpacked
  · rw [if_pos (by simpa using harrived)]
    exact hnone _ _ hs₂.free

/-- With memory, and a payload that arrives, a packet is sent. -/
theorem sendAsNode_sends {recvLen : ℕ} (harrived : recvLen ≤ env.input.length)
    (halloc : env.alloc 0 = true) (halloc' : env.alloc 1 = true) :
    ∃ packet, (sendAsNode lz env recvLen).sent = some (.wiota packet) := by
  have hrc : ∀ h recvBuf, (atWiotaCompressAndPack lz true env.fresh h recvBuf sizeofAppHeader
      recvLen).1 = 0 := by
    intro h recvBuf
    rw [atWiotaCompressAndPack, if_neg (by decide), packData]
    dsimp only
    split <;> rfl
  rw [sendAsNode, if_neg (by rw [halloc]; decide)]
  dsimp only [atWiotaRecvPayload]
  rw [if_neg (by simpa using harrived), halloc', if_neg (not_not.mpr (hrc _ _))]
  exact ⟨_, rfl⟩

end Send

section Receive
variable {lz : FastLz} {header : Byte} {payload packet : List Byte} {type : RecvType}

theorem atWiotaDataPrintf_eq (rssi : ℕ) (type : RecvType) {data : List Byte} (rest : List Byte)
    (h : data.length < 2 ^ 16) :
    atWiotaDataPrintf rssi type (data ++ rest) data.length = ⟨type, rssi, data.length, data⟩ := by
  rw [atWiotaDataPrintf, Nat.mod_eq_of_lt h, List.take_left]

theorem block_packet (packet : List Byte) :
    ((Heap.empty (α := Byte)).malloc packet.length (packet.getD · 0)).2.block
      ((Heap.empty (α := Byte)).malloc packet.length (packet.getD · 0)).1 = packet := by
  rw [Heap.block_malloc]
  apply List.ext_getElem
  · rw [List.length_map, List.length_range]
  · intro k hk hk'
    rw [List.getElem_map, List.getElem_range, List.getD_eq_getElem _ _ hk']

/-- The receiver prints the payload, if it has the memory that it needs for it, and in any case frees
what it has taken and the packet. -/
theorem recvCallback_spec (hlz : Inverts lz) (hmin : 1 ≤ payload.length)
    (hmax : payload.length ≤ UC_DATA_LENGTH_LIMIT - 1) (hpacked : Packed lz header payload packet)
    (htype : type.IsData) (env : RecvEnv) :
    (wiotaRecvCallback lz env type (some packet)).heap.Sound [] ∧
      (wiotaRecvCallback lz env type (some packet)).printed =
        if isCompress (packet.headD 0) = true ∧ env.alloc = false then []
        else [⟨type, env.rssi, payload.length, payload⟩] := by
  have hlimit : payload.length ≤ 309 := hmax
  have hs := Heap.empty_sound.malloc packet.length (packet.getD · (0 : Byte))
  have hblock := block_packet packet
  rw [wiotaRecvCallback]
  dsimp only
  rw [if_neg (not_not.mpr htype)]
  generalize (Heap.empty (α := Byte)).malloc packet.length (packet.getD · 0) = made at *
  obtain ⟨data, h⟩ := made
  dsimp only at hs hblock ⊢
  rw [hblock]
  rcases hpacked with ⟨y, hy, -, rfl⟩ | rfl
  · have hlen : ¬ (setIsCompress true header :: y).length < sizeofAppHeader := by
      rw [List.length_cons, sizeofAppHeader]
      omega
    have hread : ((setIsCompress true header :: y).drop sizeofAppHeader).take
        ((setIsCompress true header :: y).length - sizeofAppHeader) = y :=
      List.take_of_length_le (by simp [sizeofAppHeader])
    rw [if_neg hlen, hread, List.headD_cons, isCompress_setIsCompress, if_pos rfl,
      hlz.undone payload y hmin hmax hy]
    cases halloc : env.alloc with
    | false =>
      rw [if_pos rfl, if_pos ⟨rfl, rfl⟩]
      exact ⟨hs.free, rfl⟩
    | true =>
      have hs₁ := hs.zeroed DECOMPRESS_MAX_LEN env.fresh 0
      have hzeros := h.block_zeroed DECOMPRESS_MAX_LEN env.fresh 0
      have hfits : 0 + payload.length ≤ ((h.zeroed DECOMPRESS_MAX_LEN env.fresh 0).block
          (h.malloc DECOMPRESS_MAX_LEN env.fresh).1).length := by
        rw [hzeros, List.length_replicate, DECOMPRESS_MAX_LEN]
        omega
      have hs₂ := hs₁.write List.mem_cons_self 0 payload hfits
      have hwritten : ((h.zeroed DECOMPRESS_MAX_LEN env.fresh 0).write
          (h.malloc DECOMPRESS_MAX_LEN env.fresh).1 0 payload).block
            (h.malloc DECOMPRESS_MAX_LEN env.fresh).1 =
          payload ++ (List.replicate DECOMPRESS_MAX_LEN 0).drop (0 + payload.length) := by
        rw [Heap.block_write, overwrite_eq hfits, hzeros, List.take_zero, List.nil_append]
      have hpos : payload.length > 0 := hmin
      rw [if_neg (by decide), if_pos hpos, if_neg fun hand => absurd hand.2 (by decide), hwritten,
        atWiotaDataPrintf_eq env.rssi type _ (by omega)]
      exact ⟨hs₂.free.free, rfl⟩
  · have hlen : ¬ (setIsCompress false header :: payload).length < sizeofAppHeader := by
      rw [List.length_cons, sizeofAppHeader]
      omega
    have hprint := atWiotaDataPrintf_eq env.rssi type []
      (show payload.length < 2 ^ 16 by omega)
    rw [List.append_nil] at hprint
    rw [if_neg hlen, List.headD_cons, isCompress_setIsCompress, if_neg (by decide),
      if_neg fun hand => absurd hand.1 (by decide)]
    exact ⟨hs.free, congrArg (fun line => [line]) hprint⟩

end Receive

theorem sendAsGateway_sound (env : SendEnv) (recvLen : ℕ) :
    (sendAsGateway env recvLen).heap.Sound [] ∧
      ∀ packet, (sendAsGateway env recvLen).sent ≠ some (.wiota packet) := by
  rw [sendAsGateway]
  by_cases hota : env.otaUpgrade = true
  · rw [if_pos hota]
    exact ⟨Heap.empty_sound, fun _ => by simp⟩
  by_cases halloc : env.alloc 0 = false
  · rw [if_neg hota, if_pos halloc]
    exact ⟨Heap.empty_sound, fun _ => by simp⟩
  rw [if_neg hota, if_neg halloc]
  dsimp only [atWiotaRecvPayload]
  have hs := (Heap.empty_sound.malloc (recvLen + CRC16_LEN) env.fresh).write List.mem_cons_self 0
    (env.input.take recvLen) (by
      rw [Heap.block_malloc, List.length_map, List.length_range, List.length_take]
      omega)
  by_cases harrived : decide (recvLen ≤ env.input.length) = false
  · rw [if_pos harrived]
    exact ⟨hs.free, fun _ => by simp⟩
  · rw [if_neg harrived]
    exact ⟨hs.free, fun _ => by simp⟩

/-- The packets of a run are at most one byte longer than the payload, their receiver prints the
payload, if it has the memory that it needs for it, and both ends leave their heaps as they found them,
without a write outside a block. -/
structure RoundTrips (lz : FastLz) (payload : List Byte) (run : SendRun) : Prop where
  sound : run.heap.Sound []
  length_le : ∀ packet, run.sent = some (.wiota packet) → packet.length ≤ payload.length + 1
  received : ∀ packet, run.sent = some (.wiota packet) → ∀ (env : RecvEnv) (type : RecvType),
    type.IsData →
      (wiotaRecvCallback lz env type (some packet)).heap.Sound [] ∧
      (wiotaRecvCallback lz env type (some packet)).printed =
        if isCompress (packet.headD 0) = true ∧ env.alloc = false then []
        else [⟨type, env.rssi, payload.length, payload⟩]

/-- A connected node with memory, to which the payload arrives, sends it in a packet that gives the
payload back. -/
theorem payload_roundTrips {lz : FastLz} (hlz : Inverts lz) (env : SendEnv)
    (payload rest : List Byte) (hmin : 1 ≤ payload.length)
    (hmax : payload.length ≤ UC_DATA_LENGTH_LIMIT - 1) :
    RoundTrips lz payload
        (atWiotaSendSetup lz { env with input := payload ++ rest } (some payload.length)) ∧
      (env.isGatewayMode = false → env.connected = true → env.alloc 0 = true → env.alloc 1 = true →
        ∃ packet, (atWiotaSendSetup lz { env with input := payload ++ rest }
          (some payload.length)).sent = some (.wiota packet)) := by
  have htake : (payload ++ rest).take payload.length = payload := List.take_left
  have hrefused : ∀ result, RoundTrips lz payload ⟨result, .empty, none⟩ := fun result =>
    ⟨Heap.empty_sound, fun _ h => absurd h (by simp), fun _ h => absurd h (by simp)⟩
  have hnode : RoundTrips lz payload
      (sendAsNode lz { env with input := payload ++ rest } payload.length) := by
    obtain ⟨hs, hpacked⟩ := sendAsNode_sound hlz hmin hmax { env with input := payload ++ rest }
    dsimp only at hpacked
    rw [htake] at hpacked
    exact ⟨hs, fun packet h => (hpacked packet h).length_le, fun packet h recvEnv type htype =>
      recvCallback_spec hlz hmin hmax (hpacked packet h) htype recvEnv⟩
  have hgateway : RoundTrips lz payload
      (sendAsGateway { env with input := payload ++ rest } payload.length) := by
    obtain ⟨hs, hnone⟩ := sendAsGateway_sound { env with input := payload ++ rest } payload.length
    exact ⟨hs, fun packet h => absurd h (hnone packet), fun packet h => absurd h (hnone packet)⟩
  rw [atWiotaSendSetup]
  dsimp only
  constructor
  · split
    · exact hrefused _
    · split
      · exact hrefused _
      · split
        · exact hgateway
        · exact hnode
  · intro hmode hconnected halloc halloc'
    have hrange : ¬ (payload.length < 1 ∨ payload.length > sendMaxLen env.isGatewayMode) := by
      rw [hmode]
      rintro (hlt | hgt)
      · omega
      · exact absurd hmax (not_le.mpr hgt)
    rw [if_neg hrange, hconnected, if_neg (by decide), hmode, if_neg (by decide)]
    apply sendAsNode_sends
    · rw [List.length_append]
      exact Nat.le_add_right _ _
    · exact halloc
    · exact halloc'

theorem literal_inverts : Inverts FastLz.literal where
  fits := by
    intro x y hmin _ hy
    obtain rfl := Option.some.inj hy
    have hlen := PacketCoding.literalRuns_length x.length x
    omega
  undone := by
    intro x y _ hmax hy
    obtain rfl := Option.some.inj hy
    have hlimit : x.length ≤ 309 := hmax
    have hruns := PacketCoding.readRuns_literalRuns x.length x le_rfl _ le_rfl
    have hroom : ¬ DECOMPRESS_MAX_LEN < x.length := by
      rw [DECOMPRESS_MAX_LEN]
      omega
    simp only [FastLz.literal, hruns, if_neg hroom]

/-- A connected node with memory. -/
def readyNode : SendEnv := ⟨false, true, false, fun _ => true, fun _ => 0, [], true⟩

/-- What `fastlz_compress` makes of 32 letters `a`. -/
def letterRun : List Byte := [0x01, 0x61, 0x61, 0xE0, 0x12, 0x01, 0x02, 0x61, 0x61, 0x61]

/-- As `FastLz.literal`, but with the run of 32 letters compressed. -/
def letterLz : FastLz where
  compress x := if x = List.replicate 32 0x61 then some letterRun else FastLz.literal.compress x
  decompress y maxout :=
    if y = letterRun then List.replicate 32 0x61 else FastLz.literal.decompress y maxout

/-- No literal form is that of the run. -/
theorem literalRuns_ne_letterRun (x : List Byte) : PacketCoding.literalRuns x.length x ≠ letterRun := by
  intro h
  have hread := PacketCoding.readRuns_literalRuns x.length x le_rfl letterRun.length (h ▸ le_rfl)
  rw [h] at hread
  rw [← hread] at h
  exact absurd h (by decide)

theorem letters_inverts : Inverts letterLz := by
  have hcases : ∀ x y, letterLz.compress x = some y →
      x = List.replicate 32 0x61 ∧ y = letterRun ∨ FastLz.literal.compress x = some y ∧ y ≠ letterRun := by
    intro x y hy
    by_cases hx : x = List.replicate 32 0x61
    · exact Or.inl ⟨hx, (Option.some.inj ((if_pos hx).symm.trans hy)).symm⟩
    · have hliteral : FastLz.literal.compress x = some y := (if_neg hx).symm.trans hy
      refine Or.inr ⟨hliteral, ?_⟩
      rw [← Option.some.inj hliteral]
      exact literalRuns_ne_letterRun x
  constructor
  · intro x y hmin hmax hy
    rcases hcases x y hy with ⟨rfl, rfl⟩ | ⟨hliteral, -⟩
    · decide
    · exact literal_inverts.fits x y hmin hmax hliteral
  · intro x y hmin hmax hy
    rcases hcases x y hy with ⟨rfl, rfl⟩ | ⟨hliteral, hne⟩
    · simp only [letterLz, if_true]
    · exact (if_neg hne).trans (literal_inverts.undone x y hmin hmax hliteral)

/-- A payload that is sent in its compressed form. -/
theorem letters_roundTrip :
    (atWiotaSendSetup letterLz { readyNode with input := List.replicate 32 0x61 ++ [] }
        (some 32)).sent = some (.wiota (0x01 :: letterRun)) ∧
      RoundTrips letterLz (List.replicate 32 0x61) (atWiotaSendSetup letterLz
        { readyNode with input := List.replicate 32 0x61 ++ [] } (some 32)) ∧
      (readyNode.isGatewayMode = false → readyNode.connected = true → readyNode.alloc 0 = true →
        readyNode.alloc 1 = true → ∃ packet, (atWiotaSendSetup letterLz
          { readyNode with input := List.replicate 32 0x61 ++ [] } (some 32)).sent =
            some (.wiota packet)) :=
  ⟨by decide,
    payload_roundTrips letters_inverts readyNode (List.replicate 32 0x61) [] (by decide) (by decide)⟩

/-- Where there is no memory for the decompression the payload is not printed. -/
theorem not_printed_without_memory : ¬ ∀ (lz : FastLz), Inverts lz → ∀ (env : SendEnv)
    (payload rest packet : List Byte), 1 ≤ payload.length →
      payload.length ≤ UC_DATA_LENGTH_LIMIT - 1 →
      (atWiotaSendSetup lz { env with input := payload ++ rest } (some payload.length)).sent =
        some (.wiota packet) →
      ∀ (env : RecvEnv) (type : RecvType), type.IsData →
        (wiotaRecvCallback lz env type (some packet)).printed =
          [⟨type, env.rssi, payload.length, payload⟩] := by
  intro h
  have hprinted := h letterLz letters_inverts readyNode (List.replicate 32 0x61) []
    (0x01 :: letterRun) (by decide) (by decide) (by decide) ⟨false, fun _ => 0, 0⟩ .msg (Or.inl rfl)
  exact absurd hprinted (by decide)

end WiotaDev.SimplifiedPayload
