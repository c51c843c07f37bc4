import WiotaDev.WordBytes

/-! # The packet codec (`uc_coding.c`)

`app_data_coding` and `app_data_decoding` over byte lists. The decoder does not compare its
offset with the length of the string before it reads, so it reads a `Buffer`. The n-th
allocation of a call succeeds when `alloc n` holds. -/

namespace WiotaDev.PacketCoding
open WordBytes

def APP_MAX_CODING_DATA_LEN : ℕ := 512
def APP_MAX_DECODING_DATA_LEN : ℕ := 1024

/-- `app_ps_property_t`, from bit 0 up. -/
structure PsProperty where
  reserved : Bool
  compressFlag : Bool
  segmentFlag : Bool
  responseFlag : Bool
  isNeedRes : Bool
  isPacketNum : Bool
  isDestAddr : Bool
  isSrcAddr : Bool
  deriving DecidableEq, Repr

namespace PsProperty

def toByte (p : PsProperty) : Byte :=
  BitVec.ofBool p.isSrcAddr ++ BitVec.ofBool p.isDestAddr ++ BitVec.ofBool p.isPacketNum ++
    BitVec.ofBool p.isNeedRes ++ BitVec.ofBool p.responseFlag ++ BitVec.ofBool p.segmentFlag ++
    BitVec.ofBool p.compressFlag ++ BitVec.ofBool p.reserved

def ofByte (b : Byte) : PsProperty where
  reserved := b.getLsbD 0
  compressFlag := b.getLsbD 1
  segmentFlag := b.getLsbD 2
  responseFlag := b.getLsbD 3
  isNeedRes := b.getLsbD 4
  isPacketNum := b.getLsbD 5
  isDestAddr := b.getLsbD 6
  isSrcAddr := b.getLsbD 7

@[simp] theorem ofByte_toByte (p : PsProperty) : ofByte p.toByte = p := by
  obtain ⟨a, b, c, d, e, f, g, h⟩ := p
  simp only [ofByte, toByte, BitVec.getLsbD_append]
  simp

@[simp] theorem toByte_ofByte (b : Byte) : (ofByte b).toByte = b := by
  apply BitVec.eq_of_getLsbD_eq
  intro i hi
  simp only [toByte, ofByte, BitVec.getLsbD_append]
  interval_cases i <;> simp

end PsProperty

/-- `app_ps_header_t`, with the fields of `addr` and `segment_info`. -/
structure PsHeader where
  property : PsProperty
  srcAddr : BitVec 32
  destAddr : BitVec 32
  packetNum : Byte
  totalNum : BitVec 15
  isEnd : Bool
  currentNum : BitVec 16
  cmdType : Byte
  deriving DecidableEq, Repr

/-- `app_ps_header_t ps_header = {0}`. -/
def PsHeader.zero : PsHeader := ⟨.ofByte 0, 0, 0, 0, 0, false, 0, 0⟩

/-- The length of the header that a property byte announces. -/
def PsProperty.headerLen (p : PsProperty) : ℕ :=
  1 + 4 * p.isSrcAddr.toNat + 4 * p.isDestAddr.toNat + p.isPacketNum.toNat +
    4 * p.segmentFlag.toNat + 1

/-- `fastlz.h`: `compress` is `none` where the function returns -1, and `decompress`, given the
room for its output, is empty where it returns 0. -/
structure FastLz where
  compress : List Byte → Option (List Byte)
  decompress : List Byte → ℕ → List Byte

/-- How `app_data_coding` fails: it returns a code, or `fastlz_compress` writes behind
`comp_data`. -/
inductive CodingFault where
  | returns (rc : ℤ)
  | overrun
  deriving DecidableEq, Repr

/-- What `app_data_coding` leaves behind when it returns 0: it may write to `ps_header`. -/
structure Coded where
  psHeader : PsHeader
  outputData : List Byte
  deriving DecidableEq, Repr

/-- The bytes of a field that is only sent with its flag. -/
def emitIf (flag : Bool) (field : List Byte) : List Byte := if flag then field else []

/-- `segment_info` as it stands in a packet, `is_end` in the top bit of the first half-word. -/
def segmentBytes (totalNum : BitVec 15) (isEnd : Bool) (currentNum : BitVec 16) : List Byte :=
  halfBytesOf (BitVec.ofBool isEnd ++ totalNum) ++ halfBytesOf currentNum

/-- The header bytes written to `buf`. The buffer is zeroed and only `total_num` of the shared
half-word is assigned, so `is_end` is sent as 0. -/
def headerBytes (h : PsHeader) : List Byte :=
  [h.property.toByte] ++ emitIf h.property.isSrcAddr (bytesOf h.srcAddr) ++
    emitIf h.property.isDestAddr (bytesOf h.destAddr) ++
    emitIf h.property.isPacketNum [h.packetNum] ++
    emitIf h.property.segmentFlag (segmentBytes h.totalNum false h.currentNum) ++ [h.cmdType]

/-- `ps_header->property.compress_flag = 0`. -/
def PsHeader.clearCompress (h : PsHeader) : PsHeader :=
  { h with property := { h.property with compressFlag := false } }

/-- The branch "compress data is bigger". -/
def codeUncompressed (psHeader : PsHeader) (buf inputData : List Byte) : Coded :=
  let psHeader := psHeader.clearCompress
  ⟨psHeader, buf.set 0 psHeader.property.toByte ++ inputData⟩

/-- `app_data_coding`. -/
def appDataCoding (lz : FastLz) (alloc : ℕ → Bool) (psHeader : PsHeader)
    (inputData : List Byte) : Except CodingFault Coded :=
  if !alloc 0 then .error (.returns (-2))
  else
    let buf := headerBytes psHeader
    if inputData = [] then .ok ⟨psHeader, buf⟩
    else if psHeader.property.compressFlag then
      if !alloc 1 then .error (.returns (-3))
      else match lz.compress inputData with
        | none => .ok (codeUncompressed psHeader buf inputData)
        | some compData =>
          if APP_MAX_CODING_DATA_LEN < compData.length then .error .overrun
          else if compData.length < inputData.length then .ok ⟨psHeader, buf ++ compData⟩
          else .ok (codeUncompressed psHeader buf inputData)
    else .ok ⟨psHeader, buf ++ inputData⟩

/-- What `app_data_decoding` leaves behind when it returns 0. `outputData` is `none` where
`*output_data` is not assigned. -/
structure Decoded where
  psHeader : PsHeader
  outputData : Option (List Byte)
  deriving DecidableEq, Repr

/-- A header being filled, and `offset`. -/
abbrev Parse := PsHeader × ℕ

/-- The parse of a field that is only read with its flag. -/
def readIf (flag : Bool) (size : ℕ) (read : ℕ → PsHeader) (p : Parse) : Parse :=
  if flag then (read p.2, p.2 + size) else p

def parseProperty (inputData : Buffer) (h : PsHeader) : Parse :=
  ({ h with property := .ofByte (inputData.byte 0) }, 1)

def parseSrcAddr (inputData : Buffer) (p : Parse) : Parse :=
  readIf p.1.property.isSrcAddr 4 (fun i => { p.1 with srcAddr := inputData.word i }) p

def parseDestAddr (inputData : Buffer) (p : Parse) : Parse :=
  readIf p.1.property.isDestAddr 4 (fun i => { p.1 with destAddr := inputData.word i }) p

def parsePacketNum (inputData : Buffer) (p : Parse) : Parse :=
  readIf p.1.property.isPacketNum 1 (fun i => { p.1 with packetNum := inputData.byte i }) p

/-- `is_end` shares a half-word with `total_num` and is not assigned. -/
def parseSegmentInfo (inputData : Buffer) (p : Parse) : Parse :=
  readIf p.1.property.segmentFlag 4 (fun i =>
    { p.1 with
      totalNum := (inputData.half i).setWidth 15
      currentNum := inputData.half (i + 2) }) p

def parseCmdType (inputData : Buffer) (p : Parse) : Parse :=
  ({ p.1 with cmdType := inputData.byte p.2 }, p.2 + 1)

def parseHeader (inputData : Buffer) (h : PsHeader) : Parse :=
  parseCmdType inputData (parseSegmentInfo inputData (parsePacketNum inputData
    (parseDestAddr inputData (parseSrcAddr inputData (parseProperty inputData h)))))

/-- `app_data_decoding`. -/
def appDataDecoding (lz : FastLz) (alloc : ℕ → Bool) (inputData : Buffer) (psHeader : PsHeader) :
    Except ℤ Decoded :=
  let inputDataLen := inputData.bytes.length
  if inputDataLen = 0 ∨ APP_MAX_DECODING_DATA_LEN < inputDataLen then .error (-1)
  else
    let (psHeader, offset) := parseHeader inputData psHeader
    if offset < inputDataLen then
      if !alloc 0 then .error (-2)
      else
        let buf := inputData.bytes.drop offset
        if psHeader.property.compressFlag then
          if !alloc 1 then .error (-3)
          else .ok ⟨psHeader, some (lz.decompress buf APP_MAX_DECODING_DATA_LEN)⟩
        else .ok ⟨psHeader, some buf⟩
    else .ok ⟨psHeader, none⟩

end WiotaDev.PacketCoding
