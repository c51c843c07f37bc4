import WiotaDev.PacketCoding

/-! # Coding and decoding a packet

Both directions are compared with `wireHeader`, the header as the property byte announces it:
the coder emits it with `is_end` 0, the decoder keeps all of it but `is_end`, and every string
that holds the announced header begins with one. -/

namespace WiotaDev.PacketCoding
open WordBytes

/-- A header as it stands in a packet, `is_end` included. -/
def wireHeader (h : PsHeader) : List Byte :=
  [h.property.toByte] ++ emitIf h.property.isSrcAddr (bytesOf h.srcAddr) ++
    emitIf h.property.isDestAddr (bytesOf h.destAddr) ++
    emitIf h.property.isPacketNum [h.packetNum] ++
    emitIf h.property.segmentFlag (segmentBytes h.totalNum h.isEnd h.currentNum) ++ [h.cmdType]

theorem headerBytes_eq_wireHeader (h : PsHeader) :
    headerBytes h = wireHeader { h with isEnd := false } := rfl

theorem emitIf_length (flag : Bool) (field : List Byte) :
    (emitIf flag field).length = field.length * flag.toNat := by
  cases flag <;> simp [emitIf]

@[simp] theorem segmentBytes_length (totalNum : BitVec 15) (isEnd : Bool)
    (currentNum : BitVec 16) : (segmentBytes totalNum isEnd currentNum).length = 4 := rfl

theorem wireHeader_length (h : PsHeader) : (wireHeader h).length = h.property.headerLen := by
  simp only [wireHeader, List.length_append, emitIf_length, List.length_singleton,
    bytesOf_length, segmentBytes_length, PsProperty.headerLen]
  omega

theorem headerLen_le (p : PsProperty) : p.headerLen ≤ 15 := by
  have h (b : Bool) : b.toNat ≤ 1 := Bool.toNat_le b
  have h₁ := h p.isSrcAddr
  have h₂ := h p.isDestAddr
  have h₃ := h p.isPacketNum
  have h₄ := h p.segmentFlag
  rw [PsProperty.headerLen]
  omega

/-- A header `d` that has taken the fields a packet with header `h` carries, and has kept
the others. -/
def kept (h d : PsHeader) : PsHeader where
  property := h.property
  srcAddr := if h.property.isSrcAddr then h.srcAddr else d.srcAddr
  destAddr := if h.property.isDestAddr then h.destAddr else d.destAddr
  packetNum := if h.property.isPacketNum then h.packetNum else d.packetNum
  totalNum := if h.property.segmentFlag then h.totalNum else d.totalNum
  isEnd := d.isEnd
  currentNum := if h.property.segmentFlag then h.currentNum else d.currentNum
  cmdType := h.cmdType

/-- One optional field: the parse takes it where it was emitted and moves behind it. -/
private theorem readIf_emitIf {flag : Bool} {size : ℕ} {read : ℕ → PsHeader} {d d' : PsHeader}
    {pre field : List Byte} (hsize : field.length = size)
    (hread : flag = true → read pre.length = d') (hskip : flag = false → d = d') :
    readIf flag size read (d, pre.length) = (d', (pre ++ emitIf flag field).length) := by
  cases flag with
  | false => simp [readIf, emitIf, hskip rfl]
  | true =>
    rw [readIf, if_pos rfl, hread rfl, List.length_append, emitIf_length, hsize]
    simp

theorem setWidth_segment (isEnd : Bool) (totalNum : BitVec 15) :
    (BitVec.ofBool isEnd ++ totalNum : BitVec (1 + 15)).setWidth 15 = totalNum := by
  apply BitVec.eq_of_getLsbD_eq
  intro i hi
  simp only [BitVec.getLsbD_setWidth, BitVec.getLsbD_append, hi, decide_true, Bool.true_and,
    if_true]

section Fields
variable {b : Buffer} {d : PsHeader} {pre post : List Byte}

private theorem parseSrcAddr_eq (addr : BitVec 32)
    (hb : b.bytes = pre ++ emitIf d.property.isSrcAddr (bytesOf addr) ++ post) :
    parseSrcAddr b (d, pre.length) =
      ({ d with srcAddr := if d.property.isSrcAddr then addr else d.srcAddr },
        (pre ++ emitIf d.property.isSrcAddr (bytesOf addr)).length) := by
  apply readIf_emitIf (bytesOf_length _)
  · intro (hflag : d.property.isSrcAddr = true)
    rw [hflag, emitIf, if_pos rfl] at hb
    simp only [Buffer.word_of_append hb, hflag, if_true]
  · intro (hflag : d.property.isSrcAddr = false)
    simp [hflag]

private theorem parseDestAddr_eq (addr : BitVec 32)
    (hb : b.bytes = pre ++ emitIf d.property.isDestAddr (bytesOf addr) ++ post) :
    parseDestAddr b (d, pre.length) =
      ({ d with destAddr := if d.property.isDestAddr then addr else d.destAddr },
        (pre ++ emitIf d.property.isDestAddr (bytesOf addr)).length) := by
  apply readIf_emitIf (bytesOf_length _)
  · intro (hflag : d.property.isDestAddr = true)
    rw [hflag, emitIf, if_pos rfl] at hb
    simp only [Buffer.word_of_append hb, hflag, if_true]
  · intro (hflag : d.property.isDestAddr = false)
    simp [hflag]

private theorem parsePacketNum_eq (packetNum : Byte)
    (hb : b.bytes = pre ++ emitIf d.property.isPacketNum [packetNum] ++ post) :
    parsePacketNum b (d, pre.length) =
      ({ d with packetNum := if d.property.isPacketNum then packetNum else d.packetNum },
        (pre ++ emitIf d.property.isPacketNum [packetNum]).length) := by
  apply readIf_emitIf (List.length_singleton)
  · intro (hflag : d.property.isPacketNum = true)
    rw [hflag, emitIf, if_pos rfl] at hb
    have hbyte : b.byte pre.length = packetNum := Buffer.byte_of_append _ _ _ hb (j := 0) (by simp)
    simp only [hbyte, hflag, if_true]
  · intro (hflag : d.property.isPacketNum = false)
    simp [hflag]

private theorem parseSegmentInfo_eq (totalNum : BitVec 15) (isEnd : Bool)
    (currentNum : BitVec 16)
    (hb : b.bytes = pre ++ emitIf d.property.segmentFlag
      (segmentBytes totalNum isEnd currentNum) ++ post) :
    parseSegmentInfo b (d, pre.length) =
      ({ d with
          totalNum := if d.property.segmentFlag then totalNum else d.totalNum
          currentNum := if d.property.segmentFlag then currentNum else d.currentNum },
        (pre ++ emitIf d.property.segmentFlag
          (segmentBytes totalNum isEnd currentNum)).length) := by
  apply readIf_emitIf (segmentBytes_length _ _ _)
  · intro (hflag : d.property.segmentFlag = true)
    rw [hflag, emitIf, if_pos rfl, segmentBytes, ← List.append_assoc] at hb
    have hcurrent := Buffer.half_of_append hb
    rw [List.append_assoc (pre ++ _)] at hb
    have htotal := Buffer.half_of_append hb
    rw [List.length_append, halfBytesOf_length] at hcurrent
    simp only [htotal, hcurrent, setWidth_segment, hflag, if_true]
  · intro (hflag : d.property.segmentFlag = false)
    simp [hflag]

end Fields

/-- The decoder's header walk over a packet that begins with the header of `h`. -/
theorem parseHeader_wireHeader {b : Buffer} (h : PsHeader) (post : List Byte)
    (hb : b.bytes = wireHeader h ++ post) (d : PsHeader) :
    parseHeader b d = (kept h d, h.property.headerLen) := by
  have hproperty : parseProperty b d =
      ({ d with property := h.property }, [h.property.toByte].length) := by
    have hfirst : b.byte 0 = h.property.toByte := by
      simp [Buffer.byte, hb, wireHeader]
    rw [parseProperty, hfirst, PsProperty.ofByte_toByte]
    rfl
  have hlast := Buffer.byte_of_append _ [h.cmdType] post hb (j := 0) (by simp)
  have hassoc := hb
  simp only [wireHeader, List.append_assoc] at hassoc
  rw [parseHeader, hproperty,
    parseSrcAddr_eq h.srcAddr (by rw [hassoc, List.append_assoc]),
    parseDestAddr_eq h.destAddr (by simp only [hassoc, List.append_assoc]; rfl),
    parsePacketNum_eq h.packetNum (by simp only [hassoc, List.append_assoc]; rfl),
    parseSegmentInfo_eq h.totalNum h.isEnd h.currentNum (by simp only [hassoc, List.append_assoc]; rfl),
    parseCmdType]
  refine Prod.ext ?_ ?_
  · simp only [kept, PsHeader.mk.injEq, true_and]
    exact hlast
  · exact List.length_append.symm.trans (wireHeader_length h)

/-- The decoder over a packet that begins with the header of `h`. -/
theorem appDataDecoding_wireHeader {b : Buffer} (h : PsHeader) (post : List Byte)
    (hb : b.bytes = wireHeader h ++ post) (hlen : b.bytes.length ≤ APP_MAX_DECODING_DATA_LEN)
    (lz : FastLz) (alloc : ℕ → Bool) (d : PsHeader) :
    appDataDecoding lz alloc b d =
      if post = [] then .ok ⟨kept h d, none⟩
      else if !alloc 0 then .error (-2)
      else if h.property.compressFlag then
        if !alloc 1 then .error (-3)
        else .ok ⟨kept h d, some (lz.decompress post APP_MAX_DECODING_DATA_LEN)⟩
      else .ok ⟨kept h d, some post⟩ := by
  have htotal : b.bytes.length = h.property.headerLen + post.length := by
    rw [hb, List.length_append, wireHeader_length]
  have hpos : 0 < h.property.headerLen := by simp [PsProperty.headerLen]
  have hdrop : b.bytes.drop h.property.headerLen = post := by
    rw [hb, ← wireHeader_length, List.drop_left]
  have haccepted : ¬(b.bytes.length = 0 ∨ APP_MAX_DECODING_DATA_LEN < b.bytes.length) := by omega
  simp only [appDataDecoding, if_neg haccepted, parseHeader_wireHeader h post hb, hdrop]
  by_cases hpost : post = []
  · have hend : ¬h.property.headerLen < b.bytes.length := by simp [htotal, hpost]
    rw [if_neg hend, if_pos hpost]
  · have hmore : h.property.headerLen < b.bytes.length := by
      have := List.length_pos_iff.mpr hpost
      omega
    rw [if_pos hmore, if_neg hpost]
    rfl

/-- What `fastlz_compress` and `fastlz_decompress` promise for payloads of up to `maxLen`
bytes: a result of `compress` is not empty, fits `comp_data`, and is undone by `decompress`. -/
structure FastLz.Lossless (lz : FastLz) (maxLen : ℕ) : Prop where
  nonempty : ∀ x y, x ≠ [] → x.length ≤ maxLen → lz.compress x = some y → y ≠ []
  fits : ∀ x y, x ≠ [] → x.length ≤ maxLen → lz.compress x = some y →
    y.length ≤ APP_MAX_CODING_DATA_LEN
  undone : ∀ x y, x ≠ [] → x.length ≤ maxLen → lz.compress x = some y →
    lz.decompress y APP_MAX_DECODING_DATA_LEN = x

/-- The compressed form of a payload exists and is strictly shorter. -/
def FastLz.Shortens (lz : FastLz) (x : List Byte) : Prop :=
  ∃ y ∈ lz.compress x, y.length < x.length

/-- The coder succeeds with the header, then the compressed payload where that is asked for
and pays, and else the payload with `compress_flag` 0. -/
theorem appDataCoding_eq {lz : FastLz} {maxLen : ℕ} (hlz : lz.Lossless maxLen)
    {alloc : ℕ → Bool} (halloc : ∀ n, alloc n = true) (h : PsHeader) {payload : List Byte}
    (hpayload : payload ≠ []) (hlen : payload.length ≤ maxLen) :
    (∃ y ∈ lz.compress payload, y.length < payload.length ∧ h.property.compressFlag = true ∧
        appDataCoding lz alloc h payload = .ok ⟨h, headerBytes h ++ y⟩) ∨
      (h.property.compressFlag = true → ¬lz.Shortens payload) ∧
        appDataCoding lz alloc h payload =
          .ok ⟨h.clearCompress, headerBytes h.clearCompress ++ payload⟩ := by
  have hfallback : codeUncompressed h (headerBytes h) payload =
      ⟨h.clearCompress, headerBytes h.clearCompress ++ payload⟩ := rfl
  have hplain : h.property.compressFlag = false → h.clearCompress = h := by
    intro hflag
    simp [PsHeader.clearCompress, ← hflag]
  simp only [appDataCoding, halloc, Bool.not_true, Bool.false_eq_true, if_false, if_neg hpayload]
  cases hflag : h.property.compressFlag with
  | false =>
    right
    simp [hplain hflag]
  | true =>
    cases hcompress : lz.compress payload with
    | none =>
      right
      simp [FastLz.Shortens, hcompress, hfallback]
    | some y =>
      have hfits : ¬APP_MAX_CODING_DATA_LEN < y.length :=
        Nat.not_lt.mpr (hlz.fits payload y hpayload hlen hcompress)
      by_cases hshort : y.length < payload.length
      · left
        exact ⟨y, rfl, hshort, rfl, by simp [hfits, hshort]⟩
      · right
        simp [FastLz.Shortens, hcompress, hfallback, hfits, hshort]

/-- A level-1 stream without matches, as `fastlz_compress` writes it where nothing repeats:
runs of up to 32 literal bytes, each behind its length less one. -/
def literalRuns : ℕ → List Byte → List Byte
  | 0, _ => []
  | n + 1, x =>
    if x = [] then []
    else BitVec.ofNat 8 ((x.take 32).length - 1) :: x.take 32 ++ literalRuns n (x.drop 32)

def readRuns : ℕ → List Byte → List Byte
  | 0, _ => []
  | _, [] => []
  | n + 1, ctrl :: ip => ip.take (ctrl.toNat + 1) ++ readRuns n (ip.drop (ctrl.toNat + 1))

def FastLz.literal : FastLz where
  compress x := some (literalRuns x.length x)
  decompress y maxout :=
    let x := readRuns y.length y
    if maxout < x.length then [] else x

theorem literalRuns_length (n : ℕ) (x : List Byte) :
    32 * (literalRuns n x).length ≤ 33 * x.length + 31 := by
  induction n generalizing x with
  | zero => simp [literalRuns]
  | succ n ih =>
    rw [literalRuns]
    split
    · simp
    · next hx =>
      have hpos := List.length_pos_iff.mpr hx
      have hrest := ih (x.drop 32)
      have hend : x.length ≤ 32 → literalRuns n (x.drop 32) = [] := by
        intro hle
        rw [List.drop_eq_nil_of_le hle]
        cases n <;> rfl
      simp only [List.length_append, List.length_cons, List.length_take, List.length_drop]
        at hrest ⊢
      by_cases hle : x.length ≤ 32
      · rw [hend hle, List.length_nil]
        omega
      · omega

theorem readRuns_literalRuns (n : ℕ) (x : List Byte) (hx : x.length ≤ n) (m : ℕ)
    (hm : (literalRuns n x).length ≤ m) : readRuns m (literalRuns n x) = x := by
  induction n generalizing x m with
  | zero =>
    obtain rfl := List.length_eq_zero_iff.mp (Nat.le_zero.mp hx)
    cases m <;> rfl
  | succ n ih =>
    rw [literalRuns] at hm ⊢
    split at hm <;> rename_i hempty
    · rw [if_pos hempty, hempty]
      cases m <;> rfl
    · rw [if_neg hempty]
      have hpos := List.length_pos_iff.mpr hempty
      cases m with
      | zero => simp at hm
      | succ m =>
        have hctrl : (BitVec.ofNat 8 ((x.take 32).length - 1)).toNat + 1 = (x.take 32).length := by
          rw [BitVec.toNat_ofNat, List.length_take]
          omega
        have hdrop : (x.drop 32).length ≤ n := by
          rw [List.length_drop]
          omega
        have hroom : (literalRuns n (x.drop 32)).length ≤ m := by
          simp only [List.cons_append, List.length_cons, List.length_append] at hm
          omega
        rw [List.cons_append, readRuns, hctrl, List.take_left, List.drop_left, ih _ hdrop m hroom,
          List.take_append_drop]

theorem literal_lossless : FastLz.literal.Lossless 300 where
  nonempty := by
    rintro (_ | ⟨b, x⟩) y hx - hy
    · exact absurd rfl hx
    · cases hy
      simp [literalRuns]
  fits := by
    rintro x y - hlen hy
    cases hy
    have := literalRuns_length x.length x
    show _ ≤ 512
    omega
  undone := by
    rintro x y - hlen hy
    cases hy
    have hruns := readRuns_literalRuns x.length x le_rfl _ le_rfl
    have hroom : ¬1024 < x.length := by omega
    simp only [FastLz.literal, hruns, APP_MAX_DECODING_DATA_LEN, if_neg hroom]

/-- The fields of `h` that its property byte announces, and `cmd_type`, are those of `d`. -/
structure SameAnnounced (h d : PsHeader) : Prop where
  srcAddr : h.property.isSrcAddr = true → d.srcAddr = h.srcAddr
  destAddr : h.property.isDestAddr = true → d.destAddr = h.destAddr
  packetNum : h.property.isPacketNum = true → d.packetNum = h.packetNum
  totalNum : h.property.segmentFlag = true → d.totalNum = h.totalNum
  currentNum : h.property.segmentFlag = true → d.currentNum = h.currentNum
  cmdType : d.cmdType = h.cmdType

theorem sameAnnounced_kept (h d : PsHeader) : SameAnnounced h (kept h d) := by
  constructor <;> intros <;> simp_all [kept]

theorem headerBytes_append_length_le (h : PsHeader) (payload : List Byte)
    (hlen : payload.length ≤ 300) :
    (headerBytes h ++ payload).length ≤ APP_MAX_DECODING_DATA_LEN := by
  have hheader := headerLen_le h.property
  rw [List.length_append, headerBytes_eq_wireHeader, wireHeader_length, APP_MAX_DECODING_DATA_LEN]
  show h.property.headerLen + payload.length ≤ 1024
  omega

/-- What is decoded from the output of the coder: the announced fields, the payload, and the
property byte with `compress_flag` as the coder has left it. -/
theorem decoding_coded {lz : FastLz} (hlz : lz.Lossless 300) {alloc : ℕ → Bool}
    (halloc : ∀ n, alloc n = true) (h d : PsHeader) (payload : List Byte)
    (hlen : payload.length ≤ 300) (behind : ℕ → Byte) :
    ∃ coded decoded, appDataCoding lz alloc h payload = .ok coded ∧
      appDataDecoding lz alloc ⟨coded.outputData, behind⟩ d = .ok decoded ∧
      SameAnnounced h decoded.psHeader ∧
      decoded.psHeader.property =
        { h.property with compressFlag := decoded.psHeader.property.compressFlag } ∧
      (decoded.psHeader.property.compressFlag = true ↔
        h.property.compressFlag = true ∧ (payload = [] ∨ lz.Shortens payload)) ∧
      decoded.outputData = if payload = [] then none else some payload := by
  by_cases hpayload : payload = []
  · subst hpayload
    refine ⟨⟨h, headerBytes h⟩, ⟨kept { h with isEnd := false } d, none⟩, ?_, ?_, ?_⟩
    · simp [appDataCoding, halloc]
    · rw [appDataDecoding_wireHeader { h with isEnd := false } []
        (by simp [headerBytes_eq_wireHeader])
        (by simpa using headerBytes_append_length_le h [] (by simp))]
      rfl
    · exact ⟨sameAnnounced_kept _ _, rfl, by simp [kept], rfl⟩
  rcases appDataCoding_eq hlz halloc h hpayload hlen with
    ⟨y, hcompress, hshort, hflag, hcode⟩ | ⟨hlonger, hcode⟩
  · refine ⟨_, ⟨kept { h with isEnd := false } d, some payload⟩, hcode, ?_, ?_⟩
    · rw [appDataDecoding_wireHeader { h with isEnd := false } y
        (by simp [headerBytes_eq_wireHeader])
        (headerBytes_append_length_le h y (by omega)),
        if_neg (hlz.nonempty payload y hpayload hlen hcompress)]
      simp [halloc, hflag, hlz.undone payload y hpayload hlen hcompress]
    · refine ⟨sameAnnounced_kept _ _, rfl, ?_, by simp [hpayload]⟩
      have hshortens : lz.Shortens payload := ⟨y, hcompress, hshort⟩
      simp [kept, hflag, hshortens]
  · refine ⟨_, ⟨kept { h.clearCompress with isEnd := false } d, some payload⟩, hcode, ?_, ?_⟩
    · rw [appDataDecoding_wireHeader { h.clearCompress with isEnd := false } payload
        (by simp [headerBytes_eq_wireHeader])
        (headerBytes_append_length_le h.clearCompress payload hlen), if_neg hpayload]
      simp [halloc, PsHeader.clearCompress]
    · refine ⟨?_, rfl, ?_, by simp [hpayload]⟩
      · obtain ⟨hsrc, hdest, hnum, htotal, hcurrent, hcmd⟩ :=
          sameAnnounced_kept { h.clearCompress with isEnd := false } d
        exact ⟨hsrc, hdest, hnum, htotal, hcurrent, hcmd⟩
      · constructor
        · intro himpossible
          cases himpossible
        · rintro ⟨hflag, hempty | hshortens⟩
          · exact absurd hempty hpayload
          · exact absurd hshortens (hlonger hflag)

/-- The header of `app_coding_test_demo`. -/
def demoHeader : PsHeader where
  property := ⟨false, true, true, true, true, true, true, true⟩
  srcAddr := 0x11223344
  destAddr := 0x44332211
  packetNum := 1
  totalNum := 100
  isEnd := false
  currentNum := 10
  cmdType := 1

def demoPayload : List Byte := [0x6f, 0x66, 0x66]

theorem demoHeader_decoding_coded :
    ∃ coded decoded,
      appDataCoding .literal (fun _ => true) demoHeader demoPayload = .ok coded ∧
      appDataDecoding .literal (fun _ => true) ⟨coded.outputData, fun _ => 0⟩ .zero = .ok decoded ∧
      SameAnnounced demoHeader decoded.psHeader ∧
      decoded.psHeader.property =
        { demoHeader.property with compressFlag := decoded.psHeader.property.compressFlag } ∧
      (decoded.psHeader.property.compressFlag = true ↔ demoHeader.property.compressFlag = true ∧
        (demoPayload = [] ∨ FastLz.literal.Shortens demoPayload)) ∧
      decoded.outputData = if demoPayload = [] then none else some demoPayload :=
  decoding_coded literal_lossless (fun _ => rfl) demoHeader .zero demoPayload (by decide) fun _ => 0

/-- The property byte of a string. -/
def announced (s : List Byte) : PsProperty := .ofByte (s.headD 0)

/-- The `is_end` bit of a string that announces `segment_info`. -/
def endBit (s : List Byte) : Bool :=
  (s.getD (1 + 4 * (announced s).isSrcAddr.toNat + 4 * (announced s).isDestAddr.toNat +
    (announced s).isPacketNum.toNat + 1) 0).getLsbD 7

/-- Decoding a string into a zeroed header and coding header and payload again. -/
def recode (lz : FastLz) (alloc alloc' : ℕ → Bool) (s : List Byte) (behind : ℕ → Byte) :
    Option (List Byte) :=
  match appDataDecoding lz alloc ⟨s, behind⟩ .zero with
  | .error _ => none
  | .ok decoded =>
    match appDataCoding lz alloc' decoded.psHeader (decoded.outputData.getD []) with
    | .error _ => none
    | .ok coded => some coded.outputData

/-- Cutting an optional field off the front of a string. -/
private theorem exists_emitIf (flag : Bool) (size : ℕ) (l : List Byte)
    (h : size * flag.toNat ≤ l.length) :
    ∃ field rest, field.length = size ∧ l = emitIf flag field ++ rest ∧
      rest.length = l.length - size * flag.toNat := by
  cases flag with
  | false => exact ⟨List.replicate size 0, l, List.length_replicate, rfl, by simp⟩
  | true =>
    refine ⟨l.take size, l.drop size, ?_, (List.take_append_drop size l).symm, by simp⟩
    rw [List.length_take]
    simpa using h

theorem exists_segmentBytes {l : List Byte} (h : l.length = 4) :
    ∃ totalNum isEnd currentNum, l = segmentBytes totalNum isEnd currentNum := by
  obtain ⟨w, hw⟩ := exists_halfBytesOf (l := l.take 2) (by simp [h])
  obtain ⟨currentNum, hcurrent⟩ := exists_halfBytesOf (l := l.drop 2) (by simp [h])
  have hsplit : (BitVec.ofBool (w.getLsbD 15) ++ w.setWidth 15 : BitVec (1 + 15)) = w := by
    apply BitVec.eq_of_getLsbD_eq
    intro i hi
    simp only [BitVec.getLsbD_append, BitVec.getLsbD_setWidth, BitVec.getLsbD_ofBool]
    by_cases hi15 : i < 15
    · simp [hi15]
    · obtain rfl : i = 15 := by omega
      simp
  refine ⟨w.setWidth 15, w.getLsbD 15, currentNum, ?_⟩
  rw [segmentBytes, hsplit, hw, hcurrent, List.take_append_drop]

/-- A string that holds the header it announces begins with the image of one. -/
theorem exists_wireHeader {s : List Byte} (hne : 1 ≤ s.length)
    (hlen : (announced s).headerLen ≤ s.length) :
    ∃ h post, s = wireHeader h ++ post ∧ h.property = announced s := by
  obtain ⟨first, l, rfl⟩ := List.exists_cons_of_length_pos hne
  generalize hp : announced (first :: l) = p at hlen ⊢
  have hbyte : first = p.toByte := by
    rw [← hp, announced, PsProperty.toByte_ofByte]
    rfl
  simp only [PsProperty.headerLen, List.length_cons] at hlen
  obtain ⟨src, l₁, hsrc, hl, hl₁⟩ := exists_emitIf p.isSrcAddr 4 l (by omega)
  obtain ⟨dest, l₂, hdest, hl₁', hl₂⟩ :=
    exists_emitIf p.isDestAddr 4 l₁ (by omega)
  obtain ⟨num, l₃, hnum, hl₂', hl₃⟩ :=
    exists_emitIf p.isPacketNum 1 l₂ (by omega)
  obtain ⟨segment, l₄, hsegment, hl₃', hl₄⟩ :=
    exists_emitIf p.segmentFlag 4 l₃ (by omega)
  obtain ⟨cmdType, post, hl₄'⟩ := List.exists_cons_of_length_pos (l := l₄) (by omega)
  obtain ⟨srcAddr, rfl⟩ := exists_bytesOf hsrc
  obtain ⟨destAddr, rfl⟩ := exists_bytesOf hdest
  obtain ⟨packetNum, rfl⟩ := List.length_eq_one_iff.mp hnum
  obtain ⟨totalNum, isEnd, currentNum, rfl⟩ := exists_segmentBytes hsegment
  refine ⟨⟨p, srcAddr, destAddr, packetNum, totalNum, isEnd, currentNum, cmdType⟩, post, ?_, rfl⟩
  rw [hl, hl₁', hl₂', hl₃', hl₄', hbyte]
  simp [wireHeader]

theorem segmentBytes_isEnd (totalNum : BitVec 15) (isEnd : Bool) (currentNum : BitVec 16) :
    ((segmentBytes totalNum isEnd currentNum).getD 1 0).getLsbD 7 = isEnd := by
  show (halfByteOf (BitVec.ofBool isEnd ++ totalNum) 1).getLsbD 7 = isEnd
  rw [halfByteOf, BitVec.getLsbD_extractLsb']
  simp only [BitVec.getLsbD_append]
  simp

/-- The bit that `endBit` looks up is `is_end`. -/
theorem endBit_wireHeader {h : PsHeader} {post s : List Byte} (hs : s = wireHeader h ++ post)
    (hp : h.property = announced s) (hflag : h.property.segmentFlag = true) :
    endBit s = h.isEnd := by
  rw [endBit, ← hp]
  have hpre : 1 + 4 * h.property.isSrcAddr.toNat + 4 * h.property.isDestAddr.toNat +
      h.property.isPacketNum.toNat = ([h.property.toByte] ++
        emitIf h.property.isSrcAddr (bytesOf h.srcAddr) ++
        emitIf h.property.isDestAddr (bytesOf h.destAddr) ++
        emitIf h.property.isPacketNum [h.packetNum]).length := by
    simp only [List.length_append, emitIf_length, List.length_singleton, bytesOf_length, one_mul]
  rw [hpre]
  rw [wireHeader, hflag] at hs
  generalize [h.property.toByte] ++ _ ++ _ ++ _ = pre at hs ⊢
  have hbyte := Buffer.byte_of_append (b := ⟨s, fun _ => 0⟩) (j := 1) pre
    (segmentBytes h.totalNum h.isEnd h.currentNum) ([h.cmdType] ++ post) (by rw [hs, List.append_assoc]; rfl) (by simp)
  refine Eq.trans (congrArg (·.getLsbD 7) hbyte) ?_
  exact segmentBytes_isEnd h.totalNum h.isEnd h.currentNum

/-- The coder drops `is_end`, and nothing else of an announced header. -/
theorem headerBytes_kept_iff (h d : PsHeader) :
    headerBytes (kept h d) = wireHeader h ↔
      ¬(h.property.segmentFlag = true ∧ h.isEnd = true) := by
  have hkept : headerBytes (kept h d) = wireHeader { h with isEnd := false } := by
    simp only [headerBytes, kept, wireHeader]
    congr 2
    · congr 1
      · congr 1
        · congr 1
          cases h.property.isSrcAddr <;> rfl
        · cases h.property.isDestAddr <;> rfl
      · cases h.property.isPacketNum <;> rfl
    · cases h.property.segmentFlag <;> rfl
  rw [hkept]
  simp only [wireHeader, List.append_cancel_right_eq, List.append_cancel_left_eq]
  cases h.property.segmentFlag with
  | false => simp [emitIf]
  | true =>
    simp only [emitIf, if_true, true_and, Bool.not_eq_true]
    constructor
    · intro heq
      have hbit := segmentBytes_isEnd h.totalNum h.isEnd h.currentNum
      rw [← heq, segmentBytes_isEnd] at hbit
      exact hbit.symm
    · intro hend
      rw [hend]

/-- Coding undoes decoding exactly where the three allocations that are needed succeed and the
string does not carry `is_end`. -/
theorem recode_eq_iff (lz : FastLz) (alloc alloc' : ℕ → Bool) {s : List Byte} (behind : ℕ → Byte)
    (hne : 1 ≤ s.length) (hmax : s.length ≤ 1024) (hplain : (announced s).compressFlag = false)
    (hlen : (announced s).headerLen ≤ s.length) :
    recode lz alloc alloc' s behind = some s ↔
      ((announced s).headerLen < s.length → alloc 0 = true) ∧ alloc' 0 = true ∧
        ¬((announced s).segmentFlag = true ∧ endBit s = true) := by
  obtain ⟨h, post, hs, hp⟩ := exists_wireHeader hne hlen
  have hend : ((announced s).segmentFlag = true ∧ endBit s = true) ↔
      (h.property.segmentFlag = true ∧ h.isEnd = true) := by
    rw [← hp]
    exact and_congr_right fun hflag => by rw [endBit_wireHeader hs hp hflag]
  have hpost : (announced s).headerLen < s.length ↔ post ≠ [] := by
    rw [← hp, ← wireHeader_length, hs, List.length_append, ← List.length_pos_iff]
    omega
  have hflag : (kept h .zero).property.compressFlag = false := (congrArg _ hp).trans hplain
  rw [hend, hpost, ← headerBytes_kept_iff h .zero, recode,
    appDataDecoding_wireHeader (b := ⟨s, behind⟩) h post hs hmax]
  have hflag' : h.property.compressFlag = false := hflag
  by_cases hempty : post = []
  · cases hcode : alloc' 0 <;> simp [appDataCoding, hempty, hs, hcode]
  · cases hdecode : alloc 0 <;> cases hcode : alloc' 0 <;>
      simp [appDataCoding, hempty, hs, hcode, hflag, hflag']

/-- A packet with the last of its segments, and no other optional field. -/
def lastSegment : List Byte := [0x04, 0x05, 0x80, 0x05, 0x00, 0x64, 0x01]

theorem lastSegment_not_reproduced :
    1 ≤ lastSegment.length ∧ lastSegment.length ≤ 1024 ∧
      (announced lastSegment).compressFlag = false ∧
      (announced lastSegment).headerLen ≤ lastSegment.length ∧
      recode .literal (fun _ => true) (fun _ => true) lastSegment (fun _ => 0) ≠
        some lastSegment := by
  decide

/-- The same packet as one of the earlier segments. -/
def earlierSegment : List Byte := [0x04, 0x05, 0x00, 0x05, 0x00, 0x64, 0x01]

theorem earlierSegment_reproduced :
    recode .literal (fun _ => true) (fun _ => true) earlierSegment (fun _ => 0) =
        some earlierSegment ↔
      ((announced earlierSegment).headerLen < earlierSegment.length → true = true) ∧ true = true ∧
        ¬((announced earlierSegment).segmentFlag = true ∧ endBit earlierSegment = true) :=
  recode_eq_iff .literal (fun _ => true) (fun _ => true) (fun _ => 0) (by decide) (by decide)
    (by decide) (by decide)

end WiotaDev.PacketCoding
