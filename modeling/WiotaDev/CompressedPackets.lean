import WiotaDev.FastLzRoundTrip
import WiotaDev.PacketRoundTrip
import WiotaDev.SimplifiedPayload

/-! # Packets with the compressor of the repository

`fastlz_compress` and `fastlz_decompress` as the packet coders call them, on buffers whose
surroundings are arbitrary; the room for the hash table may be missing at any call. -/

namespace WiotaDev.CompressedPackets
open WordBytes LempelZiv FastLzBlocks PacketCoding SimplifiedPayload

/-- Whether a call gets its hash table, what stands behind its input, and how long the
decompressor may run. -/
structure Surroundings where
  table : List Byte → Bool
  behind : List Byte → ℕ → Byte
  fuel : List Byte → ℕ
  fuel_le : ∀ y, y.length ≤ fuel y

variable (s : Surroundings)

/-- `fastlz.c` as `fastlz.h` shows it. -/
def fastLz : FastLz where
  compress x := fastlzCompress (Buffer.byte ⟨x, s.behind x⟩) (s.table x) x.length
  decompress y maxout :=
    (fastlzDecompress (Buffer.byte ⟨y, s.behind y⟩) y.length maxout (s.fuel y)).getD []

/-- What has been compressed has been compressed at one of the levels. -/
theorem compress_level {x y : List Byte} (h : (fastLz s).compress x = some y) :
    ∃ lvl : Level, y = lvl.compress (Buffer.byte ⟨x, s.behind x⟩) x.length := by
  change fastlzCompress _ _ _ = some y at h
  rw [fastlzCompress] at h
  split at h
  · cases h
  split at h
  · exact ⟨.one, (Option.some.inj h).symm⟩
  · exact ⟨.two, (Option.some.inj h).symm⟩

theorem compress_undone {x y : List Byte} {maxout : ℕ} (hx : 1 ≤ x.length)
    (hword : x.length < 2 ^ 32) (hroom : x.length ≤ maxout) (h : (fastLz s).compress x = some y) :
    (fastLz s).decompress y maxout = x := by
  obtain ⟨lvl, rfl⟩ := compress_level s h
  change (fastlzDecompress _ _ _ _).getD [] = x
  rw [decompress_compress _ lvl hx hword (values_byte _ _) hroom (s.fuel_le _), Option.getD_some,
    values_byte]

theorem compress_length {x y : List Byte} (h : (fastLz s).compress x = some y) :
    y.length ≤ x.length + x.length / 32 + 1 := by
  obtain ⟨lvl, rfl⟩ := compress_level s h
  exact compress_length_le ..

theorem compress_ne_nil {x y : List Byte} (hx : x ≠ []) (h : (fastLz s).compress x = some y) :
    y ≠ [] := by
  rintro rfl
  have hlen := List.length_pos_iff.mpr hx
  obtain ⟨lvl, hnil⟩ := compress_level s h
  rcases Nat.lt_or_ge x.length 4 with hshort | hlong
  · rw [compress_short _ lvl hlen hshort] at hnil
    exact nomatch hnil
  · obtain ⟨run, js, hcompress, -⟩ := compress_serial (Buffer.byte ⟨x, s.behind x⟩) lvl hlong
    have hempty := congrArg List.length hnil
    rw [hcompress, marked_length, serial_cons] at hempty
    exact absurd hempty.symm (Nat.succ_ne_zero _)

/-- The compressor keeps what the packet coder relies on, for payloads of up to 496 bytes. -/
theorem fastLz_lossless : (fastLz s).Lossless 496 where
  nonempty x y hx _ h := compress_ne_nil s hx h
  fits x y _ hmax h := by
    have hlen := compress_length s h
    rw [APP_MAX_CODING_DATA_LEN]
    omega
  undone x y hx hmax h :=
    compress_undone s (List.length_pos_iff.mpr hx) (by omega) (hmax.trans (by decide)) h

theorem fastLz_inverts : Inverts (fastLz s) where
  fits x y hx _ h := by
    have hlen := compress_length s h
    omega
  undone x y hx hmax h :=
    compress_undone s hx (Nat.lt_of_le_of_lt hmax (by decide)) (hmax.trans (by decide)) h

/-- A packet that has been coded is not longer than its header and its payload, and gives both
back; where it is not decoded, there is no memory for it. -/
structure Decodes (lz : FastLz) (payload : List Byte) (coded : Coded) : Prop where
  length_le : coded.outputData.length ≤ coded.psHeader.property.headerLen + payload.length
  decodes : ∀ (alloc : ℕ → Bool) (behind : ℕ → Byte) (d : PsHeader),
    match appDataDecoding lz alloc ⟨coded.outputData, behind⟩ d with
    | .ok decoded => decoded = ⟨kept { coded.psHeader with isEnd := false } d, some payload⟩
    | .error rc => rc = -2 ∧ alloc 0 = false ∨ rc = -3 ∧ alloc 1 = false

private theorem coded_length (h : PsHeader) (rest : List Byte) :
    (headerBytes h ++ rest).length = h.property.headerLen + rest.length := by
  rw [List.length_append, headerBytes_eq_wireHeader, wireHeader_length]

private theorem coded_length_le (h : PsHeader) {rest : List Byte} (hrest : rest.length ≤ 496) :
    (headerBytes h ++ rest).length ≤ APP_MAX_DECODING_DATA_LEN := by
  have hheader := headerLen_le h.property
  rw [coded_length]
  change h.property.headerLen + rest.length ≤ 1024
  omega

private theorem decodes_plain (lz : FastLz) {h : PsHeader} {payload : List Byte}
    (hflag : h.property.compressFlag = false) (hne : payload ≠ []) (hmax : payload.length ≤ 496) :
    Decodes lz payload ⟨h, headerBytes h ++ payload⟩ where
  length_le := Nat.le_of_eq (coded_length h payload)
  decodes alloc behind d := by
    have hbytes : (⟨headerBytes h ++ payload, behind⟩ : Buffer).bytes =
        wireHeader { h with isEnd := false } ++ payload := by rw [headerBytes_eq_wireHeader]
    rw [appDataDecoding_wireHeader _ payload hbytes (coded_length_le h hmax), if_neg hne, hflag]
    cases hbuf : alloc 0 with
    | false => exact .inl ⟨rfl, rfl⟩
    | true => rfl

private theorem decodes_compressed {h : PsHeader} {payload y : List Byte}
    (hflag : h.property.compressFlag = true) (hne : payload ≠ []) (hmax : payload.length ≤ 496)
    (hy : (fastLz s).compress payload = some y) (hshort : y.length < payload.length) :
    Decodes (fastLz s) payload ⟨h, headerBytes h ++ y⟩ where
  length_le := by
    rw [coded_length]
    exact Nat.add_le_add_left (Nat.le_of_lt hshort) _
  decodes alloc behind d := by
    have hbytes : (⟨headerBytes h ++ y, behind⟩ : Buffer).bytes =
        wireHeader { h with isEnd := false } ++ y := by rw [headerBytes_eq_wireHeader]
    rw [appDataDecoding_wireHeader _ y hbytes (coded_length_le h (by omega)),
      if_neg (compress_ne_nil s hne hy), hflag,
      (fastLz_lossless s).undone payload y hne hmax hy]
    cases hbuf : alloc 0 with
    | false => exact .inl ⟨rfl, rfl⟩
    | true =>
      cases hdecomp : alloc 1 with
      | false => exact .inr ⟨rfl, rfl⟩
      | true => rfl

/-- Behind any number of rounds of its loops the compressor has written into `size` bytes only. -/
def WritesWithin (mem : ℕ → Byte) (length size : ℕ) : Prop :=
  ∀ (lvl : Level) (n m : ℕ), 4 ≤ length →
    (leftOver mem length m (mainLoop mem lvl length n (Compressor.start mem))).out.length ≤ size

theorem writesWithin (mem : ℕ → Byte) {length : ℕ} (hmax : length ≤ 496) :
    WritesWithin mem length APP_MAX_CODING_DATA_LEN := by
  intro lvl n m hmin
  have hle := loops_length_le mem lvl hmin n m
  rw [APP_MAX_CODING_DATA_LEN]
  omega

/-- Whatever memory the coder gets, it stays within its buffers, and what it makes of a payload
is decoded to that payload. -/
theorem coding_decodes (alloc : ℕ → Bool) (h : PsHeader) {payload : List Byte} (hne : payload ≠ [])
    (hmax : payload.length ≤ 496) :
    WritesWithin (Buffer.byte ⟨payload, s.behind payload⟩) payload.length APP_MAX_CODING_DATA_LEN ∧
    appDataCoding (fastLz s) alloc h payload ≠ .error .overrun ∧
      ∀ coded, appDataCoding (fastLz s) alloc h payload = .ok coded →
        Decodes (fastLz s) payload coded := by
  have huncompressed : Decodes (fastLz s) payload (codeUncompressed h (headerBytes h) payload) :=
    decodes_plain (fastLz s) rfl hne hmax
  have hok {c : Coded} (hc : Decodes (fastLz s) payload c) :
      (.ok c : Except CodingFault Coded) ≠ .error .overrun ∧
        ∀ coded, (.ok c : Except CodingFault Coded) = .ok coded →
          Decodes (fastLz s) payload coded := by
    refine ⟨fun h => ?_, fun coded h => ?_⟩
    · cases h
    · cases h
      exact hc
  have hreturns (rc : ℤ) : (.error (.returns rc) : Except CodingFault Coded) ≠ .error .overrun ∧
      ∀ coded, (.error (.returns rc) : Except CodingFault Coded) = .ok coded →
        Decodes (fastLz s) payload coded := by
    refine ⟨fun h => ?_, fun coded h => ?_⟩
    · cases h
    · cases h
  refine ⟨writesWithin _ hmax, ?_⟩
  rw [appDataCoding]
  dsimp only
  split
  · exact hreturns (-2)
  split
  · rename_i hflag
    split
    · exact hreturns (-3)
    split
    · exact hok huncompressed
    · rename_i y hy
      have hfits := (fastLz_lossless s).fits payload y hne hmax hy
      rw [if_neg (Nat.not_lt.mpr hfits)]
      split
      · rename_i hshort
        exact hok (decodes_compressed s hflag hne hmax hy hshort)
      · exact hok huncompressed
  · rename_i hflag
    exact hok (decodes_plain (fastLz s) (Bool.eq_false_iff.mpr hflag) hne hmax)

/-- Zeros behind each input, and memory at every call. -/
def Surroundings.plain : Surroundings :=
  ⟨fun _ => true, fun _ _ => 0, List.length, fun _ => Nat.le_refl _⟩

/-- A run of 40 bytes. -/
theorem run_coding_decodes :
    WritesWithin (Buffer.byte ⟨List.replicate 40 7, fun _ => 0⟩) 40 APP_MAX_CODING_DATA_LEN ∧
    appDataCoding (fastLz .plain) (fun _ => true) demoHeader (List.replicate 40 7) ≠
        .error .overrun ∧
      ∀ coded, appDataCoding (fastLz .plain) (fun _ => true) demoHeader (List.replicate 40 7) =
          .ok coded →
        Decodes (fastLz .plain) (List.replicate 40 7) coded :=
  coding_decodes .plain (fun _ => true) demoHeader (by decide) (by decide)

/-- A node with the compressor of the repository sends every payload so that the receiver prints
it. -/
theorem node_roundTrips (env : SendEnv) (payload rest : List Byte) (hmin : 1 ≤ payload.length)
    (hmax : payload.length ≤ UC_DATA_LENGTH_LIMIT - 1) :
    RoundTrips (fastLz s) payload
      (sendAsNode (fastLz s) { env with input := payload ++ rest } payload.length) := by
  obtain ⟨hsound, hpacked⟩ :=
    sendAsNode_sound (fastLz_inverts s) hmin hmax { env with input := payload ++ rest }
  dsimp only at hpacked
  rw [List.take_left] at hpacked
  exact ⟨hsound, fun packet h => (hpacked packet h).length_le, fun packet h recvEnv type htype =>
    recvCallback_spec (fastLz_inverts s) hmin hmax (hpacked packet h) htype recvEnv⟩

theorem node_roundTrips_run :
    RoundTrips (fastLz .plain) (List.replicate 40 7)
      (sendAsNode (fastLz .plain) { readyNode with input := List.replicate 40 7 ++ [] } 40) :=
  node_roundTrips .plain readyNode (List.replicate 40 7) [] (by decide) (by decide)

end WiotaDev.CompressedPackets
