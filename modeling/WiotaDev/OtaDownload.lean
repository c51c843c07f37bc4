import WiotaDev.BlockAssembly
import WiotaDev.OtaMapFreshness

/-! # A download does not depend on the order of its packets

The packets of one upgrade each carry a block of its image. While a download runs, the
block map is the set of delivered blocks and the target area of the flash holds what is
assembled from them, so the download completes with the packet that delivers the last
missing block, whatever came before. The version of the packet that begins the download has to
end inside its member; otherwise the start leaves no download. -/

namespace WiotaDev.GatewayOta
open WordBytes OtaFlash HaltingRuns BlockAssembly

/-- An upgrade that is offered: its image and what its packets have in common. -/
structure Upgrade where
  image : List Byte
  num : BitVec 16
  md5 : Vector Byte 36
  exMcu : Bool

namespace Upgrade

variable (env : Env) (u : Upgrade)

/-- The target of the image. -/
def area : ℕ :=
  if u.exMcu then env.part.binSize else env.part.binSize + env.part.reservedSize

/-- The size of the partition for the image. -/
def room : ℕ := if u.exMcu then env.part.otaSize + env.part.reservedSize else env.part.otaSize

/-- The image fits into the block map and its partition, which lies in the flash that can
be written, and its digest is the one that its packets name. -/
structure Fits : Prop where
  nonempty : 1 ≤ u.image.length
  blocks_le : u.image.length ≤ 224 * 512
  room_le : u.image.length ≤ u.room env
  in_flash : u.area env + u.image.length ≤ FLASH_SECTOR_SIZE * FLASH_PAGE_SIZE
  digest : (hexText (env.md.finish (env.md.update env.md.starts u.image))).take 32 =
    u.md5.toList.take 32

variable {env u} in
/-- With partitions that share the 504 KB in front of the static data, every image that fits into
its partition lies in the flash that can be written. -/
theorem in_flash_of_room
    (hsplit : env.part.binSize + env.part.reservedSize + env.part.otaSize ≤ 504 * 1024)
    (hroom : u.image.length ≤ u.room env) :
    u.area env + u.image.length ≤ FLASH_SECTOR_SIZE * FLASH_PAGE_SIZE := by
  rw [area]
  rw [room] at hroom
  simp only [FLASH_SECTOR_SIZE, FLASH_PAGE_SIZE]
  cases hx : u.exMcu <;> simp only [hx, if_true, Bool.false_eq_true, if_false] at hroom ⊢ <;> omega

/-- The request is a packet of the upgrade for this device, with one block of the image. -/
structure Carries (req : OtaUpgradeReq) : Prop where
  device : req.isExMcu = u.exMcu
  range : req.Targets env ∨ req.upgradeRange = 0#32
  forDevice : req.ForDevice env
  upgradeNum : req.upgradeNum = u.num
  md5 : req.md5 = u.md5
  fileSize : req.fileSize.toNat = u.image.length
  aligned : req.dataOffset.toNat % 512 = 0
  inside : req.dataOffset.toNat < u.image.length
  length : req.dataLength.toNat = min 512 (u.image.length - req.dataOffset.toNat)
  data : ∀ i < req.dataLength.toNat, req.data i = u.image.getD (req.dataOffset.toNat + i) 0

/-- The events of a download: packets of the upgrade, state messages and missing-data
requests. -/
def Event : OtaEvent → Prop
  | .upgradeReq req _ => u.Carries env req
  | .upgradeState _ _ => True
  | .missDataReq _ _ => True
  | _ => False

/-- The flash content that is assembled from the blocks in `d`. -/
def assembled (d : Finset ℕ) : ℕ → Byte :=
  contents (fun a => u.image.getD a 0) (BitVec.allOnes 8) 512 d

/-- The number of blocks of the image. -/
def blockCount : ℕ := blocks 512 u.image.length

end Upgrade

/-- The first packet in a run has `P`. -/
def FirstPacket (P : OtaUpgradeReq → Prop) : List OtaEvent → Prop
  | [] => True
  | .upgradeReq req _ :: _ => P req
  | _ :: es => FirstPacket P es

/-- The blocks that a run delivers. -/
def delivered : List OtaEvent → Finset ℕ
  | [] => ∅
  | .upgradeReq req _ :: es => insert (req.dataOffset.toNat / 512) (delivered es)
  | _ :: es => delivered es

/-- Every block of the image has been delivered. -/
def Upgrade.Complete (u : Upgrade) (d : Finset ℕ) : Prop := Finset.range u.blockCount ⊆ d

instance (u : Upgrade) (d : Finset ℕ) : Decidable (u.Complete d) :=
  inferInstanceAs (Decidable (Finset.range u.blockCount ⊆ d))

/-- The OTA state before a download. -/
structure Idle (w : World) : Prop where
  otaState : w.ota.otaState = .default
  maskMap : ∀ k, BitArray.test w.ota.maskMap k = false
  upgradeNum : w.ota.upgradeNum = 0#16
  otaDlState : w.ota.otaDlState = .default

/-- In the download of `u` the blocks in `d` are in the map and on the flash. -/
structure Assembling (env : Env) (u : Upgrade) (d : Finset ℕ) (w : World) : Prop where
  otaState : w.ota.otaState = .download
  upgradeNum : w.ota.upgradeNum = u.num
  blockCount : w.ota.blockCount = u.blockCount
  maskMap : ∀ k, BitArray.test w.ota.maskMap k = true ↔ k ∈ d
  flash : ∀ a < u.image.length, w.flash.cell (u.area env + a) = u.assembled d a

def OtaCall.isRecvEnd : OtaCall → Bool
  | .otaDataRecvEnd => true
  | _ => false

/-- How often the history reports the end of a reception. -/
def recvEnds (w : World) : ℕ := w.calls.countP OtaCall.isRecvEnd

variable {env : Env} {u : Upgrade} {req : OtaUpgradeReq} {ram : ℕ → Byte} {w w' : World}
  {d : Finset ℕ}

namespace Upgrade.Carries

theorem writeAddr (h : u.Carries env req) : req.writeAddr env = u.area env := by
  rw [OtaUpgradeReq.writeAddr, h.device]
  rfl

theorem maxSize (h : u.Carries env req) : req.maxSize env = u.room env := by
  rw [OtaUpgradeReq.maxSize, h.device]
  rfl

theorem fileSize_toInt (h : u.Carries env req) (hf : u.Fits env) :
    req.fileSize.toInt = u.image.length := by
  have hsize := BitVec.toInt_eq_toNat_cond req.fileSize
  have := hf.blocks_le
  rw [h.fileSize] at hsize
  split at hsize <;> omega

theorem fits (h : u.Carries env req) (hf : u.Fits env) : ¬ req.TooLarge env := by
  have := hf.room_le
  rw [OtaUpgradeReq.TooLarge, h.fileSize_toInt hf, h.maxSize]
  omega

theorem dataOffset_nonneg (h : u.Carries env req) (hf : u.Fits env) :
    0 ≤ req.dataOffset.toInt := by
  have hoff := BitVec.toInt_eq_toNat_cond req.dataOffset
  have := h.inside
  have := hf.blocks_le
  split at hoff <;> omega

theorem block (h : u.Carries env req) (hf : u.Fits env) :
    req.block = req.dataOffset.toNat / 512 := block_of_nonneg (h.dataOffset_nonneg hf)

theorem block_lt (h : u.Carries env req) (hf : u.Fits env) : req.block < 224 := by
  have := h.inside
  have := hf.blocks_le
  rw [h.block hf]
  omega

theorem blockCount (h : u.Carries env req) (hf : u.Fits env) :
    req.blockCount = u.blockCount := by
  have hle := hf.blocks_le
  have hdiv : ((u.image.length : ℕ) : ℤ).tdiv 512 = ((u.image.length / 512 : ℕ) : ℤ) := by
    rw [Int.tdiv_eq_ediv_of_nonneg (by omega)]
    rfl
  have hmod : ((u.image.length : ℕ) : ℤ).tmod 512 = ((u.image.length % 512 : ℕ) : ℤ) := by
    rw [Int.tmod_eq_emod_of_nonneg (by omega)]
    rfl
  have hcount : (BitVec.ofInt 32 ((u.image.length / 512 : ℕ) : ℤ)).toNat = u.image.length / 512 := by
    rw [BitVec.ofInt_natCast, BitVec.toNat_ofNat, Nat.mod_eq_of_lt (by omega)]
  simp only [OtaUpgradeReq.blockCount, h.fileSize_toInt hf, hdiv, hmod, hcount,
    Upgrade.blockCount, blocks]
  split <;> omega

theorem flashAddr (h : u.Carries env req) (hf : u.Fits env) :
    req.flashAddr env = u.area env + req.dataOffset.toNat := by
  have := h.inside
  have := hf.in_flash
  simp only [FLASH_SECTOR_SIZE, FLASH_PAGE_SIZE] at this
  rw [OtaUpgradeReq.flashAddr, h.writeAddr]
  omega

theorem not_refused (h : u.Carries env req) (hf : u.Fits env) :
    ¬ WriteRefused (req.flashAddr env) req.dataLength.toNat := by
  have := h.inside
  have := h.length
  have hflash := hf.in_flash
  rw [h.flashAddr hf, WriteRefused]
  simp only [FLASH_SECTOR_SIZE, FLASH_PAGE_SIZE] at hflash ⊢
  omega

theorem considered (h : u.Carries env req) (hf : u.Fits env)
    (hs : w.ota.otaState = .download ∨ w.ota.otaState = .default ∧ req.Unblocked w) :
    req.Considered env w := by
  refine ⟨h.fits hf, ?_, h.forDevice, ?_⟩
  · rcases h.range with ht | hr
    · exact Or.inl ht
    · rcases hs with hs | ⟨hs, -⟩ <;> exact Or.inr ⟨hr, by simp [hs]⟩
  · rcases hs with hs | ⟨hs, hu⟩
    · simp [OtaUpgradeReq.Admissible, hs]
    · simpa [OtaUpgradeReq.Admissible, hs] using hu

end Upgrade.Carries

/-- A packet of the running download is received in it. -/
theorem Assembling.continues (ha : Assembling env u d w) (hf : u.Fits env)
    (h : u.Carries env req) : req.Considered env w ∧ ¬ req.Starts env w ∧
      Assembling env u d (atReception env req w) := by
  have hsame : ¬ req.Switches w := fun hs => hs.2 (by rw [ha.upgradeNum, h.upgradeNum])
  have hc := h.considered hf (Or.inl ha.otaState)
  have hn : ¬ req.Starts env w := fun hs => hsame (hs.2 ha.otaState)
  refine ⟨hc, hn, atReception_otaState hc, ?_, ?_, ?_, ?_⟩
  · rw [atReception, if_neg hn]
    exact h.upgradeNum
  · rw [atReception, if_neg hn]
    exact ha.blockCount
  · rw [atReception_maskMap, OtaUpgradeReq.currentMap, if_neg hsame]
    exact ha.maskMap
  · rw [atReception, if_neg hn]
    exact ha.flash

/-- The first packet begins the download with an erased target area. -/
theorem Idle.begins (hi : Idle w) (hf : u.Fits env) (h : u.Carries env req)
    (hp : req.packetType = 0#16) : req.Starts env w ∧
      Assembling env u ∅ (atReception env req w) := by
  have hsame : ¬ req.Switches w := fun hs => by simp [OtaUpgradeReq.Switches, hi.otaState] at hs
  have hu : req.Unblocked w := by
    rw [OtaUpgradeReq.Unblocked]
    split
    · exact hi.otaDlState
    · exact ⟨hi.upgradeNum, hp⟩
  have hs : req.Starts env w :=
    ⟨h.considered hf (Or.inr ⟨hi.otaState, hu⟩), fun hd => by simp [hi.otaState] at hd⟩
  refine ⟨hs, atReception_otaState hs.1, ?_, ?_, ?_, ?_⟩
  · rw [atReception, if_pos hs]
    exact h.upgradeNum
  · rw [atReception, if_pos hs]
    exact h.blockCount hf
  · intro k
    rw [atReception_maskMap, OtaUpgradeReq.currentMap, if_neg hsame, hi.maskMap k]
    simp
  · intro a ha
    have hsize : 0 ≤ req.fileSize.toInt := by
      rw [h.fileSize_toInt hf]
      omega
    obtain ⟨-, hcell, -⟩ := erase_spec (h.fits hf) hsize w.flash
    rw [atReception, if_pos hs, started_flash, admitted_flash, hcell, h.writeAddr,
      h.fileSize, NorFlash.eraseRange_inside _ (by omega)]
    rfl

/-- The reception of a block adds it to the map and to the flash. -/
theorem Assembling.receives (ha : Assembling env u d (atReception env req w)) (hf : u.Fits env)
    (h : u.Carries env req) :
    Assembling env u (insert (req.dataOffset.toNat / 512) d) (received env req ram w) := by
  have hlt := h.block_lt hf
  have hbit : req.Marked env ram w ↔ req.dataOffset.toNat / 512 ∈ d := by
    rw [OtaUpgradeReq.Marked, judgmentBit_of_lt ram _ hlt, ← h.block hf, ← ha.maskMap]
  by_cases hb : req.Marked env ram w
  · rw [received, if_pos hb, Finset.insert_eq_of_mem (hbit.mp hb)]
    exact ⟨ha.otaState, ha.upgradeNum, ha.blockCount, ha.maskMap, ha.flash⟩
  · have hnew : req.dataOffset.toNat / 512 ∉ d := fun hm => hb (hbit.mpr hm)
    have hota := written_of_lt env ((atReception env req w).touch req.block) hlt
    have hcell : (req.write env (atReception env req w).flash).2.cell =
        NorFlash.programRange (atReception env req w).flash.cell
          (u.area env + req.dataOffset.toNat) req.dataLength.toNat req.data := by
      have hin := h.inside
      have hflash := hf.in_flash
      have hlen := h.length
      simp only [FLASH_SECTOR_SIZE, FLASH_PAGE_SIZE] at hflash
      rw [OtaUpgradeReq.write, ucWiotaOtaFlashWrite, otaFlashWrite_accepted _ _ (h.not_refused hf),
        otaFlashWriteLoop_cell _ _ _ _ _ (by rw [h.flashAddr hf]; omega), h.flashAddr hf]
      simp only [Nat.add_zero, Nat.sub_zero, Nat.zero_add]
    rw [received, if_neg hb]
    refine ⟨by rw [hota]; exact ha.otaState, by rw [hota]; exact ha.upgradeNum,
      by rw [hota]; exact ha.blockCount, fun k => ?_, fun a hlta => ?_⟩
    · rw [hota]
      simp only [BitArray.test_mark _ (show req.block / 8 < 28 by omega), touch_ota, ha.maskMap,
        Bool.or_eq_true, decide_eq_true_eq, Finset.mem_insert]
      rw [h.block hf]
    · have hal := h.aligned
      have hlen := h.length
      have hold := ha.flash a hlta
      simp only [written, stored, touch_flash, hcell]
      by_cases hk : a / 512 = req.dataOffset.toNat / 512
      · have hin : u.area env + req.dataOffset.toNat ≤ u.area env + a ∧
            u.area env + a < u.area env + req.dataOffset.toNat + req.dataLength.toNat := by omega
        have hblank : (atReception env req w).flash.cell (u.area env + a) =
            BitVec.allOnes 8 := by
          rw [hold, Upgrade.assembled, contents_of_notMem]
          rwa [hk]
        rw [NorFlash.programRange_erased _ _ hin hblank, Upgrade.assembled,
          contents_insert_self _ _ _ hk, h.data _ (by omega)]
        congr 1
        omega
      · rw [NorFlash.programRange_outside _ _ (by omega), hold, Upgrade.assembled,
          Upgrade.assembled, contents_insert_of_ne _ _ _ hk]

variable (ram) in
/-- The completion check finds every bit exactly when every block was delivered. -/
theorem Assembling.allRecved_iff (ha : Assembling env u d w) (hf : u.Fits env) :
    AllRecved ram w ↔ u.Complete d := by
  have hle : u.blockCount ≤ 224 := by
    have := hf.blocks_le
    simp only [Upgrade.blockCount, blocks]
    omega
  rw [AllRecved, ha.blockCount, Upgrade.Complete, Finset.subset_iff]
  simp only [Finset.mem_range]
  refine forall₂_congr fun k hk => ?_
  rw [judgmentBit_of_lt ram _ (by omega), ha.maskMap]

theorem Assembling.image_of_complete (ha : Assembling env u d w) (hc : u.Complete d) {a : ℕ}
    (hlt : a < u.image.length) : w.flash.cell (u.area env + a) = u.image.getD a 0 := by
  rw [ha.flash a hlt]
  exact contents_complete _ _ _ (by decide) hc hlt

theorem Assembling.check (ha : Assembling env u d w) (hf : u.Fits env) (h : u.Carries env req)
    (hmd : env.md.Streaming) (hc : u.Complete d) : req.check env w.flash = some 0 := by
  have hflash := hf.in_flash
  simp only [FLASH_SECTOR_SIZE, FLASH_PAGE_SIZE] at hflash
  rw [OtaUpgradeReq.check, h.writeAddr, h.fileSize, h.md5]
  exact ucWiotaOtaCheckFlashData_eq_zero env.md hmd w.flash (u.area env) u.image _ hf.nonempty
    (by omega) (fun a hlt => ha.image_of_complete hc hlt) hf.digest

/-- Before the first packet the device is idle, then it assembles. -/
def Pending (env : Env) (u : Upgrade) (d : Finset ℕ) (w : World) : Prop :=
  if d = ∅ then Idle w else Assembling env u d w

theorem Quiet.recvEnds_eq (h : Quiet w w') : recvEnds w' = recvEnds w := by
  obtain ⟨new, hn, hq⟩ := h.calls
  have hnone : new.countP OtaCall.isRecvEnd = 0 := by
    rw [List.countP_eq_zero]
    intro c hc
    have := hq c hc
    cases c <;> simp_all [OtaCall.Quiet, OtaCall.isRecvEnd]
  rw [recvEnds, hn, List.countP_append, hnone, Nat.zero_add, recvEnds]

theorem Quiet.keeps_pending (h : Quiet w w') (hw : Pending env u d w) : Pending env u d w' := by
  unfold Pending at *
  by_cases hd : d = ∅
  · rw [if_pos hd] at hw ⊢
    exact ⟨h.otaState ▸ hw.otaState, h.maskMap ▸ hw.maskMap, h.upgradeNum ▸ hw.upgradeNum,
      h.otaDlState ▸ hw.otaDlState⟩
  · rw [if_neg hd] at hw ⊢
    exact ⟨h.otaState ▸ hw.otaState, h.upgradeNum ▸ hw.upgradeNum, h.blockCount ▸ hw.blockCount,
      h.maskMap ▸ hw.maskMap, h.flash ▸ hw.flash⟩

theorem received_recvEnds (env : Env) (req : OtaUpgradeReq) (ram : ℕ → Byte) (w : World) :
    recvEnds (received env req ram w) = recvEnds w := by
  have hnone : (receptionCalls env req ram w).countP OtaCall.isRecvEnd = 0 := by
    rw [receptionCalls]
    split_ifs <;> rfl
  rw [recvEnds, received_calls, List.countP_append, hnone, Nat.zero_add, recvEnds]

variable (ram) in
/-- A packet that comes before the completion is received. -/
theorem Pending.receives (hw : Pending env u d w) (hf : u.Fits env) (h : u.Carries env req)
    (hp : d = ∅ → req.packetType = 0#16 ∧ req.VersionFits) :
    Assembling env u (insert (req.dataOffset.toNat / 512) d) (received env req ram w) ∧
      ucWiotaGatewayOtaUpgradeResMsg env req ram w =
        finishBlock env req (receivedRam env req ram w) (received env req ram w) := by
  have hsize : 0 ≤ req.fileSize.toInt := by
    rw [h.fileSize_toInt hf]
    omega
  have hret : req.Starts env w → (req.erase env w.flash).2 = true :=
    fun _ => erase_returns (h.fits hf) hsize w.flash
  rw [Pending] at hw
  split at hw
  · next hd =>
    obtain ⟨hs, ha⟩ := hw.begins hf h (hp hd).1
    rw [← hd] at ha
    exact ⟨ha.receives hf h, upgradeReq_received ⟨hs.1, hret, fun _ => (hp hd).2⟩⟩
  · obtain ⟨hc, hn, ha⟩ := hw.continues hf h
    exact ⟨ha.receives hf h, upgradeReq_received ⟨hc, hret, fun hs => absurd hs hn⟩⟩

/-- What a completed download has done since state `w`: the check found all data, the
digest matched, and the image is on the flash. -/
def Completes (env : Env) (u : Upgrade) (w w' : World) : Prop :=
  (∃ new, w'.calls = new ++ w.calls ∧ .otaDataRecvEnd ∈ new ∧ .checkFlashData 0 ∈ new) ∧
    ∀ a < u.image.length, w'.flash.cell (u.area env + a) = u.image.getD a 0

/-- The state of a device whose download for the external MCU is complete. -/
structure Finished (w : World) : Prop where
  otaState : w.ota.otaState = .default
  otaDlState : w.ota.otaDlState = .downloadCmp

variable (ram) in
/-- The packet that delivers the last missing block completes the download. -/
theorem Pending.completes (hw : Pending env u d w) (hf : u.Fits env) (h : u.Carries env req)
    (hmd : env.md.Streaming) (hp : d = ∅ → req.packetType = 0#16 ∧ req.VersionFits)
    (hc : u.Complete (insert (req.dataOffset.toNat / 512) d)) :
    ∃ w', ucWiotaGatewayOtaUpgradeResMsg env req ram w =
        (if u.exMcu then .next w' else .halt .programJump w') ∧
      Completes env u w w' ∧ recvEnds w' = recvEnds w + 1 ∧ (u.exMcu → Finished w') := by
  obtain ⟨ha, hstep⟩ := hw.receives ram hf h hp
  have hall := (ha.allRecved_iff (receivedRam env req ram w) hf).mpr hc
  have hcheck := ha.check hf h hmd hc
  have hcheck' : req.check env (complete (received env req ram w)).flash = some 0 := hcheck
  have hcalls : (received env req ram w).calls = receptionCalls env req ram w ++ w.calls :=
    received_calls env req ram w
  have hends := received_recvEnds env req ram w
  rw [recvEnds] at hends
  rw [hstep, finishBlock_complete hall, ← complete, completeDownload_eq]
  simp only [hcheck', if_true, h.device]
  cases hx : u.exMcu with
  | true =>
    refine ⟨exMcuDone env req (complete (received env req ram w)), rfl, ⟨?_, fun a hlt => ?_⟩, ?_,
      fun _ => ⟨rfl, rfl⟩⟩
    · refine ⟨[.exMcu (req.writeAddr env) req.fileSize.toNat, .checkFlashData 0, .stopOtaTimer,
        .otaDataRecvEnd] ++ receptionCalls env req ram w, ?_, by simp, by simp⟩
      simp [exMcuDone, compared, complete, hcalls]
    · exact ha.image_of_complete hc hlt
    · simp [recvEnds, exMcuDone, compared, complete, List.countP_cons, OtaCall.isRecvEnd, hends]
  | false =>
    refine ⟨jumped req (complete (received env req ram w)), rfl, ⟨?_, fun a hlt => ?_⟩, ?_,
      fun h => by cases h⟩
    · refine ⟨[.jumpProgram req.fileSize.toNat (req.upgradeType.setWidth 8), .exceReportPrograming,
        .checkFlashData 0, .stopOtaTimer, .otaDataRecvEnd] ++ receptionCalls env req ram w, ?_,
        by simp, by simp⟩
      simp [jumped, compared, complete, hcalls]
    · exact ha.image_of_complete hc hlt
    · simp [recvEnds, jumped, compared, complete, List.countP_cons, OtaCall.isRecvEnd, hends]

theorem delivered_append (es fs : List OtaEvent) :
    delivered (es ++ fs) = delivered es ∪ delivered fs := by
  induction es with
  | nil => simp [delivered]
  | cons e es ih => cases e <;> simp [delivered, ih]

theorem delivered_request (es : List OtaEvent) (req : OtaUpgradeReq) (ram : ℕ → Byte) :
    delivered (es ++ [.upgradeReq req ram]) =
      insert (req.dataOffset.toNat / 512) (delivered es) := by
  rw [delivered_append, delivered, delivered, Finset.union_comm, Finset.insert_union,
    Finset.empty_union]

theorem delivered_other {e : OtaEvent} (es : List OtaEvent)
    (he : ¬∃ req ram, e = .upgradeReq req ram) : delivered (es ++ [e]) = delivered es := by
  rw [delivered_append]
  cases e with
  | upgradeReq req ram => exact absurd ⟨req, ram, rfl⟩ he
  | _ => exact Finset.union_empty _

/-- Between its packets, an upgrade has only messages that leave the download alone. -/
theorem Upgrade.Event.quiet {e : OtaEvent} (h : u.Event env e)
    (he : ¬∃ req ram, e = .upgradeReq req ram) (w : World) :
    ∃ w', otaStep env w e = .next w' ∧ Quiet w w' := by
  cases e with
  | upgradeReq req ram => exact absurd ⟨req, ram, rfl⟩ he
  | upgradeStop ioteList => exact h.elim
  | upgradeState msg ram => exact ⟨_, rfl, upgradeStateMsg_quiet env msg ram w⟩
  | missDataReq sent ram => exact ⟨_, rfl, missDataReqMsg_quiet env sent ram w⟩
  | clearOtaState => exact h.elim

theorem FirstPacket.prefix {P : OtaUpgradeReq → Prop} {es fs : List OtaEvent}
    (h : FirstPacket P (es ++ fs)) : FirstPacket P es := by
  induction es with
  | nil => trivial
  | cons e es ih => cases e <;> first | exact h | exact ih h

theorem FirstPacket.and {P Q : OtaUpgradeReq → Prop} {es : List OtaEvent} (hp : FirstPacket P es)
    (hq : FirstPacket Q es) : FirstPacket (fun req => P req ∧ Q req) es := by
  induction es with
  | nil => trivial
  | cons e es ih => cases e <;> first | exact ⟨hp, hq⟩ | exact ih hp hq

/-- The first packet of a run is the one before which nothing is delivered. -/
theorem FirstPacket.first {P : OtaUpgradeReq → Prop} {es fs : List OtaEvent}
    (h : FirstPacket P (es ++ .upgradeReq req ram :: fs)) (hd : delivered es = ∅) : P req := by
  induction es with
  | nil => exact h
  | cons e es ih =>
    cases e with
    | upgradeReq req' ram' => simp [delivered] at hd
    | upgradeStop ioteList => exact ih h hd
    | upgradeState msg ram' => exact ih h hd
    | missDataReq sent ram' => exact ih h hd
    | clearOtaState => exact ih h hd

/-- While blocks are missing the run goes on, and no check has found all data. -/
theorem run_pending {es : List OtaEvent} (hf : u.Fits env) (hi : Idle w)
    (he : ∀ e ∈ es, u.Event env e)
    (hp : FirstPacket (fun req => req.packetType = 0#16 ∧ req.VersionFits) es)
    (hc : ¬ u.Complete (delivered es)) :
    ∃ w', run (otaStep env) w es = .next w' ∧ Pending env u (delivered es) w' ∧
      recvEnds w' = recvEnds w := by
  induction es using List.reverseRecOn with
  | nil => exact ⟨w, rfl, by rwa [Pending, delivered, if_pos rfl], rfl⟩
  | append_singleton es e ih =>
    have hsub : delivered es ⊆ delivered (es ++ [e]) := by
      rw [delivered_append]
      exact Finset.subset_union_left
    obtain ⟨v, hr, hv, hends⟩ := ih (fun a ha => he a (List.mem_append_left _ ha)) hp.prefix
      fun h => hc (h.trans hsub)
    have hev := he e (List.mem_append_right _ List.mem_cons_self)
    by_cases hreq : ∃ req ram, e = .upgradeReq req ram
    · obtain ⟨req, ram, rfl⟩ := hreq
      rw [delivered_request] at hc ⊢
      obtain ⟨ha, hstep⟩ := hv.receives ram hf hev hp.first
      have hopen := (ha.allRecved_iff (receivedRam env req ram v) hf).not.mpr hc
      rw [finishBlock_incomplete hopen] at hstep
      have hq : Quiet (received env req ram v)
          ((received env req ram v).scan (received env req ram v).ota.blockCount) := .of_scan le_rfl
      rw [run_snoc, hr, Outcome.bind_next, otaStep, hstep]
      refine ⟨_, rfl, hq.keeps_pending ?_, by rw [hq.recvEnds_eq, received_recvEnds, hends]⟩
      rwa [Pending, if_neg (Finset.insert_ne_empty _ _)]
    · obtain ⟨v', hs, hq⟩ := hev.quiet hreq v
      rw [run_snoc, hr, Outcome.bind_next, hs, delivered_other es hreq]
      exact ⟨v', rfl, hq.keeps_pending hv, by rw [hq.recvEnds_eq, hends]⟩

/-- After the download for the external MCU further packets of it are rejected. -/
theorem Finished.run_keeps {es : List OtaEvent} (hw : Finished w) (hx : u.exMcu)
    (he : ∀ e ∈ es, u.Event env e) : ∃ w', run (otaStep env) w es = .next w' ∧
      w'.flash = w.flash ∧ recvEnds w' = recvEnds w := by
  induction es generalizing w with
  | nil => exact ⟨w, rfl, rfl, rfl⟩
  | cons e es ih =>
    have hstep : ∃ v, otaStep env w e = .next v ∧ Finished v ∧ v.flash = w.flash ∧
        recvEnds v = recvEnds w := by
      have hev := he e List.mem_cons_self
      by_cases hreq : ∃ req ram, e = .upgradeReq req ram
      · obtain ⟨req, ram, rfl⟩ := hreq
        have hc : ¬ req.Considered env w := by
          rintro ⟨-, -, -, ha⟩
          simp [OtaUpgradeReq.Admissible, hw.otaState, OtaUpgradeReq.Unblocked, hev.device, hx,
            hw.otaDlState] at ha
        refine ⟨_, upgradeReq_rejected hc, ⟨?_, hw.otaDlState⟩, rfl, rfl⟩
        simp [rejected, hw.otaState]
      · obtain ⟨v, hs, hq⟩ := hev.quiet hreq w
        exact ⟨v, hs, ⟨hq.otaState.trans hw.otaState, hq.otaDlState.trans hw.otaDlState⟩, hq.flash,
          hq.recvEnds_eq⟩
    obtain ⟨v, hs, hv, hfl, hends⟩ := hstep
    obtain ⟨w', hr, hfl', hends'⟩ := ih hv fun a ha => he a (List.mem_cons_of_mem _ ha)
    exact ⟨w', by rw [run_cons, hs, Outcome.bind_next, hr], hfl'.trans hfl, hends'.trans hends⟩

/-- A run that delivers everything has a first packet after which that is so. -/
theorem exists_completing {es : List OtaEvent} (h : u.Complete (delivered es))
    (h0 : ¬ u.Complete ∅) : ∃ pre req ram post, es = pre ++ .upgradeReq req ram :: post ∧
      ¬ u.Complete (delivered pre) ∧
      u.Complete (insert (req.dataOffset.toNat / 512) (delivered pre)) := by
  induction es using List.reverseRecOn with
  | nil => exact absurd h h0
  | append_singleton es e ih =>
    by_cases hc : u.Complete (delivered es)
    · obtain ⟨pre, req, ram, post, rfl, hpre, hlast⟩ := ih hc
      exact ⟨pre, req, ram, post ++ [e], by simp, hpre, hlast⟩
    · by_cases hreq : ∃ req ram, e = .upgradeReq req ram
      · obtain ⟨req, ram, rfl⟩ := hreq
        rw [delivered_request] at h
        exact ⟨es, req, ram, [], rfl, hc, h⟩
      · rw [delivered_other es hreq] at h
        exact absurd h hc

/-- The download completes exactly with the packet that delivers the last missing block: the check
then finds all data, the digest matches, the image is on the flash, and nothing that follows
writes to it or completes again. -/
def CompletesOnce (env : Env) (u : Upgrade) (w : World) (es : List OtaEvent) : Prop :=
  (¬ u.Complete (delivered es) →
    ∃ w', run (otaStep env) w es = .next w' ∧ recvEnds w' = recvEnds w) ∧
  (u.Complete (delivered es) → ∃ pre req ram post v, es = pre ++ .upgradeReq req ram :: post ∧
    ¬ u.Complete (delivered pre) ∧ u.Complete (delivered (pre ++ [.upgradeReq req ram])) ∧
    run (otaStep env) w pre = .next v ∧ recvEnds v = recvEnds w ∧
    Completes env u v (otaStep env v (.upgradeReq req ram)).state ∧
    (run (otaStep env) w es).state.flash = (otaStep env v (.upgradeReq req ram)).state.flash ∧
    recvEnds (run (otaStep env) w es).state = recvEnds w + 1)

/-- From an idle state, packets of an upgrade in any order and with any duplicates, state
messages and missing-data requests complete the download once, where the version of the first
packet fits. -/
theorem download_order_independent (env : Env) (u : Upgrade) (w : World) (es : List OtaEvent)
    (hf : u.Fits env) (hmd : env.md.Streaming) (hi : Idle w) (he : ∀ e ∈ es, u.Event env e)
    (hp : FirstPacket (fun req => req.packetType = 0#16) es)
    (hv : FirstPacket OtaUpgradeReq.VersionFits es) : CompletesOnce env u w es := by
  replace hp := hp.and hv
  constructor
  · intro hc
    obtain ⟨w', hr, -, hends⟩ := run_pending hf hi he hp hc
    exact ⟨w', hr, hends⟩
  · intro hc
    have h0 : ¬ u.Complete ∅ := by
      intro h
      have hpos := hf.nonempty
      have hmem := h (Finset.mem_range.mpr (block_lt 512 (by decide) hpos))
      simp at hmem
    obtain ⟨pre, req, ram, post, rfl, hpre, hlast⟩ := exists_completing hc h0
    obtain ⟨v, hr, hv, hends⟩ := run_pending hf hi
      (fun e h => he e (List.mem_append_left _ h)) hp.prefix hpre
    have hev : u.Carries env req :=
      he (.upgradeReq req ram) (List.mem_append_right _ List.mem_cons_self)
    obtain ⟨w', hstep, hcomp, hends', hfin⟩ :=
      hv.completes ram hf hev hmd hp.first hlast
    have hpost : ∀ e ∈ post, u.Event env e :=
      fun e h => he e (List.mem_append_right _ (List.mem_cons_of_mem _ h))
    have hstate : (otaStep env v (.upgradeReq req ram)).state = w' := by
      rw [otaStep, hstep]
      split <;> rfl
    have hrest : (run (otaStep env) w (pre ++ .upgradeReq req ram :: post)).state.flash = w'.flash ∧
        recvEnds (run (otaStep env) w (pre ++ .upgradeReq req ram :: post)).state = recvEnds w' := by
      rw [run_append, hr, Outcome.bind_next, run_cons, otaStep, hstep]
      cases hx : u.exMcu with
      | true =>
        obtain ⟨w'', hrun, hfl, he''⟩ := (hfin hx).run_keeps hx hpost
        simp only [if_true, Outcome.bind_next, hrun, Outcome.state_next]
        exact ⟨hfl, he''⟩
      | false =>
        simp only [Bool.false_eq_true, if_false, Outcome.bind_halt, Outcome.state_halt, and_self]
    refine ⟨pre, req, ram, post, v, rfl, hpre, ?_, hr, hends, hstate ▸ hcomp, ?_, ?_⟩
    · rwa [delivered_request]
    · rw [hrest.1, hstate]
    · rw [hrest.2, hends', hends]

/-- A file of three blocks, 1025 times the letter "a". -/
@[irreducible] def letters : List Byte := List.replicate 1025 0x61

/-- The digest of the letters, and no other. -/
def md5OfLetters (message : List Byte) : List Byte :=
  if message = letters then
    [0xae, 0x18, 0x7e, 0x1f, 0xeb, 0xee, 0x2a, 0x15, 0x0b, 0x64, 0x84, 0x9c, 0x32, 0xd5, 0x66, 0xca]
  else []

/-- The text of the digest, as in a request. -/
def lettersMd5 : Vector Byte 36 :=
  #v[0x61, 0x65, 0x31, 0x38, 0x37, 0x65, 0x31, 0x66, 0x65, 0x62, 0x65, 0x65, 0x32, 0x61, 0x31, 0x35,
    0x30, 0x62, 0x36, 0x34, 0x38, 0x34, 0x39, 0x63, 0x33, 0x32, 0x64, 0x35, 0x36, 0x36, 0x63, 0x61,
    0, 0, 0, 0]

def envOfLetters : Env := .standard (.ofDigest md5OfLetters)

def lettersUpgrade (exMcu : Bool) : Upgrade := ⟨letters, 7#16, lettersMd5, exMcu⟩

/-- The packet with block `k` of the file, for the external MCU. -/
def lettersPacket (k : ℕ) (packetType : BitVec 16) : OtaUpgradeReq :=
  { OtaUpgradeReq.standard with
    deviceType := exMcuDeviceType, md5 := lettersMd5, fileSize := 1025#32
    dataOffset := BitVec.ofNat 32 (512 * k), dataLength := if k = 2 then 1#16 else 512#16
    packetType := packetType }

/-- Block 2, block 0, block 2 again, a request for missing data, block 1, and block 0 once more. -/
def lettersRun : List OtaEvent :=
  [.upgradeReq (lettersPacket 2 0#16) fun _ => 0, .upgradeReq (lettersPacket 0 0#16) fun _ => 0,
    .upgradeReq (lettersPacket 2 1#16) fun _ => 0, .missDataReq true fun _ => 0,
    .upgradeReq (lettersPacket 1 1#16) fun _ => 0, .upgradeReq (lettersPacket 0 1#16) fun _ => 0]

theorem letters_length : letters.length = 1025 := by
  rw [letters]
  exact List.length_replicate

theorem letters_getD {a : ℕ} (h : a < 1025) : letters.getD a 0 = 0x61 := by
  have hlt : a < letters.length := by rwa [letters_length]
  rw [List.getD_eq_getElem _ _ hlt]
  simp only [letters, List.getElem_replicate]

theorem lettersUpgrade_fits (exMcu : Bool) : (lettersUpgrade exMcu).Fits envOfLetters := by
  have hlen : (lettersUpgrade exMcu).image.length = 1025 := letters_length
  have hroom : (lettersUpgrade exMcu).image.length ≤ (lettersUpgrade exMcu).room envOfLetters := by
    rw [hlen]
    cases exMcu <;> decide
  have hdigest : md5OfLetters ([] ++ letters) =
      [0xae, 0x18, 0x7e, 0x1f, 0xeb, 0xee, 0x2a, 0x15, 0x0b, 0x64, 0x84, 0x9c, 0x32, 0xd5, 0x66, 0xca] := by
    rw [List.nil_append, md5OfLetters]
    exact if_pos rfl
  have hmd5 : (hexText (md5OfLetters ([] ++ letters))).take 32 = lettersMd5.toList.take 32 := by
    rw [hdigest]
    decide
  exact ⟨by omega, by omega, hroom, Upgrade.in_flash_of_room (by decide) hroom, hmd5⟩

theorem lettersPacket_carries {k : ℕ} (hk : k < 3) (packetType : BitVec 16) :
    (lettersUpgrade true).Carries envOfLetters (lettersPacket k packetType) := by
  have hlen : (lettersUpgrade true).image.length = 1025 := letters_length
  have hoff : (lettersPacket k packetType).dataOffset.toNat = 512 * k := Nat.mod_eq_of_lt (by omega)
  have hdata : (lettersPacket k packetType).dataLength.toNat = min 512 (1025 - 512 * k) := by
    interval_cases k <;> rfl
  have htargets : OtaUpgradeReq.standard.Targets envOfLetters := by decide
  refine ⟨rfl, .inl htargets, .inl rfl, rfl, rfl, hlen.symm, by omega, by omega,
    by rw [hdata, hoff, hlen], fun i hi => ?_⟩
  rw [hoff]
  exact (letters_getD (by omega)).symm

/-- The packets complete the download once and leave the letters on the flash. -/
theorem lettersRun_completes_once :
    recvEnds (run (otaStep envOfLetters) (.boot ⟨fun _ => 0, []⟩) lettersRun).state = 1 ∧
    ∀ a < 1025, (run (otaStep envOfLetters) (.boot ⟨fun _ => 0, []⟩) lettersRun).state.flash.cell
      (0x4d000 + a) = 0x61 := by
  have hi : Idle (.boot ⟨fun _ => 0, []⟩) := ⟨rfl, fun k => BitArray.test_clear k, rfl, rfl⟩
  have he : ∀ e ∈ lettersRun, (lettersUpgrade true).Event envOfLetters e := by
    simp only [lettersRun, List.forall_mem_cons, Upgrade.Event]
    exact ⟨lettersPacket_carries (by decide) _, lettersPacket_carries (by decide) _,
      lettersPacket_carries (by decide) _, trivial, lettersPacket_carries (by decide) _,
      lettersPacket_carries (by decide) _, nofun⟩
  have hv : (lettersPacket 2 0#16).VersionFits := by decide
  have hc : (lettersUpgrade true).Complete (delivered lettersRun) := by
    show Finset.range (blocks 512 letters.length) ⊆ _
    rw [letters_length]
    decide
  obtain ⟨-, hdone⟩ := download_order_independent envOfLetters (lettersUpgrade true)
    (.boot ⟨fun _ => 0, []⟩) lettersRun (lettersUpgrade_fits true)
    (TinyMd5.ofDigest_streaming md5OfLetters) hi he rfl hv
  obtain ⟨pre, req, ram, post, v, -, -, -, -, -, ⟨-, himage⟩, hfl, hends⟩ := hdone hc
  refine ⟨hends, fun a ha => ?_⟩
  rw [hfl]
  exact (himage a (by rwa [show (lettersUpgrade true).image.length = 1025 from letters_length])).trans
    (letters_getD ha)

/-- The file "a" for the device itself. -/
def letterUpgrade : Upgrade := ⟨[0x61], 7#16, OtaUpgradeReq.standard.md5, false⟩

/-- Its only packet, from version "v3" to version "v1.2.3-20240131b", whose 16 characters leave no
room for an end. -/
def overlongPacket : OtaUpgradeReq :=
  { OtaUpgradeReq.standard with
    newVersion := #v[0x76, 0x31, 0x2e, 0x32, 0x2e, 0x33, 0x2d, 0x32, 0x30, 0x32, 0x34, 0x30, 0x31,
      0x33, 0x31, 0x62] }

/-- The start leaves the two characters of the old version in the OTA state, 0x3376. -/
theorem overlongPacket_step : ucWiotaGatewayOtaUpgradeResMsg .demo overlongPacket (fun _ => 0)
    (.boot ⟨fun _ => 0, []⟩) =
      .next (begun .demo overlongPacket (admitted overlongPacket (.boot ⟨fun _ => 0, []⟩))) ∧
    (begun .demo overlongPacket (admitted overlongPacket (.boot ⟨fun _ => 0, []⟩))).ota.otaState =
      .other 13174#32 (by decide) := by
  have hs : overlongPacket.Starts .demo (.boot ⟨fun _ => 0, []⟩) := by decide
  exact ⟨upgradeReq_derails hs (erase_returns hs.1.1 (by decide) _) (by decide), rfl⟩

/-- The download of the letter does not complete where the version fills its member. -/
theorem overlongVersion_never_completes : ¬ ∀ (env : Env) (u : Upgrade) (w : World)
    (es : List OtaEvent), u.Fits env → env.md.Streaming → Idle w → (∀ e ∈ es, u.Event env e) →
      FirstPacket (fun req => req.packetType = 0#16) es → CompletesOnce env u w es := by
  intro h
  have hroom : letterUpgrade.image.length ≤ letterUpgrade.room .demo := by decide
  have hf : letterUpgrade.Fits .demo :=
    ⟨by decide, by decide, hroom, Upgrade.in_flash_of_room (by decide) hroom, by decide⟩
  have hi : Idle (.boot ⟨fun _ => 0, []⟩) := ⟨rfl, fun k => BitArray.test_clear k, rfl, rfl⟩
  have hcarries : letterUpgrade.Carries .demo overlongPacket :=
    ⟨by decide, by decide, by decide, rfl, rfl, by decide, by decide, by decide, by decide, by decide⟩
  obtain ⟨-, hdone⟩ := h .demo letterUpgrade (.boot ⟨fun _ => 0, []⟩)
    [.upgradeReq overlongPacket fun _ => 0] hf (TinyMd5.ofDigest_streaming md5OfA) hi
    (List.forall_mem_singleton.mpr hcarries) rfl
  obtain ⟨-, -, -, -, -, -, -, -, -, -, -, -, hends⟩ := hdone (by decide)
  rw [run_cons, otaStep, overlongPacket_step.1, Outcome.bind_next, run_nil, Outcome.state_next] at hends
  exact absurd hends (by decide)

end WiotaDev.GatewayOta
