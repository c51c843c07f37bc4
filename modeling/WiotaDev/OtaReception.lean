import WiotaDev.OtaAdmission
import WiotaDev.OtaFlashLaws
import Mathlib.Data.List.TakeWhile

/-! # What the reception of a block does

A considered request either begins a download and receives its block in the state
`started`, or receives it in the running download. Where the version of the request overruns
its member, the start leaves the OTA state at another value and no block is received. The
reception stores the block when its bit is clear, looks through the map, and completes the
download when every bit of it is set. -/

namespace WiotaDev.GatewayOta
open WordBytes OtaFlash HaltingRuns

variable {env : Env} {req : OtaUpgradeReq} {ram : ℕ → Byte} {w w' : World}

/-- The flash after the erase of a new download, and whether the erase returns. -/
def OtaUpgradeReq.erase (env : Env) (req : OtaUpgradeReq) (fl : Flash) : Flash × Bool :=
  ucWiotaOtaFlashErase (req.writeAddr env) req.fileSize.toNat fl

theorem writeAddr_aligned (env : Env) (req : OtaUpgradeReq) :
    req.writeAddr env % 4096 = 0 ∧ req.maxSize env % 4096 = 0 ∧
      req.writeAddr env + req.maxSize env < 2 ^ 31 := by
  have := env.part.bin_aligned
  have := env.part.reserved_aligned
  have := env.part.ota_aligned
  have := env.part.total_lt
  rw [OtaUpgradeReq.writeAddr, OtaUpgradeReq.maxSize]
  split <;> omega

theorem fileSize_nonneg (hl : ¬ req.TooLarge env) (h : 0 ≤ req.fileSize.toInt) :
    req.fileSize.toNat ≤ req.maxSize env := by
  have hle : req.fileSize.toInt ≤ req.maxSize env := not_lt.mp hl
  have := BitVec.toInt_eq_toNat_cond req.fileSize
  split at this <;> omega

/-- The erase of an accepted file of size zero or more covers the file and returns. -/
theorem erase_spec (hl : ¬ req.TooLarge env) (h : 0 ≤ req.fileSize.toInt) (fl : Flash) :
    (req.erase env fl).2 = true ∧
      (req.erase env fl).1.cell = NorFlash.eraseRange fl.cell (req.writeAddr env)
        (4096 * ((req.fileSize.toNat + 4095) / 4096)) ∧
      ∃ new, (req.erase env fl).1.ops = new ++ fl.ops ∧
        ∀ op, op ∈ new ↔ ∃ i < (req.fileSize.toNat + 4095) / 4096,
          op = .erase4K (req.writeAddr env + 4096 * i) := by
  obtain ⟨ha, -, hlt⟩ := writeAddr_aligned env req
  have hle := fileSize_nonneg hl h
  exact ucWiotaOtaFlashErase_spec (req.writeAddr env) req.fileSize.toNat fl ha (by omega)

theorem erase_returns (hl : ¬ req.TooLarge env) (h : 0 ≤ req.fileSize.toInt) (fl : Flash) :
    (req.erase env fl).2 = true := (erase_spec hl h fl).1

/-- The download fields as the start sets them before it erases. -/
def erasing (env : Env) (req : OtaUpgradeReq) (w : World) : World :=
  { w with
    ota := { w.ota with
      mcsLen := req.mcsLen, blockSize := GATEWAY_OTA_BLOCK_SIZE, blockCount := req.blockCount }
    flash := (req.erase env w.flash).1
    calls := .flashErase (req.writeAddr env) req.fileSize.toNat :: w.calls }

/-- The state that the start of a download leaves. -/
def begun (env : Env) (req : OtaUpgradeReq) (w : World) : World :=
  { erasing env req w with
    ota := OtaPara.copyVersion req.versionText { (erasing env req w).ota with
      binAddr := req.writeAddr env, otaState := .download, otaDlState := .downloading
      upgradeType := req.upgradeType.setWidth 8 }
    calls := .exceReportUpgrade :: .controlOtaTimer req.upgradeTime.toNat ::
      (erasing env req w).calls }

/-- The state in which a new download receives its first block. -/
def started (env : Env) (req : OtaUpgradeReq) (w : World) : World :=
  { erasing env req w with
    ota := { (erasing env req w).ota with
      binAddr := req.writeAddr env, otaState := .download, otaDlState := .downloading
      upgradeType := req.upgradeType.setWidth 8
      newVersion := rtStrncpy w.ota.newVersion req.versionText }
    calls := .exceReportUpgrade :: .controlOtaTimer req.upgradeTime.toNat ::
      (erasing env req w).calls }

/-- The copied version ends inside its member, or its one byte behind it is the one that stands
there in a download. -/
def OtaUpgradeReq.VersionFits (req : OtaUpgradeReq) : Prop := req.versionText.drop 16 <+: [1#8]

instance : Decidable req.VersionFits := inferInstanceAs (Decidable (_ <+: _))

section Version
variable {ota : OtaPara} {text : List Byte}

theorem not_mem_cText (bytes : List Byte) : 0#8 ∉ cText bytes := by
  intro h
  have := List.mem_takeWhile_imp h
  simp at this

theorem ofWord_eq_download {value : BitVec 32} : OtaState.ofWord value = .download ↔ value = 1#32 := by
  rw [OtaState.ofWord]
  constructor
  · split_ifs with hbeyond h0 h1 h2
    · exact fun h => by cases h
    · exact fun h => by cases h
    · exact fun _ => h1
    · exact fun h => by cases h
    · exact fun h => by cases h
  · rintro rfl
    rfl

theorem overWord_one_iff (hz : 0#8 ∉ text) (k : ℕ) :
    overWord text k 1#32 = 1#32 ↔ text.drop k <+: [1#8] := by
  have hget (j : ℕ) (d : Byte) : text.getD (k + j) d = (text.drop k).getD j d := by
    rw [List.getD_eq_getElem?_getD, List.getD_eq_getElem?_getD, List.getElem?_drop]
  have hrest : 0#8 ∉ text.drop k := fun h => hz (List.mem_of_mem_drop h)
  rw [eq_iff_byteOf]
  cases htail : text.drop k with
  | nil =>
    refine iff_of_true (fun j hj => ?_) List.nil_prefix
    rw [byteOf_overWord _ _ _ hj, hget, htail]
    rfl
  | cons a rest =>
    have hfirst : byteOf (overWord text k 1#32) 0 = a := by
      rw [byteOf_overWord _ _ _ (by decide), hget, htail]
      rfl
    cases rest with
    | nil =>
      constructor
      · intro h
        rw [← hfirst, h 0 (by decide)]
        exact List.prefix_refl _
      · intro h j hj
        obtain ⟨rfl, -⟩ := List.cons_prefix_cons.mp h
        rw [byteOf_overWord _ _ _ hj, hget, htail]
        cases j <;> rfl
    | cons b rest =>
      refine iff_of_false (fun h => ?_) fun h => by simp at h
      have hsecond : byteOf (overWord text k 1#32) 1 = b := by
        rw [byteOf_overWord _ _ _ (by decide), hget, htail]
        rfl
      have hzero : b = 0#8 := hsecond.symm.trans (h 1 (by decide))
      rw [htail, hzero] at hrest
      simp at hrest

/-- The copy of a version leaves the state of a download exactly if the version fits. -/
theorem copyVersion_otaState (hz : 0#8 ∉ text) (hs : ota.otaState = .download) :
    (ota.copyVersion text).otaState = .download ↔ text.drop 16 <+: [1#8] := by
  rw [← overWord_one_iff hz]
  show OtaState.ofWord (overWord text 16 ota.otaState.toWord) = .download ↔ _
  rw [ofWord_eq_download, hs]
  rfl

/-- A version that fits changes its own member only. -/
theorem copyVersion_of_fits (hz : 0#8 ∉ text) (hs : ota.otaState = .download)
    (h : text.drop 16 <+: [1#8]) :
    ota.copyVersion text = { ota with newVersion := rtStrncpy ota.newVersion text } := by
  have hlen : text.length ≤ 17 := by
    have := h.length_le
    rw [List.length_drop, List.length_singleton] at this
    omega
  have hbyte (k : ℕ) (hk : 17 ≤ k) (d : Byte) : text.getD k d = d :=
    List.getD_eq_default _ _ (by omega)
  have hnat (k n : ℕ) (hk : 17 ≤ k) : overNat text k n = n := if_pos (by omega)
  have hmap : rtStrncpy ota.maskMap (text.drop 32) = ota.maskMap := by
    rw [List.drop_eq_nil_of_le (by omega)]
    exact Vector.ext fun i hi => by simp [rtStrncpy]
  have hstate := (copyVersion_otaState hz hs).mpr h
  have hcopy : OtaState.ofWord (overWord text 16 ota.otaState.toWord) = ota.otaState :=
    Eq.trans hstate hs.symm
  simp only [OtaPara.copyVersion, hcopy, hmap, hbyte _ (show 17 ≤ 20 by decide),
    hbyte _ (show 17 ≤ 21 by decide), hbyte _ (show 17 ≤ 22 by decide),
    hbyte _ (show 17 ≤ 23 by decide), hnat _ _ (show 17 ≤ 24 by decide),
    hnat _ _ (show 17 ≤ 28 by decide), hnat _ _ (show 17 ≤ 68 by decide),
    hnat _ _ (show 17 ≤ 72 by decide), overHalf_of_le (hlen.trans (show 17 ≤ 60 by decide)),
    overHalf_of_le (hlen.trans (show 17 ≤ 62 by decide)),
    overWord_of_le (hlen.trans (show 17 ≤ 64 by decide))]

theorem OtaUpgradeReq.not_mem_versionText (req : OtaUpgradeReq) : 0#8 ∉ req.versionText :=
  not_mem_cText _

theorem begun_of_fits (h : req.VersionFits) : begun env req w = started env req w := by
  rw [begun, copyVersion_of_fits req.not_mem_versionText rfl h]
  rfl

theorem begun_otaState (env : Env) (req : OtaUpgradeReq) (w : World) :
    (begun env req w).ota.otaState = .download ↔ req.VersionFits :=
  copyVersion_otaState req.not_mem_versionText rfl

end Version

@[simp] theorem erasing_flash (env : Env) (req : OtaUpgradeReq) (w : World) :
    (erasing env req w).flash = (req.erase env w.flash).1 := rfl

@[simp] theorem begun_flash (env : Env) (req : OtaUpgradeReq) (w : World) :
    (begun env req w).flash = (req.erase env w.flash).1 := rfl

@[simp] theorem started_flash (env : Env) (req : OtaUpgradeReq) (w : World) :
    (started env req w).flash = (req.erase env w.flash).1 := rfl

@[simp] theorem started_maskMap (env : Env) (req : OtaUpgradeReq) (w : World) :
    (started env req w).ota.maskMap = w.ota.maskMap := rfl

/-- Where the block of a request goes. -/
def OtaUpgradeReq.flashAddr (env : Env) (req : OtaUpgradeReq) : ℕ :=
  (req.writeAddr env + req.dataOffset.toNat) % 2 ^ 32

/-- The result of the write of the block. -/
def OtaUpgradeReq.write (env : Env) (req : OtaUpgradeReq) (fl : Flash) : ℤ × Flash :=
  ucWiotaOtaFlashWrite req.data (req.flashAddr env) req.dataLength.toNat fl

/-- The state after the write of a block and before its bit is set. -/
def stored (env : Env) (req : OtaUpgradeReq) (w : World) : World :=
  { w with
    flash := (req.write env w.flash).2
    calls := .flashWrite (req.flashAddr env) req.dataLength.toNat (req.write env w.flash).1 ::
      w.calls }

/-- The state after a block is stored and its bit set. -/
def written (env : Env) (req : OtaUpgradeReq) (w : World) : World :=
  { stored env req w with ota := { w.ota.setBit req.block with
      otaRecvedLen :=
        ((w.ota.setBit req.block).otaRecvedLen + req.dataLength.toNat) % 2 ^ 32 } }

section Bits
variable {ota : OtaPara} {k : ℕ}

theorem judgmentBit_of_lt (ram : ℕ → Byte) (ota : OtaPara) (hk : k < 224) :
    judgmentBit ram ota k = BitArray.test ota.maskMap k := if_pos hk

theorem setBit_of_lt (ota : OtaPara) (hk : k < 224) :
    ota.setBit k = { ota with maskMap := BitArray.mark ota.maskMap k } := if_pos hk

/-- A bit behind the map changes nothing but the members from `mcs_len` on. -/
theorem setBit_eq (ota : OtaPara) (k : ℕ) : ∃ map mcs num dev len addr, ota.setBit k =
    { ota with
      maskMap := map, mcsLen := mcs, upgradeNum := num, devAddress := dev, otaRecvedLen := len
      binAddr := addr } := by
  rw [OtaPara.setBit]
  split_ifs <;> exact ⟨_, _, _, _, _, _, rfl⟩

@[simp] theorem written_otaState (env : Env) (req : OtaUpgradeReq) (w : World) :
    (written env req w).ota.otaState = w.ota.otaState := by
  obtain ⟨map, mcs, num, dev, len, addr, h⟩ := setBit_eq w.ota req.block
  simp only [written, h]

@[simp] theorem written_otaDlState (env : Env) (req : OtaUpgradeReq) (w : World) :
    (written env req w).ota.otaDlState = w.ota.otaDlState := by
  obtain ⟨map, mcs, num, dev, len, addr, h⟩ := setBit_eq w.ota req.block
  simp only [written, h]

@[simp] theorem written_blockCount (env : Env) (req : OtaUpgradeReq) (w : World) :
    (written env req w).ota.blockCount = w.ota.blockCount := by
  obtain ⟨map, mcs, num, dev, len, addr, h⟩ := setBit_eq w.ota req.block
  simp only [written, h]

@[simp] theorem written_newVersion (env : Env) (req : OtaUpgradeReq) (w : World) :
    (written env req w).ota.newVersion = w.ota.newVersion := by
  obtain ⟨map, mcs, num, dev, len, addr, h⟩ := setBit_eq w.ota req.block
  simp only [written, h]

@[simp] theorem written_missDataNum (env : Env) (req : OtaUpgradeReq) (w : World) :
    (written env req w).ota.missDataNum = w.ota.missDataNum := by
  obtain ⟨map, mcs, num, dev, len, addr, h⟩ := setBit_eq w.ota req.block
  simp only [written, h]

/-- A block of the map changes its bit and the received length. -/
theorem written_of_lt (env : Env) (w : World) (hk : req.block < 224) :
    (written env req w).ota = { w.ota with
      maskMap := BitArray.mark w.ota.maskMap req.block
      otaRecvedLen := (w.ota.otaRecvedLen + req.dataLength.toNat) % 2 ^ 32 } := by
  rw [written, setBit_of_lt _ hk]

end Bits

/-- The access to `mask_map` for block `k`. -/
def World.touch (k : ℕ) (w : World) : World := { w with mapIndices := k / 8 :: w.mapIndices }

@[simp] theorem touch_ota (k : ℕ) (w : World) : (w.touch k).ota = w.ota := rfl
@[simp] theorem touch_flash (k : ℕ) (w : World) : (w.touch k).flash = w.flash := rfl
@[simp] theorem touch_calls (k : ℕ) (w : World) : (w.touch k).calls = w.calls := rfl
@[simp] theorem touch_mapIndices (k : ℕ) (w : World) :
    (w.touch k).mapIndices = k / 8 :: w.mapIndices := rfl

/-- Every block of the download has its bit. -/
def AllRecved (ram : ℕ → Byte) (w : World) : Prop :=
  ∀ k < w.ota.blockCount, judgmentBit ram w.ota k = true

instance : Decidable (AllRecved ram w) := inferInstanceAs (Decidable (∀ k < w.ota.blockCount, _))

/-- The end of a reception. -/
def finishBlock (env : Env) (req : OtaUpgradeReq) (ram : ℕ → Byte) (w : World) : Step :=
  let (isRecved, w) := ucWiotaGatewayWhetherTheOtaUpgradeDataIsRecved ram w
  if isRecved then completeDownload env req w else .next w

theorem startDownload_eq (env : Env) (req : OtaUpgradeReq) (w : World) :
    startDownload env req w =
      if (req.erase env w.flash).2 then .next (begun env req w)
      else .halt .eraseNeverEnds (erasing env req w) := rfl

theorem receiveBlock_eq (env : Env) (req : OtaUpgradeReq) (ram : ℕ → Byte) (w : World) :
    receiveBlock env req ram w =
      if judgmentBit ram w.ota req.block then finishBlock env req ram (w.touch req.block)
      else finishBlock env req (setRam req.block ram) (written env req (w.touch req.block)) := by
  rw [receiveBlock]
  by_cases hb : judgmentBit ram w.ota req.block
  · simp only [hb, if_true]
    rfl
  · simp only [hb, Bool.false_eq_true, if_false]
    rfl

theorem finishBlock_incomplete (h : ¬ AllRecved ram w) :
    finishBlock env req ram w = .next (w.scan w.ota.blockCount) := by
  have hcount : ¬ (List.range w.ota.blockCount).countP (judgmentBit ram w.ota) ≥
      w.ota.blockCount := fun hge => h ((BitArray.countP_range_eq_iff _ _).mp hge)
  simp only [finishBlock, ucWiotaGatewayWhetherTheOtaUpgradeDataIsRecved, scan_ota, hcount,
    if_false, Bool.false_eq_true]

theorem finishBlock_complete (h : AllRecved ram w) :
    finishBlock env req ram w =
      completeDownload env req ((w.scan w.ota.blockCount).call .otaDataRecvEnd) := by
  have hcount : (List.range w.ota.blockCount).countP (judgmentBit ram w.ota) ≥
      w.ota.blockCount := (BitArray.countP_range_eq_iff _ _).mpr h
  simp only [finishBlock, ucWiotaGatewayWhetherTheOtaUpgradeDataIsRecved, scan_ota, hcount,
    if_true]

/-- The comparison of the downloaded file with the digest of the request. -/
def OtaUpgradeReq.check (env : Env) (req : OtaUpgradeReq) (fl : Flash) : Option ℤ :=
  ucWiotaOtaCheckFlashData env.md fl (req.writeAddr env) req.fileSize.toNat req.md5.toList

/-- The state after a comparison with result `rc`. -/
def compared (rc : ℤ) (w : World) : World :=
  { w with calls := .checkFlashData rc :: .stopOtaTimer :: w.calls }

/-- The state after a failed comparison in a download. -/
def checkFailed (rc : ℤ) (w : World) : World := ucGatewayClearState (compared rc w)

/-- The state after the download of a file for an external MCU. -/
def exMcuDone (env : Env) (req : OtaUpgradeReq) (w : World) : World :=
  { compared 0 w with
    ota := { w.ota with
      otaDlState := .downloadCmp, otaRecvedLen := req.fileSize.toNat, upgradeNum := 0#16
      otaState := .default, maskMap := BitArray.clear 28 }
    calls := .exMcu (req.writeAddr env) req.fileSize.toNat :: (compared 0 w).calls }

/-- The state in which the device jumps to its new program. -/
def jumped (req : OtaUpgradeReq) (w : World) : World :=
  { compared 0 w with
    ota := { w.ota with
      otaDlState := .downloadCmp, otaRecvedLen := req.fileSize.toNat, upgradeNum := 0#16
      otaState := .program }
    connectFlag := .disconnect
    calls := .jumpProgram req.fileSize.toNat (req.upgradeType.setWidth 8) ::
      .exceReportPrograming :: (compared 0 w).calls }

theorem completeDownload_eq (env : Env) (req : OtaUpgradeReq) (w : World) :
    completeDownload env req w =
      match req.check env w.flash with
      | none => .halt .checkNeverEnds (ucGatewayStopOtaTimer w)
      | some rc =>
        if rc = 0 then
          if req.isExMcu then .next (exMcuDone env req w) else .halt .programJump (jumped req w)
        else .next (checkFailed rc w) := by
  have hcheck : ucWiotaOtaCheckFlashData env.md (ucGatewayStopOtaTimer w).flash
      (req.writeAddr env) req.fileSize.toNat req.md5.toList = req.check env w.flash := rfl
  simp only [completeDownload, hcheck]
  cases req.check env w.flash with
  | none => rfl
  | some rc =>
    by_cases hrc : rc = 0
    · subst hrc
      simp only [if_true, programDownload]
      split <;> rfl
    · simp only [hrc, if_false]
      rfl

/-- How a download that completes leaves the machine running. -/
theorem completeDownload_next (h : completeDownload env req w = .next w') :
    (∃ rc ≠ 0, req.check env w.flash = some rc ∧ w' = checkFailed rc w) ∨
      (req.check env w.flash = some 0 ∧ req.isExMcu ∧ w' = exMcuDone env req w) := by
  rw [completeDownload_eq] at h
  cases hc : req.check env w.flash with
  | none => simp [hc] at h
  | some rc =>
    simp only [hc] at h
    by_cases hrc : rc = 0
    · subst hrc
      by_cases hx : req.isExMcu
      · simp only [hx, if_true, Outcome.next.injEq] at h
        exact Or.inr ⟨rfl, hx, h.symm⟩
      · simp [hx] at h
    · simp only [hrc, if_false, Outcome.next.injEq] at h
      exact Or.inl ⟨rc, hrc, rfl, h.symm⟩

@[simp] theorem clearState_flash (w : World) : (ucGatewayClearState w).flash = w.flash := by
  rw [ucGatewayClearState]
  split <;> rfl

@[simp] theorem clearState_mapIndices (w : World) :
    (ucGatewayClearState w).mapIndices = w.mapIndices := by
  rw [ucGatewayClearState]
  split <;> rfl

theorem completeDownload_frame (env : Env) (req : OtaUpgradeReq) (w : World) :
    (completeDownload env req w).state.flash = w.flash ∧
      (completeDownload env req w).state.mapIndices = w.mapIndices := by
  rw [completeDownload_eq]
  cases req.check env w.flash with
  | none => exact ⟨rfl, rfl⟩
  | some rc =>
    by_cases hrc : rc = 0
    · simp only [hrc, if_true]
      split <;> exact ⟨rfl, rfl⟩
    · simp [hrc, checkFailed, compared]

theorem finishBlock_flash (env : Env) (req : OtaUpgradeReq) (ram : ℕ → Byte) (w : World) :
    (finishBlock env req ram w).state.flash = w.flash := by
  by_cases h : AllRecved ram w
  · rw [finishBlock_complete h, (completeDownload_frame _ _ _).1]
    rfl
  · rw [finishBlock_incomplete h]
    rfl

theorem finishBlock_mapIndices (env : Env) (req : OtaUpgradeReq) (ram : ℕ → Byte) (w : World) :
    (finishBlock env req ram w).state.mapIndices = (w.scan w.ota.blockCount).mapIndices := by
  by_cases h : AllRecved ram w
  · rw [finishBlock_complete h, (completeDownload_frame _ _ _).2]
    rfl
  · rw [finishBlock_incomplete h]
    rfl

theorem admitted_otaState_of_starts (h : req.Starts env w) :
    (admitted req w).ota.otaState = .default := by
  simp only [admitted, ite_eq_right_iff]
  rintro ⟨hd, hn⟩
  exact absurd (h.2 hd) hn

theorem admitted_otaState_of_continues (hc : req.Considered env w) (h : ¬ req.Starts env w) :
    w.ota.otaState = .download ∧ w.ota.upgradeNum = req.upgradeNum ∧ ¬ req.Switches w ∧
      (admitted req w).ota.otaState = .download := by
  have hd : ¬ (w.ota.otaState = .download → req.Switches w) := fun hs => h ⟨hc, hs⟩
  obtain ⟨hd, hn⟩ := Classical.not_imp.mp hd
  have hnum : w.ota.upgradeNum = req.upgradeNum := by
    by_contra hne
    exact hn ⟨hd, hne⟩
  exact ⟨hd, hnum, hn, by simp [admitted, hd, hn]⟩

/-- The ways of a considered request. -/
theorem upgradeReq_starts (h : req.Starts env w) (hret : (req.erase env w.flash).2 = true) :
    ucWiotaGatewayOtaUpgradeResMsg env req ram w =
      if req.VersionFits then receiveBlock env req ram (started env req (admitted req w))
      else .next (begun env req (admitted req w)) := by
  have hret' : (req.erase env (admitted req w).flash).2 = true := hret
  rw [upgradeReq_considered h.1, downloadBlock, if_pos (admitted_otaState_of_starts h),
    startDownload_eq, if_pos hret', Outcome.bind_next]
  by_cases hfits : req.VersionFits
  · rw [if_pos hfits, if_pos ((begun_otaState _ _ _).mpr hfits), begun_of_fits hfits]
  · rw [if_neg hfits, if_neg (mt (begun_otaState _ _ _).mp hfits)]

theorem upgradeReq_hangs (h : req.Starts env w)
    (hret : (req.erase env w.flash).2 = false) :
    ucWiotaGatewayOtaUpgradeResMsg env req ram w =
      .halt .eraseNeverEnds (erasing env req (admitted req w)) := by
  have hret' : ¬ (req.erase env (admitted req w).flash).2 = true := by
    rw [show (admitted req w).flash = w.flash from rfl, hret]
    exact Bool.false_ne_true
  rw [upgradeReq_considered h.1, downloadBlock, if_pos (admitted_otaState_of_starts h),
    startDownload_eq, if_neg hret', Outcome.bind_halt]

theorem upgradeReq_continues (hc : req.Considered env w) (h : ¬ req.Starts env w) :
    ucWiotaGatewayOtaUpgradeResMsg env req ram w = receiveBlock env req ram (admitted req w) := by
  obtain ⟨-, -, -, hd⟩ := admitted_otaState_of_continues hc h
  rw [upgradeReq_considered hc, downloadBlock, if_neg (by simp [hd]), Outcome.bind_next, if_pos hd]

/-- The state in which a considered request receives its block. -/
def atReception (env : Env) (req : OtaUpgradeReq) (w : World) : World :=
  if req.Starts env w then started env req (admitted req w) else admitted req w

/-- The bit of the block is set where the reception looks at it. -/
def OtaUpgradeReq.Marked (env : Env) (req : OtaUpgradeReq) (ram : ℕ → Byte) (w : World) : Prop :=
  judgmentBit ram (atReception env req w).ota req.block = true

instance : Decidable (req.Marked env ram w) := inferInstanceAs (Decidable (_ = true))

/-- The request comes to the reception of its block: the erase of a download that it begins returns,
and its version fits. -/
structure OtaUpgradeReq.Receives (env : Env) (req : OtaUpgradeReq) (w : World) : Prop where
  considered : req.Considered env w
  returns : req.Starts env w → (req.erase env w.flash).2 = true
  fits : req.Starts env w → req.VersionFits

instance : Decidable (req.Receives env w) :=
  decidable_of_iff (req.Considered env w ∧ (req.Starts env w → (req.erase env w.flash).2 = true) ∧
    (req.Starts env w → req.VersionFits))
    ⟨fun h => ⟨h.1, h.2.1, h.2.2⟩, fun h => ⟨h.1, h.2, h.3⟩⟩

theorem upgradeReq_receives (h : req.Receives env w) :
    ucWiotaGatewayOtaUpgradeResMsg env req ram w =
      receiveBlock env req ram (atReception env req w) := by
  by_cases hs : req.Starts env w
  · rw [upgradeReq_starts hs (h.returns hs), if_pos (h.fits hs), atReception, if_pos hs]
  · rw [upgradeReq_continues h.considered hs, atReception, if_neg hs]

theorem upgradeReq_derails (h : req.Starts env w) (hret : (req.erase env w.flash).2 = true)
    (hfits : ¬ req.VersionFits) :
    ucWiotaGatewayOtaUpgradeResMsg env req ram w = .next (begun env req (admitted req w)) := by
  rw [upgradeReq_starts h hret, if_neg hfits]

/-- A considered request receives its block unless the erase before it never ends or its version
overruns its member. -/
theorem upgradeReq_ways (ram : ℕ → Byte) (hc : req.Considered env w) :
    (req.Starts env w ∧ (req.erase env w.flash).2 = false ∧
      ucWiotaGatewayOtaUpgradeResMsg env req ram w =
        .halt .eraseNeverEnds (erasing env req (admitted req w))) ∨
    (req.Starts env w ∧ (req.erase env w.flash).2 = true ∧ ¬ req.VersionFits ∧
      ucWiotaGatewayOtaUpgradeResMsg env req ram w = .next (begun env req (admitted req w))) ∨
    (req.Receives env w ∧ ucWiotaGatewayOtaUpgradeResMsg env req ram w =
      receiveBlock env req ram (atReception env req w)) := by
  by_cases hs : req.Starts env w
  · cases hret : (req.erase env w.flash).2 with
    | false => exact .inl ⟨hs, rfl, upgradeReq_hangs hs hret⟩
    | true =>
      by_cases hfits : req.VersionFits
      · have h : req.Receives env w := ⟨hc, fun _ => hret, fun _ => hfits⟩
        exact .inr (.inr ⟨h, upgradeReq_receives h⟩)
      · exact .inr (.inl ⟨hs, rfl, hfits, upgradeReq_derails hs hret hfits⟩)
  · have h : req.Receives env w := ⟨hc, fun h => absurd h hs, fun h => absurd h hs⟩
    exact .inr (.inr ⟨h, upgradeReq_receives h⟩)

/-- The state after the block of a considered request, before the end of its reception. -/
def received (env : Env) (req : OtaUpgradeReq) (ram : ℕ → Byte) (w : World) : World :=
  if req.Marked env ram w then (atReception env req w).touch req.block
  else written env req ((atReception env req w).touch req.block)

/-- The memory behind `gateway_mode` then. -/
def receivedRam (env : Env) (req : OtaUpgradeReq) (ram : ℕ → Byte) (w : World) : ℕ → Byte :=
  if req.Marked env ram w then ram else setRam req.block ram

/-- The calls up to the end of the reception, newest first. -/
def receptionCalls (env : Env) (req : OtaUpgradeReq) (ram : ℕ → Byte) (w : World) :
    List OtaCall :=
  (if req.Marked env ram w then []
    else [.flashWrite (req.flashAddr env) req.dataLength.toNat
      (req.write env (atReception env req w).flash).1]) ++
  (if req.Starts env w then
    [.exceReportUpgrade, .controlOtaTimer req.upgradeTime.toNat,
      .flashErase (req.writeAddr env) req.fileSize.toNat] else []) ++
  (if req.Switches w then [.stopOtaTimer] else [])

@[simp] theorem atReception_maskMap (env : Env) (req : OtaUpgradeReq) (w : World) :
    (atReception env req w).ota.maskMap = req.currentMap w := by
  rw [atReception]
  split <;> rfl

theorem atReception_otaState (hc : req.Considered env w) :
    (atReception env req w).ota.otaState = .download := by
  rw [atReception]
  by_cases hs : req.Starts env w
  · rw [if_pos hs]
    rfl
  · rw [if_neg hs]
    exact (admitted_otaState_of_continues hc hs).2.2.2

theorem admitted_calls (req : OtaUpgradeReq) (w : World) : (admitted req w).calls =
    (if req.Switches w then [.stopOtaTimer] else []) ++ w.calls := by
  simp only [admitted]
  split <;> rfl

theorem received_calls (env : Env) (req : OtaUpgradeReq) (ram : ℕ → Byte) (w : World) :
    (received env req ram w).calls = receptionCalls env req ram w ++ w.calls := by
  have hmid : (atReception env req w).calls = (if req.Starts env w then
      [.exceReportUpgrade, .controlOtaTimer req.upgradeTime.toNat,
        .flashErase (req.writeAddr env) req.fileSize.toNat] else []) ++
      (if req.Switches w then [.stopOtaTimer] else []) ++ w.calls := by
    rw [atReception]
    split
    · simp only [started, erasing, admitted_calls, List.cons_append, List.nil_append]
    · simp only [admitted_calls, List.nil_append]
  rw [received, receptionCalls]
  split
  · rw [touch_calls, hmid, List.nil_append]
  · simp only [written, stored, touch_calls, touch_flash, hmid, List.append_assoc,
      List.cons_append, List.nil_append]

variable (ram) in
theorem received_otaState (hc : req.Considered env w) :
    (received env req ram w).ota.otaState = .download := by
  have h := atReception_otaState hc
  rw [received]
  split
  · exact h
  · rw [written_otaState]
    exact h

/-- A request that comes to the reception of its block comes to the end of it. -/
theorem upgradeReq_received (h : req.Receives env w) :
    ucWiotaGatewayOtaUpgradeResMsg env req ram w =
      finishBlock env req (receivedRam env req ram w) (received env req ram w) := by
  rw [upgradeReq_receives h, receiveBlock_eq, received, receivedRam]
  by_cases hm : req.Marked env ram w
  · rw [if_pos hm, if_pos hm]
    exact if_pos hm
  · rw [if_neg hm, if_neg hm]
    exact if_neg hm

/-- A considered request whose handling goes on overruns its member or receives its block. -/
theorem considered_next (hc : req.Considered env w)
    (h : ucWiotaGatewayOtaUpgradeResMsg env req ram w = .next w') :
    (req.Starts env w ∧ (req.erase env w.flash).2 = true ∧ ¬ req.VersionFits ∧
      w' = begun env req (admitted req w)) ∨
    (req.Receives env w ∧
      finishBlock env req (receivedRam env req ram w) (received env req ram w) = .next w') := by
  rcases upgradeReq_ways ram hc with ⟨-, -, hhalt⟩ | ⟨hs, hret, hfits, hnext⟩ | ⟨hrecv, -⟩
  · rw [hhalt] at h
    cases h
  · rw [hnext, Outcome.next.injEq] at h
    exact .inl ⟨hs, hret, hfits, h.symm⟩
  · exact .inr ⟨hrecv, (upgradeReq_received hrecv).symm.trans h⟩

/-- The state in which a download with all its blocks is checked. -/
def complete (w : World) : World := (w.scan w.ota.blockCount).call .otaDataRecvEnd

theorem finishBlock_next (h : finishBlock env req ram w = .next w') :
    (¬ AllRecved ram w ∧ w' = w.scan w.ota.blockCount) ∨
      (AllRecved ram w ∧ ∃ rc ≠ 0, req.check env w.flash = some rc ∧
        w' = checkFailed rc (complete w)) ∨
      (AllRecved ram w ∧ req.check env w.flash = some 0 ∧ req.isExMcu ∧
        w' = exMcuDone env req (complete w)) := by
  by_cases ha : AllRecved ram w
  · rw [finishBlock_complete ha] at h
    rcases completeDownload_next h with ⟨rc, hrc, hc, hw⟩ | ⟨hc, hx, hw⟩
    · exact Or.inr (Or.inl ⟨ha, rc, hrc, hc, hw⟩)
    · exact Or.inr (Or.inr ⟨ha, hc, hx, hw⟩)
  · rw [finishBlock_incomplete ha, Outcome.next.injEq] at h
    exact Or.inl ⟨ha, h.symm⟩

/-- The state after the first block of a download that needs more blocks. -/
def firstReceived (env : Env) (req : OtaUpgradeReq) (w : World) : World :=
  (written env req ((started env req (admitted req w)).touch req.block)).scan req.blockCount

theorem upgradeReq_firstBlock (h : req.Starts env w) (hsize : 0 ≤ req.fileSize.toInt)
    (hfits : req.VersionFits) (hk : req.block < 224)
    (hbit : BitArray.test (req.currentMap w) req.block = false)
    (hmore : ∃ k < req.blockCount, k < 224 ∧
      BitArray.test (BitArray.mark (req.currentMap w) req.block) k = false) :
    ucWiotaGatewayOtaUpgradeResMsg env req ram w = .next (firstReceived env req w) := by
  have hret : (req.erase env w.flash).2 = true := erase_returns h.1.1 hsize w.flash
  have hclear : ¬ judgmentBit ram (started env req (admitted req w)).ota req.block := by
    rw [judgmentBit_of_lt ram _ hk, started_maskMap, admitted_maskMap, hbit]
    exact Bool.false_ne_true
  have hopen : ¬ AllRecved (setRam req.block ram)
      (written env req ((started env req (admitted req w)).touch req.block)) := by
    obtain ⟨k, hlt, hmap, hf⟩ := hmore
    intro hall
    have hbit := hall k (by rw [written_blockCount]; exact hlt)
    rw [judgmentBit_of_lt _ _ hmap, written_of_lt _ _ hk] at hbit
    exact absurd (hf.symm.trans hbit) Bool.false_ne_true
  rw [upgradeReq_starts h hret, if_pos hfits, receiveBlock_eq, if_neg hclear,
    finishBlock_incomplete hopen, written_blockCount]
  rfl

/-- The first block of a file of two blocks for the device itself. -/
def twoBlockFile : OtaUpgradeReq :=
  { OtaUpgradeReq.standard with fileSize := 1024#32, dataLength := 512#16 }

/-- The state of the device in the download of `twoBlockFile`. -/
def downloadingWorld : World := firstReceived .demo twoBlockFile (.boot ⟨fun _ => 0, []⟩)

theorem twoBlockFile_step : ucWiotaGatewayOtaUpgradeResMsg .demo twoBlockFile (fun _ => 0)
    (.boot ⟨fun _ => 0, []⟩) = .next downloadingWorld :=
  upgradeReq_firstBlock (by decide) (by decide) (by decide) (by decide) (by decide)
    ⟨1, by decide, by decide, by decide⟩

theorem downloadingWorld_reachable :
    Reachable (otaStep .demo) (.boot ⟨fun _ => 0, []⟩) downloadingWorld :=
  (Reachable.refl _ _).snoc (e := .upgradeReq twoBlockFile fun _ => 0) twoBlockFile_step

end WiotaDev.GatewayOta
