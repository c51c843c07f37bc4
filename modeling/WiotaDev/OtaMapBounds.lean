import WiotaDev.OtaReception
import WiotaDev.OtaQuietMessages

/-! # The indices at which the block map is accessed

The map has 28 bytes for 224 blocks. In a run from boot whose downloads begin with versions
that fit, every access stays inside it exactly when every accepted request has its block, and
every download that it begins all its blocks, below that number. -/

namespace WiotaDev.GatewayOta
open WordBytes OtaFlash HaltingRuns

variable {env : Env} {req : OtaUpgradeReq} {ram : ℕ → Byte} {w w' : World} {e : OtaEvent}

/-- The erase of the file never ends: its size is negative and less than a sector. -/
def OtaUpgradeReq.EraseHangs (req : OtaUpgradeReq) : Prop := 2 ^ 32 - 4096 < req.fileSize.toNat

instance : Decidable req.EraseHangs := inferInstanceAs (Decidable (_ < _))

theorem erase_returns_iff (env : Env) (req : OtaUpgradeReq) (fl : Flash) :
    (req.erase env fl).2 = true ↔ ¬ req.EraseHangs := by
  rw [OtaUpgradeReq.erase, ucWiotaOtaFlashErase_returns_iff fl (writeAddr_aligned env req).1
    req.fileSize.isLt, OtaUpgradeReq.EraseHangs, not_lt]

/-- The version of a download that the event begins does not overrun its member. -/
def FitsStart (env : Env) (w : World) : OtaEvent → Prop
  | .upgradeReq req _ => req.Starts env w → ¬ req.EraseHangs → req.VersionFits
  | _ => True

/-- The blocks of an accepted request are blocks of the map, and the version of a download that it
begins fits. -/
def InMap (env : Env) (w : World) : OtaEvent → Prop
  | .upgradeReq req _ =>
    req.Considered env w → ¬ (req.Starts env w ∧ req.EraseHangs) →
      req.block < 224 ∧ (req.Starts env w → req.blockCount ≤ 224 ∧ req.VersionFits)
  | _ => True

theorem InMap.fitsStart (h : InMap env w e) : FitsStart env w e := by
  cases e with
  | upgradeReq req ram => exact fun hs hret => ((h hs.1 fun hh => hret hh.2).2 hs).2
  | _ => trivial

/-- All accesses so far were inside the map. -/
def IndicesBelow (w : World) : Prop := ∀ i ∈ w.mapIndices, i < 28

theorem scan_indicesBelow_iff {n : ℕ} : IndicesBelow (w.scan n) ↔ n ≤ 224 ∧ IndicesBelow w := by
  constructor
  · intro h
    refine ⟨?_, fun i hi => h i (mem_scan_mapIndices.mpr (Or.inr hi))⟩
    by_contra hn
    have := h (224 / 8) (mem_scan_mapIndices.mpr (Or.inl ⟨224, by omega, rfl⟩))
    omega
  · rintro ⟨hn, h⟩ i hi
    rcases mem_scan_mapIndices.mp hi with ⟨k, hk, rfl⟩ | hi
    · omega
    · exact h i hi

theorem touch_indicesBelow_iff {k : ℕ} : IndicesBelow (w.touch k) ↔ k < 224 ∧ IndicesBelow w := by
  simp only [IndicesBelow, touch_mapIndices, List.forall_mem_cons]
  refine and_congr_left fun _ => ?_
  omega

theorem atReception_blockCount (env : Env) (req : OtaUpgradeReq) (w : World) :
    (atReception env req w).ota.blockCount =
      if req.Starts env w then req.blockCount else w.ota.blockCount := by
  rw [atReception]
  split <;> rfl

theorem atReception_mapIndices (env : Env) (req : OtaUpgradeReq) (w : World) :
    (atReception env req w).mapIndices = w.mapIndices := by
  rw [atReception]
  split <;> rfl

/-- The reception of a block accesses the map at its block and at every block of the
download. -/
theorem receiveBlock_indicesBelow_iff :
    IndicesBelow (receiveBlock env req ram w).state ↔
      (req.block < 224 ∧ w.ota.blockCount ≤ 224) ∧ IndicesBelow w := by
  have hfinish : ∀ (ram : ℕ → Byte) (v : World), v.mapIndices = (w.touch req.block).mapIndices →
      v.ota.blockCount = w.ota.blockCount →
      (IndicesBelow (finishBlock env req ram v).state ↔
        (req.block < 224 ∧ w.ota.blockCount ≤ 224) ∧ IndicesBelow w) := by
    intro ram v hi hc
    have hv : IndicesBelow v ↔ IndicesBelow (w.touch req.block) := by
      simp only [IndicesBelow, hi]
    rw [IndicesBelow, finishBlock_mapIndices, ← IndicesBelow, scan_indicesBelow_iff, hv,
      touch_indicesBelow_iff, hc]
    tauto
  rw [receiveBlock_eq]
  split
  · exact hfinish _ _ rfl rfl
  · exact hfinish _ _ rfl (written_blockCount env req (w.touch req.block))

theorem upgradeReq_indicesBelow_iff (hcount : w.ota.blockCount ≤ 224)
    (hfit : FitsStart env w (.upgradeReq req ram)) :
    IndicesBelow (ucWiotaGatewayOtaUpgradeResMsg env req ram w).state ↔
      InMap env w (.upgradeReq req ram) ∧ IndicesBelow w := by
  have hmid : IndicesBelow (atReception env req w) ↔ IndicesBelow w := by
    simp only [IndicesBelow, atReception_mapIndices]
  by_cases hc : req.Considered env w
  · rcases upgradeReq_ways ram hc with ⟨hs, hfalse, hhalt⟩ | ⟨hs, hret, hfits, -⟩ | ⟨hr, hrecv⟩
    · have hhangs : req.EraseHangs := by
        by_contra hcon
        rw [(erase_returns_iff env req w.flash).mpr hcon] at hfalse
        cases hfalse
      rw [hhalt]
      simp only [InMap, hs, hhangs, and_self, not_true, false_imp_iff, implies_true, true_and]
      exact Iff.rfl
    · exact absurd (hfit hs ((erase_returns_iff env req w.flash).mp hret)) hfits
    · have hends : ¬(req.Starts env w ∧ req.EraseHangs) := fun h =>
        (erase_returns_iff env req w.flash).mp (hr.returns h.1) h.2
      rw [hrecv, receiveBlock_indicesBelow_iff, hmid, atReception_blockCount]
      simp only [InMap, hc, hends, not_false_eq_true, true_imp_iff]
      by_cases hs : req.Starts env w
      · simp only [hs, if_true, true_imp_iff, hr.fits hs, and_true]
      · simp only [hs, if_false, false_imp_iff, and_true, hcount]
  · rw [upgradeReq_rejected hc]
    simp only [InMap, hc, false_imp_iff, true_and]
    exact Iff.rfl

theorem Quiet.indicesBelow_iff (h : Quiet w w') (hcount : w.ota.blockCount ≤ 224) :
    IndicesBelow w' ↔ IndicesBelow w := by
  obtain ⟨ks, hi, hk⟩ := h.mapIndices
  simp only [IndicesBelow, hi, List.mem_append, List.mem_map]
  refine ⟨fun h' i hm => h' i (Or.inr hm), ?_⟩
  rintro h' i (⟨k, hm, rfl⟩ | hm)
  · have := hk k hm
    omega
  · exact h' i hm

private theorem inMap_other (he : ¬∃ req ram, e = .upgradeReq req ram) : InMap env w e := by
  cases e with
  | upgradeReq req ram => exact absurd ⟨req, ram, rfl⟩ he
  | _ => trivial

/-- One event accesses the map inside its bounds exactly when it is allowed. -/
theorem otaStep_indicesBelow_iff (hcount : w.ota.blockCount ≤ 224) (hfit : FitsStart env w e) :
    IndicesBelow (otaStep env w e).state ↔ InMap env w e ∧ IndicesBelow w := by
  by_cases he : ∃ req ram, e = .upgradeReq req ram
  · obtain ⟨req, ram, rfl⟩ := he
    exact upgradeReq_indicesBelow_iff hcount hfit
  · obtain ⟨w', hs, hw⟩ := otaStep_other env w he
    rw [hs, Outcome.state_next, and_iff_right (inMap_other he)]
    rcases hw with hquiet | rfl | ⟨-, rfl⟩
    · exact hquiet.indicesBelow_iff hcount
    · exact Iff.rfl
    · exact Iff.rfl

theorem finishBlock_blockCount (h : finishBlock env req ram w = .next w') :
    w'.ota.blockCount = w.ota.blockCount := by
  rcases finishBlock_next h with ⟨-, rfl⟩ | ⟨-, rc, -, -, rfl⟩ | ⟨-, -, -, rfl⟩
  · rfl
  · rw [checkFailed, ucGatewayClearState]
    split <;> rfl
  · rfl

theorem received_blockCount (env : Env) (req : OtaUpgradeReq) (ram : ℕ → Byte) (w : World) :
    (received env req ram w).ota.blockCount =
      if req.Starts env w then req.blockCount else w.ota.blockCount := by
  rw [← atReception_blockCount, received]
  split
  · rfl
  · exact written_blockCount env req ((atReception env req w).touch req.block)

/-- An allowed event leaves a download whose blocks are blocks of the map. -/
theorem otaStep_blockCount (h : otaStep env w e = .next w') (hok : InMap env w e)
    (hcount : w.ota.blockCount ≤ 224) : w'.ota.blockCount ≤ 224 := by
  by_cases he : ∃ req ram, e = .upgradeReq req ram
  · obtain ⟨req, ram, rfl⟩ := he
    by_cases hc : req.Considered env w
    · rcases considered_next hc h with ⟨hs, hret, hfits, -⟩ | ⟨hr, hfin⟩
      · exact absurd (hok.fitsStart hs ((erase_returns_iff env req w.flash).mp hret)) hfits
      · have hh : ¬ (req.Starts env w ∧ req.EraseHangs) := fun hh =>
          (erase_returns_iff env req w.flash).mp (hr.returns hh.1) hh.2
        rw [finishBlock_blockCount hfin, received_blockCount]
        split
        · next hs => exact ((hok hc hh).2 hs).1
        · exact hcount
    · rw [otaStep, upgradeReq_rejected hc, Outcome.next.injEq] at h
      rwa [← h]
  · obtain ⟨v, hs, hv⟩ := otaStep_other env w he
    rw [hs, Outcome.next.injEq] at h
    subst h
    rcases hv with hquiet | rfl | ⟨-, rfl⟩
    · rwa [hquiet.blockCount]
    · exact hcount
    · exact hcount

theorem finishBlock_mapIndices_suffix (env : Env) (req : OtaUpgradeReq) (ram : ℕ → Byte)
    (w : World) : w.mapIndices <:+ (finishBlock env req ram w).state.mapIndices := by
  rw [finishBlock_mapIndices]
  exact List.suffix_append _ _

theorem receiveBlock_mapIndices_suffix (env : Env) (req : OtaUpgradeReq) (ram : ℕ → Byte)
    (w : World) : w.mapIndices <:+ (receiveBlock env req ram w).state.mapIndices := by
  have htouch : w.mapIndices <:+ (w.touch req.block).mapIndices := List.suffix_cons _ _
  rw [receiveBlock_eq]
  split
  · exact htouch.trans (finishBlock_mapIndices_suffix _ _ _ _)
  · exact htouch.trans (finishBlock_mapIndices_suffix env req _
      (written env req (w.touch req.block)))

/-- The history of accesses only grows. -/
theorem otaStep_mapIndices_suffix (env : Env) (w : World) (e : OtaEvent) :
    w.mapIndices <:+ (otaStep env w e).state.mapIndices := by
  by_cases he : ∃ req ram, e = .upgradeReq req ram
  · obtain ⟨req, ram, rfl⟩ := he
    rw [otaStep]
    by_cases hc : req.Considered env w
    · rcases upgradeReq_ways ram hc with ⟨-, -, hhalt⟩ | ⟨-, -, -, hnext⟩ | ⟨-, hrecv⟩
      · rw [hhalt]
        exact List.suffix_refl _
      · rw [hnext]
        exact List.suffix_refl _
      · rw [hrecv, ← atReception_mapIndices env req w]
        exact receiveBlock_mapIndices_suffix env req ram (atReception env req w)
    · rw [upgradeReq_rejected hc]
      exact List.suffix_refl _
  · obtain ⟨w', hs, hw⟩ := otaStep_other env w he
    rw [hs, Outcome.state_next]
    rcases hw with hquiet | rfl | ⟨-, rfl⟩
    · obtain ⟨ks, hi, -⟩ := hquiet.mapIndices
      exact ⟨_, hi.symm⟩
    · exact List.suffix_refl _
    · exact List.suffix_refl _

theorem run_mapIndices_suffix (env : Env) (w : World) (es : List OtaEvent) :
    w.mapIndices <:+ (run (otaStep env) w es).state.mapIndices := by
  induction es generalizing w with
  | nil => exact List.suffix_refl _
  | cons e es ih =>
    have hstep := otaStep_mapIndices_suffix env w e
    rw [run_cons]
    cases hs : otaStep env w e with
    | halt r s =>
      rw [hs] at hstep
      exact hstep
    | next s =>
      rw [hs] at hstep
      exact hstep.trans (ih s)

theorem run_indicesBelow_iff (env : Env) (w : World) (es : List OtaEvent)
    (hcount : w.ota.blockCount ≤ 224) :
    Meets (otaStep env) (FitsStart env) w es ∧ IndicesBelow (run (otaStep env) w es).state ↔
      Meets (otaStep env) (InMap env) w es ∧ IndicesBelow w := by
  induction es generalizing w with
  | nil => exact and_congr_left fun _ => Iff.rfl
  | cons e es ih =>
    rw [run_cons, Meets, Meets]
    by_cases hfit : FitsStart env w e
    swap
    · exact iff_of_false (fun h => hfit h.1.1) fun h => hfit h.1.1.fitsStart
    have hstep := otaStep_indicesBelow_iff hcount hfit
    cases hs : otaStep env w e with
    | halt r s =>
      rw [hs] at hstep
      simp only [Outcome.bind_halt, reduceCtorEq, false_imp_iff, implies_true, and_true, hfit,
        true_and]
      exact hstep
    | next s =>
      rw [hs, Outcome.state_next] at hstep
      simp only [Outcome.bind_next, Outcome.next.injEq, forall_eq', hfit, true_and]
      by_cases hok : InMap env w e
      · rw [ih s (otaStep_blockCount hs hok hcount), hstep]
        tauto
      · refine iff_of_false (fun h => hok (hstep.mp ?_).1) fun h => hok h.1.1
        exact fun i hi => h.2 i ((run_mapIndices_suffix env s es).subset hi)

/-- In a run from boot, whatever the partitions, the downloads begin with versions that fit and
every access to the block map is inside it, exactly when each accepted request names a block
below 224 and each download that it begins has at most 224 blocks and a version that fits. -/
theorem map_accesses_in_bounds_iff (env : Env) (flash : Flash) (es : List OtaEvent) :
    (Meets (otaStep env) (FitsStart env) (.boot flash) es ∧
      ∀ i ∈ (run (otaStep env) (.boot flash) es).state.mapIndices, i < 28) ↔
        Meets (otaStep env) (InMap env) (.boot flash) es := by
  have h := run_indicesBelow_iff env (.boot flash) es (Nat.zero_le _)
  rw [← IndicesBelow, h, and_iff_left]
  intro i hi
  cases hi

/-- A file for the external MCU that fills its partitions. -/
def largestExMcuFile : OtaUpgradeReq :=
  { OtaUpgradeReq.standard with
    deviceType := exMcuDeviceType, fileSize := 0x31000#32, dataLength := 512#16 }

/-- With the default split of 504 KB the completion check of this file, which passes the
size check, reads behind the map. -/
theorem largestExMcuFile_overruns :
    Partition.standard.binSize + Partition.standard.reservedSize + Partition.standard.otaSize =
        504 * 1024 ∧
      ¬ largestExMcuFile.TooLarge .demo ∧
      28 ∈ (run (otaStep .demo) (.boot ⟨fun _ => 0, []⟩)
        [.upgradeReq largestExMcuFile fun _ => 0]).state.mapIndices := by
  refine ⟨by decide, by decide, ?_⟩
  have hstep : ucWiotaGatewayOtaUpgradeResMsg .demo largestExMcuFile (fun _ => 0)
      (.boot ⟨fun _ => 0, []⟩) =
        .next (firstReceived .demo largestExMcuFile (.boot ⟨fun _ => 0, []⟩)) :=
    upgradeReq_firstBlock (by decide) (by decide) (by decide) (by decide) (by decide)
      ⟨1, by decide, by decide, by decide⟩
  rw [run_cons, otaStep, hstep, Outcome.bind_next, run_nil, Outcome.state_next]
  exact mem_scan_mapIndices.mpr (Or.inl ⟨224, by decide, rfl⟩)

end WiotaDev.GatewayOta
