import WiotaDev.OtaReception
import WiotaDev.OtaQuietMessages
import Mathlib.Algebra.Order.BigOperators.Group.List

/-! # What the block map says about the flash

While every step of a run keeps the conditions of `KeepsFresh`, each download begins with
an empty map and no received bytes, and in a download the set bits are exactly the blocks
written since the erase, the received length the sum of their lengths. -/

namespace WiotaDev.GatewayOta
open WordBytes OtaFlash HaltingRuns

variable {env : Env} {req : OtaUpgradeReq} {ram : ℕ → Byte} {w w' : World} {e : OtaEvent}

/-- Address and length of the writes that the flash accepted since the last erase. -/
def writesSinceErase : List OtaCall → List (ℕ × ℕ)
  | [] => []
  | .flashErase _ _ :: _ => []
  | .flashWrite addr len ret :: calls =>
    if ret = len then (addr, len) :: writesSinceErase calls else writesSinceErase calls
  | _ :: calls => writesSinceErase calls

/-- The writes since the erase are those of `blocks`, given by data offset and length;
these have the set bits, and their lengths sum up to the received length. -/
structure MapRecords (w : World) (blocks : List (ℕ × ℕ)) : Prop where
  writes : writesSinceErase w.calls = blocks.map fun b => (w.ota.binAddr + b.1, b.2)
  distinct : (blocks.map fun b => b.1 / 512).Nodup
  marked : ∀ k, BitArray.test w.ota.maskMap k = true ↔ k ∈ blocks.map fun b => b.1 / 512
  recved : w.ota.otaRecvedLen = (blocks.map Prod.snd).sum
  small : ∀ b ∈ blocks, b.2 < 2 ^ 16

/-- A download that the event begins has an empty map and no received bytes. -/
def FreshStart (env : Env) (w : World) : OtaEvent → Prop
  | .upgradeReq req _ => req.Starts env w →
      (∀ k, BitArray.test (req.currentMap w) k = false) ∧ w.ota.otaRecvedLen = 0
  | _ => True

/-- A request does not leave `stop` with marked blocks, begins a download only with the
progress cleared and with a version that fits, and stores only a block of the map, by a write
that the flash accepts in the area of the download; the progress is not cleared during a
download. -/
def KeepsFresh (env : Env) (w : World) : OtaEvent → Prop
  | .upgradeReq req ram =>
    (¬ req.TooLarge env → req.Targets env → w.ota.otaState = .stop →
      ∀ k < 224, BitArray.test w.ota.maskMap k = false) ∧
    (req.Starts env w → w.ota.otaDlState = .default ∧ req.VersionFits) ∧
    (req.Considered env w → req.Marked env ram w ∨
      req.block < 224 ∧ ¬ WriteRefused (req.flashAddr env) req.dataLength.toNat ∧
        0 ≤ req.dataOffset.toInt ∧ (¬ req.Starts env w → req.writeAddr env = w.ota.binAddr))
  | .clearOtaState => w.ota.otaState ≠ .download
  | _ => True

/-- The invariant of runs that keep the conditions. -/
structure FreshInv (w : World) : Prop where
  downloading : w.ota.otaState = .download →
    w.ota.otaDlState = .downloading ∧ ∃ blocks, MapRecords w blocks
  idle : w.ota.otaState = .default → ∀ k, BitArray.test w.ota.maskMap k = false
  recved : w.ota.otaState ≠ .download → w.ota.otaDlState = .default → w.ota.otaRecvedLen = 0

theorem writesSinceErase_quiet {new calls : List OtaCall} (h : ∀ c ∈ new, c.Quiet) :
    writesSinceErase (new ++ calls) = writesSinceErase calls := by
  induction new with
  | nil => rfl
  | cons c new ih =>
    have hrest := ih fun c hc => h c (List.mem_cons_of_mem _ hc)
    have hc := h c List.mem_cons_self
    cases c <;> first | exact hrest | exact hc.elim

theorem test_lt {m : Vector Byte 28} {k : ℕ} (h : BitArray.test m k = true) : k < 224 := by
  rw [BitArray.test] at h
  split at h
  · omega
  · cases h

namespace MapRecords

variable {blocks : List (ℕ × ℕ)}

theorem of_quiet (h : MapRecords w blocks) (hq : Quiet w w') : MapRecords w' blocks where
  writes := by
    obtain ⟨new, hn, hquiet⟩ := hq.calls
    rw [hn, writesSinceErase_quiet hquiet, hq.binAddr, h.writes]
  distinct := h.distinct
  marked := by
    rw [hq.maskMap]
    exact h.marked
  recved := by rw [hq.otaRecvedLen, h.recved]
  small := h.small

theorem length_le (h : MapRecords w blocks) : blocks.length ≤ 224 := by
  have hsub : (blocks.map fun b => b.1 / 512) ⊆ List.range 224 := by
    intro k hk
    exact List.mem_range.mpr (test_lt ((h.marked k).mpr hk))
  have hle := (h.distinct.subperm hsub).length_le
  rwa [List.length_map, List.length_range] at hle

/-- The received length stays far below its range. -/
theorem recved_le (h : MapRecords w blocks) : w.ota.otaRecvedLen ≤ 224 * 2 ^ 16 := by
  have hsum : (blocks.map Prod.snd).sum ≤ (blocks.map Prod.snd).length • 2 ^ 16 := by
    apply List.sum_le_card_nsmul
    intro x hx
    obtain ⟨b, hb, rfl⟩ := List.mem_map.mp hx
    exact (h.small b hb).le
  rw [List.length_map, nsmul_eq_mul, Nat.cast_id] at hsum
  rw [h.recved]
  exact hsum.trans (Nat.mul_le_mul_right _ h.length_le)

end MapRecords

theorem block_of_nonneg (h : 0 ≤ req.dataOffset.toInt) :
    req.block = req.dataOffset.toNat / 512 := by
  have hoff : req.dataOffset.toInt = req.dataOffset.toNat := by
    have := BitVec.toInt_eq_toNat_cond req.dataOffset
    split at this <;> omega
  have hlt := req.dataOffset.isLt
  have hdiv : ((req.dataOffset.toNat : ℤ)).tdiv 512 = ((req.dataOffset.toNat / 512 : ℕ) : ℤ) := by
    rw [Int.tdiv_eq_ediv_of_nonneg (by omega)]
    rfl
  rw [OtaUpgradeReq.block, hoff, hdiv, BitVec.ofInt_natCast, BitVec.toNat_ofNat,
    Nat.mod_eq_of_lt (by omega)]

theorem write_ret (env : Env) (req : OtaUpgradeReq) (fl : Flash)
    (h : ¬ WriteRefused (req.flashAddr env) req.dataLength.toNat) :
    (req.write env fl).1 = req.dataLength.toNat := by
  rw [OtaUpgradeReq.write, ucWiotaOtaFlashWrite, otaFlashWrite_accepted _ _ h]

/-- An accepted write of a block whose bit is not set extends the record by the block. -/
theorem MapRecords.written {blocks : List (ℕ × ℕ)} (h : MapRecords w blocks)
    (hb : BitArray.test w.ota.maskMap req.block = false) (hk : req.block < 224)
    (hw : ¬ WriteRefused (req.flashAddr env) req.dataLength.toNat)
    (hoff : 0 ≤ req.dataOffset.toInt) (haddr : req.writeAddr env = w.ota.binAddr) :
    MapRecords (written env req w) ((req.dataOffset.toNat, req.dataLength.toNat) :: blocks) where
  writes := by
    rw [written_of_lt env w hk]
    have hoffset := BitVec.toInt_eq_toNat_cond req.dataOffset
    have hlt := (writeAddr_aligned env req).2.2
    have hsum : req.flashAddr env = w.ota.binAddr + req.dataOffset.toNat := by
      rw [OtaUpgradeReq.flashAddr, ← haddr]
      split at hoffset <;> omega
    simp only [GatewayOta.written, stored, writesSinceErase, write_ret env req w.flash hw, if_true,
      List.map_cons, h.writes, hsum]
  distinct := by
    rw [List.map_cons, List.nodup_cons, ← block_of_nonneg hoff, ← h.marked, hb]
    exact ⟨Bool.false_ne_true, h.distinct⟩
  marked := by
    intro k
    rw [written_of_lt env w hk, List.map_cons, List.mem_cons, ← block_of_nonneg hoff, ← h.marked]
    simp only [BitArray.test_mark _ (show req.block / 8 < 28 by omega), Bool.or_eq_true,
      decide_eq_true_eq]
  recved := by
    rw [written_of_lt env w hk]
    have hle := h.recved_le
    have hlen := req.dataLength.isLt
    rw [List.map_cons, List.sum_cons, ← h.recved, Nat.add_comm]
    exact Nat.mod_eq_of_lt (by omega)
  small := by
    intro b hb
    rcases List.mem_cons.mp hb with rfl | hb
    · exact req.dataLength.isLt
    · exact h.small b hb

theorem freshStart_of_inv (hi : FreshInv w) (hk : KeepsFresh env w e) : FreshStart env w e := by
  cases e with
  | upgradeReq req ram =>
    intro hs
    obtain ⟨hstop, hdl, -⟩ := hk
    have hdl := (hdl hs).1
    obtain ⟨⟨hl, hr, -, ha⟩, -⟩ := hs
    cases hstate : w.ota.otaState with
    | default =>
      have hsw : ¬ req.Switches w := fun h => by simp [h.1] at hstate
      rw [OtaUpgradeReq.currentMap, if_neg hsw]
      exact ⟨hi.idle hstate, hi.recved (by simp [hstate]) hdl⟩
    | stop =>
      have hsw : ¬ req.Switches w := fun h => by simp [h.1] at hstate
      have ht : req.Targets env := by
        rcases hr with h | ⟨-, h⟩
        · exact h
        · exact absurd hstate h
      rw [OtaUpgradeReq.currentMap, if_neg hsw]
      refine ⟨fun k => ?_, hi.recved (by simp [hstate]) hdl⟩
      by_contra hb
      rw [Bool.not_eq_false] at hb
      simp [hstop hl ht hstate k (test_lt hb)] at hb
    | download => simp [(hi.downloading hstate).1] at hdl
    | program => simp [OtaUpgradeReq.Admissible, hstate] at ha
    | other v hv => simp [OtaUpgradeReq.Admissible, hstate] at ha
  | upgradeStop ioteList => trivial
  | upgradeState msg ram => trivial
  | missDataReq sent ram => trivial
  | clearOtaState => trivial

/-- The record of the download in which a considered request receives its block. -/
theorem atReception_records (hi : FreshInv w) (hk : KeepsFresh env w (.upgradeReq req ram))
    (hc : req.Considered env w) : (atReception env req w).ota.otaDlState = .downloading ∧
      ∃ blocks, MapRecords (atReception env req w) blocks := by
  by_cases hs : req.Starts env w
  · obtain ⟨hmap, hrecv⟩ := freshStart_of_inv hi hk hs
    rw [atReception, if_pos hs]
    refine ⟨rfl, [], rfl, List.nodup_nil, fun k => ?_, hrecv, by simp⟩
    rw [started_maskMap, admitted_maskMap, hmap k]
    simp
  · obtain ⟨hd, -, hsw, -⟩ := admitted_otaState_of_continues hc hs
    obtain ⟨hdl, blocks, h⟩ := hi.downloading hd
    have hcalls : (admitted req w).calls = w.calls := if_neg hsw
    have hmap : (admitted req w).ota.maskMap = w.ota.maskMap := if_neg hsw
    rw [atReception, if_neg hs]
    refine ⟨hdl, blocks, ?_, h.distinct, ?_, h.recved, h.small⟩
    · rw [hcalls]
      exact h.writes
    · rw [hmap]
      exact h.marked

theorem received_records (hi : FreshInv w) (hk : KeepsFresh env w (.upgradeReq req ram))
    (hc : req.Considered env w) : (received env req ram w).ota.otaDlState = .downloading ∧
      ∃ blocks, MapRecords (received env req ram w) blocks := by
  obtain ⟨hdl, blocks, h⟩ := atReception_records hi hk hc
  have htouch : MapRecords ((atReception env req w).touch req.block) blocks :=
    ⟨h.writes, h.distinct, h.marked, h.recved, h.small⟩
  by_cases hb : req.Marked env ram w
  · rw [received, if_pos hb]
    exact ⟨hdl, blocks, htouch⟩
  · obtain ⟨hlt, hw, hoff, haddr⟩ := (hk.2.2 hc).resolve_left hb
    have hclear : BitArray.test (atReception env req w).ota.maskMap req.block = false := by
      rwa [OtaUpgradeReq.Marked, judgmentBit_of_lt ram _ hlt, Bool.not_eq_true] at hb
    have haddr : req.writeAddr env = (atReception env req w).ota.binAddr := by
      rw [atReception]
      split
      · rfl
      · next hs => exact haddr hs
    rw [received, if_neg hb, written_otaDlState]
    exact ⟨hdl, _, htouch.written hclear hlt hw hoff haddr⟩

theorem upgradeReq_keeps_inv (hi : FreshInv w) (hk : KeepsFresh env w (.upgradeReq req ram))
    (h : ucWiotaGatewayOtaUpgradeResMsg env req ram w = .next w') : FreshInv w' := by
  by_cases hc : req.Considered env w
  · rcases considered_next hc h with ⟨hs, -, hfits, -⟩ | ⟨-, hfin⟩
    · exact absurd (hk.2.1 hs).2 hfits
    obtain ⟨hdl, blocks, hrec⟩ := received_records hi hk hc
    have hd := received_otaState ram hc
    rcases finishBlock_next hfin with ⟨-, rfl⟩ | ⟨-, rc, -, -, rfl⟩ | ⟨-, -, -, rfl⟩
    · refine ⟨fun _ => ⟨hdl, blocks, hrec.of_quiet (.of_scan le_rfl)⟩, fun h => ?_, fun h => ?_⟩
      · simp [hd] at h
      · exact absurd hd h
    · have hne : (compared rc (complete (received env req ram w))).ota.otaState ≠ .default := by
        simp [compared, complete, hd]
      rw [checkFailed, ucGatewayClearState, if_pos hne]
      refine ⟨fun h => (by cases h), fun _ k => BitArray.test_clear k, fun _ h => ?_⟩
      have hdef : (received env req ram w).ota.otaDlState = .default := h
      simp [hdl] at hdef
    · refine ⟨fun h => (by cases h), fun _ k => BitArray.test_clear k, fun _ h => (by cases h)⟩
  · rw [upgradeReq_rejected hc, Outcome.next.injEq] at h
    subst h
    by_cases hleave : ¬ req.TooLarge env ∧ req.Targets env ∧ w.ota.otaState = .stop
    · obtain ⟨hl, ht, hs⟩ := hleave
      have hstate : (rejected env req w).ota.otaState = .default := if_pos ⟨hl, ht, hs⟩
      refine ⟨fun h => by simp [hstate] at h, fun _ k => ?_, fun _ => hi.recved (by simp [hs])⟩
      by_contra hb
      rw [Bool.not_eq_false] at hb
      have hclear := hk.1 hl ht hs k (test_lt hb)
      exact absurd (hclear.symm.trans hb) Bool.false_ne_true
    · have hstate : (rejected env req w).ota.otaState = w.ota.otaState := if_neg hleave
      refine ⟨fun h => ?_, fun h => hi.idle (hstate ▸ h), fun h => hi.recved (hstate ▸ h)⟩
      obtain ⟨hdl, blocks, hrec⟩ := hi.downloading (hstate ▸ h)
      exact ⟨hdl, blocks, hrec.writes, hrec.distinct, hrec.marked, hrec.recved, hrec.small⟩

theorem Quiet.keeps_inv (hi : FreshInv w) (h : Quiet w w') : FreshInv w' where
  downloading := by
    rw [h.otaState, h.otaDlState]
    intro hd
    obtain ⟨hdl, blocks, hrec⟩ := hi.downloading hd
    exact ⟨hdl, blocks, hrec.of_quiet h⟩
  idle := by
    rw [h.otaState, h.maskMap]
    exact hi.idle
  recved := by
    rw [h.otaState, h.otaDlState, h.otaRecvedLen]
    exact hi.recved

/-- One step that keeps the conditions keeps the invariant. -/
theorem otaStep_keeps_inv (env : Env) (w : World) (e : OtaEvent) (w' : World) (hi : FreshInv w)
    (hk : KeepsFresh env w e) (h : otaStep env w e = .next w') : FreshInv w' := by
  by_cases he : ∃ req ram, e = .upgradeReq req ram
  · obtain ⟨req, ram, rfl⟩ := he
    exact upgradeReq_keeps_inv hi hk h
  · obtain ⟨v, hs, hv⟩ := otaStep_other env w he
    rw [hs, Outcome.next.injEq] at h
    subst h
    rcases hv with hquiet | rfl | ⟨rfl, rfl⟩
    · exact hquiet.keeps_inv hi
    · refine ⟨fun h => (by cases h), fun h => (by cases h), fun _ hdl => ?_⟩
      refine hi.recved (fun hd => ?_) hdl
      have hdefault : w.ota.otaDlState = .default := hdl
      simp [(hi.downloading hd).1] at hdefault
    · exact ⟨fun hd => absurd hd hk, hi.idle, fun _ _ => rfl⟩

theorem boot_inv (flash : Flash) : FreshInv (.boot flash) where
  downloading := fun h => by cases h
  idle := fun _ k => BitArray.test_clear k
  recved := fun _ _ => rfl

/-- In every run whose steps keep the conditions, each download begins with an empty map
and no received bytes, and in a download the map and the received length record exactly
the blocks written since its erase. -/
theorem run_keeps_map_fresh (env : Env) (flash : Flash) (es : List OtaEvent)
    (hok : Meets (otaStep env) (KeepsFresh env) (.boot flash) es) :
    Meets (otaStep env) (FreshStart env) (.boot flash) es ∧
      ∀ w, run (otaStep env) (.boot flash) es = .next w → w.ota.otaState = .download →
        ∃ blocks, MapRecords w blocks := by
  have hinv : ∀ pre post, es = pre ++ post → ∀ w,
      run (otaStep env) (.boot flash) pre = .next w → FreshInv w := by
    intro pre post he w hr
    rw [he] at hok
    exact run_invariant (otaStep_keeps_inv env) (boot_inv flash) hok.prefix hr
  constructor
  · refine meets_iff_splits.mpr fun pre e post w he hr => ?_
    have hke : KeepsFresh env w e := by
      rw [he] at hok
      exact hok.at hr
    exact freshStart_of_inv (hinv pre (e :: post) he w hr) hke
  · intro w hr hd
    exact ((hinv es [] (List.append_nil es).symm w hr).downloading hd).2

/-- After its first block the download of two blocks has a map and a length that record
the block. -/
theorem twoBlockFile_map_fresh : ∃ blocks, MapRecords downloadingWorld blocks := by
  have hok : Meets (otaStep .demo) (KeepsFresh .demo) (.boot ⟨fun _ => 0, []⟩)
      [.upgradeReq twoBlockFile fun _ => 0] := by
    refine ⟨⟨fun _ _ h => (by cases h), fun _ => ⟨rfl, by decide⟩,
      fun _ => Or.inr ⟨by decide, by decide, by decide, ?_⟩⟩, fun _ _ => trivial⟩
    exact fun hs => absurd (by decide) hs
  have hrun : run (otaStep .demo) (.boot ⟨fun _ => 0, []⟩)
      [.upgradeReq twoBlockFile fun _ => 0] = .next downloadingWorld := by
    rw [run_cons, otaStep, twoBlockFile_step]
    rfl
  exact (run_keeps_map_fresh .demo ⟨fun _ => 0, []⟩ _ hok).2 downloadingWorld hrun rfl

/-- The first block of another upgrade in the middle of that download. -/
def changedUpgrade : OtaUpgradeReq := { twoBlockFile with upgradeNum := 8#16 }

/-- The new download begins with the 512 bytes of the old one counted as received. -/
theorem changedUpgrade_not_fresh :
    Reachable (otaStep .demo) (.boot ⟨fun _ => 0, []⟩) downloadingWorld ∧
      downloadingWorld.ota.otaRecvedLen = 512 ∧
      ¬ FreshStart .demo downloadingWorld (.upgradeReq changedUpgrade fun _ => 0) := by
  refine ⟨downloadingWorld_reachable, by decide, fun h => ?_⟩
  exact absurd (h (by decide)).2 (by decide)

end WiotaDev.GatewayOta
