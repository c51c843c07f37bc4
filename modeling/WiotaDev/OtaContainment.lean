import WiotaDev.OtaReception

/-! # Where an upgrade request writes

The flash commands of one request lie inside the partition chosen for it exactly when
the erase and the write that the request causes have offsets and sizes inside it. -/

namespace WiotaDev.GatewayOta
open WordBytes OtaFlash HaltingRuns

variable {env : Env} {req : OtaUpgradeReq} {ram : ℕ → Byte} {w w' : World}

/-- The commands executed between two flash states all have `P`. -/
def Emits (P : FlashOp → Prop) (fl fl' : Flash) : Prop :=
  ∃ new, fl'.ops = new ++ fl.ops ∧ ∀ op ∈ new, P op

theorem emits_iff {P : FlashOp → Prop} {fl fl' : Flash} {new : List FlashOp}
    (h : fl'.ops = new ++ fl.ops) : Emits P fl fl' ↔ ∀ op ∈ new, P op := by
  constructor
  · rintro ⟨new', h', hp⟩
    rw [h, List.append_cancel_right_eq] at h'
    rwa [h']
  · exact fun hp => ⟨new, h, hp⟩

theorem emits_rfl {P : FlashOp → Prop} {fl fl' : Flash} (h : fl'.ops = fl.ops) :
    Emits P fl fl' := ⟨[], h, by simp⟩

/-- The commands of two phases all have `P` exactly when those of each phase have it. -/
theorem emits_trans_iff {P : FlashOp → Prop} {fl fl' fl'' : Flash} {n₁ n₂ : List FlashOp}
    (h₁ : fl'.ops = n₁ ++ fl.ops) (h₂ : fl''.ops = n₂ ++ fl'.ops) :
    Emits P fl fl'' ↔ Emits P fl fl' ∧ Emits P fl' fl'' := by
  have h₁₂ : fl''.ops = (n₂ ++ n₁) ++ fl.ops := by rw [h₂, h₁, List.append_assoc]
  rw [emits_iff h₁, emits_iff h₂, emits_iff h₁₂]
  simp only [List.mem_append, or_imp, forall_and]
  exact And.comm

/-- The partition chosen for a request, by its first address and the one behind it. -/
def OtaUpgradeReq.Inside (env : Env) (req : OtaUpgradeReq) : FlashOp → Prop :=
  FlashOp.Within (req.writeAddr env) (req.writeAddr env + req.maxSize env)

/-- Handling the request erases and programs only inside its partition. -/
def Contained (env : Env) (req : OtaUpgradeReq) (ram : ℕ → Byte) (w : World) : Prop :=
  Emits (req.Inside env) w.flash (ucWiotaGatewayOtaUpgradeResMsg env req ram w).state.flash

/-- The range of the block lies inside the partition. -/
def OtaUpgradeReq.BlockInside (env : Env) (req : OtaUpgradeReq) : Prop :=
  0 ≤ req.dataOffset.toInt ∧ req.dataOffset.toInt + req.dataLength.toNat ≤ req.maxSize env

/-- The reception writes nothing: the block has its bit or its range is refused. -/
def OtaUpgradeReq.WritesNothing (env : Env) (req : OtaUpgradeReq) (ram : ℕ → Byte) (w : World) :
    Prop :=
  req.Marked env ram w ∨ WriteRefused (req.flashAddr env) req.dataLength.toNat

/-- The erase of an accepted file is contained exactly when its size is not negative. -/
theorem erase_inside_iff (hl : ¬ req.TooLarge env) (fl : Flash) :
    ∃ new, (req.erase env fl).1.ops = new ++ fl.ops ∧
      ((∀ op ∈ new, req.Inside env op) ↔ 0 ≤ req.fileSize.toInt) ∧
      (0 ≤ req.fileSize.toInt → (req.erase env fl).2 = true) := by
  obtain ⟨ha, hm, hlt⟩ := writeAddr_aligned env req
  by_cases h : 0 ≤ req.fileSize.toInt
  · have hle := fileSize_nonneg hl h
    obtain ⟨hret, -, new, hops, hmem⟩ := erase_spec hl h fl
    refine ⟨new, hops, iff_of_true ?_ h, fun _ => hret⟩
    intro op hop
    obtain ⟨i, hi, rfl⟩ := (hmem op).mp hop
    exact ⟨by omega, by omega⟩
  · have hneg : 2 ^ 31 ≤ req.fileSize.toNat := by
      have := BitVec.toInt_eq_toNat_cond req.fileSize
      split at this <;> omega
    obtain ⟨new, hops, hmem⟩ := ucWiotaOtaFlashErase_mem (req.writeAddr env)
      req.fileSize.toNat (req.maxSize env / 4096) fl ha (by omega) (by omega) (by omega)
    refine ⟨new, hops, iff_of_false (fun hall => ?_) h, fun h' => absurd h' h⟩
    obtain ⟨-, hhi⟩ := hall _ hmem
    omega

variable (env req) in
/-- The programs of an accepted write are contained exactly when its range is. -/
theorem write_inside_iff (fl : Flash) :
    ∃ new, (req.write env fl).2.ops = new ++ fl.ops ∧
      ((∀ op ∈ new, req.Inside env op) ↔
        WriteRefused (req.flashAddr env) req.dataLength.toNat ∨ req.BlockInside env) := by
  obtain ⟨ha, hm, hlt⟩ := writeAddr_aligned env req
  by_cases hr : WriteRefused (req.flashAddr env) req.dataLength.toNat
  · refine ⟨[], ?_, by simp [hr]⟩
    rw [OtaUpgradeReq.write, ucWiotaOtaFlashWrite, otaFlashWrite_refused req.data fl hr]
    rfl
  · obtain ⟨new, hops, hmem⟩ := otaFlashWriteLoop_ops req.data (req.flashAddr env)
      req.dataLength.toNat 0 fl
    refine ⟨new, ?_, ?_⟩
    · rw [OtaUpgradeReq.write, ucWiotaOtaFlashWrite, otaFlashWrite_accepted req.data fl hr]
      exact hops
    · have hoff := BitVec.toInt_eq_toNat_cond req.dataOffset
      have hofflt := req.dataOffset.isLt
      have hlen := req.dataLength.isLt
      simp only [hr, false_or]
      constructor
      · intro hall
        have hpos : 0 < req.dataLength.toNat := by
          simp only [WriteRefused, not_or] at hr
          omega
        obtain ⟨hlo₀, hhi₀⟩ := hall _ ((hmem _).mpr ⟨0, le_refl _, hpos, rfl⟩)
        obtain ⟨hlo₁, hhi₁⟩ := hall _ ((hmem _).mpr
          ⟨req.dataLength.toNat - 1, Nat.zero_le _, by omega, rfl⟩)
        simp only [OtaUpgradeReq.BlockInside, OtaUpgradeReq.flashAddr] at *
        split at hoff <;> omega
      · rintro ⟨hlo, hhi⟩ op hop
        obtain ⟨i, -, hi, rfl⟩ := (hmem op).mp hop
        simp only [OtaUpgradeReq.Inside, FlashOp.Within, OtaUpgradeReq.flashAddr]
        split at hoff <;> omega

instance : Decidable (req.BlockInside env) := inferInstanceAs (Decidable (_ ∧ _))

instance : Decidable (req.WritesNothing env ram w) := inferInstanceAs (Decidable (_ ∨ _))

theorem receiveBlock_inside_iff (env : Env) (req : OtaUpgradeReq) (ram : ℕ → Byte) (w : World) :
    ∃ new, (receiveBlock env req ram w).state.flash.ops = new ++ w.flash.ops ∧
      ((∀ op ∈ new, req.Inside env op) ↔
        (judgmentBit ram w.ota req.block = true ∨
          WriteRefused (req.flashAddr env) req.dataLength.toNat) ∨ req.BlockInside env) := by
  rw [receiveBlock_eq]
  by_cases hb : judgmentBit ram w.ota req.block
  · refine ⟨[], ?_, by simp [hb]⟩
    rw [if_pos hb, finishBlock_flash]
    rfl
  · obtain ⟨new, hops, hiff⟩ := write_inside_iff env req w.flash
    refine ⟨new, ?_, by simp [hb, hiff]⟩
    rw [if_neg hb, ← hops, finishBlock_flash]
    rfl

theorem contained_continues_iff (hc : req.Considered env w) (h : ¬ req.Starts env w) :
    Contained env req ram w ↔ req.WritesNothing env ram w ∨ req.BlockInside env := by
  obtain ⟨new, hops, hiff⟩ := receiveBlock_inside_iff env req ram (atReception env req w)
  have hflash : (atReception env req w).flash = w.flash := by
    rw [atReception, if_neg h]
    rfl
  have hrecv : req.Receives env w := ⟨hc, fun hs => absurd hs h, fun hs => absurd hs h⟩
  rw [hflash] at hops
  rw [Contained, upgradeReq_receives hrecv, emits_iff hops, hiff]
  exact Iff.rfl

theorem contained_starts_iff (h : req.Starts env w) :
    Contained env req ram w ↔ 0 ≤ req.fileSize.toInt ∧
      (req.VersionFits → req.WritesNothing env ram w ∨ req.BlockInside env) := by
  obtain ⟨n₁, hops₁, hiff₁, hret⟩ := erase_inside_iff h.1.1 w.flash
  cases hr : (req.erase env w.flash).2 with
  | true =>
    by_cases hfits : req.VersionFits
    · obtain ⟨n₂, hops₂, hiff₂⟩ := receiveBlock_inside_iff env req ram (atReception env req w)
      have hflash : (atReception env req w).flash = (req.erase env w.flash).1 := by
        rw [atReception, if_pos h]
        rfl
      have hrecv : req.Receives env w := ⟨h.1, fun _ => hr, fun _ => hfits⟩
      rw [hflash] at hops₂
      rw [Contained, upgradeReq_receives hrecv, emits_trans_iff hops₁ hops₂, emits_iff hops₁,
        emits_iff hops₂, hiff₁, hiff₂]
      simp only [hfits, true_imp_iff]
      exact Iff.rfl
    · rw [Contained, upgradeReq_derails h hr hfits, Outcome.state_next, begun_flash,
        admitted_flash, emits_iff hops₁, hiff₁]
      simp only [hfits, false_imp_iff, and_true]
  | false =>
    have hneg : ¬ 0 ≤ req.fileSize.toInt := fun h0 => by simp [hret h0] at hr
    have hout : ¬ Contained env req ram w := by
      rw [Contained, upgradeReq_hangs h hr, Outcome.state_halt, erasing_flash, admitted_flash,
        emits_iff hops₁, hiff₁]
      exact hneg
    exact iff_of_false hout fun hin => hneg hin.1

/-- Handling a request stays inside its partition exactly when the request is not
considered, or it does not begin a download of negative size and, unless it begins one whose
version overruns its member, its block is already there, refused by the write, or inside the
partition. -/
theorem upgradeReq_contained_iff (env : Env) (req : OtaUpgradeReq) (ram : ℕ → Byte) (w : World) :
    Contained env req ram w ↔
      (req.Considered env w →
        (req.Starts env w → 0 ≤ req.fileSize.toInt) ∧
          ((req.Starts env w → req.VersionFits) →
            req.WritesNothing env ram w ∨ req.BlockInside env)) := by
  by_cases hc : req.Considered env w
  · by_cases hs : req.Starts env w
    · simp only [contained_starts_iff hs, hc, hs, true_imp_iff]
    · simp only [contained_continues_iff hc hs, hc, hs, true_imp_iff, false_imp_iff, true_and]
  · refine iff_of_true ?_ fun h => absurd h hc
    rw [Contained, upgradeReq_rejected hc]
    exact emits_rfl rfl

/-- A block of a file for the external MCU whose offset lies before the file. -/
def blockBeforeFile : OtaUpgradeReq :=
  { OtaUpgradeReq.standard with
    deviceType := exMcuDeviceType, dataOffset := BitVec.ofInt 32 (-4), dataLength := 4#16 }

/-- After boot the block above is programmed into the running image. -/
theorem blockBeforeFile_not_contained :
    Reachable (otaStep .demo) (.boot ⟨fun _ => 0, []⟩) (.boot ⟨fun _ => 0, []⟩) ∧
      ¬ Contained .demo blockBeforeFile (fun _ => 0) (.boot ⟨fun _ => 0, []⟩) := by
  refine ⟨.refl _ _, ?_⟩
  rw [contained_starts_iff (by decide)]
  decide

end WiotaDev.GatewayOta
