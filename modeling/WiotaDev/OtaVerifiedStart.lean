import WiotaDev.OtaFlashTransfers
import WiotaDev.OtaReception

/-! # Only a verified image is started -/

namespace WiotaDev.GatewayOta
open WordBytes OtaFlash HaltingRuns

variable {env : Env} {req : OtaUpgradeReq} {ram : ℕ → Byte} {w : World}

/-- The calls that give a downloaded file away to run. -/
def OtaCall.IsStart : OtaCall → Prop
  | .exMcu _ _ => True
  | .jumpProgram _ _ => True
  | _ => False

/-- The call gives away the file that the request describes. -/
def OtaCall.StartsFileOf (env : Env) (req : OtaUpgradeReq) : OtaCall → Prop
  | .exMcu addr size => addr = req.writeAddr env ∧ size = req.fileSize.toNat
  | .jumpProgram fileSize upgradeType =>
    fileSize = req.fileSize.toNat ∧ upgradeType = req.upgradeType.setWidth 8
  | _ => False

def OtaCall.ChangesFlash : OtaCall → Prop
  | .flashErase _ _ => True
  | .flashWrite _ _ _ => True
  | _ => False

/-- Each start among the new calls is one of the request's file, which the check has found to be
right, and nothing from the check on has changed the flash. -/
def StartsVerified (env : Env) (req : OtaUpgradeReq) (fl : Flash) (new : List OtaCall) : Prop :=
  ∀ later c earlier, new = later ++ c :: earlier → c.IsStart →
    c.StartsFileOf env req ∧ req.check env fl = some 0 ∧
      ∃ mid rest, earlier = mid ++ .checkFlashData 0 :: rest ∧
        ∀ d ∈ later ++ c :: mid, ¬ d.ChangesFlash

theorem startsVerified_of_none {fl : Flash} {new : List OtaCall} (h : ∀ c ∈ new, ¬ c.IsStart) :
    StartsVerified env req fl new := by
  rintro later c earlier rfl hc
  exact absurd hc (h c (by simp))

theorem startsVerified_of_check {fl : Flash} {c : OtaCall} {mid rest : List OtaCall}
    (hc : c.StartsFileOf env req) (hcheck : req.check env fl = some 0)
    (hmid : ∀ d ∈ c :: mid, ¬ d.ChangesFlash) (hmidStart : ∀ d ∈ mid, ¬ d.IsStart)
    (hrest : ∀ d ∈ rest, ¬ d.IsStart) :
    StartsVerified env req fl (c :: (mid ++ .checkFlashData 0 :: rest)) := by
  rintro later d earlier hnew hd
  rcases List.cons_eq_append_iff.mp hnew with ⟨rfl, hcons⟩ | ⟨later', rfl, hcons⟩
  · obtain ⟨rfl, rfl⟩ := List.cons_eq_cons.mp hcons.symm
    exact ⟨hc, hcheck, mid, rest, rfl, hmid⟩
  · have hmem : d ∈ mid ++ .checkFlashData 0 :: rest := hcons ▸ List.mem_append_right later' (by simp)
    rcases List.mem_append.mp hmem with h | h
    · exact absurd hd (hmidStart d h)
    rcases List.mem_cons.mp h with rfl | h
    · exact absurd hd id
    · exact absurd hd (hrest d h)

theorem receptionCalls_not_isStart (env : Env) (req : OtaUpgradeReq) (ram : ℕ → Byte) (w : World) :
    ∀ c ∈ receptionCalls env req ram w, ¬ c.IsStart := by
  rw [receptionCalls]
  split_ifs <;> simp [OtaCall.IsStart]

theorem checkFailed_calls (rc : ℤ) (w : World) : ∃ new, (checkFailed rc w).calls = new ++ w.calls ∧
    ∀ c ∈ new, ¬ c.IsStart := by
  rw [checkFailed, ucGatewayClearState]
  split
  · exact ⟨[.stopOtaTimer, .checkFlashData rc, .stopOtaTimer], rfl, by simp [OtaCall.IsStart]⟩
  · exact ⟨[.checkFlashData rc, .stopOtaTimer], rfl, by simp [OtaCall.IsStart]⟩

/-- What the end of a reception starts has been verified. -/
theorem finishBlock_startsVerified {before : List OtaCall} {w₀ : World}
    (hw : w.calls = before ++ w₀.calls) (hbefore : ∀ c ∈ before, ¬ c.IsStart) :
    ∃ new, (finishBlock env req ram w).state.calls = new ++ w₀.calls ∧
      StartsVerified env req (finishBlock env req ram w).state.flash new := by
  by_cases ha : AllRecved ram w
  · have hcomplete : (complete w).calls = .otaDataRecvEnd :: before ++ w₀.calls := by
      rw [complete, call_calls, scan_calls, hw]
      rfl
    have hend : ∀ c ∈ OtaCall.otaDataRecvEnd :: before, ¬ c.IsStart :=
      List.forall_mem_cons.mpr ⟨id, hbefore⟩
    have hstop : ∀ c ∈ OtaCall.stopOtaTimer :: OtaCall.otaDataRecvEnd :: before, ¬ c.IsStart :=
      List.forall_mem_cons.mpr ⟨id, hend⟩
    rw [finishBlock_complete ha, ← complete, completeDownload_eq]
    cases hc : req.check env (complete w).flash with
    | none =>
      refine ⟨.stopOtaTimer :: .otaDataRecvEnd :: before, ?_, startsVerified_of_none hstop⟩
      exact congrArg (List.cons OtaCall.stopOtaTimer) hcomplete
    | some rc =>
      by_cases hrc : rc = 0
      · subst hrc
        by_cases hx : req.isExMcu
        · simp only [hx, if_true, Outcome.state_next]
          refine ⟨.exMcu (req.writeAddr env) req.fileSize.toNat ::
            ([] ++ .checkFlashData 0 :: .stopOtaTimer :: .otaDataRecvEnd :: before), ?_, ?_⟩
          · simp only [exMcuDone, compared, hcomplete, List.nil_append, List.cons_append]
          · exact startsVerified_of_check ⟨rfl, rfl⟩ hc (by simp [OtaCall.ChangesFlash]) (by simp) hstop
        · simp only [hx, if_true, Bool.false_eq_true, if_false, Outcome.state_halt]
          refine ⟨.jumpProgram req.fileSize.toNat (req.upgradeType.setWidth 8) ::
            ([.exceReportPrograming] ++ .checkFlashData 0 :: .stopOtaTimer :: .otaDataRecvEnd :: before),
            ?_, ?_⟩
          · simp only [jumped, compared, hcomplete, List.nil_append, List.cons_append]
          · exact startsVerified_of_check ⟨rfl, rfl⟩ hc (by simp [OtaCall.ChangesFlash])
              (by simp [OtaCall.IsStart]) hstop
      · obtain ⟨new, hnew, hno⟩ := checkFailed_calls rc (complete w)
        simp only [hrc, if_false, Outcome.state_next]
        refine ⟨new ++ .otaDataRecvEnd :: before, ?_, startsVerified_of_none ?_⟩
        · rw [hnew, hcomplete, List.append_assoc]
        · exact List.forall_mem_append.mpr ⟨hno, hend⟩
  · rw [finishBlock_incomplete ha]
    exact ⟨before, hw, startsVerified_of_none hbefore⟩

/-- On each way through the handler of a request, what is started has been verified. -/
theorem upgradeReq_startsVerified (env : Env) (req : OtaUpgradeReq) (ram : ℕ → Byte) (w : World) :
    ∃ new, (ucWiotaGatewayOtaUpgradeResMsg env req ram w).state.calls = new ++ w.calls ∧
      StartsVerified env req (ucWiotaGatewayOtaUpgradeResMsg env req ram w).state.flash new := by
  by_cases hc : req.Considered env w
  · have hno := receptionCalls_not_isStart env req ram w
    obtain ⟨stop, hstop, hadm⟩ : ∃ stop, (admitted req w).calls = stop ++ w.calls ∧
        ∀ c ∈ stop, ¬ c.IsStart := by
      refine ⟨_, admitted_calls req w, ?_⟩
      split <;> simp [OtaCall.IsStart]
    rcases upgradeReq_ways ram hc with ⟨-, -, hout⟩ | ⟨-, -, -, hout⟩ | ⟨hrecv, -⟩
    · rw [hout, Outcome.state_halt]
      refine ⟨.flashErase (req.writeAddr env) req.fileSize.toNat :: stop, ?_,
        startsVerified_of_none ?_⟩
      · rw [erasing, hstop]
        rfl
      · exact List.forall_mem_cons.mpr ⟨id, hadm⟩
    · rw [hout, Outcome.state_next]
      refine ⟨.exceReportUpgrade :: .controlOtaTimer req.upgradeTime.toNat ::
        .flashErase (req.writeAddr env) req.fileSize.toNat :: stop, ?_, startsVerified_of_none ?_⟩
      · rw [begun, erasing, hstop]
        rfl
      · exact List.forall_mem_cons.mpr ⟨id, List.forall_mem_cons.mpr
          ⟨id, List.forall_mem_cons.mpr ⟨id, hadm⟩⟩⟩
    · rw [upgradeReq_received hrecv]
      exact finishBlock_startsVerified (received_calls env req ram w) hno
  · rw [upgradeReq_rejected hc]
    exact ⟨[], rfl, startsVerified_of_none (by simp)⟩

/-- The digest of the message "a", with 16 bytes for every other message too. -/
def md5OfAPadded (message : List Byte) : List Byte :=
  md5OfA message ++ List.replicate (16 - (md5OfA message).length) 0#8

theorem md5OfAPadded_length (message : List Byte) : (md5OfAPadded message).length = 16 := by
  have hle : (md5OfA message).length ≤ 16 := by
    rw [md5OfA]
    split <;> decide
  rw [md5OfAPadded, List.length_append, List.length_replicate]
  exact Nat.add_sub_cancel' hle

theorem md5OfAPadded_documented : (TinyMd5.ofDigest md5OfAPadded).Documented where
  streaming := TinyMd5.ofDigest_streaming md5OfAPadded
  update_nil c := List.append_nil c
  finish_length c := md5OfAPadded_length c

end WiotaDev.GatewayOta
