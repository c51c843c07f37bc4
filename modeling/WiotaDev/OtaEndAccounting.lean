import WiotaDev.OtaReception
import WiotaDev.OtaQuietMessages

/-! # What the end messages of a download count

The counter of the missing blocks belongs to the gateway, not to the message: every end message adds
its count to that of the messages before it. Where a version has filled its member, no message ends a
download any more. -/

namespace WiotaDev.GatewayOta
open WordBytes OtaFlash HaltingRuns

variable {env : Env} {msg : OtaUpgradeState} {req : OtaUpgradeReq} {ram : ℕ → Byte} {w w' : World}

/-- The number of blocks of the download whose bit is clear. -/
def missing (ram : ℕ → Byte) (w : World) : ℕ :=
  (List.range w.ota.blockCount).countP fun k => !judgmentBit ram w.ota k

/-- The message is about the running download and says that all blocks have been sent. -/
def OtaUpgradeState.EndsDownload (env : Env) (msg : OtaUpgradeState) (w : World) : Prop :=
  msg.concerns env w = true ∧ msg.processState = 0#32 ∧ w.ota.otaState = .download

instance (env : Env) (msg : OtaUpgradeState) (w : World) : Decidable (msg.EndsDownload env w) :=
  inferInstanceAs (Decidable (_ ∧ _ ∧ _))

/-- The counter is the number of missing blocks, and the timer has been set exactly if there are any. -/
def EndAccounted (ram : ℕ → Byte) (w w' : World) : Prop :=
  w'.ota.missDataNum.toNat = missing ram w ∧
    ((∃ timeout, w'.calls = .controlOtaTimer timeout :: w.calls) ↔ 1 ≤ missing ram w)

theorem upgradeStateMsg_other (h : ¬ msg.EndsDownload env w) :
    ucWiotaGatewayOtaUpgradeStateMsg env msg ram w = w := by
  rw [ucWiotaGatewayOtaUpgradeStateMsg]
  exact if_neg h

/-- An end message adds the number of missing blocks to the counter, and sets the timer if the counter
is not zero then. -/
theorem upgradeStateMsg_ends (ram : ℕ → Byte) (h : msg.EndsDownload env w) :
    (ucWiotaGatewayOtaUpgradeStateMsg env msg ram w).ota.missDataNum =
        w.ota.missDataNum + BitVec.ofNat 8 (missing ram w) ∧
      (ucWiotaGatewayOtaUpgradeStateMsg env msg ram w).calls =
        if w.ota.missDataNum + BitVec.ofNat 8 (missing ram w) > 0#8 then
          .controlOtaTimer (ucGatewayGetMissDataTimeout env w) :: w.calls
        else w.calls := by
  obtain ⟨hconcerns, hend, hstate⟩ := h
  simp only [ucWiotaGatewayOtaUpgradeStateMsg, hconcerns, hend, hstate, and_self, if_true, scan_ota]
  by_cases hpos : w.ota.missDataNum + BitVec.ofNat 8 (missing ram w) > 0#8
  · have hpos' := hpos
    rw [missing] at hpos'
    simp only [if_pos hpos', if_pos hpos]
    exact ⟨rfl, rfl⟩
  · have hpos' := hpos
    rw [missing] at hpos'
    simp only [if_neg hpos', if_neg hpos]
    exact ⟨rfl, rfl⟩

/-- One end message is accounted for exactly if the counter starts at zero and can hold the count. -/
theorem endAccounted_iff (h : msg.EndsDownload env w) :
    EndAccounted ram w (ucWiotaGatewayOtaUpgradeStateMsg env msg ram w) ↔
      w.ota.missDataNum = 0#8 ∧ missing ram w < 256 := by
  obtain ⟨hnum, hcalls⟩ := upgradeStateMsg_ends ram h
  rw [EndAccounted, hnum, hcalls]
  constructor
  · rintro ⟨hcount, -⟩
    have hlt := (w.ota.missDataNum + BitVec.ofNat 8 (missing ram w)).isLt
    refine ⟨?_, by omega⟩
    rw [BitVec.toNat_add, BitVec.toNat_ofNat] at hcount
    apply BitVec.eq_of_toNat_eq
    have := w.ota.missDataNum.isLt
    rw [BitVec.toNat_ofNat]
    omega
  · rintro ⟨hzero, hlt⟩
    have hcount : (0#8 + BitVec.ofNat 8 (missing ram w)).toNat = missing ram w := by
      rw [BitVec.zero_add, BitVec.toNat_ofNat, Nat.mod_eq_of_lt hlt]
    have hgt : 0#8 + BitVec.ofNat 8 (missing ram w) > 0#8 ↔ 1 ≤ missing ram w := by
      rw [gt_iff_lt, BitVec.lt_def, hcount]
      rfl
    rw [hzero]
    refine ⟨hcount, ?_⟩
    by_cases hpos : 1 ≤ missing ram w
    · rw [if_pos (hgt.mpr hpos)]
      exact iff_of_true ⟨_, rfl⟩ hpos
    · rw [if_neg (mt hgt.mp hpos)]
      refine iff_of_false ?_ hpos
      rintro ⟨timeout, htimer⟩
      exact absurd (congrArg List.length htimer) (by simp)

section Unterminated

theorem getElem_rtStrncpy {n : ℕ} (dst : Vector Byte n) (src : List Byte) {i : ℕ} (h : i < n) :
    (rtStrncpy dst src)[i] = src.getD i dst[i] := by
  simp [rtStrncpy]

/-- A copy that leaves a zero is shorter than the array, and the zero was there before. -/
theorem mem_of_mem_rtStrncpy {n : ℕ} {dst : Vector Byte n} {src : List Byte} (hz : 0#8 ∉ src)
    (h : 0#8 ∈ (rtStrncpy dst src).toList) : src.length < n ∧ 0#8 ∈ dst.toList := by
  obtain ⟨i, hi, hzero⟩ := Vector.mem_iff_getElem.mp (Vector.mem_toList_iff.mp h)
  rw [getElem_rtStrncpy _ _ hi] at hzero
  by_cases hlt : i < src.length
  · rw [List.getD_eq_getElem _ _ hlt] at hzero
    exact absurd (hzero ▸ List.getElem_mem hlt) hz
  · rw [List.getD_eq_default _ _ (not_lt.mp hlt)] at hzero
    exact ⟨by omega, Vector.mem_toList_iff.mpr (Vector.mem_iff_getElem.mpr ⟨i, hi, hzero⟩)⟩

/-- Behind a version that fills its member a download has its state. -/
theorem versionText_unterminated {ota : OtaPara} (hz : 0#8 ∉ ota.newVersion.toList)
    (hs : ota.otaState = .download) : ota.versionText = ota.newVersion.toList ++ [1#8] := by
  have hnz : ∀ c ∈ ota.newVersion.toList, decide (c ≠ 0#8) = true := fun c hc =>
    decide_eq_true fun h => hz (h ▸ hc)
  rw [OtaPara.versionText, cText, hs]
  simp only [List.append_assoc]
  rw [List.takeWhile_append_of_pos hnz]
  rfl

/-- A message that ends a download finds a version that ends inside its member. -/
theorem OtaUpgradeState.EndsDownload.terminated (h : msg.EndsDownload env w) :
    0#8 ∈ w.ota.newVersion.toList := by
  by_contra hz
  obtain ⟨hconcerns, -, hstate⟩ := h
  simp only [OtaUpgradeState.concerns, Bool.and_eq_true, rtStrncmp, List.isPrefixOf_iff_prefix]
    at hconcerns
  obtain ⟨⟨⟨hold, hnew⟩, -⟩, -⟩ := hconcerns
  rw [versionText_unterminated hz hstate] at hnew
  have hraw := hnew.trans (List.takeWhile_prefix _)
  simp only [List.append_assoc] at hraw
  have hone : msg.oldVersion[0] = 1#8 := by
    have hget := hraw.getElem (i := 16) (by simp)
    simpa using hget.symm
  obtain ⟨c, rest, hversion⟩ := List.exists_cons_of_length_pos env.version_pos
  have hfirst : msg.oldVersion[0] = c := by
    have hget := (hold.trans (List.takeWhile_prefix _)).getElem (i := 0) env.version_pos
    simpa [hversion] using hget.symm
  have hprintable := env.version_printable c (by rw [hversion]; exact List.mem_cons_self)
  rw [← hfirst, hone] at hprintable
  exact absurd hprintable (by decide)

end Unterminated

theorem finishBlock_keeps (h : finishBlock env req ram w = .next w') :
    w'.ota.newVersion = w.ota.newVersion ∧ w'.ota.missDataNum = w.ota.missDataNum := by
  rcases finishBlock_next h with ⟨-, rfl⟩ | ⟨-, rc, -, -, rfl⟩ | ⟨-, -, -, rfl⟩
  · exact ⟨rfl, rfl⟩
  · rw [checkFailed, ucGatewayClearState]
    split <;> exact ⟨rfl, rfl⟩
  · exact ⟨rfl, rfl⟩

theorem received_keeps (env : Env) (req : OtaUpgradeReq) (ram : ℕ → Byte) (w : World) :
    (received env req ram w).ota.newVersion = (atReception env req w).ota.newVersion ∧
      (received env req ram w).ota.missDataNum = w.ota.missDataNum := by
  have hat : (atReception env req w).ota.missDataNum = w.ota.missDataNum := by
    rw [atReception]
    split <;> rfl
  rw [← hat, received]
  split
  · exact ⟨rfl, rfl⟩
  · rw [written_newVersion, written_missDataNum]
    exact ⟨rfl, rfl⟩

/-- A request that leaves a version that ends inside its member found one, and leaves the counter. -/
theorem upgradeReq_missDataNum (h : ucWiotaGatewayOtaUpgradeResMsg env req ram w = .next w')
    (hz : 0#8 ∈ w'.ota.newVersion.toList) :
    0#8 ∈ w.ota.newVersion.toList ∧ w'.ota.missDataNum = w.ota.missDataNum := by
  by_cases hc : req.Considered env w
  · rcases considered_next hc h with ⟨-, -, hfits, rfl⟩ | ⟨-, hfin⟩
    · have hlong : 16 < req.versionText.length := by
        by_contra hshort
        rw [OtaUpgradeReq.VersionFits, List.drop_eq_nil_of_le (not_lt.mp hshort)] at hfits
        exact hfits List.nil_prefix
      have hlt := (mem_of_mem_rtStrncpy req.not_mem_versionText hz).1
      omega
    · obtain ⟨hversion, hnum⟩ := finishBlock_keeps hfin
      obtain ⟨hversion', hnum'⟩ := received_keeps env req ram w
      refine ⟨?_, hnum.trans hnum'⟩
      rw [hversion, hversion', atReception] at hz
      split at hz
      · exact (mem_of_mem_rtStrncpy req.not_mem_versionText hz).2
      · exact hz
  · rw [upgradeReq_rejected hc, Outcome.next.injEq] at h
    subst h
    exact ⟨hz, rfl⟩

theorem missDataReqMsg_keeps (env : Env) (sent : Bool) (ram : ℕ → Byte) (w : World) :
    (ucWiotaGatewayOtaMissDataReqMsg env sent ram w).ota.newVersion = w.ota.newVersion ∧
      (ucWiotaGatewayOtaMissDataReqMsg env sent ram w).ota.missDataNum = w.ota.missDataNum := by
  rw [ucWiotaGatewayOtaMissDataReqMsg]
  split
  · dsimp only
    split_ifs <;> exact ⟨rfl, rfl⟩
  · exact ⟨rfl, rfl⟩

/-- The number of blocks that an event counts: those missing at an end message. -/
def counted (env : Env) (w : World) : OtaEvent → ℕ
  | .upgradeState msg ram => if msg.EndsDownload env w then missing ram w else 0
  | _ => 0

/-- As long as the version ends inside its member, nothing but end messages changes the counter, and
nothing resets it. -/
theorem otaStep_missDataNum {e : OtaEvent} (h : otaStep env w e = .next w')
    (hz : 0#8 ∈ w'.ota.newVersion.toList) : 0#8 ∈ w.ota.newVersion.toList ∧
      w'.ota.missDataNum = w.ota.missDataNum + BitVec.ofNat 8 (counted env w e) := by
  have hnone : w.ota.missDataNum + BitVec.ofNat 8 0 = w.ota.missDataNum := BitVec.add_zero _
  cases e with
  | upgradeReq req ram =>
    obtain ⟨hz', hnum⟩ := upgradeReq_missDataNum h hz
    exact ⟨hz', hnum.trans hnone.symm⟩
  | upgradeStop ioteList =>
    obtain rfl := Outcome.next.inj h
    rw [upgradeStopMsg_eq] at hz ⊢
    split at hz
    · next hm =>
      rw [if_pos hm]
      exact ⟨hz, hnone.symm⟩
    · next hm =>
      rw [if_neg hm]
      exact ⟨hz, hnone.symm⟩
  | upgradeState msg ram =>
    obtain rfl := Outcome.next.inj h
    obtain ⟨n, q, c, hota⟩ := (upgradeStateMsg_quiet env msg ram w).ota
    rw [hota] at hz
    refine ⟨hz, ?_⟩
    rw [counted]
    by_cases hend : msg.EndsDownload env w
    · rw [if_pos hend, (upgradeStateMsg_ends ram hend).1]
    · rw [if_neg hend, upgradeStateMsg_other hend, hnone]
  | missDataReq sent ram =>
    obtain rfl := Outcome.next.inj h
    obtain ⟨hversion, hnum⟩ := missDataReqMsg_keeps env sent ram w
    exact ⟨hversion ▸ hz, hnum.trans hnone.symm⟩
  | clearOtaState =>
    obtain rfl := Outcome.next.inj h
    exact ⟨hz, hnone.symm⟩

/-- After a run the counter holds, modulo 256, the sum of what the end messages have counted. -/
theorem run_missDataNum {es : List OtaEvent} (h : run (otaStep env) w es = .next w')
    (hz : 0#8 ∈ w'.ota.newVersion.toList) : w'.ota.missDataNum =
      w.ota.missDataNum + BitVec.ofNat 8 (total (otaStep env) (counted env) w es) :=
  (run_total (fun w : World => w.ota.missDataNum) (BitVec.ofNat 8) (counted env) (fun m => by simp)
    (fun m a b => by rw [BitVec.ofNat_add, BitVec.add_assoc])
    (fun _ _ _ => otaStep_missDataNum) h hz).2

/-- From the start of the gateway on, an end message is accounted for exactly if the end messages before
it have counted a multiple of 256 missing blocks together, and fewer than 256 are missing now. -/
theorem end_messages_accounted_iff (env : Env) (flash : Flash) (es : List OtaEvent) :
    (∀ pre msg ram post w, es = pre ++ .upgradeState msg ram :: post →
      run (otaStep env) (.boot flash) pre = .next w → msg.EndsDownload env w →
        EndAccounted ram w (ucWiotaGatewayOtaUpgradeStateMsg env msg ram w)) ↔
      ∀ pre msg ram post w, es = pre ++ .upgradeState msg ram :: post →
        run (otaStep env) (.boot flash) pre = .next w → msg.EndsDownload env w →
          total (otaStep env) (counted env) (.boot flash) pre % 256 = 0 ∧ missing ram w < 256 := by
  refine forall₅_congr fun pre msg ram post w => forall_congr' fun _ => ?_
  refine forall₂_congr fun hrun hend => ?_
  have hnum : w.ota.missDataNum =
      BitVec.ofNat 8 (total (otaStep env) (counted env) (.boot flash) pre) :=
    (run_missDataNum hrun hend.terminated).trans (BitVec.zero_add _)
  have hzero : w.ota.missDataNum = 0#8 ↔
      total (otaStep env) (counted env) (.boot flash) pre % 256 = 0 := by
    rw [hnum, ← BitVec.toNat_inj, BitVec.toNat_ofNat, BitVec.toNat_ofNat]
  rw [endAccounted_iff hend, hzero]

/-- The message that ends the broadcast of `twoBlockFile`. -/
def endOfBroadcast : OtaUpgradeState where
  upgradeType := 0#32
  newVersion := OtaUpgradeReq.standard.newVersion
  oldVersion := OtaUpgradeReq.standard.oldVersion
  deviceType := OtaUpgradeReq.standard.deviceType
  processState := 0#32

/-- One block of two is missing; the second end message counts it again. -/
theorem second_end_miscounts : ¬ ∀ (env : Env) (flash : Flash) (es : List OtaEvent) pre msg ram post w,
    es = pre ++ .upgradeState msg ram :: post → run (otaStep env) (.boot flash) pre = .next w →
      msg.EndsDownload env w → EndAccounted ram w (ucWiotaGatewayOtaUpgradeStateMsg env msg ram w) := by
  intro h
  have hrun : run (otaStep .demo) (.boot ⟨fun _ => 0, []⟩)
      [.upgradeReq twoBlockFile fun _ => 0, .upgradeState endOfBroadcast fun _ => 0] =
        .next (ucWiotaGatewayOtaUpgradeStateMsg .demo endOfBroadcast (fun _ => 0) downloadingWorld) := by
    rw [run_cons, otaStep, twoBlockFile_step]
    rfl
  have hfirst : endOfBroadcast.EndsDownload .demo downloadingWorld := by decide
  have hend : endOfBroadcast.EndsDownload .demo
      (ucWiotaGatewayOtaUpgradeStateMsg .demo endOfBroadcast (fun _ => 0) downloadingWorld) := by
    decide
  have hcount := (endAccounted_iff hend).mp (h .demo _ _ _ endOfBroadcast (fun _ => 0) [] _ rfl hrun hend)
  rw [(upgradeStateMsg_ends (fun _ => 0) hfirst).1] at hcount
  exact absurd hcount.1 (by decide)

end WiotaDev.GatewayOta
