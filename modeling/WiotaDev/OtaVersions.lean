import WiotaDev.OtaEndAccounting

/-! # Which version a download is known by

The version of a download is copied over that of the download before it, without its end, and messages
are compared with it by their beginning. -/

namespace WiotaDev.GatewayOta
open WordBytes OtaFlash HaltingRuns

variable {env : Env} {req : OtaUpgradeReq} {msg : OtaUpgradeState} {ram : ℕ → Byte} {w w' : World}

theorem takeWhile_eq_iff {α : Type*} {p : α → Bool} {l v : List α} (hv : ∀ x ∈ v, p x = true)
    (hlt : v.length < l.length) : l.takeWhile p = v ↔ v <+: l ∧ p l[v.length] = false := by
  induction l generalizing v with
  | nil => exact absurd hlt (Nat.not_lt_zero _)
  | cons a l ih =>
    cases v with
    | nil =>
      rw [List.takeWhile_cons]
      cases h : p a <;> simp [h]
    | cons b v =>
      rw [List.takeWhile_cons, List.cons_prefix_cons]
      have hvb := hv b List.mem_cons_self
      have ih := ih (fun x hx => hv x (List.mem_cons_of_mem b hx)) (Nat.lt_of_succ_lt_succ hlt)
      by_cases hab : a = b
      · subst hab
        simp only [hvb, if_true, List.cons.injEq, true_and, ih]
        rfl
      · have hba : ¬ b = a := fun h => hab h.symm
        cases p a <;> simp [hab, hba]

/-- The text of a character array, where it leaves room for its end. -/
theorem textOf_eq_iff {n : ℕ} {chars : Vector Byte n} {v : List Byte} (hv : 0#8 ∉ v)
    (hlt : v.length < n) :
    textOf chars = v ↔ (∀ i (h : i < v.length), chars[i] = v[i]) ∧ chars[v.length] = 0#8 := by
  have hlen : v.length < chars.toList.length := by rwa [Vector.length_toList]
  have hnz : ∀ x ∈ v, decide (x ≠ 0#8) = true := fun x hx =>
    decide_eq_true fun h => hv (h ▸ hx)
  rw [textOf, cText, takeWhile_eq_iff hnz hlen, List.prefix_iff_getElem]
  refine and_congr ⟨fun h i hi => ?_, fun h => ⟨hlen.le, fun i hi => ?_⟩⟩ ?_
  · rw [h.2 i hi, Vector.getElem_toList]
  · rw [← h i hi, Vector.getElem_toList]
  · rw [Vector.getElem_toList, decide_eq_false_iff_not, not_not]

/-- A copy reads back exactly if nothing stands in the array where the copied text ends. -/
theorem textOf_rtStrncpy {n : ℕ} {dst : Vector Byte n} {src : List Byte} (hv : 0#8 ∉ src)
    (hlt : src.length < n) : textOf (rtStrncpy dst src) = src ↔ dst[src.length] = 0#8 := by
  rw [textOf_eq_iff hv hlt, getElem_rtStrncpy, List.getD_eq_default _ _ le_rfl, and_iff_right]
  intro i hi
  rw [getElem_rtStrncpy _ _ (hi.trans hlt), List.getD_eq_getElem _ _ hi]

theorem not_mem_textOf {n : ℕ} (chars : Vector Byte n) : 0#8 ∉ textOf chars := not_mem_cText _

theorem textOf_length {n : ℕ} {chars : Vector Byte n} (h : 0#8 ∈ chars.toList) :
    (textOf chars).length < n := by
  have hle : (textOf chars).length ≤ n :=
    (List.takeWhile_prefix _).length_le.trans_eq chars.length_toList
  refine lt_of_le_of_ne hle fun heq => not_mem_cText chars.toList ?_
  have hall : textOf chars = chars.toList :=
    (List.takeWhile_prefix _).eq_of_length (heq.trans chars.length_toList.symm)
  rw [textOf] at hall
  rwa [hall]

/-- What stands behind a zero is no part of a text. -/
theorem cText_append {n : ℕ} {chars : Vector Byte n} (h : 0#8 ∈ chars.toList) (rest : List Byte) :
    cText (chars.toList ++ rest) = textOf chars := by
  have hshort : ¬ (cText chars.toList).length = chars.toList.length := by
    rw [chars.length_toList]
    exact (textOf_length h).ne
  rw [cText, List.takeWhile_append]
  exact if_neg hshort

theorem prefix_cText_iff {v bytes : List Byte} (hz : 0#8 ∉ v) : v <+: cText bytes ↔ v <+: bytes := by
  refine ⟨fun h => h.trans (List.takeWhile_prefix _), ?_⟩
  rintro ⟨rest, rfl⟩
  have hnz : ∀ c ∈ v, decide (c ≠ 0#8) = true := fun c hc => decide_eq_true fun h => hz (h ▸ hc)
  rw [cText, List.takeWhile_append_of_pos hnz]
  exact List.prefix_append _ _

theorem OtaPara.versionText_of_mem {ota : OtaPara} (h : 0#8 ∈ ota.newVersion.toList) :
    ota.versionText = textOf ota.newVersion := by
  rw [OtaPara.versionText]
  simp only [List.append_assoc]
  exact cText_append h _

theorem OtaUpgradeReq.versionText_of_mem (h : 0#8 ∈ req.newVersion.toList) :
    req.versionText = textOf req.newVersion := by
  rw [OtaUpgradeReq.versionText]
  simp only [List.append_assoc]
  exact cText_append h _

/-- A text that is shorter than the member is compared inside it. -/
theorem OtaUpgradeState.prefix_versionText_iff {v : List Byte} (hz : 0#8 ∉ v) (hlt : v.length < 16) :
    v <+: msg.versionText ↔ v <+: textOf msg.newVersion := by
  rw [OtaUpgradeState.versionText, textOf, prefix_cText_iff hz, prefix_cText_iff hz]
  simp only [List.append_assoc]
  refine ⟨fun h => ?_, fun h => h.trans (List.prefix_append _ _)⟩
  exact List.prefix_of_prefix_length_le h (List.prefix_append _ _)
    (by rw [Vector.length_toList]; omega)

/-- The OTA part of the device with the versions of the downloads it has started, the newest first. -/
structure Versioned where
  world : World
  started : List (List Byte)

def noteStarted (env : Env) (t : Versioned) : OtaEvent → List (List Byte)
  | .upgradeReq req _ =>
    if req.Starts env t.world then textOf req.newVersion :: t.started else t.started
  | _ => t.started

def Versioned.step (env : Env) (t : Versioned) (e : OtaEvent) : Outcome HaltReason Versioned :=
  (otaStep env t.world e).map fun w => ⟨w, noteStarted env t e⟩

def Versioned.boot (flash : Flash) : Versioned :=
  ⟨.boot flash, []⟩

/-- What a message says besides the new version is right for this device and its upgrade. -/
def OtaUpgradeState.MatchesUpgrade (env : Env) (msg : OtaUpgradeState) (w : World) : Prop :=
  rtStrncmp (textOf msg.oldVersion) env.version = true ∧
    rtStrncmp (textOf msg.deviceType) DEVICE_TYPE = true ∧
    msg.upgradeType = w.ota.upgradeType.setWidth 32

/-- The packet that starts a download leaves its version in the field, the messages that end the
download are known by exactly this version, and the requests for its missing data carry it. -/
def VersionKept (env : Env) (t : Versioned) : OtaEvent → Prop
  | .upgradeReq req ram => req.Starts env t.world → (req.erase env t.world.flash).2 = true →
    textOf (otaStep env t.world (.upgradeReq req ram)).state.ota.newVersion = textOf req.newVersion
  | .upgradeState msg _ => t.world.ota.otaState = .download → msg.processState = 0#32 →
    msg.MatchesUpgrade env t.world → ∀ v rest, t.started = v :: rest →
      (msg.EndsDownload env t.world ↔ textOf msg.newVersion = v)
  | .missDataReq sent ram => ∀ v rest, t.started = v :: rest →
    ∀ r timer, (ucWiotaGatewayOtaMissDataReqMsg env sent ram t.world).calls =
      timer :: .missDataReq r :: t.world.calls → r.newVersion = v
  | _ => True

/-- A download that starts has no shorter version than any before it, and no end message of a download
has a version that begins with the download's and goes on. -/
def VersionOk (env : Env) (t : Versioned) : OtaEvent → Prop
  | .upgradeReq req _ => req.Starts env t.world → (req.erase env t.world.flash).2 = true →
    ∀ u ∈ t.started, u.length ≤ (textOf req.newVersion).length
  | .upgradeState msg _ => t.world.ota.otaState = .download → msg.processState = 0#32 →
    msg.MatchesUpgrade env t.world → ∀ v rest, t.started = v :: rest →
      v <+: textOf msg.newVersion → textOf msg.newVersion = v
  | _ => True

/-- The version of a request ends inside its member. -/
def Terminated : OtaEvent → Prop
  | .upgradeReq req _ => 0#8 ∈ req.newVersion.toList
  | _ => True

/-- The version field holds the last version, and where it is not empty an earlier version has been
at least as long. -/
structure VersionTracked (t : Versioned) : Prop where
  short : ∀ u ∈ t.started, u.length < 16
  occupied : ∀ i (h : i < 16), t.world.ota.newVersion[i] ≠ 0#8 ↔ ∃ u ∈ t.started, i < u.length
  current : ∀ v rest, t.started = v :: rest → textOf t.world.ota.newVersion = v

theorem versionTracked_boot (flash : Flash) : VersionTracked (.boot flash) where
  short u hu := absurd hu List.not_mem_nil
  occupied i h := by
    refine iff_of_false (not_not.mpr ?_) (by simp [Versioned.boot])
    show (Vector.replicate 16 0#8)[i] = 0#8
    exact Vector.getElem_replicate h
  current v rest h := absurd h (List.cons_ne_nil v rest).symm

theorem VersionTracked.terminated {t : Versioned} (ht : VersionTracked t) :
    0#8 ∈ t.world.ota.newVersion.toList := by
  have hlast : t.world.ota.newVersion[15] = 0#8 := by
    by_contra hne
    obtain ⟨u, hu, hlt⟩ := (ht.occupied 15 (by decide)).mp hne
    have := ht.short u hu
    omega
  exact Vector.mem_toList_iff.mpr (Vector.mem_iff_getElem.mpr ⟨15, by decide, hlast⟩)

theorem finishBlock_newVersion (env : Env) (req : OtaUpgradeReq) (ram : ℕ → Byte) (w : World) :
    (finishBlock env req ram w).state.ota.newVersion = w.ota.newVersion := by
  by_cases ha : AllRecved ram w
  · rw [finishBlock_complete ha, completeDownload_eq]
    cases req.check env ((w.scan w.ota.blockCount).call .otaDataRecvEnd).flash with
    | none => rfl
    | some rc =>
      dsimp only
      split_ifs
      · rfl
      · rfl
      · rw [Outcome.state_next, checkFailed, ucGatewayClearState]
        split <;> rfl
  · rw [finishBlock_incomplete ha]
    rfl

theorem upgradeReq_received_newVersion (ram : ℕ → Byte) (h : req.Receives env w) :
    (ucWiotaGatewayOtaUpgradeResMsg env req ram w).state.ota.newVersion =
      (atReception env req w).ota.newVersion := by
  rw [upgradeReq_received h, finishBlock_newVersion]
  exact (received_keeps env req ram w).1

/-- A request that starts a download copies its version, whether or not it fits. -/
theorem upgradeReq_starts_newVersion (ram : ℕ → Byte) (h : req.Starts env w)
    (hret : (req.erase env w.flash).2 = true) :
    (ucWiotaGatewayOtaUpgradeResMsg env req ram w).state.ota.newVersion =
      rtStrncpy w.ota.newVersion req.versionText := by
  by_cases hfits : req.VersionFits
  · rw [upgradeReq_received_newVersion ram ⟨h.1, fun _ => hret, fun _ => hfits⟩, atReception,
      if_pos h]
    rfl
  · rw [upgradeReq_derails h hret hfits]
    rfl

/-- No other request copies a version. -/
theorem upgradeReq_other_newVersion (ram : ℕ → Byte) (h : ¬ req.Starts env w) :
    (ucWiotaGatewayOtaUpgradeResMsg env req ram w).state.ota.newVersion = w.ota.newVersion := by
  by_cases hc : req.Considered env w
  · rw [upgradeReq_received_newVersion ram ⟨hc, fun hs => absurd hs h, fun hs => absurd hs h⟩,
      atReception, if_neg h]
    rfl
  · rw [upgradeReq_rejected hc]
    rfl

/-- What is no request leaves the version and the page of the timeouts. -/
theorem otaStep_other_kept {e : OtaEvent} (he : ¬∃ req ram, e = .upgradeReq req ram)
    (h : otaStep env w e = .next w') :
    w'.ota.newVersion = w.ota.newVersion ∧ w'.ota.mcsLen = w.ota.mcsLen := by
  obtain ⟨v, hv, hcases⟩ := otaStep_other env w he
  obtain rfl := Outcome.next.inj (hv.symm.trans h)
  rcases hcases with hq | rfl | ⟨-, rfl⟩
  · obtain ⟨n, q, c, ho⟩ := hq.ota
    rw [ho]
    exact ⟨rfl, rfl⟩
  · exact ⟨rfl, rfl⟩
  · exact ⟨rfl, rfl⟩

/-- A request for missing data carries the text of the field. -/
theorem missDataReqMsg_newVersion {sent : Bool} {r : MissingDataReq} {timer : OtaCall}
    (hz : 0#8 ∈ w.ota.newVersion.toList)
    (h : (ucWiotaGatewayOtaMissDataReqMsg env sent ram w).calls =
      timer :: .missDataReq r :: w.calls) : r.newVersion = textOf w.ota.newVersion := by
  have htext : r.newVersion = OtaPara.versionText
      { w.ota with missDataInvalidReq := w.ota.missDataInvalidReq + 1#8 } := by
    rw [ucWiotaGatewayOtaMissDataReqMsg] at h
    split at h
    · dsimp only at h
      split_ifs at h
      all_goals
        obtain ⟨-, hr⟩ := List.cons.inj h
        obtain rfl := OtaCall.missDataReq.inj (List.cons.inj hr).1
        rfl
    · exact absurd (congrArg List.length h) (by simp [ucGatewayStopOtaTimer])
  rw [htext]
  exact OtaPara.versionText_of_mem hz

theorem endsDownload_iff (hz : 0#8 ∈ w.ota.newVersion.toList) (hs : w.ota.otaState = .download)
    (hp : msg.processState = 0#32) (hm : msg.MatchesUpgrade env w) :
    msg.EndsDownload env w ↔ textOf w.ota.newVersion <+: textOf msg.newVersion := by
  obtain ⟨hold, hdev, htype⟩ := hm
  rw [← OtaUpgradeState.prefix_versionText_iff (not_mem_textOf _) (textOf_length hz),
    ← OtaPara.versionText_of_mem hz, OtaUpgradeState.EndsDownload, OtaUpgradeState.concerns, hold,
    hdev, decide_eq_true htype]
  simp [rtStrncmp, hs, hp]

theorem versionKept_iff {t : Versioned} {e : OtaEvent} (ht : VersionTracked t) (he : Terminated e) :
    VersionKept env t e ↔ VersionOk env t e := by
  cases e with
  | upgradeReq req ram =>
    refine forall₂_congr fun hs hret => ?_
    rw [otaStep, upgradeReq_starts_newVersion ram hs hret, req.versionText_of_mem he,
      textOf_rtStrncpy (not_mem_textOf _) (textOf_length he)]
    have hocc := ht.occupied _ (textOf_length he)
    constructor
    · intro hzero u hu
      by_contra hlt
      exact hocc.mpr ⟨u, hu, not_le.mp hlt⟩ hzero
    · intro hle
      by_contra hne
      obtain ⟨u, hu, hlt⟩ := hocc.mp hne
      exact absurd (hle u hu) (not_le.mpr hlt)
  | upgradeState msg ram =>
    refine forall₃_congr fun hs hp hm => forall₃_congr fun v rest hstarted => ?_
    rw [endsDownload_iff ht.terminated hs hp hm, ht.current v rest hstarted]
    exact ⟨fun h => h.mp, fun h => ⟨h, fun heq => heq ▸ List.prefix_refl _⟩⟩
  | missDataReq sent ram =>
    refine iff_of_true (fun v rest hstarted r timer hcalls => ?_) trivial
    rw [missDataReqMsg_newVersion ht.terminated hcalls, ht.current v rest hstarted]
  | upgradeStop ioteList => exact Iff.rfl
  | clearOtaState => exact Iff.rfl

theorem versionTracked_step {t t' : Versioned} {e : OtaEvent} (ht : VersionTracked t)
    (he : Terminated e) (hok : VersionOk env t e) (h : t.step env e = .next t') :
    VersionTracked t' := by
  obtain ⟨w', hw, rfl⟩ := Outcome.map_eq_next.mp h
  by_cases hstart : ∃ req ram, e = .upgradeReq req ram ∧ req.Starts env t.world
  · obtain ⟨req, ram, rfl, hs⟩ := hstart
    have hlen := textOf_length he
    have hret : (req.erase env t.world.flash).2 = true := by
      rcases considered_next hs.1 hw with ⟨-, hret, -⟩ | ⟨hrecv, -⟩
      · exact hret
      · exact hrecv.returns hs
    have hnew : w'.ota.newVersion = rtStrncpy t.world.ota.newVersion (textOf req.newVersion) := by
      rw [← req.versionText_of_mem he, ← upgradeReq_starts_newVersion ram hs hret]
      exact (congrArg (fun o => o.state.ota.newVersion) hw).symm
    have hnote : noteStarted env t (.upgradeReq req ram) = textOf req.newVersion :: t.started :=
      if_pos hs
    rw [hnote]
    refine ⟨fun u hu => ?_, fun i hi => ?_, fun v rest hv => ?_⟩
    · rcases List.mem_cons.mp hu with rfl | hu
      · exact hlen
      · exact ht.short u hu
    · show w'.ota.newVersion[i] ≠ 0#8 ↔ _
      rw [hnew, getElem_rtStrncpy _ _ hi]
      by_cases hlt : i < (textOf req.newVersion).length
      · rw [List.getD_eq_getElem _ _ hlt]
        refine iff_of_true (fun h0 => not_mem_textOf req.newVersion ?_)
          ⟨_, List.mem_cons_self, hlt⟩
        exact h0 ▸ List.getElem_mem hlt
      · rw [List.getD_eq_default _ _ (not_lt.mp hlt), ht.occupied i hi]
        constructor
        · rintro ⟨u, hu, hlen⟩
          exact ⟨u, List.mem_cons_of_mem _ hu, hlen⟩
        · rintro ⟨u, hu, hlen⟩
          rcases List.mem_cons.mp hu with rfl | hu
          · exact absurd hlen hlt
          · exact ⟨u, hu, hlen⟩
    · obtain ⟨rfl, -⟩ := List.cons.inj hv
      have hkept := (versionKept_iff (e := .upgradeReq req ram) ht he).mpr hok hs hret
      rwa [hw] at hkept
  · have hsame : w'.ota.newVersion = t.world.ota.newVersion ∧ noteStarted env t e = t.started := by
      by_cases hreq : ∃ req ram, e = .upgradeReq req ram
      · obtain ⟨req, ram, rfl⟩ := hreq
        have hs : ¬ req.Starts env t.world := fun hs => hstart ⟨req, ram, rfl, hs⟩
        refine ⟨?_, if_neg hs⟩
        rw [← upgradeReq_other_newVersion ram hs]
        exact (congrArg (fun o => o.state.ota.newVersion) hw).symm
      · refine ⟨(otaStep_other_kept hreq hw).1, ?_⟩
        cases e with
        | upgradeReq req ram => exact absurd ⟨req, ram, rfl⟩ hreq
        | _ => rfl
    rw [hsame.2]
    refine ⟨ht.short, fun i hi => ?_, fun v rest hv => ?_⟩
    · rw [← ht.occupied i hi, hsame.1]
    · rw [← ht.current v rest hv, hsame.1]

/-- From the start of the gateway on, the versions of the downloads are kept in all of a run exactly if
no download that starts has a shorter version than one before it in the session, and no end message of
a download has a version that only begins with the download's. -/
theorem versions_kept_iff (env : Env) (flash : Flash) (es : List OtaEvent)
    (hes : ∀ e ∈ es, Terminated e) :
    (∀ pre e post t, es = pre ++ e :: post →
      run (Versioned.step env) (.boot flash) pre = .next t → VersionKept env t e) ↔
      Meets (Versioned.step env) (VersionOk env) (.boot flash) es := by
  rw [← meets_iff_splits]
  exact meets_congr_of (Q := Terminated) (fun _ _ _ ht he hok h => versionTracked_step ht he hok h)
    (fun _ _ ht he => versionKept_iff ht he) (versionTracked_boot flash) hes

/-- The message that ends the broadcast of `twoBlockFile` is known by its version. -/
theorem endOfBroadcast_version_kept :
    VersionKept .demo ⟨downloadingWorld, [textOf twoBlockFile.newVersion]⟩
      (.upgradeState endOfBroadcast fun _ => 0) := by
  have hstep : (Versioned.boot ⟨fun _ => 0, []⟩).step .demo (.upgradeReq twoBlockFile fun _ => 0) =
      .next ⟨downloadingWorld, [textOf twoBlockFile.newVersion]⟩ :=
    congrArg (Outcome.map _) twoBlockFile_step
  have hes : ∀ e ∈ [OtaEvent.upgradeReq twoBlockFile fun _ => 0, .upgradeState endOfBroadcast fun _ => 0],
      Terminated e :=
    List.forall_mem_cons.mpr ⟨(by decide : 0#8 ∈ twoBlockFile.newVersion.toList),
      List.forall_mem_singleton.mpr trivial⟩
  have hok : Meets (Versioned.step .demo) (VersionOk .demo) (.boot ⟨fun _ => 0, []⟩)
      [.upgradeReq twoBlockFile fun _ => 0, .upgradeState endOfBroadcast fun _ => 0] := by
    refine ⟨fun _ _ u hu => absurd hu List.not_mem_nil, fun t ht => ⟨?_, fun _ _ => trivial⟩⟩
    obtain rfl := Outcome.next.inj (hstep.symm.trans ht)
    intro _ _ _ v rest hv _
    obtain ⟨rfl, -⟩ := List.cons.inj hv
    rfl
  have hrun : run (Versioned.step .demo) (.boot ⟨fun _ => 0, []⟩)
      [.upgradeReq twoBlockFile fun _ => 0] =
        .next ⟨downloadingWorld, [textOf twoBlockFile.newVersion]⟩ := by
    rw [run_cons, hstep]
    rfl
  exact (versions_kept_iff .demo ⟨fun _ => 0, []⟩ _ hes).mpr hok [.upgradeReq twoBlockFile fun _ => 0]
    _ [] _ rfl hrun

/-- The first block of a file of two blocks with version "v10". -/
def longVersion : OtaUpgradeReq :=
  { twoBlockFile with
    newVersion := #v[0x76, 0x31, 0x30, 0, 0, 0, 0, 0, 0, 0, 0, 0, 0, 0, 0, 0] }

/-- The first block of the next upgrade, with version "v4". -/
def shortVersion : OtaUpgradeReq :=
  { twoBlockFile with upgradeNum := 8#16 }

/-- After a download of version "v10", one of version "v4" is known as "v40". -/
theorem shorter_version_not_kept : ¬ ∀ (env : Env) (flash : Flash) (es : List OtaEvent),
    (∀ e ∈ es, Terminated e) → ∀ pre e post t, es = pre ++ e :: post → run (Versioned.step env) (.boot flash) pre = .next t →
      VersionKept env t e := by
  intro h
  obtain ⟨w, hw⟩ : ∃ w, w = firstReceived .demo longVersion (.boot ⟨fun _ => 0, []⟩) := ⟨_, rfl⟩
  have hfirst : ucWiotaGatewayOtaUpgradeResMsg .demo longVersion (fun _ => 0)
      (.boot ⟨fun _ => 0, []⟩) = .next w :=
    hw ▸ upgradeReq_firstBlock (by decide) (by decide) (by decide) (by decide) (by decide)
      ⟨1, by decide, by decide, by decide⟩
  have hnote : noteStarted .demo (.boot ⟨fun _ => 0, []⟩) (.upgradeReq longVersion fun _ => 0) =
      [textOf longVersion.newVersion] := by decide
  have hstep : (Versioned.boot ⟨fun _ => 0, []⟩).step .demo (.upgradeReq longVersion fun _ => 0) =
      .next ⟨w, [textOf longVersion.newVersion]⟩ := by
    rw [Versioned.step, hnote]
    exact congrArg (Outcome.map _) hfirst
  have hrun : run (Versioned.step .demo) (.boot ⟨fun _ => 0, []⟩)
      [.upgradeReq longVersion fun _ => 0] = .next ⟨w, [textOf longVersion.newVersion]⟩ := by
    rw [run_cons, hstep]
    rfl
  have hfirstOk : VersionOk .demo (.boot ⟨fun _ => 0, []⟩) (.upgradeReq longVersion fun _ => 0) :=
    fun _ _ u hu => absurd hu List.not_mem_nil
  have hlong : Terminated (.upgradeReq longVersion fun _ => 0) := by
    show 0#8 ∈ longVersion.newVersion.toList
    decide
  have hshort : Terminated (.upgradeReq shortVersion fun _ => 0) := by
    show 0#8 ∈ shortVersion.newVersion.toList
    decide
  have htracked := versionTracked_step (versionTracked_boot _) hlong hfirstOk hstep
  have hstarts : shortVersion.Starts .demo w := by
    rw [hw]
    decide
  have hret := erase_returns hstarts.1.1 (by decide) w.flash
  have hes : ∀ e ∈ [OtaEvent.upgradeReq longVersion fun _ => 0, .upgradeReq shortVersion fun _ => 0],
      Terminated e := List.forall_mem_cons.mpr ⟨hlong, List.forall_mem_singleton.mpr hshort⟩
  have hok := (versionKept_iff htracked hshort).mp
    (h .demo _ _ hes _ _ [] _ rfl hrun) hstarts hret
  exact absurd (hok _ List.mem_cons_self) (by decide)

end WiotaDev.GatewayOta
