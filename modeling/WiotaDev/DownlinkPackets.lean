import WiotaDev.DownlinkReads
import WiotaDev.PacketRoundTrip

/-! # Malformed downlink packets

The decoder accepts every string for which it finds memory, and no handler looks at the length
of its payload. So a string is handled safely exactly when it is well formed and its payload
is as long as `neededLength` says for its command. -/

namespace WiotaDev.Downlink
open WordBytes OtaFlash HaltingRuns GatewayOta PacketCoding

variable {env : Env} {req : OtaUpgradeReq} {ram : ℕ → Byte} {w : World}

/-- The request leads to a write of its block, which the flash routine accepts. -/
def Stores (env : Env) (req : OtaUpgradeReq) (ram : ℕ → Byte) (w : World) : Prop :=
  req.Receives env w ∧ ¬req.Marked env ram w ∧ ¬WriteRefused (req.flashAddr env) req.dataLength.toNat

/-- The request completes its download, and the check of the file comes to an end. -/
def Checks (env : Env) (req : OtaUpgradeReq) (ram : ℕ → Byte) (w : World) : Prop :=
  req.Receives env w ∧ AllRecved (receivedRam env req ram w) (received env req ram w) ∧
    req.check env (received env req ram w).flash ≠ none

/-- The upgrade check comes to the device type of the request. -/
def ReachesDeviceType (env : Env) (req : OtaUpgradeReq) (w : World) : Prop :=
  req.InRange env w ∧ req.isExMcu = false ∧ rtStrncmp env.version (textOf req.oldVersion)

instance : Decidable (Stores env req ram w) := inferInstanceAs (Decidable (_ ∧ _))
instance : Decidable (Checks env req ram w) := inferInstanceAs (Decidable (_ ∧ _ ∧ _))
instance : Decidable (ReachesDeviceType env req w) := inferInstanceAs (Decidable (_ ∧ _ ∧ _))

/-- The last text that an OTA_UPGRADE_REQ is read for, by its offset. -/
def lastText (env : Env) (req : OtaUpgradeReq) (ram : ℕ → Byte) (w : World) : ℕ :=
  if ReachesDeviceType env req w then 116 else if Checks env req ram w then 72 else 56

/-- The length of payload that an OTA_UPGRADE_REQ needs. -/
def upgradeReqLength (b : Buffer) (env : Env) (req : OtaUpgradeReq) (ram : ℕ → Byte) (w : World) : ℕ :=
  if req.TooLarge env then 116 + comparedLength b 116 EXTERN_MCU
  else
    max (textField b (lastText env req ram w)).stop
      (if Stores env req ram w then 140 + req.dataLength.toNat else 140)

/-- The length of payload that an OTA_UPGRADE_STATE needs. -/
def upgradeStateLength (env : Env) (b : Buffer) (w : World) : ℕ :=
  if holdsText b 20 env.version then
    if holdsText b 4 w.ota.versionText then
      if holdsText b 36 DEVICE_TYPE then
        if b.word 0 = w.ota.upgradeType.setWidth 32 then max 52 (4 + w.ota.versionText.length)
        else max 40 (4 + w.ota.versionText.length)
      else max (36 + comparedLength b 36 DEVICE_TYPE) (4 + w.ota.versionText.length)
    else max (20 + env.version.length) (4 + comparedLength b 4 w.ota.versionText)
  else 20 + comparedLength b 20 env.version

/-- The length of payload that the task needs for a command. -/
def analisysDlMsgLength (gw : Gateway) (ram : ℕ → Byte) (b : Buffer) : PsCmd → ℕ
  | .authenticationRes => 8
  | .otaUpgradeReq => upgradeReqLength b gw.env (upgradeReqOf b) ram gw.world
  | .otaUpgradeStop => 4 * entriesSeen gw.env.devAddress (upgradeStopOf b).toList
  | .otaUpgradeState => upgradeStateLength gw.env b gw.world
  | .ioteGetRtc => if gw.rtcRegistered ∧ gw.rtcFmt ≠ 0xff#8 then gw.sizeofTime else 0
  | .authenticationBcTimeSlot => 12
  | .iotePagingTxCtrl => 4
  | .ioteUserData | .ioteLoopData | .ioteVersionReq | .other => 0

/-- The length of payload that the authentication needs for a command. -/
def authLength (mode : GatwayMode) (timeSlotState : Byte) : PsCmd → ℕ
  | .authenticationRes => 8
  | .authenticationBcTimeSlot => if mode = .timeSlot ∧ timeSlotState = 0#8 then 12 else 0
  | _ => 0

/-- The length of payload that is needed for a packet of `cmd` from `srcAddr`. -/
def neededLength (gw : Gateway) (ram : ℕ → Byte) (receiver : Receiver) (cmd : PsCmd)
    (srcAddr : BitVec 32) (payload : Buffer) : ℕ :=
  match receiver with
  | .analisysDlMsg =>
    if gw.gwVerity ∧ cmd ≠ .authenticationRes ∧ srcAddr ≠ gw.gwId then 0
    else analisysDlMsgLength gw ram payload cmd
  | .auth mode timeSlotState => authLength mode timeSlotState cmd

section Fields
variable {b : Buffer} {n : ℕ}

@[simp] theorem within_mk (n offset size : ℕ) :
    (⟨offset, size⟩ : Field).Within n ↔ size = 0 ∨ offset + size ≤ n := by
  constructor
  · intro h
    rcases Nat.eq_zero_or_pos size with hzero | hpos
    · exact .inl hzero
    · have := h (size - 1) (Nat.sub_lt hpos Nat.one_pos)
      simp only at this
      omega
  · rintro (rfl | hle) i hi
    · exact absurd hi (Nat.not_lt_zero i)
    · simp only at hi ⊢
      omega

theorem textField_within (b : Buffer) (offset n : ℕ) :
    (textField b offset).Within n ↔ (textField b offset).stop ≤ n := by
  rw [textField, within_mk, Field.stop]
  exact or_iff_right (Nat.succ_ne_zero _)

/-- The text from a later byte on ends no earlier. -/
theorem textField_stop_mono (b : Buffer) {i j : ℕ} (h : i ≤ j) :
    (textField b i).stop ≤ (textField b j).stop := by
  have hsplit : b.bytes.drop i = (b.bytes.drop i).take (j - i) ++ b.bytes.drop j := by
    rw [← Nat.add_sub_cancel' h, ← List.drop_drop, Nat.add_sub_cancel_left, List.take_append_drop]
  have hlen : ((b.bytes.drop i).take (j - i)).length ≤ j - i := List.length_take_le _ _
  simp only [textField, Field.stop]
  rw [hsplit, List.idxOf_append]
  split
  · next hmem =>
    have := List.idxOf_lt_length_of_mem hmem
    omega
  · omega

theorem comparedLength_le (b : Buffer) (offset : ℕ) (text : List Byte) :
    comparedLength b offset text ≤ text.length := by
  induction text generalizing offset with
  | nil => exact le_rfl
  | cons c text ih =>
    have := ih (offset + 1)
    rw [comparedLength, List.length_cons]
    split <;> omega

theorem comparedLength_pos (b : Buffer) (offset : ℕ) (text : List Byte) (h : text ≠ []) :
    0 < comparedLength b offset text := by
  cases text with
  | nil => exact absurd rfl h
  | cons c text =>
    rw [comparedLength]
    split <;> omega

/-- A text that the bytes hold is compared to its end. -/
theorem comparedLength_of_holdsText {offset : ℕ} {text : List Byte}
    (h : holdsText b offset text = true) : comparedLength b offset text = text.length := by
  induction text generalizing offset with
  | nil => rfl
  | cons c text ih =>
    rw [holdsText, Bool.and_eq_true, beq_iff_eq] at h
    rw [comparedLength, if_pos h.1, ih h.2, List.length_cons]

end Fields

section UpgradeReq
variable {b : Buffer} {n : ℕ}

/-- All that is read lies in front of byte `n`. -/
private def AllWithin (b : Buffer) (n : ℕ) (fields : List UpgradeReqField) : Prop :=
  ∀ f ∈ fields, (f.field b).Within n

private theorem allWithin_append {fields fields' : List UpgradeReqField} :
    AllWithin b n (fields ++ fields') ↔ AllWithin b n fields ∧ AllWithin b n fields' := by
  simp only [AllWithin, List.mem_append, or_imp, forall_and]

private theorem allWithin_cons {f : UpgradeReqField} {fields : List UpgradeReqField} :
    AllWithin b n (f :: fields) ↔ (f.field b).Within n ∧ AllWithin b n fields := by
  simp only [AllWithin, List.forall_mem_cons]

private theorem allWithin_nil : AllWithin b n [] := List.forall_mem_nil _

private theorem allWithin_singleton {f : UpgradeReqField} :
    AllWithin b n [f] ↔ (f.field b).Within n := by
  rw [allWithin_cons, and_iff_left allWithin_nil]

/-- The end of a download reads `md5` as a text where the check of the file comes to an end. -/
private theorem completeReads_within (hn : 140 ≤ n) : AllWithin b n (completeReads env req w) ↔
    (req.check env w.flash ≠ none → (textField b 72).stop ≤ n) := by
  have hcheck : ucWiotaOtaCheckFlashData env.md w.flash (req.writeAddr env) req.fileSize.toNat
      req.md5.toList = req.check env w.flash := rfl
  have hexMcu := comparedLength_le b 116 EXTERN_MCU
  have hsize : EXTERN_MCU.length = 6 := rfl
  have hmd5 : AllWithin b n [.md5] ↔ (textField b 72).stop ≤ n := by
    rw [allWithin_singleton]
    exact textField_within b 72 n
  rw [completeReads, hcheck]
  cases req.check env w.flash with
  | none => simp [allWithin_nil]
  | some rc =>
    have hrest : AllWithin b n ([.fileSize, .deviceTypeExMcu] ++
        (if req.isExMcu then [] else [.upgradeType])) := by
      rw [allWithin_append, allWithin_cons, allWithin_singleton]
      simp only [UpgradeReqField.field, within_mk]
      refine ⟨⟨by omega, by omega⟩, ?_⟩
      split
      · exact allWithin_nil
      · rw [allWithin_singleton]
        simp only [UpgradeReqField.field, within_mk]
        omega
    simp only [ne_eq, reduceCtorEq, not_false_eq_true, true_implies]
    split
    · rw [← hmd5, List.cons_append, allWithin_cons, and_iff_left hrest, allWithin_singleton]
    · exact hmd5

private theorem finishReads_within (hn : 140 ≤ n) : AllWithin b n (finishReads env req ram w) ↔
    (AllRecved ram w ∧ req.check env w.flash ≠ none → (textField b 72).stop ≤ n) := by
  have hcount : (List.range w.ota.blockCount).countP (judgmentBit ram w.ota) ≥ w.ota.blockCount ↔
      AllRecved ram w := BitArray.countP_range_eq_iff _ _
  by_cases hall : AllRecved ram w
  · simp only [finishReads, ucWiotaGatewayWhetherTheOtaUpgradeDataIsRecved, scan_ota, hcount, hall,
      if_true, true_and]
    exact completeReads_within hn
  · simp only [finishReads, ucWiotaGatewayWhetherTheOtaUpgradeDataIsRecved, scan_ota, hcount, hall,
      if_false, Bool.false_eq_true, false_and, false_implies, iff_true]
    exact allWithin_nil

/-- The reception reads the data of a block it writes, and `md5` where it comes to the check. -/
private theorem receiveReads_within (hn : 140 ≤ n) :
    AllWithin b n (receiveReads env req ram w) ↔
      (¬judgmentBit ram w.ota req.block ∧ ¬WriteRefused (req.flashAddr env) req.dataLength.toNat →
        140 + req.dataLength.toNat ≤ n) ∧
      AllWithin b n (if judgmentBit ram w.ota req.block then finishReads env req ram w
        else finishReads env req (setRam req.block ram) (written env req w)) := by
  have hoffset : (UpgradeReqField.dataOffset.field b).Within n := by
    simp only [UpgradeReqField.field, within_mk]
    omega
  have hlength : (UpgradeReqField.dataLength.field b).Within n := by
    simp only [UpgradeReqField.field, within_mk]
    omega
  rw [receiveReads]
  by_cases hbit : judgmentBit ram w.ota req.block
  · simp only [hbit, if_true, not_true, false_and, false_implies, true_and]
    rw [allWithin_cons, and_iff_right hoffset]
  · have hdata : AllWithin b n (if WriteRefused (req.flashAddr env) req.dataLength.toNat then []
        else [.data req.dataLength.toNat]) ↔
        (¬WriteRefused (req.flashAddr env) req.dataLength.toNat →
          140 + req.dataLength.toNat ≤ n) := by
      by_cases hrefused : WriteRefused (req.flashAddr env) req.dataLength.toNat
      · simp only [hrefused, not_true, false_implies, iff_true]
        exact allWithin_nil
      · rw [if_neg hrefused, allWithin_singleton]
        simp only [UpgradeReqField.field, within_mk, hrefused, not_false_eq_true, true_implies]
        omega
    simp only [hbit, Bool.false_eq_true, if_false, not_false_eq_true, true_and]
    rw [allWithin_append, allWithin_append, hdata, allWithin_cons, allWithin_singleton,
      and_iff_right hoffset, and_iff_right hlength]
    rfl

/-- What the reception of a request reads that comes to it. -/
private theorem reception_within (hn : 140 ≤ n) (h : req.Receives env w) :
    AllWithin b n (receiveReads env req ram (atReception env req w)) ↔
      (Stores env req ram w → 140 + req.dataLength.toNat ≤ n) ∧
        (Checks env req ram w → (textField b 72).stop ≤ n) := by
  rw [receiveReads_within hn, Stores, Checks, and_iff_right h, and_iff_right h]
  refine and_congr_right fun _ => ?_
  by_cases hm : req.Marked env ram w
  · have hbit : judgmentBit ram (atReception env req w).ota req.block = true := hm
    rw [if_pos hbit, finishReads_within hn, received, receivedRam, if_pos hm, if_pos hm]
    rfl
  · have hbit : ¬judgmentBit ram (atReception env req w).ota req.block = true := hm
    rw [if_neg hbit, finishReads_within hn, received, receivedRam, if_neg hm, if_neg hm]
    rfl

private theorem downloadReads_within (hc : req.Considered env w) (hn : 140 ≤ n)
    (hnew : (textField b 40).stop ≤ n) :
    AllWithin b n (downloadReads env req ram (admitted req w)) ↔
      (Stores env req ram w → 140 + req.dataLength.toNat ≤ n) ∧
        (Checks env req ram w → (textField b 72).stop ≤ n) := by
  have hnot (h : ¬ req.Receives env w) : (Stores env req ram w → 140 + req.dataLength.toNat ≤ n) ∧
      (Checks env req ram w → (textField b 72).stop ≤ n) :=
    ⟨fun hs => absurd hs.1 h, fun hs => absurd hs.1 h⟩
  rw [downloadReads]
  by_cases hs : req.Starts env w
  · have hmcs : (UpgradeReqField.mcsLen.field b).Within n := by
      simp only [UpgradeReqField.field, within_mk]
      omega
    rw [if_pos (admitted_otaState_of_starts hs), startDownload_eq, allWithin_cons, and_iff_right hmcs]
    by_cases hret : (req.erase env w.flash).2 = true
    · have hfirst : AllWithin b n [.upgradeType, .newVersion, .upgradeTime] := by
        rw [allWithin_cons, allWithin_cons, allWithin_singleton]
        simp only [UpgradeReqField.field, within_mk, textField_within, hnew, true_and]
        omega
      have hret' : (req.erase env (admitted req w).flash).2 = true := hret
      simp only [hret', if_true]
      rw [allWithin_append, and_iff_right hfirst]
      by_cases hfits : req.VersionFits
      · have hrecv : req.Receives env w := ⟨hc, fun _ => hret, fun _ => hfits⟩
        rw [if_pos ((begun_otaState _ _ _).mpr hfits), begun_of_fits hfits, ← reception_within hn hrecv,
          atReception, if_pos hs]
      · rw [if_neg (mt (begun_otaState _ _ _).mp hfits)]
        exact iff_of_true allWithin_nil (hnot fun h => hfits (h.fits hs))
    · have hret' : ¬(req.erase env (admitted req w).flash).2 = true := hret
      simp only [hret', Bool.false_eq_true, if_false]
      exact iff_of_true allWithin_nil (hnot fun h => hret (h.returns hs))
  · obtain ⟨-, -, -, hd⟩ := admitted_otaState_of_continues hc hs
    have hrecv : req.Receives env w := ⟨hc, fun h => absurd h hs, fun h => absurd h hs⟩
    rw [if_neg (by simp [hd]), if_pos hd, ← reception_within hn hrecv, atReception, if_neg hs]

/-- The upgrade check reads every number behind the texts, and the texts up to the device type where
it comes to that. -/
private theorem checkReads_within : AllWithin b n (checkReads env req w) ↔
    140 ≤ n ∧ (textField b (if ReachesDeviceType env req w then 116 else 56)).stop ≤ n := by
  have hnew := textField_stop_mono b (show 40 ≤ 56 by decide)
  have hold := textField_stop_mono b (show 56 ≤ 116 by decide)
  have hlist (hn : 140 ≤ n) : AllWithin b n (if req.upgradeRange = 1#32 then
      (List.range (entriesSeen env.devAddress req.ioteList.toList)).map .ioteList else []) := by
    split
    · intro f hf
      obtain ⟨i, hi, rfl⟩ := List.mem_map.mp hf
      have hlt : i < 8 := by
        have := List.mem_range.mp hi
        simp only [entriesSeen, Vector.length_toList] at this
        omega
      simp only [UpgradeReqField.field, within_mk]
      omega
    · exact allWithin_nil
  have hlast : AllWithin b n [.oldVersion, .newVersion, .upgradeNum, .packetType] ↔
      140 ≤ n ∧ (textField b 56).stop ≤ n := by
    simp only [allWithin_cons, allWithin_nil, UpgradeReqField.field, within_mk, textField_within, and_true]
    omega
  have htexts : AllWithin b n (if (checkUpgradeRange env req w).1 && !req.isExMcu then
      .oldVersion :: if rtStrncmp env.version (textOf req.oldVersion) then [.deviceType] else []
      else []) ∧ (textField b 56).stop ≤ n ↔
      (textField b (if ReachesDeviceType env req w then 116 else 56)).stop ≤ n := by
    rw [checkUpgradeRange_fst]
    by_cases hrange : req.InRange env w ∧ req.isExMcu = false
    · have hlook : (decide (req.InRange env w) && !req.isExMcu) = true := by
        rw [Bool.and_eq_true, decide_eq_true_eq, Bool.not_eq_true']
        exact hrange
      rw [if_pos hlook, allWithin_cons]
      by_cases hversion : rtStrncmp env.version (textOf req.oldVersion)
      · rw [if_pos hversion, if_pos (show ReachesDeviceType env req w from ⟨hrange.1, hrange.2, hversion⟩),
          allWithin_singleton]
        simp only [UpgradeReqField.field, textField_within]
        omega
      · rw [if_neg hversion, if_neg fun h => hversion h.2.2, and_iff_left allWithin_nil]
        simp only [UpgradeReqField.field, textField_within, and_self]
    · have hskip : ¬(decide (req.InRange env w) && !req.isExMcu) = true := by
        rw [Bool.and_eq_true, decide_eq_true_eq, Bool.not_eq_true']
        exact hrange
      rw [if_neg hskip, if_neg fun h => hrange ⟨h.1, h.2.1⟩, and_iff_right allWithin_nil]
  rw [checkReads, allWithin_append, allWithin_append, allWithin_append, hlast, ← htexts]
  constructor
  · rintro ⟨⟨-, htexts⟩, hn, hstop⟩
    exact ⟨hn, htexts, hstop⟩
  · rintro ⟨hn, htexts, hstop⟩
    refine ⟨⟨⟨?_, hlist hn⟩, htexts⟩, hn, hstop⟩
    rw [allWithin_singleton]
    simp only [UpgradeReqField.field, within_mk]
    omega

private theorem upgradeResReads_considered (hc : req.Considered env w) :
    upgradeResReads env req ram w = [.fileSize, .deviceTypeExMcu] ++
      (checkReads env req w ++ downloadReads env req ram (admitted req w)) := by
  have hfits : ¬(req.maxSize env : ℤ) < req.fileSize.toInt := hc.1
  rw [upgradeResReads, if_neg hfits, admitUpgrade_considered hc]

private theorem upgradeResReads_rejected (hl : ¬req.TooLarge env) (hc : ¬req.Considered env w) :
    upgradeResReads env req ram w = [.fileSize, .deviceTypeExMcu] ++ (checkReads env req w ++ []) := by
  have hfits : ¬(req.maxSize env : ℤ) < req.fileSize.toInt := hl
  rw [upgradeResReads, if_neg hfits, admitUpgrade_rejected hc]

theorem upgradeResReads_within_iff (b : Buffer) (n : ℕ) :
    (∀ f ∈ upgradeResReads env req ram w, (f.field b).Within n) ↔
      upgradeReqLength b env req ram w ≤ n := by
  show AllWithin b n _ ↔ _
  have hpos := comparedLength_pos b 116 EXTERN_MCU (by decide)
  have hle := comparedLength_le b 116 EXTERN_MCU
  have hsize : EXTERN_MCU.length = 6 := rfl
  have hfirst : AllWithin b n [.fileSize, .deviceTypeExMcu] ↔
      116 + comparedLength b 116 EXTERN_MCU ≤ n := by
    simp only [allWithin_cons, allWithin_nil, UpgradeReqField.field, within_mk, and_true]
    omega
  rw [upgradeReqLength]
  by_cases hlarge : req.TooLarge env
  · have hlarge' : (req.maxSize env : ℤ) < req.fileSize.toInt := hlarge
    rw [upgradeResReads, allWithin_append, hfirst, if_pos hlarge', if_pos hlarge,
      and_iff_left allWithin_nil]
  have hmd5 := textField_stop_mono b (show 56 ≤ 72 by decide)
  have hdev := textField_stop_mono b (show 72 ≤ 116 by decide)
  have hnew := textField_stop_mono b (show 40 ≤ 56 by decide)
  obtain ⟨rest, hrest, hdownload⟩ : ∃ rest, upgradeResReads env req ram w =
      [.fileSize, .deviceTypeExMcu] ++ (checkReads env req w ++ rest) ∧
      (140 ≤ n → (textField b 56).stop ≤ n → (AllWithin b n rest ↔
        (Stores env req ram w → 140 + req.dataLength.toNat ≤ n) ∧
          (Checks env req ram w → (textField b 72).stop ≤ n))) := by
    by_cases hc : req.Considered env w
    · exact ⟨_, upgradeResReads_considered hc, fun hn hold =>
        downloadReads_within hc hn (hnew.trans hold)⟩
    · exact ⟨[], upgradeResReads_rejected hlarge hc, fun _ _ =>
        iff_of_true allWithin_nil ⟨fun h => absurd h.1.1 hc, fun h => absurd h.1.1 hc⟩⟩
  rw [hrest, if_neg hlarge, allWithin_append, hfirst, allWithin_append, checkReads_within,
    max_le_iff, lastText]
  constructor
  · rintro ⟨-, ⟨hn, htext⟩, hrest⟩
    have hold : (textField b 56).stop ≤ n := by
      split at htext <;> omega
    obtain ⟨hdata, hcheck⟩ := (hdownload hn hold).mp hrest
    refine ⟨?_, ?_⟩
    · split
      · next hr => rwa [if_pos hr] at htext
      · split
        · next hcheck' => exact hcheck hcheck'
        · exact hold
    · split
      · next hs => exact hdata hs
      · exact hn
  · rintro ⟨htext, hlen⟩
    have hn : 140 ≤ n := by
      split at hlen <;> omega
    have hold : (textField b 56).stop ≤ n := by
      split_ifs at htext <;> omega
    refine ⟨by omega, ⟨hn, ?_⟩, (hdownload hn hold).mpr ⟨fun hs => ?_, fun hc => ?_⟩⟩
    · split
      · next hr => rwa [if_pos hr] at htext
      · exact hold
    · rwa [if_pos hs] at hlen
    · rw [if_pos hc] at htext
      split at htext <;> omega

end UpgradeReq

theorem upgradeStateReads_within_iff (env : Env) (b : Buffer) (w : World) (n : ℕ) :
    (∀ f ∈ upgradeStateReads env b w, f.Within n) ↔ upgradeStateLength env b w ≤ n := by
  have hversion := env.version_pos
  have hlt := env.version_lt
  have hold := comparedLength_pos b 20 env.version (List.ne_nil_of_length_pos hversion)
  have hdevice := comparedLength_pos b 36 DEVICE_TYPE (by decide)
  have hsize : DEVICE_TYPE.length = 4 := rfl
  rw [upgradeStateReads, upgradeStateLength]
  by_cases h₁ : holdsText b 20 env.version
  · have hl₁ := comparedLength_of_holdsText h₁
    by_cases h₂ : holdsText b 4 w.ota.versionText
    · have hl₂ := comparedLength_of_holdsText h₂
      by_cases h₃ : holdsText b 36 DEVICE_TYPE
      · have hl₃ := comparedLength_of_holdsText h₃
        by_cases h₄ : b.word 0 = w.ota.upgradeType.setWidth 32
        · simp only [h₁, h₂, h₃, h₄, hl₁, hl₂, hl₃, if_true, List.forall_mem_cons,
            List.not_mem_nil, false_implies, implies_true, within_mk, and_true]
          omega
        · simp only [h₁, h₂, h₃, h₄, hl₁, hl₂, hl₃, if_true, if_false, List.forall_mem_cons,
            List.not_mem_nil, false_implies, implies_true, within_mk, and_true]
          omega
      · simp only [h₁, h₂, h₃, hl₁, hl₂, if_true, Bool.false_eq_true, if_false,
          List.forall_mem_cons,
            List.not_mem_nil, false_implies, implies_true, within_mk, and_true]
        omega
    · simp only [h₁, h₂, hl₁, if_true, Bool.false_eq_true, if_false, List.forall_mem_cons,
            List.not_mem_nil, false_implies, implies_true, within_mk, and_true]
      omega
  · simp only [h₁, Bool.false_eq_true, if_false, List.forall_mem_cons,
            List.not_mem_nil, false_implies, implies_true, within_mk, and_true]
    omega

theorem entries_within_iff (count n : ℕ) :
    (∀ f ∈ (List.range count).map fun i => (⟨4 * i, 4⟩ : Field), f.Within n) ↔
      4 * count ≤ n := by
  simp only [List.mem_map, List.mem_range, forall_exists_index, and_imp]
  constructor
  · intro h
    rcases Nat.eq_zero_or_pos count with rfl | hpos
    · omega
    · have := h _ (count - 1) (by omega) rfl
      rw [within_mk] at this
      omega
  · rintro hn _ i hi rfl
    rw [within_mk]
    omega

/-- A payload holds what is read of it exactly when it has the needed length. -/
theorem payloadReads_within_iff (gw : Gateway) (ram heap : ℕ → Byte) (receiver : Receiver)
    (d : Decoded) (n : ℕ) :
    (∀ f ∈ payloadReads gw ram heap receiver d, f.Within n) ↔
      neededLength gw ram receiver (.ofByte d.psHeader.cmdType) d.psHeader.srcAddr
        ⟨d.outputData.getD [], heap⟩ ≤ n := by
  have hauth : (∀ f ∈ authResReads, f.Within n) ↔ 8 ≤ n := by
    simp only [authResReads, List.forall_mem_cons]
    simp
    omega
  unfold payloadReads neededLength
  cases receiver with
  | analisysDlMsg =>
    simp only
    split
    · simp
    · cases PsCmd.ofByte d.psHeader.cmdType with
      | authenticationRes => exact hauth
      | otaUpgradeReq =>
        simp only [analisysDlMsgReads, List.forall_mem_map]
        exact upgradeResReads_within_iff _ n
      | otaUpgradeStop => exact entries_within_iff _ n
      | otaUpgradeState => exact upgradeStateReads_within_iff _ _ _ n
      | ioteGetRtc =>
        simp only [analisysDlMsgReads, rtcResReads, analisysDlMsgLength]
        split
        · simp only [List.mem_singleton, forall_eq, within_mk]
          omega
        · simp
      | authenticationBcTimeSlot => simp [analisysDlMsgReads, analisysDlMsgLength]
      | iotePagingTxCtrl => simp [analisysDlMsgReads, analisysDlMsgLength]
      | ioteUserData => simp [analisysDlMsgReads, analisysDlMsgLength]
      | ioteLoopData => simp [analisysDlMsgReads, analisysDlMsgLength]
      | ioteVersionReq => simp [analisysDlMsgReads, analisysDlMsgLength]
      | other => simp [analisysDlMsgReads, analisysDlMsgLength]
  | auth mode timeSlotState =>
    cases PsCmd.ofByte d.psHeader.cmdType with
    | authenticationRes => exact hauth
    | authenticationBcTimeSlot =>
      simp only [authReads, authLength]
      split
      · simp
        omega
      · simp
    | _ => simp [authReads, authLength]

section Packets

/-- The command byte of a string that holds its announced header. -/
def cmdOf (s : List Byte) : PsCmd := .ofByte (s.getD ((announced s).headerLen - 1) 0)

/-- The source address of a string, or 0 where it announces none. -/
def srcAddrOf (s : List Byte) : BitVec 32 :=
  if (announced s).isSrcAddr then wordOf fun j => s.getD (1 + j) 0 else 0

/-- What the string carries behind its announced header, decompressed if it says so. -/
def payloadOf (lz : FastLz) (s : List Byte) : List Byte :=
  let rest := s.drop (announced s).headerLen
  if rest ≠ [] ∧ (announced s).compressFlag then lz.decompress rest APP_MAX_DECODING_DATA_LEN
  else rest

/-- The announced header lies inside the string, and a compressed payload decompresses. -/
def WellFormed (lz : FastLz) (s : List Byte) : Prop :=
  (announced s).headerLen ≤ s.length ∧
    ((announced s).compressFlag = true → (announced s).headerLen < s.length →
      lz.decompress (s.drop (announced s).headerLen) APP_MAX_DECODING_DATA_LEN ≠ [])

/-- An allocation that the decoding of the string needs fails. -/
def AllocationFails (alloc : ℕ → Bool) (s : List Byte) : Prop :=
  (announced s).headerLen < s.length ∧
    (alloc 0 = false ∨ (announced s).compressFlag = true ∧ alloc 1 = false)

/-- A string that `app_data_decoding` accepts is well formed, and no field is read outside of
the decoded payload. -/
def HandledSafely (lz : FastLz) (alloc : ℕ → Bool) (gw : Gateway) (ram heap : ℕ → Byte)
    (receiver : Receiver) (s : Buffer) : Prop :=
  ∀ d, appDataDecoding lz alloc s .zero = .ok d →
    WellFormed lz s.bytes ∧ ∀ f ∈ payloadReads gw ram heap receiver d, f.Inside d.outputData

private theorem readIf_snd (flag : Bool) (size : ℕ) (read : ℕ → PsHeader) (p : Parse) :
    (readIf flag size read p).2 = p.2 + size * flag.toNat := by
  cases flag <;> simp [readIf]

private theorem readIf_property {flag : Bool} {size : ℕ} {read : ℕ → PsHeader} {p : Parse}
    (h : ∀ i, (read i).property = p.1.property) :
    (readIf flag size read p).1.property = p.1.property := by
  cases flag <;> simp [readIf, h]

theorem announced_eq {s : Buffer} (hne : 1 ≤ s.bytes.length) :
    announced s.bytes = .ofByte (s.byte 0) := by
  obtain ⟨bytes, behind⟩ := s
  obtain ⟨first, l, rfl⟩ := List.exists_cons_of_length_pos hne
  rfl

/-- The decoder moves over the announced header whether or not the string holds it. -/
theorem parseHeader_offset {s : Buffer} (hne : 1 ≤ s.bytes.length) (h : PsHeader) :
    (parseHeader s h).2 = (announced s.bytes).headerLen := by
  have hsrc : (parseSrcAddr s (parseProperty s h)).1.property = .ofByte (s.byte 0) := by
    rw [parseSrcAddr]
    exact readIf_property (by intro i; rfl)
  have hdest : (parseDestAddr s (parseSrcAddr s (parseProperty s h))).1.property =
      .ofByte (s.byte 0) := by
    rw [parseDestAddr]
    exact (readIf_property (by intro i; rfl)).trans hsrc
  have hnum : (parsePacketNum s (parseDestAddr s (parseSrcAddr s (parseProperty s h)))).1.property =
      .ofByte (s.byte 0) := by
    rw [parsePacketNum]
    exact (readIf_property (by intro i; rfl)).trans hdest
  rw [parseHeader, parseCmdType, parseSegmentInfo, readIf_snd, hnum, parsePacketNum, readIf_snd,
    hdest, parseDestAddr, readIf_snd, hsrc, parseSrcAddr, readIf_snd, announced_eq hne]
  simp only [parseProperty, PsProperty.headerLen, one_mul]

/-- A string that does not hold its announced header is accepted all the same. -/
theorem decoding_truncated {s : Buffer} (hne : 1 ≤ s.bytes.length) (hmax : s.bytes.length ≤ 1024)
    (hshort : s.bytes.length ≤ (announced s.bytes).headerLen) (lz : FastLz) (alloc : ℕ → Bool)
    (h : PsHeader) : appDataDecoding lz alloc s h = .ok ⟨(parseHeader s h).1, none⟩ := by
  have haccepted : ¬(s.bytes.length = 0 ∨ APP_MAX_DECODING_DATA_LEN < s.bytes.length) := by
    simp only [APP_MAX_DECODING_DATA_LEN]
    omega
  have hend : ¬(parseHeader s h).2 < s.bytes.length := by
    rw [parseHeader_offset hne]
    omega
  simp only [appDataDecoding, if_neg haccepted, if_neg hend]

theorem cmdOf_wireHeader {h : PsHeader} {post s : List Byte} (hs : s = wireHeader h ++ post)
    (hp : h.property = announced s) : cmdOf s = .ofByte h.cmdType := by
  have hbyte := Buffer.byte_of_append (b := ⟨s, fun _ => 0⟩) _ [h.cmdType] post hs (j := 0) (by simp)
  rw [cmdOf, ← hp, ← wireHeader_length, wireHeader, List.length_append]
  exact congrArg PsCmd.ofByte hbyte

theorem srcAddrOf_wireHeader {h : PsHeader} {post s : List Byte} (hs : s = wireHeader h ++ post)
    (hp : h.property = announced s) : srcAddrOf s = (kept h .zero).srcAddr := by
  rw [srcAddrOf, ← hp]
  simp only [kept]
  split
  · next hflag =>
    have hs' : s = [h.property.toByte] ++ bytesOf h.srcAddr ++ (emitIf h.property.isDestAddr
        (bytesOf h.destAddr) ++ emitIf h.property.isPacketNum [h.packetNum] ++ emitIf
        h.property.segmentFlag (segmentBytes h.totalNum h.isEnd h.currentNum) ++ [h.cmdType] ++
        post) := by
      rw [hs, wireHeader]
      simp [hflag, emitIf]
    have hword := Buffer.word_of_append (b := ⟨s, fun _ => 0⟩) hs'
    exact Eq.trans (wordOf_congr fun j _ => rfl) hword
  · simp only [PsHeader.zero]

/-- The decoding of a string that holds its announced header fails for want of memory only, and
otherwise gives the header and the payload that the string carries. -/
theorem decoding_wireHeader {s : Buffer} {h : PsHeader} {post : List Byte}
    (hs : s.bytes = wireHeader h ++ post) (hp : h.property = announced s.bytes)
    (hmax : s.bytes.length ≤ 1024) (lz : FastLz) (alloc : ℕ → Bool) :
    (AllocationFails alloc s.bytes ∧ ∃ rc, appDataDecoding lz alloc s .zero = .error rc) ∨
      (¬AllocationFails alloc s.bytes ∧ ∃ d, appDataDecoding lz alloc s .zero = .ok d ∧
        d.psHeader = kept h .zero ∧ d.outputData.getD [] = payloadOf lz s.bytes) := by
  have hdrop : s.bytes.drop (announced s.bytes).headerLen = post := by
    rw [← hp, ← wireHeader_length, hs, List.drop_left]
  have hmore : (announced s.bytes).headerLen < s.bytes.length ↔ post ≠ [] := by
    rw [← hdrop, ← List.length_pos_iff, List.length_drop]
    omega
  have hdecode := appDataDecoding_wireHeader h post hs hmax lz alloc .zero
  rw [hp] at hdecode
  by_cases hpost : post = []
  · rw [if_pos hpost] at hdecode
    refine .inr ⟨fun hfails => hmore.mp hfails.1 hpost, _, hdecode, rfl, ?_⟩
    simp [payloadOf, hdrop, hpost]
  rw [if_neg hpost] at hdecode
  have hlt := hmore.mpr hpost
  cases halloc₀ : alloc 0 with
  | false =>
    rw [halloc₀] at hdecode
    exact .inl ⟨⟨hlt, .inl halloc₀⟩, _, hdecode⟩
  | true =>
    rw [halloc₀] at hdecode
    cases hflag : (announced s.bytes).compressFlag with
    | false =>
      rw [hflag] at hdecode
      refine .inr ⟨?_, _, hdecode, rfl, ?_⟩
      · simp [AllocationFails, halloc₀, hflag]
      · simp [payloadOf, hdrop, hflag]
    | true =>
      rw [hflag] at hdecode
      cases halloc₁ : alloc 1 with
      | false =>
        rw [halloc₁] at hdecode
        exact .inl ⟨⟨hlt, .inr ⟨hflag, halloc₁⟩⟩, _, hdecode⟩
      | true =>
        rw [halloc₁] at hdecode
        refine .inr ⟨?_, _, hdecode, rfl, ?_⟩
        · simp [AllocationFails, halloc₀, halloc₁]
        · simp [payloadOf, hdrop, hflag, hpost]

/-- A string is handled safely exactly when it is not decoded for want of memory, or when it is
well formed and its payload has the length that its command needs. -/
theorem handledSafely_iff (lz : FastLz) (alloc : ℕ → Bool) (gw : Gateway) (ram heap : ℕ → Byte)
    (receiver : Receiver) (s : Buffer) (hne : 1 ≤ s.bytes.length) (hmax : s.bytes.length ≤ 1024) :
    HandledSafely lz alloc gw ram heap receiver s ↔
      AllocationFails alloc s.bytes ∨ WellFormed lz s.bytes ∧
        neededLength gw ram receiver (cmdOf s.bytes) (srcAddrOf s.bytes)
          ⟨payloadOf lz s.bytes, heap⟩ ≤ (payloadOf lz s.bytes).length := by
  by_cases hlen : (announced s.bytes).headerLen ≤ s.bytes.length
  swap
  · have hwell : ¬WellFormed lz s.bytes := fun h => hlen h.1
    have halloc : ¬AllocationFails alloc s.bytes := fun h => hlen h.1.le
    refine iff_of_false (fun hsafe => ?_) (not_or.mpr ⟨halloc, fun h => hwell h.1⟩)
    exact hwell (hsafe _ (decoding_truncated hne hmax (by omega) lz alloc .zero)).1
  obtain ⟨h, post, hs, hp⟩ := exists_wireHeader hne hlen
  rcases decoding_wireHeader hs hp hmax lz alloc with ⟨halloc, rc, herror⟩ |
    ⟨halloc, d, hok, hheader, hpayload⟩
  · refine iff_of_true (fun d hd => ?_) (.inl halloc)
    rw [herror] at hd
    cases hd
  · have hreads : (∀ f ∈ payloadReads gw ram heap receiver d, f.Inside d.outputData) ↔
        neededLength gw ram receiver (cmdOf s.bytes) (srcAddrOf s.bytes)
          ⟨payloadOf lz s.bytes, heap⟩ ≤ (payloadOf lz s.bytes).length := by
      show (∀ f ∈ payloadReads gw ram heap receiver d, f.Within (d.outputData.getD []).length) ↔ _
      rw [payloadReads_within_iff, hheader, hpayload, cmdOf_wireHeader hs hp,
        srcAddrOf_wireHeader hs hp]
      rfl
    simp only [HandledSafely, hok, Except.ok.injEq, forall_eq', halloc, false_or, hreads]

/-- The device of `Env.demo` after boot, without gateway check or clock callback. -/
def Gateway.demo : Gateway where
  env := .demo
  world := .boot ⟨fun _ => 0, []⟩
  gwVerity := false
  gwId := 0
  rtcRegistered := false
  rtcFmt := 0xff
  sizeofTime := 4

/-- An authentication result up to its `wiota_id`. -/
def shortestAuthRes : List Byte := [0x00, 0x02, 0x00, 0x00, 0x00, 0x00, 0x01, 0x00, 0x00, 0x00]

/-- A state of an upgrade as far as its `old_version`, which is empty. -/
def otherVersionState : List Byte := [0x00, 0x0d] ++ List.replicate 24 0

theorem shortPackets_handledSafely :
    HandledSafely .literal (fun _ => true) .demo (fun _ => 0) (fun _ => 0) .analisysDlMsg
        ⟨shortestAuthRes, fun _ => 0⟩ ∧
      HandledSafely .literal (fun _ => true) .demo (fun _ => 0) (fun _ => 0) .analisysDlMsg
        ⟨otherVersionState, fun _ => 0⟩ :=
  ⟨(handledSafely_iff .literal (fun _ => true) .demo (fun _ => 0) (fun _ => 0) .analisysDlMsg
    ⟨shortestAuthRes, fun _ => 0⟩ (by decide) (by decide)).mpr
      (.inr ⟨⟨by decide, fun h => absurd h (by decide)⟩, by decide⟩),
    (handledSafely_iff .literal (fun _ => true) .demo (fun _ => 0) (fun _ => 0) .analisysDlMsg
      ⟨otherVersionState, fun _ => 0⟩ (by decide) (by decide)).mpr
        (.inr ⟨⟨by decide, fun h => absurd h (by decide)⟩, by decide⟩)⟩

/-- One byte that announces a source address is accepted, and so is an authentication result
without payload, whose handler reads through a null pointer. -/
theorem truncatedPackets_not_handledSafely :
    ¬HandledSafely .literal (fun _ => true) .demo (fun _ => 0) (fun _ => 0) .analisysDlMsg
        ⟨[0x80], fun _ => 0⟩ ∧
      ¬HandledSafely .literal (fun _ => true) .demo (fun _ => 0) (fun _ => 0) .analisysDlMsg
        ⟨[0x00, 0x02], fun _ => 0⟩ := by
  constructor
  · intro hsafe
    have hheader : (announced [0x80]).headerLen ≤ 1 := (hsafe _ rfl).1.1
    exact absurd hheader (by decide)
  · intro hsafe
    exact absurd ((hsafe _ rfl).2 ⟨0, 1⟩ List.mem_cons_self 0 Nat.one_pos) (Nat.not_lt_zero _)

end Packets

end WiotaDev.Downlink
