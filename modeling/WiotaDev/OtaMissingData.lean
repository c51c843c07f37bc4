import WiotaDev.OtaFlashTransfers
import WiotaDev.OtaVerifiedStart
import WiotaDev.OtaVersions

/-! # Requests for missing data and their delivery

A request lists the first missing blocks. When these are delivered, in any order and with duplicates,
they are no longer missing, so rounds of a request and the delivery of its blocks come to an end of the
download. -/

namespace WiotaDev.GatewayOta
open WordBytes OtaFlash HaltingRuns

variable {env : Env} {req : OtaUpgradeReq} {sent : Bool} {ram : ℕ → Byte} {w w' : World}

/-- The blocks of the download whose bit is clear, the first one first. -/
def unmarked (w : World) : List ℕ :=
  (List.range w.ota.blockCount).filter fun k => !BitArray.test w.ota.maskMap k

theorem unmarked_sorted (w : World) : (unmarked w).Pairwise (· < ·) :=
  List.pairwise_lt_range.filter _

theorem mem_unmarked {k : ℕ} :
    k ∈ unmarked w ↔ k < w.ota.blockCount ∧ BitArray.test w.ota.maskMap k = false := by
  rw [unmarked, List.mem_filter, List.mem_range, Bool.not_eq_true']

/-- The loop lists missing blocks until the request is full. -/
theorem missDataLoop_listed (ram : ℕ → Byte) (ota : OtaPara) (offset rounds : ℕ)
    {listed : List ℕ} (h : listed.length < 15) :
    (missDataLoop ram ota offset rounds listed).1 = listed ++
      ((List.range' offset rounds).filter fun k => !judgmentBit ram ota k).take
        (15 - listed.length) := by
  induction rounds generalizing offset listed with
  | zero => simp [missDataLoop]
  | succ rounds ih =>
    rw [missDataLoop, List.range'_succ, List.filter_cons]
    by_cases hbit : judgmentBit ram ota offset
    · rw [if_pos hbit, ih (offset + 1) h]
      simp [hbit]
    · have hlen : (listed ++ [offset]).length = listed.length + 1 := by simp
      have hsub : 15 - listed.length = (15 - (listed.length + 1)) + 1 := by omega
      have hmissing : (!judgmentBit ram ota offset) = true := by simp [hbit]
      rw [if_neg hbit, if_pos hmissing, hsub, List.take_succ_cons]
      by_cases hfull : (listed ++ [offset]).length = APP_MAX_MISSING_DATA_BLOCK_NUM - 1
      · have hzero : 15 - (listed.length + 1) = 0 := by
          rw [hlen, APP_MAX_MISSING_DATA_BLOCK_NUM] at hfull
          omega
        rw [if_pos hfull, hzero, List.take_zero]
      · have hlt : (listed ++ [offset]).length < 15 := by
          rw [hlen, APP_MAX_MISSING_DATA_BLOCK_NUM] at hfull
          omega
        rw [if_neg hfull, ih (offset + 1) hlt, hlen, List.append_assoc, List.singleton_append]

theorem missDataLoop_unmarked (ram : ℕ → Byte) {ota : OtaPara} (hmap : ota.maskMap = w.ota.maskMap)
    (hcount : w.ota.blockCount ≤ 224) :
    (missDataLoop ram ota 0 w.ota.blockCount []).1 = (unmarked w).take 15 := by
  have hfilter : ((List.range w.ota.blockCount).filter fun k => !judgmentBit ram ota k) =
      unmarked w := by
    refine List.filter_congr fun k hk => ?_
    rw [judgmentBit_of_lt ram _ ((List.mem_range.mp hk).trans_le hcount), hmap]
  rw [missDataLoop_listed ram ota 0 w.ota.blockCount (by decide), List.nil_append,
    ← List.range_eq_range', hfilter]
  rfl

/-- The request lists the first missing blocks, fifteen at most. -/
def ListsFirstMissing (w : World) (r : MissingDataReq) : Prop :=
  r.missDataOffset = ((unmarked w).take (min 15 (unmarked w).length)).map (512 * ·) ∧
    r.missDataLength = List.replicate (min 15 (unmarked w).length) 512 ∧
    r.missDataOffset.Pairwise (· < ·) ∧ r.missDataOffset.length < APP_MAX_MISSING_DATA_BLOCK_NUM

/-- The request that the device builds in a download. -/
def builtRequest (env : Env) (w : World) : MissingDataReq where
  deviceType := DEVICE_TYPE
  newVersion := textOf w.ota.newVersion
  oldVersion := env.version
  upgradeType := w.ota.upgradeType
  missDataOffset := ((unmarked w).take 15).map fun k => k * GATEWAY_OTA_BLOCK_SIZE % 2 ^ 32
  missDataLength := ((unmarked w).take 15).map fun _ => GATEWAY_OTA_BLOCK_SIZE

theorem builtRequest_lists (env : Env) (hcount : w.ota.blockCount ≤ 224) :
    ListsFirstMissing w (builtRequest env w) := by
  have htake : (unmarked w).take 15 = (unmarked w).take (min 15 (unmarked w).length) := by
    rw [List.take_eq_take_min]
  have hoffset : (builtRequest env w).missDataOffset =
      ((unmarked w).take (min 15 (unmarked w).length)).map (512 * ·) := by
    rw [builtRequest, ← htake]
    refine List.map_congr_left fun k hk => ?_
    have := (mem_unmarked.mp (List.mem_of_mem_take hk)).1
    rw [GATEWAY_OTA_BLOCK_SIZE]
    omega
  refine ⟨hoffset, ?_, ?_, ?_⟩
  · rw [builtRequest, List.map_const', List.length_take]
    rfl
  · rw [hoffset, List.pairwise_map]
    refine ((unmarked_sorted w).take).imp fun h => ?_
    omega
  · rw [builtRequest, List.length_map, List.length_take, APP_MAX_MISSING_DATA_BLOCK_NUM]
    omega

/-- After fewer than eight requests without an answer a request is made. -/
theorem missDataReqMsg_requests (env : Env) (sent : Bool) (ram : ℕ → Byte)
    (hcount : w.ota.blockCount ≤ 224) (hz : 0#8 ∈ w.ota.newVersion.toList)
    (hreq : w.ota.missDataInvalidReq < 8#8) :
    ∃ timer, (ucWiotaGatewayOtaMissDataReqMsg env sent ram w).calls =
      timer :: .missDataReq (builtRequest env w) :: w.calls := by
  have hlisted : (missDataLoop ram { w.ota with
      missDataInvalidReq := w.ota.missDataInvalidReq + 1#8 } 0 w.ota.blockCount []).1 =
        (unmarked w).take 15 :=
    missDataLoop_unmarked ram rfl hcount
  have htext : OtaPara.versionText { w.ota with
      missDataInvalidReq := w.ota.missDataInvalidReq + 1#8 } = textOf w.ota.newVersion :=
    OtaPara.versionText_of_mem hz
  simp only [ucWiotaGatewayOtaMissDataReqMsg, hreq, if_true, hlisted, htext]
  split_ifs
  · exact ⟨_, rfl⟩
  · exact ⟨_, rfl⟩
  · exact ⟨_, rfl⟩

/-- A download runs, of no more blocks than the map has bits. -/
structure Downloading (w : World) : Prop where
  otaState : w.ota.otaState = .download
  blockCount : w.ota.blockCount ≤ 224

/-- The request is a packet of the running download with the given block. -/
def OtaUpgradeReq.Brings (env : Env) (req : OtaUpgradeReq) (k : ℕ) (w : World) : Prop :=
  req.Considered env w ∧ ¬ req.Switches w ∧ req.block = k

instance (env : Env) (req : OtaUpgradeReq) (k : ℕ) (w : World) : Decidable (req.Brings env k w) :=
  inferInstanceAs (Decidable (_ ∧ _ ∧ _))

theorem brings_congr {k : ℕ} (hs : w.ota.otaState = .download) (hs' : w'.ota.otaState = .download)
    (hn : w'.ota.upgradeNum = w.ota.upgradeNum) (h : req.Brings env k w) : req.Brings env k w' := by
  obtain ⟨⟨hlarge, hrange, hdev, -⟩, hsw, hk⟩ := h
  refine ⟨⟨hlarge, hrange.imp_right fun hr => ⟨hr.1, by rw [hs']; exact nofun⟩, hdev, ?_⟩, ?_, hk⟩
  · rw [OtaUpgradeReq.Admissible, hs']
    trivial
  · rintro ⟨-, hne⟩
    exact hsw ⟨hs, hn ▸ hne⟩

/-- What the reception of a missing block leaves, up to the look through the map. -/
structure Delivered (w w' : World) (rest : List ℕ) : Prop where
  downloading : Downloading w'
  upgradeNum : w'.ota.upgradeNum = w.ota.upgradeNum
  missDataInvalidReq : w'.ota.missDataInvalidReq = 0#8
  unmarked : unmarked w' = rest

section Delivery
variable {k : ℕ} {rest : List ℕ}

theorem received_written (hb : req.Brings env k w)
    (hk : BitArray.test w.ota.maskMap k = false) (hlt : k < 224) (hs : w.ota.otaState = .download) :
    received env req ram w = written env req ((admitted req w).touch k) := by
  obtain ⟨hc, hsw, rfl⟩ := hb
  have hnot : ¬ req.Starts env w := fun h => hsw (h.2 hs)
  have hbit : ¬ req.Marked env ram w := by
    rw [OtaUpgradeReq.Marked, judgmentBit_of_lt ram _ hlt, atReception_maskMap,
      OtaUpgradeReq.currentMap, if_neg hsw, hk]
    exact Bool.false_ne_true
  rw [received, if_neg hbit, atReception, if_neg hnot]

/-- The delivery of a block takes it from those that are missing. -/
theorem received_delivered (ram : ℕ → Byte) (hd : Downloading w) (hk : k < 224)
    (hb : req.Brings env k w) :
    Delivered w (received env req ram w) ((unmarked w).filter fun j => j ≠ k) := by
  have hnum : req.upgradeNum = w.ota.upgradeNum := by
    by_contra hne
    exact hb.2.1 ⟨hd.otaState, fun h => hne h.symm⟩
  have hadm : (admitted req w).ota.otaState = .download := if_pos ⟨hd.otaState, hb.2.1⟩
  have hmap : (admitted req w).ota.maskMap = w.ota.maskMap := if_neg hb.2.1
  cases hbit : BitArray.test w.ota.maskMap k with
  | true =>
    have hnot : ¬ req.Starts env w := fun h => hb.2.1 (h.2 hd.otaState)
    have hmarked : req.Marked env ram w := by
      rw [OtaUpgradeReq.Marked, judgmentBit_of_lt ram _ (hb.2.2 ▸ hk), atReception_maskMap,
        OtaUpgradeReq.currentMap, if_neg hb.2.1, hb.2.2, hbit]
    have hnone : (unmarked w).filter (fun j => j ≠ k) = unmarked w := by
      refine List.filter_eq_self.mpr fun j hj => decide_eq_true fun h => ?_
      rw [h, mem_unmarked, hbit] at hj
      exact absurd hj.2 (by decide)
    rw [received, if_pos hmarked, atReception, if_neg hnot, hnone]
    refine ⟨⟨hadm, hd.blockCount⟩, hnum, rfl, ?_⟩
    rw [unmarked, unmarked, touch_ota, hmap]
    rfl
  | false =>
    have hota := written_of_lt env ((admitted req w).touch k) (hb.2.2 ▸ hk)
    rw [received_written hb hbit hk hd.otaState]
    refine ⟨⟨by rw [hota]; exact hadm, by rw [hota]; exact hd.blockCount⟩, by rw [hota]; exact hnum,
      by rw [hota]; rfl, ?_⟩
    rw [unmarked, unmarked, hota, List.filter_filter]
    refine List.filter_congr fun j _ => ?_
    rw [touch_ota, hmap, hb.2.2, BitArray.test_mark _ (by omega), Bool.not_or]
    by_cases hj : j = k <;> simp [hj]

theorem allRecved_iff (ram : ℕ → Byte) (hcount : w.ota.blockCount ≤ 224) :
    AllRecved ram w ↔ unmarked w = [] := by
  rw [AllRecved, unmarked, List.filter_eq_nil_iff]
  constructor
  · intro h k hk
    have hlt := List.mem_range.mp hk
    rw [← judgmentBit_of_lt ram w.ota (hlt.trans_le hcount), h k hlt]
    decide
  · intro h k hk
    rw [judgmentBit_of_lt ram w.ota (hk.trans_le hcount)]
    simpa using h k (List.mem_range.mpr hk)

/-- A packet of the running download is received. -/
theorem otaStep_brings (ram : ℕ → Byte) (hd : Downloading w) (hb : req.Brings env k w) :
    otaStep env w (.upgradeReq req ram) =
      finishBlock env req (receivedRam env req ram w) (received env req ram w) := by
  have hnot : ¬ req.Starts env w := fun h => hb.2.1 (h.2 hd.otaState)
  exact upgradeReq_received ⟨hb.1, fun h => absurd h hnot, fun h => absurd h hnot⟩

/-- The events in which packets arrive. -/
def deliveries (packets : List (OtaUpgradeReq × (ℕ → Byte))) : List OtaEvent :=
  packets.map fun p => .upgradeReq p.1 p.2

/-- One of the events completes the download: blocks are missing when it arrives, none is missing when
its handler looks through the map, and the handler goes on to check the file. -/
def CompletesIn (env : Env) (w : World) (es : List OtaEvent) : Prop :=
  ∃ before req ram after w₁, es = before ++ .upgradeReq req ram :: after ∧
    run (otaStep env) w before = .next w₁ ∧ unmarked w₁ ≠ [] ∧
    unmarked (received env req ram w₁) = [] ∧
    otaStep env w₁ (.upgradeReq req ram) =
      completeDownload env req (complete (received env req ram w₁))

theorem CompletesIn.cons {e : OtaEvent} {es : List OtaEvent} (hs : otaStep env w e = .next w')
    (h : CompletesIn env w' es) : CompletesIn env w (e :: es) := by
  obtain ⟨before, req, ram, after, w₁, rfl, hrun, hrest⟩ := h
  exact ⟨e :: before, req, ram, after, w₁, rfl, by rw [run_cons, hs]; exact hrun, hrest⟩

/-- What packets leave that bring blocks of the running download and do not complete it. -/
structure GoesOn (env : Env) (w w' : World) (packets : List (OtaUpgradeReq × (ℕ → Byte))) : Prop where
  run : run (otaStep env) w (deliveries packets) = .next w'
  downloading : Downloading w'
  upgradeNum : w'.ota.upgradeNum = w.ota.upgradeNum
  missDataInvalidReq : packets ≠ [] → w'.ota.missDataInvalidReq = 0#8
  unmarked : unmarked w' = (unmarked w).filter fun j => ∀ p ∈ packets, p.1.block ≠ j

/-- Packets of the running download go on with it, or complete it, and then all missing blocks are
among theirs. -/
theorem run_deliveries {packets : List (OtaUpgradeReq × (ℕ → Byte))} (hd : Downloading w)
    (hopen : unmarked w ≠ []) (hb : ∀ p ∈ packets, p.1.block < 224 ∧ p.1.Brings env p.1.block w) :
    (∃ w', GoesOn env w w' packets ∧ unmarked w' ≠ []) ∨
      (CompletesIn env w (deliveries packets) ∧ ∀ j ∈ unmarked w, ∃ p ∈ packets, p.1.block = j) := by
  induction packets generalizing w with
  | nil =>
    refine .inl ⟨w, ⟨rfl, hd, rfl, fun h => absurd rfl h, ?_⟩, hopen⟩
    simp
  | cons p packets ih =>
    obtain ⟨⟨hlt, hp⟩, hps⟩ := List.forall_mem_cons.mp hb
    have hdel := received_delivered p.2 hd hlt hp
    have hall := allRecved_iff (receivedRam env p.1 p.2 w) hdel.downloading.blockCount
    have hstep := otaStep_brings p.2 hd hp
    by_cases hc : unmarked (received env p.1 p.2 w) = []
    · rw [finishBlock_complete (hall.mpr hc)] at hstep
      refine .inr ⟨⟨[], p.1, p.2, deliveries packets, w, rfl, rfl, hopen, hc, hstep⟩, fun j hj => ?_⟩
      rw [hdel.unmarked, List.filter_eq_nil_iff] at hc
      have hj' := hc j hj
      rw [decide_eq_true_eq, not_not] at hj'
      exact ⟨p, List.mem_cons_self, hj'.symm⟩
    · rw [finishBlock_incomplete (mt hall.mp hc)] at hstep
      obtain ⟨v, hv⟩ : ∃ v, v = (received env p.1 p.2 w).scan (received env p.1 p.2 w).ota.blockCount :=
        ⟨_, rfl⟩
      rw [← hv] at hstep
      have hvdel : Delivered w v ((unmarked w).filter fun j => j ≠ p.1.block) := by
        rw [hv]
        exact ⟨⟨hdel.downloading.otaState, hdel.downloading.blockCount⟩, hdel.upgradeNum,
          hdel.missDataInvalidReq, hdel.unmarked⟩
      have hvopen : unmarked v ≠ [] := by
        rw [hv]
        exact hc
      have hbv : ∀ q ∈ packets, q.1.block < 224 ∧ q.1.Brings env q.1.block v := fun q hq =>
        ⟨(hps q hq).1, brings_congr hd.otaState hvdel.downloading.otaState hvdel.upgradeNum (hps q hq).2⟩
      rcases ih hvdel.downloading hvopen hbv with ⟨w', hgo, hopen'⟩ | ⟨hcomp, hcover⟩
      · refine .inl ⟨w', ⟨?_, hgo.downloading, hgo.upgradeNum.trans hvdel.upgradeNum, fun _ => ?_, ?_⟩,
          hopen'⟩
        · rw [deliveries, List.map_cons, run_cons, hstep]
          exact hgo.run
        · by_cases hnil : packets = []
          · subst hnil
            rw [← Outcome.next.inj hgo.run]
            exact hvdel.missDataInvalidReq
          · exact hgo.missDataInvalidReq hnil
        · rw [hgo.unmarked, hvdel.unmarked, List.filter_filter]
          refine List.filter_congr fun j _ => ?_
          rw [← Bool.decide_and, decide_eq_decide, List.forall_mem_cons, and_comm]
          exact and_congr_left fun _ => ne_comm
      · refine .inr ⟨hcomp.cons hstep, fun j hj => ?_⟩
        by_cases hjp : j = p.1.block
        · exact ⟨p, List.mem_cons_self, hjp.symm⟩
        · obtain ⟨q, hq, hqj⟩ := hcover j (by
            rw [hvdel.unmarked, List.mem_filter]
            exact ⟨hj, decide_eq_true hjp⟩)
          exact ⟨q, List.mem_cons_of_mem _ hq, hqj⟩

end Delivery

theorem missDataReqMsg_download (env : Env) (sent : Bool) (ram : ℕ → Byte) (hd : Downloading w) :
    Downloading (ucWiotaGatewayOtaMissDataReqMsg env sent ram w) ∧
      (ucWiotaGatewayOtaMissDataReqMsg env sent ram w).ota.upgradeNum = w.ota.upgradeNum ∧
      unmarked (ucWiotaGatewayOtaMissDataReqMsg env sent ram w) = unmarked w := by
  have hq := missDataReqMsg_quiet env sent ram w
  refine ⟨⟨hq.otaState.trans hd.otaState, hq.blockCount.trans_le hd.blockCount⟩, hq.upgradeNum, ?_⟩
  rw [unmarked, unmarked, hq.blockCount, hq.maskMap]

/-- The blocks that a request in state `w` lists. -/
def requested (w : World) : List ℕ := (unmarked w).take (min 15 (unmarked w).length)

/-- A round: a request, and packets that bring each of the blocks it lists and no other, in any order
and with duplicates. -/
def IsRound (env : Env) (w : World) (es : List OtaEvent) : Prop :=
  ∃ sent ram packets, es = .missDataReq sent ram :: deliveries packets ∧
    (∀ p ∈ packets, p.1.block ∈ requested w ∧ p.1.Brings env p.1.block w) ∧
    ∀ k ∈ requested w, ∃ p ∈ packets, p.1.block = k

/-- How the packets of a round go on from its request. -/
theorem round_deliveries {es : List OtaEvent} (hd : Downloading w) (hsome : unmarked w ≠ [])
    (h : IsRound env w es) : ∃ sent ram packets v, es = .missDataReq sent ram :: deliveries packets ∧
      otaStep env w (.missDataReq sent ram) = .next v ∧ unmarked v = unmarked w ∧
      (∀ p ∈ packets, p.1.block ∈ requested w) ∧ (∀ k ∈ requested w, ∃ p ∈ packets, p.1.block = k) ∧
      ((∃ w', GoesOn env v w' packets ∧ unmarked w' ≠ []) ∨
        (CompletesIn env v (deliveries packets) ∧ ∀ j ∈ unmarked v, ∃ p ∈ packets, p.1.block = j)) := by
  obtain ⟨sent, ram, packets, rfl, hb, hall⟩ := h
  obtain ⟨hd', hnum, hun⟩ := missDataReqMsg_download env sent ram hd
  have hb' : ∀ p ∈ packets, p.1.block < 224 ∧
      p.1.Brings env p.1.block (ucWiotaGatewayOtaMissDataReqMsg env sent ram w) := fun p hp =>
    ⟨(mem_unmarked.mp (List.mem_of_mem_take (hb p hp).1)).1.trans_le hd.blockCount,
      brings_congr hd.otaState hd'.otaState hnum (hb p hp).2⟩
  exact ⟨sent, ram, packets, _, rfl, rfl, hun, fun p hp => (hb p hp).1, hall,
    run_deliveries hd' (by rwa [hun]) hb'⟩

/-- A round after which blocks stay missing has delivered fifteen. -/
theorem round_goes_on {es : List OtaEvent} (hd : Downloading w) (hmore : 15 < (unmarked w).length)
    (h : IsRound env w es) :
    ∃ w', run (otaStep env) w es = .next w' ∧ Downloading w' ∧
      w'.ota.missDataInvalidReq = 0#8 ∧ w'.ota.upgradeNum = w.ota.upgradeNum ∧
      unmarked w' = (unmarked w).drop 15 := by
  have hsome : unmarked w ≠ [] := fun hnil => by simp [hnil] at hmore
  have hrequested : requested w = (unmarked w).take 15 := by
    rw [requested, Nat.min_eq_left hmore.le]
  have hrest : ∀ j ∈ (unmarked w).drop 15, j ∉ requested w := by
    intro j hj hmem
    have hsorted := unmarked_sorted w
    rw [hrequested] at hmem
    rw [← List.take_append_drop 15 (unmarked w), List.pairwise_append] at hsorted
    exact absurd (hsorted.2.2 j hmem j hj) (lt_irrefl j)
  obtain ⟨sent, ram, packets, v, rfl, hstep, hun, hin, hall, hgo⟩ := round_deliveries hd hsome h
  have hnum : v.ota.upgradeNum = w.ota.upgradeNum := by
    rw [← Outcome.next.inj hstep]
    exact (missDataReqMsg_download env sent ram hd).2.1
  rcases hgo with ⟨w', hgo, -⟩ | ⟨-, hcover⟩
  · refine ⟨w', by rw [run_cons, hstep]; exact hgo.run, hgo.downloading, hgo.missDataInvalidReq ?_,
      hgo.upgradeNum.trans hnum, ?_⟩
    · rintro rfl
      obtain ⟨k, hk⟩ : ∃ k, k ∈ requested w := by
        refine List.exists_mem_of_ne_nil _ fun hnil => ?_
        rw [hrequested, List.take_eq_nil_iff] at hnil
        rcases hnil with hnil | hnil
        · exact absurd hnil (by decide)
        · exact hsome hnil
      obtain ⟨p, hp, -⟩ := hall k hk
      exact absurd hp List.not_mem_nil
    · have htake : ((unmarked w).take 15).filter (fun j => ∀ p ∈ packets, p.1.block ≠ j) = [] := by
        refine List.filter_eq_nil_iff.mpr fun j hj hnone => ?_
        obtain ⟨p, hp, hpj⟩ := hall j (hrequested ▸ hj)
        exact of_decide_eq_true hnone p hp hpj
      have hdrop : ((unmarked w).drop 15).filter (fun j => ∀ p ∈ packets, p.1.block ≠ j) =
          (unmarked w).drop 15 := by
        refine List.filter_eq_self.mpr fun j hj => decide_eq_true fun p hp hpj => ?_
        exact hrest j hj (hpj ▸ hin p hp)
      rw [hgo.unmarked, hun, ← List.take_append_drop 15 (unmarked w), List.filter_append, htake,
        List.nil_append, hdrop, List.take_append_drop]
  · obtain ⟨j, hj⟩ : ∃ j, j ∈ (unmarked w).drop 15 := by
      refine List.exists_mem_of_ne_nil _ fun hnil => ?_
      rw [List.drop_eq_nil_iff] at hnil
      omega
    obtain ⟨p, hp, hpj⟩ := hcover j (hun ▸ List.mem_of_mem_drop hj)
    exact absurd (hpj ▸ hin p hp) (hrest j hj)

/-- A round in which all missing blocks are requested completes the download. -/
theorem round_completes {es : List OtaEvent} (hd : Downloading w) (hsome : unmarked w ≠ [])
    (hfew : (unmarked w).length ≤ 15) (h : IsRound env w es) : CompletesIn env w es := by
  have hrequested : requested w = unmarked w := by
    rw [requested, Nat.min_eq_right hfew, List.take_length]
  obtain ⟨sent, ram, packets, v, rfl, hstep, hun, -, hall, hgo⟩ := round_deliveries hd hsome h
  rcases hgo with ⟨w', hgo, hopen⟩ | ⟨hcomp, -⟩
  · refine absurd ?_ hopen
    rw [hgo.unmarked, List.filter_eq_nil_iff]
    intro j hj hnone
    obtain ⟨p, hp, hpj⟩ := hall j (by rwa [hrequested, ← hun])
    exact of_decide_eq_true hnone p hp hpj
  · exact hcomp.cons hstep

/-- Rounds from one state to another. -/
inductive Rounds (env : Env) : ℕ → World → World → Prop
  | none (w : World) : Rounds env 0 w w
  | more {n : ℕ} {w v w' : World} {es : List OtaEvent} (h : Rounds env n w v) (hround : IsRound env v es)
      (hrun : run (otaStep env) v es = .next w') : Rounds env (n + 1) w w'

/-- Rounds go on with fifteen blocks fewer each while more than fifteen are missing. -/
theorem rounds_drop {n : ℕ} (hd : Downloading w) (hreq : w.ota.missDataInvalidReq < 8#8)
    (h : Rounds env n w w') (hmore : 15 * n < (unmarked w).length) :
    Downloading w' ∧ w'.ota.missDataInvalidReq < 8#8 ∧ unmarked w' = (unmarked w).drop (15 * n) := by
  induction h with
  | none => exact ⟨hd, hreq, rfl⟩
  | more hv hround hrun ih =>
    obtain ⟨hdv, -, hun⟩ := ih hd hreq (by omega)
    have hlen := congrArg List.length hun
    rw [List.length_drop] at hlen
    obtain ⟨u, hu, hdu, hinv, -, hdrop⟩ := round_goes_on hdv (by omega) hround
    obtain rfl := Outcome.next.inj (hu.symm.trans hrun)
    refine ⟨hdu, by rw [hinv]; decide, ?_⟩
    rw [hdrop, hun, List.drop_drop]
    congr 1

/-- A device that knows the digest of the letter "a". -/
def envOfA : Env := .standard (.ofDigest md5OfAPadded)

/-- A download of which no block has arrived, into a flash of zeros. -/
def nothingRecved (blockCount : ℕ) : World :=
  { World.boot ⟨fun _ => 0#8, []⟩ with
    ota := { (World.boot ⟨fun _ => 0#8, []⟩).ota with
      otaState := .download, otaDlState := .downloading, blockCount := blockCount, upgradeNum := 7#16
      mcsLen := 66#16 } }

/-- Block `k` of seventeen. -/
def blockOfSeventeen (k : ℕ) : OtaUpgradeReq × (ℕ → Byte) :=
  ({ OtaUpgradeReq.standard with
    fileSize := 8704#32, dataOffset := .ofNat 32 (512 * k), dataLength := 512#16, packetType := 1#16 },
    fun _ => 0)

/-- The first fifteen blocks out of order, and one of them once more. -/
def firstFifteen : List (OtaUpgradeReq × (ℕ → Byte)) :=
  [14, 0, 3, 1, 2, 5, 4, 7, 6, 3, 9, 8, 11, 10, 13, 12].map blockOfSeventeen

/-- The other blocks, the last one first, and that one once more. -/
def lastTwo : List (OtaUpgradeReq × (ℕ → Byte)) :=
  [16, 15, 16].map blockOfSeventeen

theorem nothingRecved_downloading {blockCount : ℕ} (h : blockCount ≤ 224) :
    Downloading (nothingRecved blockCount) :=
  ⟨rfl, h⟩

theorem blockOfSeventeen_brings {k : ℕ} (hk : k < 17) (hd : Downloading w)
    (hnum : w.ota.upgradeNum = 7#16) :
    (blockOfSeventeen k).1.block = k ∧ (blockOfSeventeen k).1.Brings envOfA k w := by
  have hb : ∀ j < 17, (blockOfSeventeen j).1.block = j ∧
      (blockOfSeventeen j).1.Brings envOfA j (nothingRecved 17) := by decide
  exact ⟨(hb k hk).1, brings_congr rfl hd.otaState hnum (hb k hk).2⟩

/-- Packets of the seventeen that bring the requested blocks and no others are a round. -/
theorem blockOfSeventeen_round (sent : Bool) (ram : ℕ → Byte) {ks : List ℕ} (hks : ∀ k ∈ ks, k < 17)
    (hd : Downloading w) (hnum : w.ota.upgradeNum = 7#16) (hin : ∀ k ∈ ks, k ∈ requested w)
    (hall : ∀ k ∈ requested w, k ∈ ks) :
    IsRound envOfA w (.missDataReq sent ram :: deliveries (ks.map blockOfSeventeen)) := by
  refine ⟨sent, ram, _, rfl, List.forall_mem_map.mpr fun k hk => ?_, fun k hk => ?_⟩
  · obtain ⟨hblock, hbrings⟩ := blockOfSeventeen_brings (hks k hk) hd hnum
    exact ⟨by rw [hblock]; exact hin k hk, by rw [hblock]; exact hbrings⟩
  · exact ⟨_, List.mem_map_of_mem (hall k hk),
      (blockOfSeventeen_brings (hks k (hall k hk)) hd hnum).1⟩

theorem oneBlock_round : IsRound envOfA (nothingRecved 1)
    [.missDataReq true fun _ => 0, .upgradeReq .standard fun _ => 0] :=
  ⟨true, fun _ => 0, [(.standard, fun _ => 0)], rfl, by decide, by decide⟩

/-- On a flash of zeros the letter "a" does not come out. -/
theorem check_zeros {fl : Flash} (h : fl.cell (OtaUpgradeReq.standard.writeAddr envOfA) = 0#8) :
    OtaUpgradeReq.standard.check envOfA fl = some 2 := by
  have himage : fl.image (OtaUpgradeReq.standard.writeAddr envOfA) 1 = [0#8] :=
    congrArg (fun b => [b]) h
  have hsize : OtaUpgradeReq.standard.fileSize.toNat = 1 := by decide
  rw [OtaUpgradeReq.check, hsize]
  refine (ucWiotaOtaCheckFlashData_eq md5OfAPadded_documented fl _ (by decide) _).trans ?_
  rw [himage]
  decide

theorem write_zeros : (OtaUpgradeReq.standard.write envOfA (nothingRecved 1).flash).2.cell
    (OtaUpgradeReq.standard.writeAddr envOfA) = 0#8 := by
  rw [OtaUpgradeReq.write, ucWiotaOtaFlashWrite, otaFlashWrite_accepted _ _ (by decide),
    otaFlashWriteLoop_cell _ _ _ 0 _ (by decide), NorFlash.programRange]
  split
  · exact BitVec.zero_and
  · rfl

/-- After a failed check all blocks are missing. -/
theorem checkFailed_unmarked (rc : ℤ) (hs : w.ota.otaState = .download) :
    unmarked (checkFailed rc w) = List.range w.ota.blockCount := by
  have hclear : (checkFailed rc w).ota.maskMap = BitArray.clear 28 := by
    rw [checkFailed, ucGatewayClearState, if_pos]
    · rfl
    · show w.ota.otaState ≠ .default
      rw [hs]
      decide
  have hcount : (checkFailed rc w).ota.blockCount = w.ota.blockCount := by
    rw [checkFailed, ucGatewayClearState]
    split <;> rfl
  rw [unmarked, hclear, hcount, List.filter_eq_self]
  intro k _
  rw [BitArray.test_clear]
  rfl

end WiotaDev.GatewayOta
