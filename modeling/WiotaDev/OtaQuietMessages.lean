import WiotaDev.OtaAdmission

/-! # Messages that leave a download alone

The state message and the missing-data request read the block map and set the timer;
the download itself, its map and the flash stay as they are. A stop and the clearing of the
progress change one field each. -/

namespace WiotaDev.GatewayOta
open WordBytes OtaFlash HaltingRuns

variable {env : Env} {ram : ℕ → Byte} {w w' w'' : World}

/-- A call that neither touches the flash nor ends a download. -/
def OtaCall.Quiet : OtaCall → Prop
  | .stopOtaTimer | .controlOtaTimer _ | .missDataReq _ => True
  | _ => False

/-- What a message that leaves the download alone does. -/
structure Quiet (w w' : World) : Prop where
  ota : ∃ n q c, w'.ota =
    { w.ota with missDataNum := n, missDataInvalidReq := q, missDataContinueCouter := c }
  flash : w'.flash = w.flash
  calls : ∃ new, w'.calls = new ++ w.calls ∧ ∀ c ∈ new, c.Quiet
  mapIndices : ∃ ks : List ℕ, w'.mapIndices = ks.map (· / 8) ++ w.mapIndices ∧ ∀ k ∈ ks, k < w.ota.blockCount

namespace Quiet

theorem refl (w : World) : Quiet w w where
  ota := ⟨_, _, _, rfl⟩
  flash := rfl
  calls := ⟨[], rfl, by simp⟩
  mapIndices := ⟨[], rfl, by simp⟩

theorem trans (h : Quiet w w') (h' : Quiet w' w'') : Quiet w w'' where
  ota := by
    obtain ⟨n, q, c, ho⟩ := h.ota
    obtain ⟨n', q', c', ho'⟩ := h'.ota
    exact ⟨n', q', c', by rw [ho', ho]⟩
  flash := h'.flash.trans h.flash
  calls := by
    obtain ⟨new, hn, hq⟩ := h.calls
    obtain ⟨new', hn', hq'⟩ := h'.calls
    refine ⟨new' ++ new, by rw [hn', hn, List.append_assoc], fun c hc => ?_⟩
    rcases List.mem_append.mp hc with hc | hc
    · exact hq' c hc
    · exact hq c hc
  mapIndices := by
    obtain ⟨n, q, c, ho⟩ := h.ota
    obtain ⟨ks, hi, hk⟩ := h.mapIndices
    obtain ⟨ks', hi', hk'⟩ := h'.mapIndices
    refine ⟨ks' ++ ks, by rw [hi', hi, List.map_append, List.append_assoc], fun k hmem => ?_⟩
    rcases List.mem_append.mp hmem with hmem | hmem
    · simpa [ho] using hk' k hmem
    · exact hk k hmem

theorem of_call {c : OtaCall} (hc : c.Quiet) (w : World) : Quiet w (w.call c) where
  ota := ⟨_, _, _, rfl⟩
  flash := rfl
  calls := ⟨[c], rfl, by simpa using hc⟩
  mapIndices := ⟨[], rfl, by simp⟩

theorem stopTimer (w : World) : Quiet w (ucGatewayStopOtaTimer w) :=
  of_call (c := .stopOtaTimer) trivial w

theorem controlTimer (t : ℕ) (w : World) : Quiet w (ucGatewayControlOtaTimer t w) :=
  of_call (c := .controlOtaTimer t) trivial w

theorem request (r : MissingDataReq) (w : World) : Quiet w (w.call (.missDataReq r)) :=
  of_call (c := .missDataReq r) trivial w

theorem of_scan {n : ℕ} (hn : n ≤ w.ota.blockCount) : Quiet w (w.scan n) where
  ota := ⟨_, _, _, rfl⟩
  flash := rfl
  calls := ⟨[], rfl, by simp⟩
  mapIndices := by
    refine ⟨(List.range n).reverse, by simp [World.scan], fun k hk => ?_⟩
    rw [List.mem_reverse, List.mem_range] at hk
    omega

/-- The counters of the missing-data requests may change. -/
theorem of_counters (w : World) (n q c : Byte) :
    Quiet w { w with ota :=
      { w.ota with missDataNum := n, missDataInvalidReq := q, missDataContinueCouter := c } } where
  ota := ⟨n, q, c, rfl⟩
  flash := rfl
  calls := ⟨[], rfl, by simp⟩
  mapIndices := ⟨[], rfl, by simp⟩

theorem otaState (h : Quiet w w') : w'.ota.otaState = w.ota.otaState := by
  obtain ⟨n, q, c, ho⟩ := h.ota
  rw [ho]

theorem maskMap (h : Quiet w w') : w'.ota.maskMap = w.ota.maskMap := by
  obtain ⟨n, q, c, ho⟩ := h.ota
  rw [ho]

theorem otaRecvedLen (h : Quiet w w') : w'.ota.otaRecvedLen = w.ota.otaRecvedLen := by
  obtain ⟨n, q, c, ho⟩ := h.ota
  rw [ho]

theorem otaDlState (h : Quiet w w') : w'.ota.otaDlState = w.ota.otaDlState := by
  obtain ⟨n, q, c, ho⟩ := h.ota
  rw [ho]

theorem upgradeNum (h : Quiet w w') : w'.ota.upgradeNum = w.ota.upgradeNum := by
  obtain ⟨n, q, c, ho⟩ := h.ota
  rw [ho]

theorem blockCount (h : Quiet w w') : w'.ota.blockCount = w.ota.blockCount := by
  obtain ⟨n, q, c, ho⟩ := h.ota
  rw [ho]

theorem binAddr (h : Quiet w w') : w'.ota.binAddr = w.ota.binAddr := by
  obtain ⟨n, q, c, ho⟩ := h.ota
  rw [ho]

end Quiet

theorem upgradeStateMsg_quiet (env : Env) (msg : OtaUpgradeState) (ram : ℕ → Byte) (w : World) :
    Quiet w (ucWiotaGatewayOtaUpgradeStateMsg env msg ram w) := by
  rw [ucWiotaGatewayOtaUpgradeStateMsg]
  split
  · have hscan : Quiet w (w.scan w.ota.blockCount) := .of_scan le_rfl
    have hcount := hscan.trans (.of_counters _
      (w.ota.missDataNum + BitVec.ofNat 8
        ((List.range w.ota.blockCount).countP fun k => !judgmentBit ram w.ota k))
      w.ota.missDataInvalidReq w.ota.missDataContinueCouter)
    simp only
    split
    · exact (hcount.trans (.controlTimer _ _)).trans (.of_counters _ _ 0#8 _)
    · exact hcount
  · exact .refl w

/-- The loop of the missing-data request makes at most the given rounds. -/
theorem missDataLoop_rounds (ram : ℕ → Byte) (ota : OtaPara) (offset rounds : ℕ)
    (listed : List ℕ) : (missDataLoop ram ota offset rounds listed).2 ≤ offset + rounds := by
  induction rounds generalizing offset listed with
  | zero => exact le_refl _
  | succ rounds ih =>
    simp only [missDataLoop]
    split_ifs
    · exact (ih (offset + 1) listed).trans (by omega)
    · simp only
      omega
    · exact (ih (offset + 1) _).trans (by omega)

theorem missDataReqMsg_quiet (env : Env) (sent : Bool) (ram : ℕ → Byte) (w : World) :
    Quiet w (ucWiotaGatewayOtaMissDataReqMsg env sent ram w) := by
  rw [ucWiotaGatewayOtaMissDataReqMsg]
  split
  · have hcount := Quiet.of_counters w w.ota.missDataNum (w.ota.missDataInvalidReq + 1#8)
      w.ota.missDataContinueCouter
    have hrounds := missDataLoop_rounds ram
      { w.ota with missDataInvalidReq := w.ota.missDataInvalidReq + 1#8 } 0 w.ota.blockCount []
    simp only [Nat.zero_add] at hrounds
    have hreq := fun r => (hcount.trans (.of_scan hrounds)).trans (.request r _)
    simp only
    split_ifs
    · exact ((hreq _).trans (.controlTimer _ _)).trans (.of_counters _ _ _ 0#8)
    · exact ((hreq _).trans (.controlTimer _ _)).trans (.of_counters _ _ _ _)
    · exact ((hreq _).trans (.stopTimer _)).trans (.of_counters _ _ _ 0#8)
  · exact .stopTimer w

/-- The state after a stop that names this device: besides the timer everything else stays. -/
def stopped (w : World) : World :=
  { w with
    ota := { w.ota with otaState := .stop }
    calls := if w.ota.otaState = .download then .stopOtaTimer :: w.calls else w.calls }

/-- A stop that does not name this device changes nothing. -/
theorem upgradeStopMsg_eq (env : Env) (ioteList : Vector (BitVec 32) 16) (w : World) :
    ucWiotaGatewayOtaUpgradeStopMsg env ioteList w =
      if env.devAddress ∈ ioteList.toList then stopped w else w := by
  rw [ucWiotaGatewayOtaUpgradeStopMsg, stopped]
  by_cases hm : env.devAddress ∈ ioteList.toList
  · by_cases hd : w.ota.otaState = .download
    · simp only [hm, hd, if_true]
      rfl
    · simp only [hm, hd, if_true, if_false]
  · simp only [hm, if_false]

/-- An event that is no request leaves the download alone, stops it, or clears its progress. -/
theorem otaStep_other {e : OtaEvent} (env : Env) (w : World)
    (he : ¬∃ req ram, e = .upgradeReq req ram) :
    ∃ w', otaStep env w e = .next w' ∧
      (Quiet w w' ∨ w' = stopped w ∨ e = .clearOtaState ∧ w' = ucWiotaGatewayClearOtaState w) := by
  cases e with
  | upgradeReq req ram => exact absurd ⟨req, ram, rfl⟩ he
  | upgradeStop ioteList =>
    refine ⟨_, rfl, ?_⟩
    rw [upgradeStopMsg_eq]
    split
    · exact .inr (.inl rfl)
    · exact .inl (.refl w)
  | upgradeState msg ram => exact ⟨_, rfl, .inl (upgradeStateMsg_quiet env msg ram w)⟩
  | missDataReq sent ram => exact ⟨_, rfl, .inl (missDataReqMsg_quiet env sent ram w)⟩
  | clearOtaState => exact ⟨_, rfl, .inr (.inr ⟨rfl, rfl⟩)⟩

end WiotaDev.GatewayOta
