import WiotaDev.FrequencyList

/-! # The candidates of the gateway app

The gateway app scans for one subsystem after the other and lists what synchronises: one node for each
pair of a subsystem and a frequency, the strongest first. -/

namespace WiotaDev.GatewayApp
open KeyedLists PrefixRuns WordBytes
open AutoManager (FreqScanResult)

/-- `SYNC_TO_AP`, `AUTH_FAIL` and `GW_ABNORMAL` of `freq_state_e`. -/
inductive FreqState where
  | syncToAp | authFail | gwAbnormal
deriving DecidableEq

/-- `freq_info_t`; `rssi` is signed and `snr` is not. -/
structure FreqInfo where
  freqIdx : Byte
  rssi : Byte
  snr : Byte
  state : FreqState
  subsystemid : BitVec 32
deriving DecidableEq

/-- `g_sync_info`. -/
structure SyncInfo where
  freqInfoList : List FreqInfo
  lastFreqInfo : FreqInfo
deriving DecidableEq

/-- The subsystem and the frequency of a candidate. -/
abbrev Pair := BitVec 32 × Byte

def FreqInfo.pair (n : FreqInfo) : Pair := (n.subsystemid, n.freqIdx)

/-- `rssi` as it is compared. -/
def FreqInfo.level (n : FreqInfo) : ℤ := n.rssi.toInt

def resultPair (r : FreqScanResult) : Pair := (r.subSysId, r.freqIdx)

/-- `gateway_clear_freq_info_list`, which sets all of `g_sync_info` to zero. -/
def gatewayClearFreqInfoList : SyncInfo := ⟨[], ⟨0, 0, 0, .syncToAp, 0⟩⟩

/-- `gateway_find_freq_info_node`. -/
def gatewayFindFreqInfoNode (g : SyncInfo) (pair : Pair) : Option FreqInfo :=
  g.freqInfoList.find? fun n => n.pair = pair

/-- What `gateway_add_to_sync_info` puts into a node. -/
def newNode (g : SyncInfo) (scanRes : FreqScanResult) : FreqInfo where
  freqIdx := scanRes.freqIdx
  rssi := scanRes.rssi
  snr := scanRes.snr
  state := if resultPair scanRes = g.lastFreqInfo.pair then g.lastFreqInfo.state else .syncToAp
  subsystemid := scanRes.subSysId

/-- `gateway_add_to_sync_info`. -/
def gatewayAddToSyncInfo (g : SyncInfo) (scanRes : FreqScanResult) : SyncInfo :=
  { g with freqInfoList :=
      if (gatewayFindFreqInfoNode g (resultPair scanRes)).isSome then
        replaceFirst FreqInfo.pair (newNode g scanRes) g.freqInfoList
      else insertBehind FreqInfo.level (newNode g scanRes) g.freqInfoList }

/-- `gateway_del_from_sync_info`. -/
def gatewayDelFromSyncInfo (g : SyncInfo) (scanRes : FreqScanResult) : SyncInfo :=
  { g with freqInfoList := removeFirst FreqInfo.pair (resultPair scanRes) g.freqInfoList }

/-- A turn of the inner loop in `gateway_scan_freq`: `result` is `freq_info[j]`, and `first` is what
`freq_info` points to. -/
structure Visit where
  first : FreqScanResult
  result : FreqScanResult
deriving DecidableEq

def visit (g : SyncInfo) (v : Visit) : SyncInfo :=
  if v.result.isSynced = 1 then gatewayAddToSyncInfo g v.first else gatewayDelFromSyncInfo g v.first

/-- The turns for the results of one scan. -/
def scanVisits (results : List FreqScanResult) : List Visit :=
  results.map fun r => ⟨results.headD r, r⟩

/-- The outcome of `uc_wiota_scan_freq`; there are no results unless it is `UC_OP_SUCC`. -/
abbrev ScanOutcome := Option (List FreqScanResult)

/-- One scan. The counter of its loop is an `unsigned char`, so that the loop goes on for ever where
there are more than 255 results. -/
def scanOne (g : SyncInfo) : ScanOutcome → Option SyncInfo
  | none => some g
  | some results => if results.length ≤ 255 then some ((scanVisits results).foldl visit g) else none

/-- `gateway_scan_freq` with the outcomes for its subsystems, if it returns. -/
def gatewayScanFreq (scans : List ScanOutcome) (g : SyncInfo) : Option SyncInfo :=
  scans.foldlM scanOne g

/-- All turns of the inner loop. -/
def visits (scans : List ScanOutcome) : List Visit := scans.flatMap fun s => scanVisits (s.getD [])

/-- What is found of a candidate; the numbers are those that the fields stand for. -/
structure Candidate where
  pair : Pair
  rssi : ℤ
  snr : ℤ
deriving DecidableEq

def FreqInfo.candidate (n : FreqInfo) : Candidate := ⟨n.pair, n.rssi.toInt, n.snr.toNat⟩

/-- What a result says, both numbers being signed. -/
def candidateOf (r : FreqScanResult) : Candidate := ⟨resultPair r, r.rssi.toInt, r.snr.toInt⟩

/-- What a result says if it is synchronised. -/
def synced (r : FreqScanResult) : Option Candidate :=
  if r.isSynced = 1 then some (candidateOf r) else none

/-- What the list is to hold for each pair after some results. -/
def wanted (results : List FreqScanResult) (pair : Pair) : Option Candidate :=
  (lastOf resultPair results pair).bind synced

/-- One node for each pair whose last result is synchronised, with its `rssi` and `snr`, no other node,
and by decreasing `rssi`. -/
structure Faithful (results : List FreqScanResult) (g : SyncInfo) : Prop where
  represents : Represents Candidate.pair (g.freqInfoList.map FreqInfo.candidate) (wanted results)
  ranked : Ranked FreqInfo.level g.freqInfoList

/-- What the list says about a pair. -/
def found (g : SyncInfo) (pair : Pair) : Option Candidate :=
  (gatewayFindFreqInfoNode g pair).map FreqInfo.candidate

/-- A result as a node shows it, where `snr` is not signed. -/
def stored (r : FreqScanResult) : Candidate := ⟨resultPair r, r.rssi.toInt, r.snr.toNat⟩

/-- What is entered for the pair of the first result when it is another's turn. -/
def entered (v : Visit) : Option Candidate :=
  if v.result.isSynced = 1 then some (stored v.first) else none

/-- The first result of the scan is of the same pair and, if the result is synchronised, says the same
with a `snr` that is not negative; or it is of another pair, and the list has already what it is to have
of the one and what it gets of the other. -/
def Agrees (g : SyncInfo) (v : Visit) : Prop :=
  resultPair v.first = resultPair v.result ∧ entered v = synced v.result ∨
    resultPair v.first ≠ resultPair v.result ∧
      found g (resultPair v.first) = entered v ∧ found g (resultPair v.result) = synced v.result

/-- The new node belongs where it is put: in the place of the node with its pair, or else behind the
first node with a larger `rssi`, or at the end. -/
def Belongs (g : SyncInfo) (v : Visit) : Prop :=
  v.result.isSynced = 1 →
    if (gatewayFindFreqInfoNode g (resultPair v.first)).isSome then
      FitsInPlace FreqInfo.pair FreqInfo.level (newNode g v.first) g.freqInfoList
    else FitsBehind FreqInfo.level (newNode g v.first) g.freqInfoList

def Proper (g : SyncInfo) (v : Visit) : Prop := Agrees g v ∧ Belongs g v

section Visits

variable {g : SyncInfo} {v : Visit} {results : List FreqScanResult}

theorem findNode_isSome_iff {pair : Pair} :
    (gatewayFindFreqInfoNode g pair).isSome = true ↔
      pair ∈ (g.freqInfoList.map FreqInfo.candidate).map Candidate.pair := by
  rw [gatewayFindFreqInfoNode, List.find?_isSome, List.map_map, List.mem_map]
  exact exists_congr fun n => and_congr_right fun _ => decide_eq_true_iff

/-- A search of the list finds what the list represents. -/
theorem found_eq {f : Pair → Option Candidate}
    (h : Represents Candidate.pair (g.freqInfoList.map FreqInfo.candidate) f) (pair : Pair) :
    found g pair = f pair := by
  rw [← h.find_eq, List.find?_map]
  rfl

theorem wanted_snoc (results : List FreqScanResult) (r : FreqScanResult) :
    wanted (results ++ [r]) = Function.update (wanted results) (resultPair r) (synced r) := by
  funext pair
  rw [wanted, lastOf_snoc]
  rcases eq_or_ne pair (resultPair r) with rfl | hne
  · rw [Function.update_self, Function.update_self]
    rfl
  · rw [Function.update_of_ne hne, Function.update_of_ne hne]
    rfl

/-- A turn changes what the list says about the pair of the first result. -/
theorem visit_represents {f : Pair → Option Candidate}
    (h : Represents Candidate.pair (g.freqInfoList.map FreqInfo.candidate) f) (v : Visit) :
    Represents Candidate.pair ((visit g v).freqInfoList.map FreqInfo.candidate)
      (Function.update f (resultPair v.first) (entered v)) := by
  have hkey : ∀ n : FreqInfo, Candidate.pair n.candidate = FreqInfo.pair n := fun _ => rfl
  rw [visit, entered]
  split
  · rw [gatewayAddToSyncInfo]
    dsimp only
    split
    · rename_i hold
      rw [map_replaceFirst_comm FreqInfo.candidate _ hkey]
      exact h.replaceFirst (findNode_isSome_iff.mp hold)
    · rename_i hnew
      have hcons := h.cons (a := (newNode g v.first).candidate)
        fun hmem => hnew (findNode_isSome_iff.mpr hmem)
      exact hcons.perm (insertBehind_perm.map FreqInfo.candidate)
  · rw [gatewayDelFromSyncInfo]
    dsimp only
    rw [map_removeFirst_comm FreqInfo.candidate _ hkey]
    exact h.removeFirst _

/-- The order is kept exactly if what is put into the list belongs there. -/
theorem visit_ranked_iff (h : Ranked FreqInfo.level g.freqInfoList) :
    Ranked FreqInfo.level (visit g v).freqInfoList ↔ Belongs g v := by
  rw [visit, Belongs]
  split
  · rename_i hsynced
    rw [gatewayAddToSyncInfo, forall_prop_of_true hsynced]
    dsimp only
    split
    · rename_i hold
      have hmem := findNode_isSome_iff.mp hold
      rw [List.map_map] at hmem
      exact h.replaceFirst_iff hmem
    · exact h.insertBehind_iff
  · rename_i hnot
    refine iff_of_true ?_ fun hsynced => absurd hsynced hnot
    exact h.sublist removeFirst_sublist

/-- A turn keeps the list as it is to be exactly if it is proper. -/
theorem visit_faithful_iff (h : Faithful results g) (v : Visit) :
    Faithful (results ++ [v.result]) (visit g v) ↔ Proper g v := by
  have hrep := visit_represents h.represents v
  have hagrees : Function.update (wanted results) (resultPair v.first) (entered v) =
      wanted (results ++ [v.result]) ↔ Agrees g v := by
    rw [wanted_snoc, update_eq_update_iff, ← found_eq h.represents, ← found_eq h.represents]
    rfl
  constructor
  · intro hf
    exact ⟨hagrees.mp (hrep.unique hf.represents), (visit_ranked_iff h.ranked).mp hf.ranked⟩
  · intro hp
    exact ⟨hagrees.mpr hp.1 ▸ hrep, (visit_ranked_iff h.ranked).mpr hp.2⟩

end Visits

theorem gatewayScanFreq_eq_some {scans : List ScanOutcome} {g t : SyncInfo}
    (h : gatewayScanFreq scans g = some t) : t = (visits scans).foldl visit g := by
  induction scans generalizing g with
  | nil => exact (Option.some.inj h).symm
  | cons scan scans ih =>
    obtain ⟨mid, hmid, hrest⟩ := Option.bind_eq_some_iff.mp h
    rw [visits, List.flatMap_cons, List.foldl_append]
    cases scan with
    | none =>
      cases hmid
      exact ih hrest
    | some results =>
      rw [scanOne] at hmid
      split at hmid
      · cases hmid
        exact ih hrest
      · cases hmid

theorem gatewayScanFreq_eq_some_iff (scans : List ScanOutcome) (g : SyncInfo) :
    gatewayScanFreq scans g = some ((visits scans).foldl visit g) ↔
      ∀ results, some results ∈ scans → results.length ≤ 255 := by
  induction scans generalizing g with
  | nil => exact iff_of_true rfl fun _ h => by cases h
  | cons scan scans ih =>
    have hcons : gatewayScanFreq (scan :: scans) g = (scanOne g scan).bind (gatewayScanFreq scans) := rfl
    rw [hcons, visits, List.flatMap_cons, List.foldl_append]
    cases scan with
    | none =>
      rw [scanOne, Option.bind_some]
      refine (ih g).trans (forall_congr' fun results => ?_)
      simp
    | some results =>
      rw [scanOne]
      split
      · rename_i hle
        refine (ih _).trans ⟨fun h r hr => ?_, fun h r hr => h r (List.mem_cons_of_mem _ hr)⟩
        rcases List.mem_cons.mp hr with heq | hr
        · cases heq
          exact hle
        · exact h r hr
      · rename_i hgt
        exact iff_of_false (by simp) fun h => hgt (h results List.mem_cons_self)

end WiotaDev.GatewayApp
