import WiotaDev.KeyedLists
import WiotaDev.PrefixRuns
import WiotaDev.WordBytes

/-! # The frequency list of the auto manager

What synchronised in the scans is kept in one node for each frequency, the strongest first. The same
frequency may be reported again, for another subsystem or by a later scan. -/

namespace WiotaDev.AutoManager
open KeyedLists PrefixRuns WordBytes

/-- `uc_freq_scan_result_t`; `snr` and `rssi` are signed. -/
structure FreqScanResult where
  freqIdx : Byte
  snr : Byte
  rssi : Byte
  isSynced : Byte
  subSysId : BitVec 32
deriving DecidableEq

/-- `t_freq_node_manager`; `snr` and `rssi` are signed. -/
structure Node where
  subsystemId : BitVec 32
  freq : Byte
  snr : Byte
  rssi : Byte
  isSynced : Byte
  sendCucessRate : Byte
deriving DecidableEq

/-- `rssi` as it is compared. -/
def Node.level (n : Node) : ℤ := n.rssi.toInt

/-- What `at_wiota_add_freq_list` puts into a node. -/
def nodeOf (subsystemId : BitVec 32) (node : FreqScanResult) : Node where
  subsystemId
  freq := node.freqIdx
  snr := node.snr
  rssi := node.rssi
  isSynced := node.isSynced
  sendCucessRate := 0

/-- `manager_wiota_find_node`. -/
def managerWiotaFindNode (freq : Byte) (list : List Node) : Option Node :=
  list.find? fun n => n.freq = freq

/-- `at_wiota_add_freq_list`; `malloc` says whether there is memory for a node. -/
def atWiotaAddFreqList (malloc : Bool) (subsystemId : BitVec 32) (node : FreqScanResult)
    (list : List Node) : List Node :=
  if (managerWiotaFindNode node.freqIdx list).isSome then
    replaceFirst Node.freq (nodeOf subsystemId node) list
  else if malloc then insertRanked Node.level (nodeOf subsystemId node) list
  else list

/-- The results of a scan, each with whether there is memory for a node. There are none unless the
scan returned `UC_OP_SUCC`. -/
abbrev ScanBack := Option (List (FreqScanResult × Bool))

/-- One turn of the loop in `at_wiota_freq_manager`. -/
def manageResult (subsystemId : BitVec 32) (acc : ℕ × List Node) (entry : FreqScanResult × Bool) :
    ℕ × List Node :=
  if entry.1.isSynced ≠ 0 then (0, atWiotaAddFreqList entry.2 subsystemId entry.1 acc.2) else acc

/-- `at_wiota_freq_manager`: what it returns and the list that it leaves. -/
def atWiotaFreqManager (subsystemId : BitVec 32) (result : ScanBack) (list : List Node) :
    ℕ × List Node :=
  match result with
  | none => (1, list)
  | some entries => entries.foldl (manageResult subsystemId) (1, list)

/-- A call of `at_wiota_freq_manager` for which there is memory. -/
structure ManagerCall where
  subsystemId : BitVec 32
  results : Option (List FreqScanResult)

def ManagerCall.back (call : ManagerCall) : ScanBack :=
  call.results.map fun results => results.map fun r => (r, true)

/-- The list after some calls, if it was empty before. -/
def freqList (calls : List ManagerCall) : List Node :=
  calls.foldl (fun list call => (atWiotaFreqManager call.subsystemId call.back list).2) []

/-- A result that synchronised, for the subsystem that was scanned. -/
structure Report where
  subsystemId : BitVec 32
  result : FreqScanResult

def ManagerCall.reports (call : ManagerCall) : List Report :=
  ((call.results.getD []).filter fun r => r.isSynced ≠ 0).map fun r => ⟨call.subsystemId, r⟩

def reports (calls : List ManagerCall) : List Report := calls.flatMap ManagerCall.reports

/-- What is to be kept of a report. -/
def Report.node (r : Report) : Node := nodeOf r.subsystemId r.result

def addReport (list : List Node) (r : Report) : List Node :=
  atWiotaAddFreqList true r.subsystemId r.result list

/-- The list after some reports, if it was empty before. -/
def listed (rs : List Report) : List Node := rs.foldl addReport []

/-- One node for each reported frequency, with what its last report said, by decreasing `rssi`. -/
structure Faithful (rs : List Report) (list : List Node) : Prop where
  represents : Represents Node.freq list (lastOf Node.freq (rs.map Report.node))
  ranked : Ranked Node.level list

/-- A report of a frequency that is listed already has an `rssi` between those of the nodes in front
of its own and of the nodes behind. -/
def KeepsPlace (list : List Node) (r : Report) : Prop :=
  r.result.freqIdx ∈ list.map Node.freq → FitsInPlace Node.freq Node.level r.node list

instance (list : List Node) : DecidablePred (KeepsPlace list) := fun _ =>
  inferInstanceAs (Decidable (_ ∈ _ → _))

theorem findNode_isSome_iff {freq : Byte} {list : List Node} :
    (managerWiotaFindNode freq list).isSome = true ↔ freq ∈ list.map Node.freq := by
  rw [managerWiotaFindNode, List.find?_isSome, List.mem_map]
  exact exists_congr fun n => and_congr_right fun _ => decide_eq_true_iff

theorem manage_eq (subsystemId : BitVec 32) (results : List FreqScanResult) (re : ℕ)
    (list : List Node) :
    ((results.map fun r => (r, true)).foldl (manageResult subsystemId) (re, list)).2 =
      ((results.filter fun r => r.isSynced ≠ 0).map fun r => (⟨subsystemId, r⟩ : Report)).foldl
        addReport list := by
  induction results generalizing re list with
  | nil => rfl
  | cons r results ih =>
    rw [List.map_cons, List.foldl_cons, List.filter_cons, manageResult]
    by_cases hr : r.isSynced ≠ 0
    · rw [if_pos hr, if_pos (decide_eq_true hr), ih]
      rfl
    · rw [if_neg hr, if_neg (by simpa using hr), ih]

/-- The calls do with the list what their reports do one by one. -/
theorem freqList_eq_listed (calls : List ManagerCall) : freqList calls = listed (reports calls) := by
  have hfold : ∀ list : List Node,
      calls.foldl (fun list call => (atWiotaFreqManager call.subsystemId call.back list).2) list =
        (reports calls).foldl addReport list := by
    induction calls with
    | nil => exact fun _ => rfl
    | cons call calls ih =>
      intro list
      rw [List.foldl_cons, ih, reports, reports, List.flatMap_cons, List.foldl_append]
      congr 1
      obtain ⟨subsystemId, _ | results⟩ := call
      · rfl
      · exact manage_eq subsystemId results 1 list
  exact hfold []

theorem addReport_of_mem {list : List Node} {r : Report} (h : r.node.freq ∈ list.map Node.freq) :
    addReport list r = replaceFirst Node.freq r.node list :=
  if_pos (findNode_isSome_iff.mpr h)

theorem addReport_of_notMem {list : List Node} {r : Report}
    (h : r.node.freq ∉ list.map Node.freq) :
    addReport list r = insertRanked Node.level r.node list :=
  if_neg fun hs => h (findNode_isSome_iff.mp hs)

theorem addReport_represents {list : List Node} {f : Byte → Option Node}
    (h : Represents Node.freq list f) (r : Report) :
    Represents Node.freq (addReport list r) (Function.update f r.node.freq (some r.node)) := by
  by_cases hmem : r.node.freq ∈ list.map Node.freq
  · rw [addReport_of_mem hmem]
    exact h.replaceFirst hmem
  · rw [addReport_of_notMem hmem]
    exact (h.cons hmem).perm insertRanked_perm

/-- However the reports come, there is one node for each reported frequency, with what the last report
of it said. -/
theorem listed_represents (rs : List Report) :
    Represents Node.freq (listed rs) (lastOf Node.freq (rs.map Report.node)) := by
  induction rs using List.reverseRecOn with
  | nil => exact represents_nil
  | append_singleton rs r ih =>
    rw [listed, List.foldl_append, List.map_append, List.map_singleton, lastOf_snoc]
    exact addReport_represents ih r

/-- The order is kept exactly if the report keeps its place. -/
theorem addReport_ranked_iff {list : List Node} (h : Ranked Node.level list) (r : Report) :
    Ranked Node.level (addReport list r) ↔ KeepsPlace list r := by
  by_cases hmem : r.node.freq ∈ list.map Node.freq
  · rw [addReport_of_mem hmem, h.replaceFirst_iff hmem]
    exact ⟨fun hf _ => hf, fun hk => hk hmem⟩
  · rw [addReport_of_notMem hmem]
    exact ⟨fun _ hm => absurd hm hmem, fun _ => h.insertRanked⟩

theorem faithful_iff_ranked (rs : List Report) :
    Faithful rs (listed rs) ↔ Ranked Node.level (listed rs) :=
  ⟨Faithful.ranked, fun h => ⟨listed_represents rs, h⟩⟩

/-- The list is as it is to be after every report exactly if no report of a listed frequency comes
with an `rssi` that belongs elsewhere in the list. -/
theorem freqList_faithful_iff (calls : List ManagerCall) :
    freqList calls = listed (reports calls) ∧
      ((∀ rs, rs <+: reports calls → Faithful rs (listed rs)) ↔
        Along addReport KeepsPlace [] (reports calls)) := by
  refine ⟨freqList_eq_listed calls, ?_⟩
  rw [← forall_prefix_iff_along (fun _ => True) (fun _ list => Ranked Node.level list)
    (fun _ _ _ _ => trivial) trivial List.Pairwise.nil fun pre list r _ h => addReport_ranked_iff h r]
  exact forall₂_congr fun rs _ => faithful_iff_ranked rs

/-- A frequency that was the strongest is reported again, much weaker, for another subsystem. -/
theorem freqList_notFaithful : ¬∀ calls : List ManagerCall,
    Faithful (reports calls) (freqList calls) := by
  intro h
  have hf := h [⟨1, some [⟨1, 10, 60, 1, 1⟩, ⟨2, 10, 50, 1, 1⟩]⟩, ⟨2, some [⟨1, 10, 40, 1, 2⟩]⟩]
  have hnot : ¬Ranked Node.level
      (freqList [⟨1, some [⟨1, 10, 60, 1, 1⟩, ⟨2, 10, 50, 1, 1⟩]⟩, ⟨2, some [⟨1, 10, 40, 1, 2⟩]⟩]) := by
    decide
  exact hnot hf.ranked

end WiotaDev.AutoManager
