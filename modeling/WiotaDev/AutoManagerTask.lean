import WiotaDev.FrequencyList

/-! # The task of the auto manager

`at_wiota_manager_task` scans, chooses a frequency of the list, attempts to connect on it, and leaves
the stack when the attempt fails or the connection is lost. -/

namespace WiotaDev.AutoManager
open KeyedLists PrefixRuns WordBytes

/-- `AT_WIOTA_MANAGER_PROCESS_SCAN` to `AT_WIOTA_MANAGER_PROCESS_EXIT`. -/
inductive Process where
  | scan | init | run | strategy | exit
deriving DecidableEq

/-- `g_wiota_manager`, and the frequency and the subsystem that the stack is set to. The current node
is a position in the list; the head of the list, which is no node, comes behind the last one. -/
structure Manager where
  freqList : List Node
  currentFreqNode : Option ℕ
  continueScanFail : ℕ
  managerState : Process
  freqInfo : Byte
  subsystemid : BitVec 32
deriving DecidableEq

/-- What a scan finds: the lists that the stack has stored, `subsystemid` and `userid` of the stack, the
outcome of each call of `uc_wiota_scan_freq`, and whether there is memory for a node. -/
structure ScanSetting where
  freqList : List Byte
  subsystemIds : List (BitVec 32)
  subsystemid : BitVec 32
  userid : ℕ
  results : ℕ → ScanBack
  malloc : Bool

/-- `at_wiota_get_static_freq`. -/
def atWiotaGetStaticFreq (list : List Byte) : List Byte := (list.take 16).takeWhile (· ≠ 0xFF)

/-- `at_wiota_get_subsystem_id_list`; the bound of its loop is the size of the list in bytes. -/
def atWiotaGetSubsystemIdList (list : List (BitVec 32)) (subsystemid : BitVec 32) :
    List (BitVec 32) :=
  let ids := (list.take 32).takeWhile fun id => id ≠ BitVec.allOnes 32 ∧ id ≠ 0
  if ids = [] then
    if subsystemid ≠ BitVec.allOnes 32 ∧ subsystemid ≠ 0 then [subsystemid] else []
  else ids

/-- `at_wiota_clean_freq_list`. -/
def atWiotaCleanFreqList (m : Manager) : Manager := { m with freqList := [], currentFreqNode := none }

/-- `at_wiota_choose_freq`: the node behind the current one, or the first. -/
def atWiotaChooseFreq (m : Manager) : ℕ × Manager :=
  if m.freqList = [] then (1, m)
  else
    let next := m.currentFreqNode.elim 0 fun i => if i < m.freqList.length then i + 1 else 0
    (if next = m.freqList.length then 2 else 0, { m with currentFreqNode := some next })

/-- `at_wiota_only_freq`. -/
def atWiotaOnlyFreq (malloc : Bool) (subsystemId : BitVec 32) (freq : Byte) (list : List Node) :
    List Node :=
  atWiotaAddFreqList malloc subsystemId ⟨freq, 0, 0, 0, 0⟩ list

/-- One scan of the loop over the subsystems; `flag` counts those that found nothing. -/
def scanSubsystem (c : ScanSetting) (ids : List (BitVec 32)) (acc : ℕ × List Node) (j : ℕ) :
    ℕ × List Node :=
  let i := c.userid % ids.length + j
  let managed := atWiotaFreqManager (ids.getD (i % ids.length) 0) (c.results j) acc.2
  (if managed.1 ≠ 0 then acc.1 + 1 else acc.1, managed.2)

/-- `at_wiota_manager_scan`: whether it failed, and what it leaves. -/
def atWiotaManagerScan (c : ScanSetting) (m : Manager) : Bool × Manager :=
  let m := atWiotaCleanFreqList m
  let freqList := atWiotaGetStaticFreq c.freqList
  let ids := atWiotaGetSubsystemIdList c.subsystemIds c.subsystemid
  let strategy := freqList.length * ids.length % 256
  if strategy = 0 then
    let managed := atWiotaFreqManager c.subsystemid (c.results 0) m.freqList
    (managed.1 ≠ 0,
      { m with
        freqList := managed.2
        continueScanFail := if managed.1 ≠ 0 then m.continueScanFail + 1 else m.continueScanFail })
  else if strategy = 1 then
    (m.continueScanFail > 2 ∧ m.continueScanFail % 2 = 0,
      { m with
        freqList := atWiotaOnlyFreq c.malloc c.subsystemid (freqList.headD 0) m.freqList
        continueScanFail := m.continueScanFail + 1 })
  else
    let scanned := (List.range ids.length).foldl (scanSubsystem c ids) (0, m.freqList)
    (scanned.1 = ids.length,
      { m with
        freqList := scanned.2
        continueScanFail := if scanned.1 ≠ 0 then m.continueScanFail + 1 else m.continueScanFail })

/-- What the manager meets in one turn of its loop. -/
structure Answers where
  scan : ScanSetting
  connects : Bool

/-- What can be observed of the manager: a scan, whether it succeeded and the frequencies that it left,
and an attempt to connect on a frequency. -/
inductive Act where
  | scanned (success : Bool) (freqs : List Byte)
  | attempted (freq : Byte) (connected : Bool)
deriving DecidableEq

/-- One turn of the loop in `at_wiota_manager_task`. -/
def managerTurn (m : Manager) (a : Answers) : List Act × Manager :=
  match m.managerState with
  | .scan =>
    let scanned := atWiotaManagerScan a.scan m
    ([.scanned (!scanned.1) (scanned.2.freqList.map Node.freq)],
      if scanned.1 then scanned.2 else { scanned.2 with managerState := .init })
  | .init =>
    let chosen := atWiotaChooseFreq m
    if chosen.1 ≠ 0 then ([], { chosen.2 with managerState := .scan })
    else
      let node := (chosen.2.currentFreqNode.bind fun i => chosen.2.freqList[i]?).getD ⟨0, 0, 0, 0, 0, 0⟩
      ([], { chosen.2 with
        freqInfo := node.freq
        subsystemid := node.subsystemId
        managerState := .run })
  | .run =>
    ([.attempted m.freqInfo a.connects],
      if a.connects then { m with managerState := .strategy, continueScanFail := 0 }
      else { m with managerState := .exit })
  | .strategy => ([], { m with managerState := .exit })
  | .exit => ([], { atWiotaCleanFreqList m with managerState := .init })

/-- The manager when its task starts. -/
def Manager.start : Manager := ⟨[], none, 0, .scan, 0, 0⟩

def managerNext (m : Manager) (a : Answers) : Manager := (managerTurn m a).2

/-- What the manager does in a run. -/
def acts : Manager → List Answers → List Act
  | _, [] => []
  | m, a :: as => (managerTurn m a).1 ++ acts (managerNext m a) as

/-- What a manager that tries every candidate has to keep in mind: the frequencies of the last
successful scan that it has not tried, and whether an attempt has connected. -/
structure Search where
  remaining : List Byte
  connected : Bool
deriving DecidableEq

/-- It may scan again. -/
def Search.Settled (s : Search) : Prop := s.remaining = [] ∨ s.connected = true

instance : DecidablePred Search.Settled := fun _ => inferInstanceAs (Decidable (_ ∨ _))

def Search.start : Search := ⟨[], false⟩

/-- The next act, if it is one that such a manager does: it tries the frequencies in the order of the
list, in which each occurs once, and scans again when an attempt has connected or none is left. -/
def Search.act (s : Search) : Act → Option Search
  | .scanned success freqs =>
    if s.Settled ∧ freqs.Nodup then some ⟨if success then freqs else [], false⟩ else none
  | .attempted freq connected =>
    if s.remaining.head? = some freq then some ⟨s.remaining.tail, s.connected || connected⟩ else none

def Search.run (s : Search) (as : List Act) : Option Search := as.foldlM Search.act s

/-- Every candidate is tried. -/
def TriesAll (as : List Act) : Prop := (Search.start.run as).isSome = true

instance : DecidablePred TriesAll := fun _ => inferInstanceAs (Decidable (_ = _))

/-- An attempt that does not connect is made on the only frequency of the list. -/
def FailsAlone (m : Manager) (a : Answers) : Prop :=
  m.managerState = .run → a.connects = false → m.freqList.length = 1

instance (m : Manager) : DecidablePred (FailsAlone m) := fun _ =>
  inferInstanceAs (Decidable (_ → _ → _))

/-- Where the manager is and what it has to keep in mind. -/
def Tracks (m : Manager) (s : Search) : Prop :=
  match m.managerState with
  | .scan | .strategy | .exit => s.Settled
  | .init => m.freqList = [] ∧ s.Settled ∨
      m.currentFreqNode = none ∧ s = ⟨m.freqList.map Node.freq, false⟩
  | .run => s = ⟨m.freqList.map Node.freq, false⟩ ∧ (m.freqList.map Node.freq).head? = some m.freqInfo

section Steps

variable {m : Manager} {s : Search}

/-- A scan begins without a current node and leaves none. -/
theorem scan_current (c : ScanSetting) (m : Manager) :
    (atWiotaManagerScan c m).2.currentFreqNode = none := by
  simp only [atWiotaManagerScan]
  split
  · rfl
  · split
    · rfl
    · rfl

theorem scan_managerState (c : ScanSetting) (m : Manager) :
    (atWiotaManagerScan c m).2.managerState = m.managerState := by
  simp only [atWiotaManagerScan]
  split
  · rfl
  · split
    · rfl
    · rfl

theorem add_nodup {list : List Node} (h : (list.map Node.freq).Nodup) (malloc : Bool)
    (subsystemId : BitVec 32) (node : FreqScanResult) :
    ((atWiotaAddFreqList malloc subsystemId node list).map Node.freq).Nodup := by
  rw [atWiotaAddFreqList]
  split
  · rw [map_replaceFirst]
    exact h
  · rename_i hnone
    split
    · rw [← (insertRanked_perm.map Node.freq).nodup_iff]
      exact List.nodup_cons.mpr ⟨fun hmem => hnone (findNode_isSome_iff.mpr hmem), h⟩
    · exact h

theorem manager_nodup {list : List Node} (h : (list.map Node.freq).Nodup) (subsystemId : BitVec 32)
    (result : ScanBack) : ((atWiotaFreqManager subsystemId result list).2.map Node.freq).Nodup := by
  cases result with
  | none => exact h
  | some entries =>
    have hfold : ∀ acc : ℕ × List Node, (acc.2.map Node.freq).Nodup →
        ((entries.foldl (manageResult subsystemId) acc).2.map Node.freq).Nodup := by
      induction entries with
      | nil => exact fun _ hacc => hacc
      | cons entry entries ih =>
        intro acc hacc
        apply ih
        rw [manageResult]
        split
        · exact add_nodup hacc _ _ _
        · exact hacc
    exact hfold (1, list) h

/-- No frequency is in the list twice, whatever the scan finds. -/
theorem scan_nodup (c : ScanSetting) (m : Manager) :
    ((atWiotaManagerScan c m).2.freqList.map Node.freq).Nodup := by
  have hsubsystems : ∀ (ids : List (BitVec 32)) (js : List ℕ) (acc : ℕ × List Node),
      (acc.2.map Node.freq).Nodup →
        ((js.foldl (scanSubsystem c ids) acc).2.map Node.freq).Nodup := by
    intro ids js
    induction js with
    | nil => exact fun _ hacc => hacc
    | cons j js ih => exact fun acc hacc => ih _ (manager_nodup hacc _ _)
  have hnil : ((atWiotaCleanFreqList m).freqList.map Node.freq).Nodup := List.nodup_nil
  simp only [atWiotaManagerScan]
  split
  · exact manager_nodup hnil _ _
  · split
    · exact add_nodup hnil _ _ _
    · exact hsubsystems _ _ _ hnil

/-- Without a current node the first of the list is chosen. -/
theorem choose_first {n : Node} {rest : List Node} (hlist : m.freqList = n :: rest)
    (hcur : m.currentFreqNode = none) :
    atWiotaChooseFreq m = (0, { m with currentFreqNode := some 0 }) := by
  have hne : ¬(n :: rest) = [] := List.cons_ne_nil n rest
  have hlen : ¬0 = (n :: rest).length := by simp
  rw [atWiotaChooseFreq, hlist, hcur, if_neg hne]
  dsimp only [Option.elim_none]
  rw [if_neg hlen]

theorem search_singleton (act : Act) : s.run [act] = s.act act := by
  rw [Search.run, List.foldlM_cons]
  cases s.act act <;> rfl

/-- A scan is made where one may be, and what it leaves is kept in mind. -/
theorem scan_tracks (hm : m.managerState = .scan) (h : s.Settled) (a : Answers) :
    ∃ t, s.run (managerTurn m a).1 = some t ∧ Tracks (managerNext m a) t := by
  have hstate := (scan_managerState a.scan m).trans hm
  simp only [managerNext, managerTurn, hm]
  rw [search_singleton, Search.act, if_pos ⟨h, scan_nodup a.scan m⟩]
  refine ⟨_, rfl, ?_⟩
  cases hres : (atWiotaManagerScan a.scan m).1 with
  | true =>
    rw [if_pos rfl, Tracks, hstate]
    exact .inl rfl
  | false =>
    rw [if_neg Bool.false_ne_true]
    exact .inr ⟨scan_current a.scan m, rfl⟩

/-- The first frequency is chosen, or the manager scans where it may. -/
theorem init_tracks (hm : m.managerState = .init)
    (h : m.freqList = [] ∧ s.Settled ∨
      m.currentFreqNode = none ∧ s = ⟨m.freqList.map Node.freq, false⟩) (a : Answers) :
    ∃ t, s.run (managerTurn m a).1 = some t ∧ Tracks (managerNext m a) t := by
  simp only [managerNext, managerTurn, hm]
  cases hlist : m.freqList with
  | nil =>
    have hsettled : s.Settled := by
      rcases h with ⟨-, hs⟩ | ⟨-, hs⟩
      · exact hs
      · rw [hs, hlist]
        exact .inl rfl
    have hchoose : atWiotaChooseFreq m = (1, m) := if_pos hlist
    rw [hchoose, if_pos Nat.one_ne_zero]
    exact ⟨s, rfl, hsettled⟩
  | cons n rest =>
    obtain ⟨hcur, hs⟩ := h.resolve_left fun h => List.cons_ne_nil n rest (hlist ▸ h.1)
    rw [choose_first hlist hcur, if_neg (fun h => h rfl)]
    refine ⟨s, rfl, hs, ?_⟩
    dsimp only [Option.bind_some]
    rw [hlist]
    rfl

/-- The attempt is on the next frequency, and there is no other when it fails. -/
theorem run_tracks (hm : m.managerState = .run) (hs : s = ⟨m.freqList.map Node.freq, false⟩)
    (hfreq : (m.freqList.map Node.freq).head? = some m.freqInfo) (a : Answers)
    (ha : FailsAlone m a) :
    ∃ t, s.run (managerTurn m a).1 = some t ∧ Tracks (managerNext m a) t := by
  simp only [managerNext, managerTurn, hm]
  rw [search_singleton, hs, Search.act, if_pos hfreq]
  refine ⟨_, rfl, ?_⟩
  cases hc : a.connects with
  | true =>
    rw [if_pos rfl]
    exact .inr rfl
  | false =>
    rw [if_neg Bool.false_ne_true]
    have hone : (m.freqList.map Node.freq).length = 1 := by
      rw [List.length_map]
      exact ha hm hc
    have htail : (m.freqList.map Node.freq).tail = [] := by
      rw [← List.length_eq_zero_iff, List.length_tail, hone]
    exact .inl htail

/-- What the manager does in a turn is what one does that tries every candidate. -/
theorem turn_tracks (h : Tracks m s) (a : Answers) (ha : FailsAlone m a) :
    ∃ t, s.run (managerTurn m a).1 = some t ∧ Tracks (managerNext m a) t := by
  rw [Tracks] at h
  cases hm : m.managerState with
  | scan =>
    rw [hm] at h
    exact scan_tracks hm h a
  | init =>
    rw [hm] at h
    exact init_tracks hm h a
  | run =>
    rw [hm] at h
    exact run_tracks hm h.1 h.2 a ha
  | strategy =>
    rw [hm] at h
    simp only [managerNext, managerTurn, hm]
    exact ⟨s, rfl, h⟩
  | exit =>
    rw [hm] at h
    simp only [managerNext, managerTurn, hm]
    exact ⟨s, rfl, .inl ⟨rfl, h⟩⟩

theorem search_append (as bs : List Act) : s.run (as ++ bs) = (s.run as).bind fun t => t.run bs :=
  List.foldlM_append

/-- An attempt has failed, there is another frequency, and the manager is on its way to a scan that is
still so many turns off. -/
def Lost (m : Manager) (s : Search) : ℕ → Prop
  | 0 => m.managerState = .scan ∧ ¬s.Settled
  | 1 => m.managerState = .init ∧ m.freqList = [] ∧ ¬s.Settled
  | 2 => m.managerState = .exit ∧ ¬s.Settled
  | _ => False

theorem turn_lost {k : ℕ} (h : Lost m s (k + 1)) (a : Answers) :
    (managerTurn m a).1 = [] ∧ Lost (managerNext m a) s k := by
  simp only [managerNext, managerTurn]
  match k, h with
  | 0, ⟨hm, hlist, hs⟩ =>
    have hchoose : atWiotaChooseFreq m = (1, m) := if_pos hlist
    simp only [hm, hchoose]
    exact ⟨rfl, rfl, hs⟩
  | 1, ⟨hm, hs⟩ =>
    simp only [hm]
    exact ⟨trivial, rfl, rfl, hs⟩

/-- An attempt that fails too early. -/
theorem run_lost (h : Tracks m s) (a : Answers) (ha : ¬FailsAlone m a) :
    ∃ t, s.run (managerTurn m a).1 = some t ∧ Lost (managerNext m a) t 2 := by
  rw [FailsAlone] at ha
  push Not at ha
  obtain ⟨hm, hc, hlen⟩ := ha
  rw [Tracks, hm] at h
  obtain ⟨rfl, hfreq⟩ := h
  simp only [managerNext, managerTurn, hm]
  rw [search_singleton, Search.act, if_pos hfreq, hc, if_neg Bool.false_ne_true]
  refine ⟨_, rfl, rfl, ?_⟩
  rintro (htail | hconn)
  · have hle : (m.freqList.map Node.freq).length - 1 = 0 := by
      rw [← List.length_tail]
      exact congrArg List.length htail
    have hpos : 0 < (m.freqList.map Node.freq).length := by
      rw [List.length_pos_iff_ne_nil]
      rintro hnil
      rw [hnil] at hfreq
      cases hfreq
    rw [List.length_map] at hle hpos
    omega
  · cases hconn

/-- The scan that comes too early is not accepted. -/
theorem lost_rejects {k : ℕ} (h : Lost m s k) (as : List Answers) (has : k < as.length) :
    s.run (acts m as) = none := by
  induction as generalizing m k with
  | nil => cases has
  | cons a as ih =>
    cases k with
    | zero =>
      obtain ⟨hm, hs⟩ := h
      have hact : s.act (.scanned (!(atWiotaManagerScan a.scan m).1)
          ((atWiotaManagerScan a.scan m).2.freqList.map Node.freq)) = none := if_neg fun h => hs h.1
      simp only [acts, managerTurn, hm, List.singleton_append, Search.run, List.foldlM_cons, hact]
      rfl
    | succ k =>
      obtain ⟨hnil, hnext⟩ := turn_lost h a
      rw [acts, hnil, List.nil_append]
      exact ih hnext (Nat.lt_of_succ_lt_succ has)

theorem lost_accepts {k : ℕ} (h : Lost m s k) (as : List Answers) (has : as.length ≤ k) :
    (s.run (acts m as)).isSome = true := by
  induction as generalizing m k with
  | nil => rfl
  | cons a as ih =>
    cases k with
    | zero => cases has
    | succ k =>
      obtain ⟨hnil, hnext⟩ := turn_lost h a
      rw [acts, hnil, List.nil_append]
      exact ih hnext (Nat.le_of_succ_le_succ has)

/-- Three turns are too few for a scan that comes too early. -/
theorem short_accepts (h : Tracks m s) (as : List Answers) (has : as.length ≤ 3) :
    (s.run (acts m as)).isSome = true := by
  induction as generalizing m s with
  | nil => rfl
  | cons a as ih =>
    rw [List.length_cons] at has
    rw [acts, search_append]
    by_cases ha : FailsAlone m a
    · obtain ⟨t, hrun, ht⟩ := turn_tracks h a ha
      rw [hrun]
      exact ih ht (by omega)
    · obtain ⟨t, hrun, ht⟩ := run_lost h a ha
      rw [hrun]
      exact lost_accepts ht as (by omega)

theorem acts_accepted_iff (h : Tracks m s) (as : List Answers) :
    (∀ more : List Answers, more.length ≤ 3 → (s.run (acts m (as ++ more))).isSome = true) ↔
      Along managerNext FailsAlone m as := by
  induction as generalizing m s with
  | nil => exact ⟨fun _ => trivial, fun _ more hmore => short_accepts h more hmore⟩
  | cons a as ih =>
    simp only [List.cons_append, acts, search_append]
    by_cases ha : FailsAlone m a
    · obtain ⟨t, hrun, ht⟩ := turn_tracks h a ha
      rw [hrun]
      exact (ih ht).trans ⟨fun hal => ⟨ha, hal⟩, And.right⟩
    · obtain ⟨t, hrun, ht⟩ := run_lost h a ha
      rw [hrun]
      refine ⟨fun hall => ?_, fun hal => absurd hal.1 ha⟩
      have hsome := hall [a, a, a] (le_refl 3)
      have hnone := lost_rejects ht (as ++ [a, a, a]) (by
        rw [List.length_append]
        exact Nat.lt_of_lt_of_le (Nat.lt_succ_self 2) (Nat.le_add_left 3 _))
      rw [Option.bind_some, hnone] at hsome
      cases hsome

end Steps

/-- A run and whatever comes in the three turns behind it: the manager attempts to connect on the
frequencies that a successful scan has left in their order, each at most once, and does not scan
again before an attempt has connected or all of them have been tried. This is so exactly if no
attempt of the run fails while there are other frequencies in the list. -/
theorem triesAll_iff (as : List Answers) :
    (∀ more : List Answers, more.length ≤ 3 → TriesAll (acts .start (as ++ more))) ↔
      Along managerNext FailsAlone .start as := by
  have hstart : Tracks .start .start := Or.inl rfl
  exact acts_accepted_iff hstart as

/-- Two frequencies are found, and the connection on the first fails. -/
theorem not_triesAll : ¬∀ as : List Answers, TriesAll (acts .start as) := by
  intro h
  have hlost := h (List.replicate 6
    ⟨⟨[], [], 1, 0, fun _ => some [(⟨1, 10, 60, 1, 1⟩, true), (⟨2, 10, 50, 1, 1⟩, true)], true⟩, false⟩)
  revert hlost
  decide

end WiotaDev.AutoManager
