import WiotaDev.GatewayApp

/-! # What the gateway app tries next

When the pair that was chosen last has failed, the app scans again and chooses a candidate. It should
not be the same pair while there is another. -/

namespace WiotaDev.GatewayApp
open HaltingRuns KeyedLists
open AutoManager (FreqScanResult)
open GatewayLifecycle (StartResult)

/-- A choice of a candidate, the pair that failed before it, and the pairs that were found synchronised
in between. -/
structure Choice where
  failed : Option Pair
  found : List Pair
  chosen : Pair
deriving DecidableEq

/-- The pair that the app is set to, what has happened to it, what the last scan has brought, and the
choices so far. -/
structure Retry where
  current : Option Pair
  failed : Option Pair
  scans : List ScanOutcome
  found : List Pair
  choices : List Choice
deriving DecidableEq

/-- The pairs whose last result is synchronised. -/
def syncedPairs (scans : List ScanOutcome) : List Pair :=
  let results := scans.flatMap fun s => s.getD []
  (results.map resultPair).filter fun pair => (wanted results pair).isSome

/-- A failure of the pair that the app is set to. -/
def Retry.fail (h : Retry) : Retry :=
  if h.failed.isSome then h else { h with failed := h.current, found := [] }

def trackRetry (h : Retry) : Note → Retry
  | .scanned scans => { h with scans, found := syncedPairs scans }
  | .chosen pair => { h with
      current := some pair, failed := none, choices := h.choices ++ [⟨h.failed, h.found, pair⟩] }
  | .iterated pair => { h with current := pair, failed := none }
  | .started result => if result = .authFail then h.fail else h
  | .abnormal => h.fail

def Retry.start : Retry := ⟨none, none, [], [], []⟩

/-- The pair that has failed is chosen only if no other has been found. -/
def Choice.Avoids (c : Choice) : Prop := c.failed = some c.chosen → ∀ pair ∈ c.found, pair = c.chosen

/-- What a result makes of the pairs found before it, with their levels: if it is synchronised, the pair
of its scan's first result stands in its old place or behind the first stronger one, or else at the
end; otherwise it is taken out. -/
def enter (pairs : List (Pair × ℤ)) (v : Visit) : List (Pair × ℤ) :=
  let pair := (resultPair v.first, v.first.rssi.toInt)
  if v.result.isSynced = 1 then
    if pair.1 ∈ pairs.map Prod.fst then replaceFirst Prod.fst pair pairs
    else insertBehind Prod.snd pair pairs
  else removeFirst Prod.fst pair.1 pairs

/-- The pair that the results of some scans put first. -/
def firstPair (scans : List ScanOutcome) : Option Pair :=
  ((visits scans).foldl enter []).head?.map Prod.fst

/-- When a synchronisation is handled, the results of the last scan do not put the pair first that has
failed, or no other pair has been found since. -/
def ScansAvoid (s : App × Retry) : Event → Prop
  | .arrive _ => True
  | .handle _ => s.1.gwMq.head? = some .syncToAp → ∀ pair ∈ firstPair s.2.scans,
      s.2.failed = some pair → ∀ other ∈ s.2.found, other = pair

/-- Nothing in the list says that a candidate has failed. -/
def AllFresh (g : SyncInfo) : Prop := ∀ n ∈ g.freqInfoList, n.state = .syncToAp

/-- The list holds what the last scan has brought, and nothing in it says that a candidate has failed. -/
structure ListsScans (s : App × Retry) : Prop where
  fresh : AllFresh s.1.syncInfo
  pairs : s.1.syncInfo.freqInfoList.map (fun n => (n.pair, n.level)) =
    (visits s.2.scans).foldl enter []

section Lists

variable {g : SyncInfo}

/-- A turn does to the list what its result does to the pairs. -/
theorem visit_pairs (g : SyncInfo) (v : Visit) :
    (visit g v).freqInfoList.map (fun n => (n.pair, n.level)) =
      enter (g.freqInfoList.map fun n => (n.pair, n.level)) v := by
  have hmem : (gatewayFindFreqInfoNode g (resultPair v.first)).isSome = true ↔
      resultPair v.first ∈ (g.freqInfoList.map fun n => (n.pair, n.level)).map Prod.fst := by
    rw [findNode_isSome_iff, List.map_map, List.map_map]
    rfl
  rw [visit, enter]
  split
  · rw [gatewayAddToSyncInfo]
    dsimp only
    split
    · next hold =>
      rw [if_pos (hmem.mp hold)]
      exact map_replaceFirst_comm _ Prod.fst fun _ => rfl
    · next hnew =>
      rw [if_neg fun h => hnew (hmem.mpr h)]
      exact map_insertBehind_comm _ Prod.snd fun _ => rfl
  · exact map_removeFirst_comm _ Prod.fst (fun _ => rfl) _

theorem visits_pairs (g : SyncInfo) (vs : List Visit) :
    (vs.foldl visit g).freqInfoList.map (fun n => (n.pair, n.level)) =
      vs.foldl enter (g.freqInfoList.map fun n => (n.pair, n.level)) := by
  induction vs generalizing g with
  | nil => rfl
  | cons v vs ih => rw [List.foldl_cons, List.foldl_cons, ih, visit_pairs]

/-- While nothing is remembered of the last candidate, what is entered is as good as new. -/
theorem visit_fresh (hg : AllFresh g) (hlast : g.lastFreqInfo.state = .syncToAp) (v : Visit) :
    AllFresh (visit g v) ∧ (visit g v).lastFreqInfo = g.lastFreqInfo := by
  have hnew : (newNode g v.first).state = .syncToAp := by
    rw [newNode]
    dsimp only
    split
    · exact hlast
    · rfl
  rw [visit]
  split
  · refine ⟨fun n hn => ?_, rfl⟩
    rw [gatewayAddToSyncInfo] at hn
    dsimp only at hn
    split at hn
    · rcases mem_replaceFirst hn with rfl | hn
      · exact hnew
      · exact hg n hn
    · rcases List.mem_cons.mp (insertBehind_perm.mem_iff.mpr hn) with rfl | hn
      · exact hnew
      · exact hg n hn
  · exact ⟨fun n hn => hg n (removeFirst_sublist.mem hn), rfl⟩

theorem visits_fresh (hg : AllFresh g) (hlast : g.lastFreqInfo.state = .syncToAp) (vs : List Visit) :
    AllFresh (vs.foldl visit g) := by
  induction vs generalizing g with
  | nil => exact hg
  | cons v vs ih =>
    obtain ⟨hg', hlast'⟩ := visit_fresh hg hlast v
    exact ih hg' (hlast'.symm ▸ hlast)

/-- The scan starts from a list that has been cleared together with the last candidate. -/
theorem scanFreq_fresh {scans : List ScanOutcome} {g : SyncInfo}
    (h : gatewayScanFreq scans gatewayClearFreqInfoList = some g) : AllFresh g := by
  rw [gatewayScanFreq_eq_some h]
  exact visits_fresh (fun n hn => absurd hn List.not_mem_nil) rfl _

/-- So the first candidate is chosen. -/
theorem chooseOne_fresh (hg : AllFresh g) :
    (gatewayChooseOneFreqInfo g).1 = g.freqInfoList.head? := by
  have hfirst : firstIn .syncToAp g = g.freqInfoList.head? := by
    rw [firstIn]
    cases hlist : g.freqInfoList with
    | nil => rfl
    | cons n rest =>
      have hn : n.state = .syncToAp := hg n (hlist ▸ List.mem_cons_self)
      rw [List.find?_cons, decide_eq_true hn]
      rfl
  cases hlist : g.freqInfoList with
  | nil => exact (chooseOne_eq_none_iff g).mpr hlist
  | cons n rest =>
    rw [gatewayChooseOneFreqInfo, hfirst, hlist]
    rfl

end Lists

section Steps

variable {a : Answers} {app : App} {h : Retry}

theorem modeEntry_list (result : StartResult) :
    (gatewayModeEntry result app).1.syncInfo.freqInfoList = app.syncInfo.freqInfoList := by
  cases result <;> rfl

theorem handleSync_list : (gatewayHandleSyncToApMsg a app).2.1.syncInfo.freqInfoList =
    app.syncInfo.freqInfoList := by
  rw [gatewayHandleSyncToApMsg]
  dsimp only
  split
  · rfl
  · rfl

theorem fail_scans : h.fail.scans = h.scans := by
  rw [Retry.fail]
  split
  · rfl
  · rfl

theorem modeEntry_scans (result : StartResult) :
    ((gatewayModeEntry result app).2.foldl trackRetry h).scans = h.scans := by
  cases result with
  | authFail => exact fail_scans
  | ok | noConnect | noKey | createQueueFail | createMisstimerFail | createTaskFail | otherFail => rfl

theorem handleSync_scans :
    ((gatewayHandleSyncToApMsg a app).2.2.foldl trackRetry h).scans = h.scans := by
  rw [gatewayHandleSyncToApMsg]
  dsimp only
  split
  · rfl
  · rfl

/-- The pairs of a list are those that the scans bring, and it is no other for what else is noted. -/
theorem ListsScans.congr {s t : App × Retry} (hg : ListsScans s)
    (hlist : t.1.syncInfo.freqInfoList = s.1.syncInfo.freqInfoList) (hscans : t.2.scans = s.2.scans) :
    ListsScans t := by
  refine ⟨?_, ?_⟩
  · rw [AllFresh, hlist]
    exact hg.fresh
  · rw [hlist, hscans]
    exact hg.pairs

/-- A scan makes its list from nothing, and no other message changes it. -/
theorem handleMsg_listsScans {msg : Msg} {done : App × List Note} (hg : ListsScans (app, h))
    (hd : handleMsg a app msg = some done) : ListsScans (done.1, done.2.foldl trackRetry h) := by
  cases msg with
  | scanFreq =>
    rw [handleMsg, gatewayHandleScanFreqMsg] at hd
    obtain ⟨g, hscan, rfl⟩ := Option.map_eq_some_iff.mp hd
    refine ⟨scanFreq_fresh hscan, ?_⟩
    rw [gatewayScanFreq_eq_some hscan]
    exact visits_pairs gatewayClearFreqInfoList _
  | syncToAp =>
    rw [handleMsg] at hd
    dsimp only at hd
    split at hd
    · cases hd
      refine hg.congr ((modeEntry_list _).trans handleSync_list) ?_
      rw [List.foldl_append]
      exact (modeEntry_scans _).trans handleSync_scans
    · cases hd
      exact hg.congr handleSync_list handleSync_scans
  | recvData | sendData =>
    cases hd
    exact hg
  | gwAbnormal =>
    cases hd
    exact hg.congr rfl fail_scans

theorem step_listsScans {s t : App × Retry} {e : Event} (hg : ListsScans s)
    (hs : watchedStep trackRetry s e = .next t) : ListsScans t := by
  rcases watchedStep_next hs with ⟨arrival, rfl, rfl⟩ | ⟨a, rfl, hq, rfl⟩ |
    ⟨a, msg, rest, done, rfl, hq, hd, rfl⟩
  · exact hg.congr rfl rfl
  · exact hg
  · have hrest : ListsScans (({ s.1 with gwMq := rest } : App), s.2) := hg.congr rfl rfl
    exact handleMsg_listsScans hrest hd

theorem fail_choices : h.fail.choices = h.choices := by
  rw [Retry.fail]
  split
  · rfl
  · rfl

theorem modeEntry_choices (result : StartResult) :
    ((gatewayModeEntry result app).2.foldl trackRetry h).choices = h.choices := by
  cases result with
  | authFail => exact fail_choices
  | ok | noConnect | noKey | createQueueFail | createMisstimerFail | createTaskFail | otherFail => rfl

/-- What a synchronisation adds to the choices. -/
theorem handleSync_choices (hg : AllFresh app.syncInfo) :
    ((gatewayHandleSyncToApMsg a app).2.2.foldl trackRetry h).choices =
      h.choices ++ (app.syncInfo.freqInfoList.head?.map fun n =>
        (⟨h.failed, h.found, n.pair⟩ : Choice)).toList := by
  rw [gatewayHandleSyncToApMsg]
  dsimp only
  rw [chooseOne_fresh hg]
  cases app.syncInfo.freqInfoList.head? with
  | none => exact (List.append_nil _).symm
  | some n => rfl

/-- The choices that a message adds. -/
theorem handleMsg_choices {msg : Msg} {done : App × List Note} (hg : AllFresh app.syncInfo)
    (hd : handleMsg a app msg = some done) :
    (done.2.foldl trackRetry h).choices = h.choices ++
      (if msg = .syncToAp then (app.syncInfo.freqInfoList.head?.map fun n =>
        (⟨h.failed, h.found, n.pair⟩ : Choice)).toList else []) := by
  cases msg with
  | scanFreq =>
    rw [handleMsg, gatewayHandleScanFreqMsg] at hd
    obtain ⟨g, hscan, rfl⟩ := Option.map_eq_some_iff.mp hd
    exact (List.append_nil _).symm
  | syncToAp =>
    rw [handleMsg] at hd
    dsimp only at hd
    rw [if_pos rfl, ← handleSync_choices hg]
    split at hd
    · cases hd
      rw [List.foldl_append, modeEntry_choices]
    · cases hd
      rfl
  | recvData | sendData =>
    cases hd
    exact (List.append_nil _).symm
  | gwAbnormal =>
    cases hd
    exact fail_choices.trans (List.append_nil _).symm

/-- A choice adds to the others one that is right exactly if the scans avoid what has failed. -/
theorem step_avoids_iff {s t : App × Retry} {e : Event} (hg : ListsScans s)
    (ha : ∀ c ∈ s.2.choices, c.Avoids) (hs : watchedStep trackRetry s e = .next t) :
    (∀ c ∈ t.2.choices, c.Avoids) ↔ ScansAvoid s e := by
  rcases watchedStep_next hs with ⟨arrival, rfl, rfl⟩ | ⟨a, rfl, hq, rfl⟩ |
    ⟨a, msg, rest, done, rfl, hq, hd, rfl⟩
  · exact iff_of_true ha trivial
  · refine iff_of_true ha fun hhead => ?_
    rw [hq] at hhead
    cases hhead
  · have hrest : AllFresh ({ s.1 with gwMq := rest } : App).syncInfo := hg.fresh
    have hfirst : firstPair s.2.scans = s.1.syncInfo.freqInfoList.head?.map FreqInfo.pair := by
      rw [firstPair, ← hg.pairs, List.head?_map, Option.map_map]
      rfl
    rw [handleMsg_choices hrest hd, ScansAvoid, hq, List.head?_cons, Option.some.injEq,
      List.forall_mem_append, and_iff_right ha, hfirst]
    by_cases hmsg : msg = .syncToAp
    · rw [if_pos hmsg, forall_prop_of_true hmsg]
      cases s.1.syncInfo.freqInfoList.head? with
      | none => simp
      | some n => simp [Choice.Avoids]
    · rw [if_neg hmsg]
      exact iff_of_true (fun c hc => absurd hc List.not_mem_nil) fun h => absurd h hmsg

theorem halt_scansAvoid {s t : App × Retry} {e : Event} {r : Hang}
    (hs : watchedStep trackRetry s e = .halt r t) : ScansAvoid s e := by
  have hscan := watchedStep_halt hs
  cases e with
  | arrive arrival => trivial
  | handle a =>
    intro hsync
    cases hscan.symm.trans hsync

end Steps

/-- In every state of a run all choices so far avoid what has failed exactly if, whenever a
synchronisation is handled, the results of the last scan put another pair first than the one that has
failed, or no other pair has been found since. -/
theorem avoids_iff_scansAvoid (early : List Arrival) (config : Pair) (es : List Event) :
    (∀ pre, pre <+: es → ∀ s, run (watchedStep trackRetry) (.start early config, .start) pre = .next s →
      ∀ c ∈ s.2.choices, c.Avoids) ↔
      Meets (watchedStep trackRetry) ScansAvoid (.start early config, .start) es := by
  have hlists : ListsScans (App.start early config, Retry.start) :=
    ⟨fun n hn => absurd hn List.not_mem_nil, rfl⟩
  have hnone : ∀ c ∈ Retry.start.choices, c.Avoids := fun c hc => absurd hc List.not_mem_nil
  refine forall_prefix_iff_meets ListsScans (fun s => ∀ c ∈ s.2.choices, c.Avoids)
    (fun s e t hg hs => step_listsScans hg hs) (fun s e t hg ha hs => step_avoids_iff hg ha hs)
    (fun s e r t _ _ hs => halt_scansAvoid hs) hlists ?_ es
  exact hnone

private def twoGateways (start : StartResult) : Answers where
  freqList := [1, 2]
  subsystemidList := [5, 6]
  scans i := some [if i = 0 then ⟨1, 10, 60, 1, 5⟩ else ⟨2, 10, 50, 1, 6⟩]
  syncs _ := true
  start

/-- The gateway of the strongest candidate does not authenticate the device, and is tried again though
there is another. -/
theorem not_avoids : ¬∀ (es : List Event) (s : App × Retry),
    run (watchedStep trackRetry) (.start [] (5, 1), .start) es = .next s →
      ∀ c ∈ s.2.choices, c.Avoids := by
  intro h
  have hagain := h (List.replicate 4 (.handle (twoGateways .authFail))) _ rfl
    ⟨some (5, 1), [(5, 1), (6, 2)], (5, 1)⟩ (by decide)
  exact absurd (hagain rfl (6, 2) (by decide)) (by decide)

end WiotaDev.GatewayApp
