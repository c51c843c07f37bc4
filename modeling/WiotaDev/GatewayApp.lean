import WiotaDev.CandidateList
import WiotaDev.GatewayLifecycle
import WiotaDev.HaltingRuns

/-! # The task of the gateway app

`gateway_app_task_entry` handles one message after the other. It goes on by messages that it sends to
itself: a scan leads to a synchronisation, and what fails leads to the next scan. -/

namespace WiotaDev.GatewayApp
open HaltingRuns KeyedLists WordBytes
open AutoManager (FreqScanResult)
open GatewayLifecycle (StartResult)

/-- The messages of `gw_msg_type_e` that are sent. -/
inductive Msg where
  | scanFreq | syncToAp | recvData | sendData | gwAbnormal
deriving DecidableEq

/-- `g_sync_info`, `g_gw_mq`, and the subsystem and the frequency that the stack is set to. -/
structure App where
  syncInfo : SyncInfo
  gwMq : List Msg
  config : Pair
deriving DecidableEq

/-- What a handler meets: the lists that the stack has stored, the outcome of each scan and of each
synchronisation, and the result of `uc_wiota_gateway_start`. -/
structure Answers where
  freqList : List Byte
  subsystemidList : List (BitVec 32)
  scans : ℕ → ScanOutcome
  syncs : ℕ → Bool
  start : StartResult

/-- What the app does that can be observed. -/
inductive Note where
  | scanned (scans : List ScanOutcome)
  | chosen (pair : Pair)
  | iterated (pair : Option Pair)
  | started (result : StartResult)
  | abnormal

/-- `gateway_get_freq_list`. An entry that is no frequency is not counted and leaves its place zero. -/
def gatewayGetFreqList (stored : List Byte) : List Byte :=
  let temp := (stored.take 16).takeWhile (· ≠ 0xFF)
  let freqNum := temp.countP fun f => f.toNat ≤ 200
  if freqNum = 0 then [160] else (temp.map fun f => if f.toNat ≤ 200 then f else 0).take freqNum

/-- `gateway_get_subsystemid_list`. -/
def gatewayGetSubsystemidList (stored : List (BitVec 32)) : List (BitVec 32) :=
  let ids := (stored.take 8).takeWhile fun id => id ≠ 0 ∧ id ≠ BitVec.allOnes 32
  if ids = [] then [0x21456981] else ids

/-- The outcomes of the scans for the subsystems. -/
def subsystemScans (a : Answers) : List ScanOutcome :=
  (List.range (gatewayGetSubsystemidList a.subsystemidList).length).map a.scans

/-- `gateway_handle_scan_freq_msg`, if its scan returns. -/
def gatewayHandleScanFreqMsg (a : Answers) (app : App) : Option (App × List Note) :=
  (gatewayScanFreq (subsystemScans a) gatewayClearFreqInfoList).map fun syncInfo =>
    ({ app with syncInfo, gwMq := app.gwMq ++ [.syncToAp] }, [.scanned (subsystemScans a)])

/-- The first node in a state. -/
def firstIn (state : FreqState) (g : SyncInfo) : Option FreqInfo :=
  g.freqInfoList.find? fun n => n.state = state

/-- `gateway_choose_one_freq_info`, which notes down what it returns. -/
def gatewayChooseOneFreqInfo (g : SyncInfo) : Option FreqInfo × SyncInfo :=
  let freqInfo := (firstIn .syncToAp g).or ((firstIn .gwAbnormal g).or (firstIn .authFail g))
  (freqInfo, { g with lastFreqInfo := freqInfo.getD g.lastFreqInfo })

/-- The pairs that are tried one after the other where there is no candidate: the first that can be
synchronised with, or else the last. -/
def iterateThrough (syncs : ℕ → Bool) : ℕ → Pair → List Pair → Bool × Pair
  | _, config, [] => (false, config)
  | k, _, pair :: pairs => if syncs k then (true, pair) else iterateThrough syncs (k + 1) pair pairs

/-- The pairs of a subsystem and a frequency that the stack has stored. -/
def storedPairs (a : Answers) : List Pair :=
  (gatewayGetSubsystemidList a.subsystemidList).flatMap fun id =>
    (gatewayGetFreqList a.freqList).map fun freq => (id, freq)

/-- `gateway_handle_sync_to_ap_msg`: whether it synchronises, and what it leaves. -/
def gatewayHandleSyncToApMsg (a : Answers) (app : App) : Bool × App × List Note :=
  let chosen := gatewayChooseOneFreqInfo app.syncInfo
  match chosen.1 with
  | some freqInfo =>
    (a.syncs 0, { app with syncInfo := chosen.2, config := freqInfo.pair }, [.chosen freqInfo.pair])
  | none =>
    let tried := iterateThrough a.syncs 0 app.config (storedPairs a)
    (tried.1, { app with syncInfo := chosen.2, config := tried.2 },
      [.iterated (if tried.1 then some tried.2 else none)])

/-- A failure in the state of `last_freq_info`, and the message for the next scan. -/
def App.rescan (app : App) (state : FreqState) : App :=
  { app with
    syncInfo := { app.syncInfo with lastFreqInfo := { app.syncInfo.lastFreqInfo with state } }
    gwMq := app.gwMq ++ [.scanFreq] }

/-- `gateway_mode_entry`. -/
def gatewayModeEntry (result : StartResult) (app : App) : App × List Note :=
  match result with
  | .authFail => (app.rescan .authFail, [.started result])
  | .ok | .noConnect | .noKey | .createQueueFail | .createMisstimerFail | .createTaskFail
  | .otherFail => (app, [.started result])

/-- Handles a message that has been taken from the queue, if that ever ends. -/
def handleMsg (a : Answers) (app : App) : Msg → Option (App × List Note)
  | .scanFreq => gatewayHandleScanFreqMsg a app
  | .syncToAp =>
    let handled := gatewayHandleSyncToApMsg a app
    if handled.1 then
      let entered := gatewayModeEntry a.start handled.2.1
      some (entered.1, handled.2.2 ++ entered.2)
    else some ({ handled.2.1 with gwMq := handled.2.1.gwMq ++ [.scanFreq] }, handled.2.2)
  | .recvData | .sendData => some (app, [])
  | .gwAbnormal => some (app.rescan .gwAbnormal, [.abnormal])

/-- The messages that come from other threads. -/
inductive Arrival where
  | recvData | sendData | gwAbnormal
deriving DecidableEq

def Arrival.msg : Arrival → Msg
  | .recvData => .recvData
  | .sendData => .sendData
  | .gwAbnormal => .gwAbnormal

inductive Event where
  | arrive (arrival : Arrival)
  | handle (a : Answers)

/-- The inner loop of a scan goes on for ever. -/
inductive Hang where
  | scan

/-- A message arrives, or the task handles the next one; it waits while there is none. -/
def appStep (app : App) : Event → Outcome Hang (App × List Note)
  | .arrive arrival => .next ({ app with gwMq := app.gwMq ++ [arrival.msg] }, [])
  | .handle a =>
    match app.gwMq with
    | [] => .next (app, [])
    | msg :: rest =>
      match handleMsg a { app with gwMq := rest } msg with
      | some done => .next done
      | none => .halt .scan (app, [])

/-- The app when its task begins its loop; `early` has been sent before. -/
def App.start (early : List Arrival) (config : Pair) : App :=
  ⟨gatewayClearFreqInfoList, early.map Arrival.msg ++ [.scanFreq], config⟩

/-- The app together with something that keeps track of what it does. -/
def watchedStep {τ : Type*} (track : τ → Note → τ) (s : App × τ) (e : Event) : Outcome Hang (App × τ) :=
  (appStep s.1 e).map fun done => (done.1, done.2.foldl track s.2)

/-- The synchronisation with the candidate succeeds, or with some pair where there is no candidate. -/
def Syncs (a : Answers) (app : App) : Prop :=
  if app.syncInfo.freqInfoList = [] then ∃ k < (storedPairs a).length, a.syncs k = true
  else a.syncs 0 = true

section Handlers

variable {a : Answers} {app : App}

theorem chooseOne_eq_none_iff (g : SyncInfo) :
    (gatewayChooseOneFreqInfo g).1 = none ↔ g.freqInfoList = [] := by
  rw [gatewayChooseOneFreqInfo, Option.or_eq_none_iff, Option.or_eq_none_iff, firstIn, firstIn, firstIn,
    List.find?_eq_none, List.find?_eq_none, List.find?_eq_none]
  constructor
  · rintro ⟨h1, h2, h3⟩
    refine List.eq_nil_iff_forall_not_mem.mpr fun n hn => ?_
    cases hstate : n.state with
    | syncToAp => exact h1 n hn (decide_eq_true hstate)
    | gwAbnormal => exact h2 n hn (decide_eq_true hstate)
    | authFail => exact h3 n hn (decide_eq_true hstate)
  · intro hnil
    have hempty : ∀ state, ∀ n ∈ g.freqInfoList, ¬decide (n.state = state) = true := by
      rw [hnil]
      exact fun state n hn => absurd hn List.not_mem_nil
    exact ⟨hempty _, hempty _, hempty _⟩

theorem iterateThrough_iff (syncs : ℕ → Bool) (pairs : List Pair) (k : ℕ) (config : Pair) :
    (iterateThrough syncs k config pairs).1 = true ↔ ∃ j < pairs.length, syncs (k + j) = true := by
  induction pairs generalizing k config with
  | nil =>
    refine iff_of_false Bool.false_ne_true ?_
    rintro ⟨j, hj, -⟩
    exact Nat.not_lt_zero j hj
  | cons pair pairs ih =>
    rw [iterateThrough]
    split
    · rename_i hsync
      exact iff_of_true rfl ⟨0, Nat.succ_pos _, hsync⟩
    · rename_i hnot
      rw [ih]
      constructor
      · rintro ⟨j, hj, hsync⟩
        refine ⟨j + 1, Nat.succ_lt_succ hj, ?_⟩
        rwa [← Nat.add_assoc, Nat.add_right_comm]
      · rintro ⟨j, hj, hsync⟩
        cases j with
        | zero => exact absurd hsync hnot
        | succ j =>
          refine ⟨j, Nat.lt_of_succ_lt_succ hj, ?_⟩
          rwa [← Nat.add_assoc, Nat.add_right_comm] at hsync

/-- What a synchronisation returns. -/
theorem handleSync_iff : (gatewayHandleSyncToApMsg a app).1 = true ↔ Syncs a app := by
  have hnone := chooseOne_eq_none_iff app.syncInfo
  rw [gatewayHandleSyncToApMsg, Syncs]
  dsimp only
  split
  · rename_i hchosen
    rw [hchosen] at hnone
    rw [if_neg fun hnil => by cases hnone.mpr hnil]
  · rename_i hchosen
    rw [if_pos (hnone.mp hchosen)]
    exact (iterateThrough_iff _ _ _ _).trans (by simp only [Nat.zero_add])

/-- A synchronisation leaves the queue as it is. -/
theorem handleSync_gwMq : (gatewayHandleSyncToApMsg a app).2.1.gwMq = app.gwMq := by
  rw [gatewayHandleSyncToApMsg]
  dsimp only
  split
  · rfl
  · rfl

/-- Only a scan may never end. -/
theorem handleMsg_eq_none {msg : Msg} (h : handleMsg a app msg = none) : msg = .scanFreq := by
  cases msg with
  | scanFreq => rfl
  | syncToAp =>
    rw [handleMsg] at h
    dsimp only at h
    split at h
    · cases h
    · cases h
  | recvData | sendData | gwAbnormal => cases h

/-- The handling of a message ends unless it is a scan with more than 255 results. -/
theorem handleMsg_isSome_iff {msg : Msg} : (handleMsg a app msg).isSome = true ↔
    (msg = .scanFreq → ∀ results, some results ∈ subsystemScans a → results.length ≤ 255) := by
  by_cases hmsg : msg = .scanFreq
  · subst hmsg
    rw [forall_prop_of_true rfl, ← gatewayScanFreq_eq_some_iff _ gatewayClearFreqInfoList, handleMsg,
      gatewayHandleScanFreqMsg, Option.isSome_map, Option.isSome_iff_exists]
    constructor
    · rintro ⟨g, hg⟩
      rw [hg, gatewayScanFreq_eq_some hg]
    · exact fun h => ⟨_, h⟩
  · refine iff_of_true (Option.isSome_iff_ne_none.mpr fun hnone => ?_) fun h => absurd h hmsg
    exact hmsg (handleMsg_eq_none hnone)

theorem watchedStep_halt {τ : Type*} {track : τ → Note → τ} {s t : App × τ} {e : Event} {r : Hang}
    (h : watchedStep track s e = .halt r t) : s.1.gwMq.head? = some .scanFreq := by
  cases e with
  | arrive arrival => cases h
  | handle a =>
    rw [watchedStep, appStep] at h
    cases hq : s.1.gwMq with
    | nil =>
      rw [hq] at h
      cases h
    | cons msg rest =>
      rw [hq] at h
      dsimp only at h
      cases hd : handleMsg a { s.1 with gwMq := rest } msg with
      | none => rw [handleMsg_eq_none hd, List.head?_cons]
      | some done =>
        rw [hd] at h
        cases h

/-- A step that goes on is an arrival, a wait or the handling of the next message. -/
theorem watchedStep_next {τ : Type*} {track : τ → Note → τ} {s t : App × τ} {e : Event}
    (h : watchedStep track s e = .next t) :
    (∃ arrival, e = .arrive arrival ∧
      t = ({ s.1 with gwMq := s.1.gwMq ++ [Arrival.msg arrival] }, s.2)) ∨
    (∃ a, e = .handle a ∧ s.1.gwMq = [] ∧ t = s) ∨
    ∃ a msg rest done, e = .handle a ∧ s.1.gwMq = msg :: rest ∧
      handleMsg a { s.1 with gwMq := rest } msg = some done ∧ t = (done.1, done.2.foldl track s.2) := by
  cases e with
  | arrive arrival =>
    cases h
    exact .inl ⟨arrival, rfl, rfl⟩
  | handle a =>
    rw [watchedStep, appStep] at h
    cases hq : s.1.gwMq with
    | nil =>
      rw [hq] at h
      cases h
      exact .inr (.inl ⟨a, rfl, rfl, rfl⟩)
    | cons msg rest =>
      rw [hq] at h
      dsimp only at h
      cases hd : handleMsg a { s.1 with gwMq := rest } msg with
      | none =>
        rw [hd] at h
        cases h
      | some done =>
        rw [hd] at h
        cases h
        exact .inr (.inr ⟨a, msg, rest, done, rfl, rfl, hd, rfl⟩)

end Handlers

end WiotaDev.GatewayApp
