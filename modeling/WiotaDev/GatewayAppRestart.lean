import WiotaDev.GatewayApp

/-! # Restarts of the gateway app

Where the gateway does not run, a message for the next scan or synchronisation keeps the app going. -/

namespace WiotaDev.GatewayApp
open HaltingRuns
open GatewayLifecycle (StartResult)

/-- The gateway runs: the last start returned `UC_GATEWAY_OK`, and nothing abnormal has been handled
since. -/
def trackRunning (running : Bool) : Note → Bool
  | .started result => result = .ok
  | .abnormal => false
  | .scanned _ | .chosen _ | .iterated _ => running

/-- A message that keeps the app going. -/
def Pending (gwMq : List Msg) : Prop := .scanFreq ∈ gwMq ∨ .syncToAp ∈ gwMq

/-- The task waits on an empty queue only while the gateway runs, and in every other situation there is
a message for a scan or a synchronisation. -/
structure Alive (s : App × Bool) : Prop where
  waits : s.1.gwMq = [] → s.2 = true
  goesOn : s.2 = false → Pending s.1.gwMq

/-- The task is alive, and not caught in a scan. -/
def StaysAlive : Outcome Hang (App × Bool) → Prop
  | .next s => Alive s
  | .halt _ _ => False

/-- A start that follows a synchronisation returns `UC_GATEWAY_OK` or `UC_GATEWAY_AUTH_FAIL`, or there
is another message for a scan or a synchronisation in the queue. -/
def StartsOrGoesOn (s : App × Bool) (a : Answers) : Prop :=
  s.1.gwMq.head? = some .syncToAp → Syncs a s.1 →
    a.start = .ok ∨ a.start = .authFail ∨ Pending s.1.gwMq.tail

/-- A scan has no more than 255 results for each subsystem. -/
def ScanEnds (s : App × Bool) (a : Answers) : Prop :=
  s.1.gwMq.head? = some .scanFreq → ∀ results, some results ∈ subsystemScans a → results.length ≤ 255

/-- A message that is handled keeps the app going. -/
def KeepsGoing (s : App × Bool) : Event → Prop
  | .arrive _ => True
  | .handle a => StartsOrGoesOn s a ∧ ScanEnds s a

theorem alive_iff {s : App × Bool} : Alive s ↔ (s.2 = false → Pending s.1.gwMq) := by
  refine ⟨Alive.goesOn, fun h => ⟨fun hnil => ?_, h⟩⟩
  cases hrun : s.2 with
  | true => rfl
  | false =>
    have hpending := h hrun
    rw [hnil] at hpending
    rcases hpending with hmem | hmem
    · cases hmem
    · cases hmem

theorem pending_snoc_scanFreq (gwMq : List Msg) : Pending (gwMq ++ [.scanFreq]) :=
  .inl (List.mem_append_right _ List.mem_cons_self)

theorem pending_snoc_syncToAp (gwMq : List Msg) : Pending (gwMq ++ [.syncToAp]) :=
  .inr (List.mem_append_right _ List.mem_cons_self)

theorem Pending.snoc {gwMq : List Msg} (h : Pending gwMq) (msg : Msg) : Pending (gwMq ++ [msg]) :=
  h.imp (List.mem_append_left _) (List.mem_append_left _)

/-- A message that does not keep the app going is not missed. -/
theorem Pending.tail {msg : Msg} {rest : List Msg} (h : Pending (msg :: rest))
    (hscan : msg ≠ .scanFreq) (hsync : msg ≠ .syncToAp) : Pending rest :=
  h.imp (fun hm => (List.mem_cons.mp hm).resolve_left hscan.symm)
    fun hm => (List.mem_cons.mp hm).resolve_left hsync.symm

section Steps

variable {a : Answers} {app : App} {running : Bool} {rest : List Msg}

/-- What a start leaves to go on with. -/
theorem modeEntry_goesOn_iff (result : StartResult) :
    ((gatewayModeEntry result app).2.foldl trackRunning running = false →
      Pending (gatewayModeEntry result app).1.gwMq) ↔
      (result = .ok ∨ result = .authFail ∨ Pending app.gwMq) := by
  cases result with
  | ok => exact iff_of_true (fun h => by cases h) (.inl rfl)
  | authFail => exact iff_of_true (fun _ => pending_snoc_scanFreq _) (.inr (.inl rfl))
  | noConnect | noKey | createQueueFail | createMisstimerFail | createTaskFail | otherFail =>
    refine ⟨fun h => .inr (.inr (h rfl)), fun h _ => ?_⟩
    rcases h with h | h | h
    · cases h
    · cases h
    · exact h

theorem scanFreqMsg_gwMq {done : App × List Note}
    (hd : gatewayHandleScanFreqMsg a app = some done) : done.1.gwMq = app.gwMq ++ [.syncToAp] := by
  rw [gatewayHandleScanFreqMsg] at hd
  obtain ⟨syncInfo, -, rfl⟩ := Option.map_eq_some_iff.mp hd
  rfl

/-- What is left to go on with after a message. -/
theorem handleMsg_goesOn_iff {msg : Msg} {done : App × List Note}
    (h : running = false → Pending (msg :: rest))
    (hd : handleMsg a { app with gwMq := rest } msg = some done) :
    (done.2.foldl trackRunning running = false → Pending done.1.gwMq) ↔
      (msg = .syncToAp → Syncs a app → a.start = .ok ∨ a.start = .authFail ∨ Pending rest) := by
  cases msg with
  | scanFreq =>
    refine iff_of_true (fun _ => ?_) (fun hmsg => by cases hmsg)
    rw [scanFreqMsg_gwMq hd]
    exact pending_snoc_syncToAp rest
  | syncToAp =>
    have hsyncs : (gatewayHandleSyncToApMsg a { app with gwMq := rest }).1 = true ↔ Syncs a app :=
      handleSync_iff
    have hgwMq : (gatewayHandleSyncToApMsg a { app with gwMq := rest }).2.1.gwMq = rest :=
      handleSync_gwMq
    rw [handleMsg] at hd
    dsimp only at hd
    split at hd
    · rename_i hsync
      cases hd
      rw [List.foldl_append, modeEntry_goesOn_iff, hgwMq]
      exact ⟨fun hstart _ _ => hstart, fun hstart => hstart rfl (hsyncs.mp hsync)⟩
    · rename_i hnot
      cases hd
      refine iff_of_true (fun _ => pending_snoc_scanFreq _) fun _ hsync => ?_
      exact absurd (hsyncs.mpr hsync) hnot
  | recvData | sendData =>
    cases hd
    refine iff_of_true (fun hrun => (h hrun).tail ?_ ?_) (fun hmsg => by cases hmsg)
    · exact fun hmsg => by cases hmsg
    · exact fun hmsg => by cases hmsg
  | gwAbnormal =>
    cases hd
    exact iff_of_true (fun _ => pending_snoc_scanFreq rest) (fun hmsg => by cases hmsg)

/-- A step keeps the app alive exactly if a start succeeds or something else goes on, and a scan
ends. -/
theorem step_alive_iff {s : App × Bool} (e : Event) (h : Alive s) :
    StaysAlive (watchedStep trackRunning s e) ↔ KeepsGoing s e := by
  cases e with
  | arrive arrival => exact iff_of_true (alive_iff.mpr fun hrun => (h.goesOn hrun).snoc _) trivial
  | handle a =>
    rw [watchedStep, appStep, KeepsGoing, StartsOrGoesOn, ScanEnds]
    cases hq : s.1.gwMq with
    | nil =>
      refine iff_of_true h ⟨fun hhead => ?_, fun hhead => ?_⟩
      · cases hhead
      · cases hhead
    | cons msg rest =>
      have hpending : s.2 = false → Pending (msg :: rest) := fun hrun => hq ▸ h.goesOn hrun
      have hends : (handleMsg a { s.1 with gwMq := rest } msg).isSome = true ↔ (msg = .scanFreq →
          ∀ results, some results ∈ subsystemScans a → results.length ≤ 255) := handleMsg_isSome_iff
      rw [List.head?_cons, List.tail_cons, Option.some.injEq, Option.some.injEq, ← hends]
      dsimp only
      cases hd : handleMsg a { s.1 with gwMq := rest } msg with
      | none => exact iff_of_false (fun h => h) fun h => absurd h.2 (by simp)
      | some done =>
        rw [and_iff_left Option.isSome_some]
        exact alive_iff.trans (handleMsg_goesOn_iff hpending hd)

end Steps

/-- A gateway is found and can be synchronised with, but there is no memory for a queue. -/
def withoutQueue : Event :=
  .handle ⟨[1], [5], fun _ => some [⟨1, 10, 60, 1, 5⟩], fun _ => true, .createQueueFail⟩

end WiotaDev.GatewayApp
