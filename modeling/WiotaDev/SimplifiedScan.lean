import WiotaDev.SimplifiedAt

/-! # Scans and their answers

A command for a scan is answered through `scan_sem`, `scan_result` and `is_scan_req`, which say
nothing of the scan they are about. What a sound module keeps ties them to the command. -/

namespace WiotaDev.SimplifiedAt
open HaltingRuns CountingSemaphore

/-- A phase of a command for a scan; all others are alike. -/
def AtPhase.asks : AtPhase → AtPhase
  | .requesting id => .requesting id
  | .taking id => .taking id
  | .suspended id => .suspended id
  | .judging id => .judging id
  | .idle | .testing | .sending _ | .entering _ | .leaving _ | .settingMode _ => .idle

/-- The scan that the task has not released the command for. -/
def TaskPhase.unanswered : TaskPhase → List ℕ
  | .scanning id | .releasing id => [id]
  | _ => []

/-- The scan that the task is about to release the command for. -/
def TaskPhase.completed : TaskPhase → Option ℕ
  | .releasing id => some id
  | _ => none

def Msg.scan : Msg → Option ℕ
  | .scanFreq id => some id
  | .connect => none

/-- The scans whose release is still to come, the oldest first. -/
def State.unanswered (s : State) : List ℕ := s.task.unanswered ++ s.wiotaMq.filterMap Msg.scan

/-- How commands, scans and what links them stand. -/
structure Scanning where
  sem : Semaphore Unit
  result : Bool
  requested : Bool
  asks : AtPhase
  unanswered : List ℕ
  released : Option ℕ
  busy : Bool
  completed : List (ℕ × Bool)
  replies : List Reply

namespace Scanning

variable {c : Scanning}

/-- What a command finds at each of its steps. -/
def Asks (c : Scanning) : AtPhase → Prop
  | .requesting _ => c.sem.waiting = [] ∧ c.sem.value = 0 ∧ c.unanswered = []
  | .taking id => c.sem.waiting = [] ∧
      (c.sem.value = 0 ∧ (c.unanswered = [id] ∨ c.unanswered = []) ∨
        c.sem.value = 1 ∧ c.unanswered = [] ∧ (id, c.result) ∈ c.completed)
  | .suspended id => c.sem.waiting = [()] ∧ (c.unanswered = [id] ∨ c.unanswered = [])
  | .judging id => c.sem.waiting = [] ∧ c.unanswered = [] ∧ (id, c.result) ∈ c.completed
  | _ => c.sem.waiting = []

/-- A release still to come is that of the command that waits, a reply of success is that of a
completed scan, and a request stands for a scan. -/
structure Sound (c : Scanning) : Prop where
  asks : c.Asks c.asks
  released : ∀ id ∈ c.released, (id, c.result) ∈ c.completed ∧ ∃ rest, c.unanswered = id :: rest
  requested : c.requested → c.busy ∨ c.unanswered ≠ [] ∨ ∃ id, c.asks = .requesting id
  replies : ∀ r ∈ c.replies, r.ok → (r.id, false) ∈ r.completed

/-- A command begins where no release is to come. -/
theorem Sound.begin (h : c.Sound) (hidle : c.asks = .idle) (hvalue : c.sem.value = 0)
    (hnone : c.unanswered = []) (id : ℕ) :
    Sound { c with requested := true, asks := .requesting id } := by
  have hwait : c.sem.waiting = [] := by
    have hasks := h.asks
    rwa [hidle] at hasks
  exact ⟨⟨hwait, hvalue, hnone⟩, h.released, fun _ => .inr (.inr ⟨id, rfl⟩), h.replies⟩

/-- The message for the scan is queued. -/
theorem Sound.send (h : c.Sound) {id : ℕ} (hasks : c.asks = .requesting id) :
    Sound { c with asks := .taking id, unanswered := c.unanswered ++ [id] } := by
  obtain ⟨hwait, hvalue, hnone⟩ : c.Asks (.requesting id) := hasks ▸ h.asks
  refine ⟨⟨hwait, .inl ⟨hvalue, .inl (by rw [hnone]; rfl)⟩⟩, fun k hk => ?_, fun _ => ?_, h.replies⟩
  · obtain ⟨hmem, rest, hrest⟩ := h.released k hk
    exact ⟨hmem, rest ++ [id], by rw [hrest]; rfl⟩
  · exact .inr (.inl (List.append_ne_nil_of_right_ne_nil _ (List.cons_ne_nil _ _)))

/-- The message for the scan is not queued while the task ends another one. -/
theorem Sound.drop (h : c.Sound) {id : ℕ} (hasks : c.asks = .requesting id) (hbusy : c.busy = true) :
    Sound { c with asks := .taking id } := by
  obtain ⟨hwait, hvalue, hnone⟩ : c.Asks (.requesting id) := hasks ▸ h.asks
  exact ⟨⟨hwait, .inl ⟨hvalue, .inr hnone⟩⟩, h.released, fun _ => .inl hbusy, h.replies⟩

/-- The command takes the semaphore, or begins to wait. -/
theorem Sound.take (h : c.Sound) {id : ℕ} (hasks : c.asks = .taking id) :
    Sound { c with
      sem := (c.sem.take () 0).2
      asks := if (c.sem.take () 0).1 then .judging id else .suspended id } := by
  obtain ⟨hwait, hcases⟩ : c.Asks (.taking id) := hasks ▸ h.asks
  have hkeep : ∀ phase : AtPhase, c.requested → c.busy ∨ c.unanswered ≠ [] ∨ ∃ id, phase = .requesting id :=
    fun phase hreq => (h.requested hreq).imp_right (.imp_right fun ⟨k, hk⟩ => by
      cases hasks.symm.trans hk)
  cases htake : (c.sem.take () 0).1 with
  | true =>
    obtain ⟨hvalue, hnil⟩ := Semaphore.take_granted htake
    rcases hcases with ⟨hzero, -⟩ | ⟨-, hnone, hmem⟩
    · omega
    · exact ⟨⟨hnil, hnone, hmem⟩, h.released, hkeep _, h.replies⟩
  | false =>
    obtain ⟨hzero, -, hperm⟩ := Semaphore.take_refused htake
    rcases hcases with ⟨-, hun⟩ | ⟨hone, -⟩
    · rw [hwait] at hperm
      exact ⟨⟨List.perm_singleton.mp hperm, hun⟩, h.released, hkeep _, h.replies⟩
    · omega

/-- A command replies. -/
theorem Sound.reply (h : c.Sound) {sem : Semaphore Unit} (hwait : sem.waiting = [])
    (hasks : ∀ id, c.asks ≠ .requesting id) {r : Reply} (hr : r.ok → (r.id, false) ∈ r.completed) :
    Sound { c with sem := sem, asks := .idle, replies := r :: c.replies } := by
  refine ⟨hwait, h.released, fun hreq => ?_, fun r' hr' => ?_⟩
  · exact (h.requested hreq).imp_right (.imp_right fun ⟨k, hk⟩ => absurd hk (hasks k))
  · rcases List.mem_cons.mp hr' with rfl | hr'
    · exact hr
    · exact h.replies r' hr'

/-- The task begins a scan. -/
theorem Sound.receive (h : c.Sound) : Sound { c with busy := true } :=
  ⟨h.asks, h.released, fun _ => .inl rfl, h.replies⟩

/-- The task has a result. -/
theorem Sound.complete (h : c.Sound) {id : ℕ} {rest : List ℕ} (hun : c.unanswered = id :: rest)
    (result : Bool) :
    Sound { c with
      result := result, completed := (id, result) :: c.completed, released := some id } := by
  have hne : c.unanswered ≠ [] := by simp [hun]
  refine ⟨?_, fun k hk => ?_, h.requested, h.replies⟩
  · have hasks := h.asks
    cases hphase : c.asks with
    | taking k =>
      rw [hphase] at hasks
      exact ⟨hasks.1, hasks.2.imp_right fun hone => absurd hone.2.1 hne⟩
    | judging k =>
      rw [hphase] at hasks
      exact absurd hasks.2.1 hne
    | _ =>
      rw [hphase] at hasks
      exact hasks
  · cases hk
    exact ⟨List.mem_cons_self, rest, hun⟩

/-- The task releases the command, if one waits. -/
theorem Sound.release (h : c.Sound) {id : ℕ} {rest : List ℕ} (hun : c.unanswered = id :: rest)
    (hreleased : c.released = some id) (hbusy : c.busy = true) :
    Sound { c with
      sem := (c.sem.release RT_SEM_VALUE_MAX).2
      asks := if (c.sem.release RT_SEM_VALUE_MAX).1.isSome then c.asks.resume else c.asks
      unanswered := rest, released := none } := by
  have hmem := (h.released id hreleased).1
  have hne : c.unanswered ≠ [] := by simp [hun]
  have hasks := h.asks
  refine ⟨?_, (fun k hk => by cases hk), fun _ => .inl hbusy, h.replies⟩
  cases hphase : c.asks with
  | requesting k =>
    rw [hphase] at hasks
    exact absurd hasks.2.2 hne
  | taking k =>
    rw [hphase] at hasks
    obtain ⟨hwait, hcases⟩ := hasks
    rw [hun] at hcases
    rcases hcases with ⟨hzero, heq | hnil⟩ | ⟨-, hnil, -⟩
    · obtain ⟨hnone, hvalue, hwait'⟩ := Semaphore.release_idle hwait
        (show c.sem.value < RT_SEM_VALUE_MAX by rw [hzero]; decide)
      rw [hnone]
      cases heq
      exact ⟨hwait', .inr ⟨by rw [hvalue, hzero], rfl, hmem⟩⟩
    · cases hnil
    · cases hnil
  | suspended k =>
    rw [hphase] at hasks
    obtain ⟨hwait, hcases⟩ := hasks
    rw [hun] at hcases
    obtain ⟨hsome, hnil⟩ := Semaphore.release_waiting hwait
    rw [hsome]
    rcases hcases with heq | hnil'
    · cases heq
      exact ⟨hnil, rfl, hmem⟩
    · cases hnil'
  | judging k =>
    rw [hphase] at hasks
    exact absurd hasks.2.1 hne
  | _ =>
    rw [hphase] at hasks
    obtain ⟨hnone, hwait⟩ := Semaphore.release_unused hasks
    rw [hnone]
    exact hwait

/-- The task clears the request. -/
theorem Sound.clear (h : c.Sound) : Sound { c with requested := false, busy := false } :=
  ⟨h.asks, h.released, (fun hreq => by cases hreq), h.replies⟩

end Scanning

/-- How commands, scans and what links them stand. -/
def State.scanning (s : State) : Scanning where
  sem := s.scanSem
  result := s.scanResult
  requested := s.isScanReq
  asks := s.atServer.asks
  unanswered := s.unanswered
  released := s.task.completed
  busy := s.task.scans
  completed := s.completed
  replies := s.replies

/-- A reply of success follows the completion of the command's own scan with result 0, and the
request bit stands for a scan that is queued, running or about to be queued. -/
structure OwnAnswers (s : State) : Prop where
  replies : ∀ r ∈ s.replies, r.ok → (r.id, false) ∈ r.completed
  request : s.isScanReq → s.ScanPending ∨ ∃ id, s.atServer = .requesting id

/-- The message for a scan is queued, or the task is ending another scan. -/
def RequestSafe (s : State) (ok : Bool) : AtPhase → Prop
  | .requesting _ => ok ∧ s.wiotaMq.length < WIOTA_MQ_MSG_QUEUE_SIZE ∨ s.task.scans
  | _ => True

/-- A command for a scan begins where `scan_sem` holds no token and every scan has been released, and
its message is queued. -/
def SpacedScans (s : State) : Event → Prop
  | .command .rssi => s.atServer = .idle → s.scanSem.value = 0 ∧ s.unanswered = []
  | .atServer ok => RequestSafe s ok s.atServer
  | _ => True

instance (s : State) (ok : Bool) : DecidablePred (RequestSafe s ok)
  | .requesting _ => inferInstanceAs (Decidable (_ ∧ _ ∨ _))
  | .idle | .testing | .sending _ | .taking _ | .suspended _ | .judging _ | .entering _ | .leaving _
  | .settingMode _ => inferInstanceAs (Decidable True)

instance (s : State) : DecidablePred (SpacedScans s)
  | .command .rssi => inferInstanceAs (Decidable (_ → _ = _ ∧ _ = _))
  | .atServer ok => inferInstanceAs (Decidable (RequestSafe s ok s.atServer))
  | .command (.freq _) | .command (.rate _) | .command (.gwInit _) | .scanTimeout | .syncLost
  | .callback _ | .task _ _ | .gatewayBreaks => inferInstanceAs (Decidable True)

theorem asks_requesting {phase : AtPhase} {id : ℕ} (h : phase.asks = .requesting id) :
    phase = .requesting id := by
  cases phase <;> simp_all [AtPhase.asks]

theorem Scanning.Sound.ownAnswers {s : State} (h : s.scanning.Sound) : OwnAnswers s where
  replies := h.replies
  request hreq := by
    rcases h.requested hreq with hbusy | hun | ⟨id, hid⟩
    · exact .inl (.inl hbusy)
    · refine .inl ?_
      rcases List.ne_nil_iff_exists_cons.mp hun with ⟨k, rest, hcons⟩
      have hmem : k ∈ s.unanswered := by
        have hcons' : s.unanswered = k :: rest := hcons
        simp [hcons']
      rcases List.mem_append.mp hmem with htask | hmq
      · refine .inl ?_
        cases hphase : s.task <;> simp_all [TaskPhase.unanswered, TaskPhase.scans]
      · obtain ⟨msg, hmsg, hscan⟩ := List.mem_filterMap.mp hmq
        cases msg with
        | connect => cases hscan
        | scanFreq id => exact .inr ⟨id, hmsg⟩
    · exact .inr ⟨id, asks_requesting hid⟩

theorem boot_scanning : State.boot.scanning.Sound where
  asks := rfl
  released id hid := by cases hid
  requested hreq := by cases hreq
  replies r hr := by cases hr

section ScanSteps

variable {s : State}

theorem scanning_asks {phase : AtPhase} (h : s.atServer = phase) : s.scanning.asks = phase.asks :=
  congrArg AtPhase.asks h

theorem scanning_unanswered {phase : TaskPhase} (h : s.task = phase) :
    s.scanning.unanswered = phase.unanswered ++ s.wiotaMq.filterMap Msg.scan :=
  congrArg (TaskPhase.unanswered · ++ s.wiotaMq.filterMap Msg.scan) h

theorem scanning_atServer {phase : AtPhase} (h : phase.asks = s.atServer.asks) :
    State.scanning { s with atServer := phase } = s.scanning := by
  simp [State.scanning, State.unanswered, h]

theorem scanning_task {phase : TaskPhase} (hu : phase.unanswered = s.task.unanswered)
    (hc : phase.completed = s.task.completed) (hs : phase.scans = s.task.scans) :
    State.scanning { s with task := phase } = s.scanning := by
  simp [State.scanning, State.unanswered, hu, hc, hs]

theorem gatewayStep_scanning (ok : Bool) (p : GatewayPhase) (s : State) :
    (gatewayStep ok p s).2.scanning = s.scanning := by
  cases p with
  | authenticating => cases ok <;> rfl
  | _ => rfl

theorem sendMsg_connect_scanning (s : State) :
    (wiotaSendMsg .connect s).scanning = s.scanning := by
  rw [wiotaSendMsg]
  split
  · simp [State.scanning, State.unanswered, Msg.scan]
  · rfl

theorem sendConnect_scanning (ok : Bool) (p : SendPhase) (s : State) :
    (wiotaSendConnectMsg ok p s).2.scanning = s.scanning := by
  cases p with
  | unregisterNormal | unregisterState | testMode => rfl
  | ending q =>
    have hframe := gatewayStep_scanning ok q s
    unfold wiotaSendConnectMsg
    dsimp only
    split <;> rename_i heq <;> rwa [heq] at hframe
  | queueing => exact sendMsg_connect_scanning s

/-- The AT server moves between phases that are alike for scans. -/
theorem atMove_scanning (h : s.scanning.Sound) {t : State} {phase phase' : AtPhase}
    (hsame : t.scanning = s.scanning) (hat : t.atServer = phase) (hphase : phase'.asks = phase.asks) :
    (State.scanning { t with atServer := phase' }).Sound := by
  subst hat
  rwa [scanning_atServer hphase, hsame]

/-- The task moves between phases that are alike for scans. -/
theorem taskMove_scanning (h : s.scanning.Sound) {t : State} {phase phase' : TaskPhase}
    (hsame : t.scanning = s.scanning) (htask : t.task = phase)
    (hu : phase'.unanswered = phase.unanswered) (hc : phase'.completed = phase.completed)
    (hs : phase'.scans = phase.scans) : (State.scanning { t with task := phase' }).Sound := by
  subst htask
  rwa [scanning_task hu hc hs, hsame]

theorem beginCommand_scanning (h : s.scanning.Sound) {c : Command} (hok : SpacedScans s (.command c))
    (hidle : s.atServer = .idle) : (beginCommand c s).scanning.Sound := by
  cases c with
  | freq newSpectrum => exact atMove_scanning h rfl hidle (by cases newSpectrum <;> rfl)
  | rate newSymbols => exact atMove_scanning h rfl hidle (by cases newSymbols <;> rfl)
  | rssi =>
    obtain ⟨hvalue, hnone⟩ := hok hidle
    exact h.begin (show s.atServer.asks = .idle by rw [hidle]; rfl) hvalue hnone s.commands
  | gwInit on => exact atMove_scanning h rfl hidle (by cases on <;> rfl)

theorem requestStep_scanning (h : s.scanning.Sound) {id : ℕ} (hphase : s.atServer = .requesting id)
    {ok : Bool} (hok : RequestSafe s ok (.requesting id)) :
    (State.scanning { (if ok then wiotaSendMsg (.scanFreq id) s else s) with
      atServer := .taking id }).Sound := by
  have hasks : s.scanning.asks = .requesting id := scanning_asks hphase
  by_cases hsent : ok ∧ s.wiotaMq.length < WIOTA_MQ_MSG_QUEUE_SIZE
  · have hsend := h.send hasks
    rw [if_pos hsent.1, wiotaSendMsg_room hsent.2]
    simpa [State.scanning, State.unanswered, AtPhase.asks, Msg.scan] using hsend
  · have hbusy : s.task.scans = true := hok.resolve_left hsent
    have hdrop := h.drop hasks hbusy
    have hsame : (if ok then wiotaSendMsg (.scanFreq id) s else s) = s := by
      split
      · rename_i hok'
        exact if_neg fun hlt => hsent ⟨hok', hlt⟩
      · rfl
    rwa [hsame]

theorem atStep_scanning (h : s.scanning.Sound) {ok : Bool} (hok : RequestSafe s ok s.atServer) :
    (atStep ok s).scanning.Sound := by
  rw [atStep]
  cases hphase : s.atServer with
  | idle => exact h
  | suspended id => exact h
  | testing => exact atMove_scanning h rfl hphase (by split <;> rfl)
  | sending p =>
    have hsame := sendConnect_scanning ok p s
    have hat := (sendConnect_frame ok p s).1
    refine atMove_scanning h hsame (hat.trans hphase) ?_
    cases (wiotaSendConnectMsg ok p s).1 <;> rfl
  | requesting id =>
    rw [hphase] at hok
    exact requestStep_scanning h hphase hok
  | taking id =>
    have hasks : s.scanning.asks = .taking id := scanning_asks hphase
    have htake := h.take hasks
    cases hb : (s.scanSem.take () 0).1 with
    | true => simpa [State.scanning, State.unanswered, AtPhase.asks, hb] using htake
    | false => simpa [State.scanning, State.unanswered, AtPhase.asks, hb] using htake
  | judging id =>
    have hasks : s.scanning.asks = .judging id := scanning_asks hphase
    obtain ⟨hwait, -, hmem⟩ : s.scanning.Asks (.judging id) := hasks ▸ h.asks
    refine h.reply hwait (by simp [hasks]) ?_
    intro hgood
    have hresult : s.scanResult = false := by simpa using hgood
    have hmem' : (id, s.scanResult) ∈ s.completed := hmem
    rwa [hresult] at hmem'
  | entering p =>
    have hsame := gatewayStep_scanning ok p s
    have hat := (gatewayStep_frame ok p s).1
    dsimp only
    split
    · rename_i heq
      rw [heq] at hsame hat
      exact atMove_scanning h hsame (hat.trans hphase) rfl
    · rename_i done _ heq
      rw [heq] at hsame hat
      exact atMove_scanning h hsame (hat.trans hphase) (by cases done <;> rfl)
  | leaving p =>
    have hsame := gatewayStep_scanning ok p s
    have hat := (gatewayStep_frame ok p s).1
    dsimp only
    split <;> rename_i heq <;> rw [heq] at hsame hat <;>
      exact atMove_scanning h hsame (hat.trans hphase) rfl
  | settingMode on => exact atMove_scanning h (t := { s with isGatewayMode := on }) rfl hphase rfl

theorem scanTimeout_scanning (h : s.scanning.Sound) : (scanTimeout s).scanning.Sound := by
  rw [scanTimeout]
  split
  · rename_i id hphase
    have hasks : s.scanning.asks = .suspended id := scanning_asks hphase
    obtain ⟨hwait, -⟩ : s.scanning.Asks (.suspended id) := hasks ▸ h.asks
    have hwait' : s.scanSem.waiting = [()] := hwait
    have hnil : (s.scanSem.withdraw ()).waiting = [] := by
      simp [Semaphore.withdraw, hwait']
    exact h.reply hnil (by simp [hasks]) fun hgood => by cases hgood
  · exact h

theorem taskReceive_scanning (h : s.scanning.Sound) (hphase : s.task = .receiving) :
    (taskReceive s).scanning.Sound := by
  rw [taskReceive]
  split
  · exact h
  · rename_i rest hmq
    simpa [State.scanning, State.unanswered, TaskPhase.unanswered, TaskPhase.completed, TaskPhase.scans,
      Msg.scan, List.filterMap_cons, hphase, hmq] using h
  · rename_i id rest hmq
    have hreceive := h.receive
    simpa [State.scanning, State.unanswered, TaskPhase.unanswered, TaskPhase.completed, TaskPhase.scans,
      Msg.scan, hphase, hmq] using hreceive

theorem taskStep_scanning (h : s.scanning.Sound) (ok : Bool) (freqs : ℕ) :
    (taskStep ok freqs s).scanning.Sound := by
  rw [taskStep]
  cases hphase : s.task with
  | receiving => exact taskReceive_scanning h hphase
  | connecting =>
    exact taskMove_scanning h rfl hphase (by split <;> rfl) (by split <;> rfl) (by split <;> rfl)
  | choosing => cases ok <;> exact taskMove_scanning h rfl hphase rfl rfl rfl
  | trying left =>
    cases left with
    | zero => exact taskMove_scanning h rfl hphase rfl rfl rfl
    | succ left =>
      exact taskMove_scanning h rfl hphase (by split <;> rfl) (by split <;> rfl) (by split <;> rfl)
  | joining left => cases ok <;> exact taskMove_scanning h rfl hphase rfl rfl rfl
  | registerNormal =>
    exact taskMove_scanning h (t := { s with normalMsg := some .wiotaRecv }) rfl hphase rfl rfl rfl
  | registerState =>
    exact taskMove_scanning h (t := { s with stateInfo := some .wiotaRecv }) rfl hphase rfl rfl rfl
  | markSuc =>
    exact taskMove_scanning h (t := { s with connnectState := .syncSuc }) rfl hphase rfl rfl rfl
  | testMode =>
    exact taskMove_scanning h rfl hphase (by split <;> rfl) (by split <;> rfl) (by split <;> rfl)
  | entering p =>
    have hsame := gatewayStep_scanning ok p s
    have htask := (gatewayStep_frame ok p s).2.1
    dsimp only
    split <;> rename_i heq <;> rw [heq] at hsame htask <;>
      exact taskMove_scanning h hsame (htask.trans hphase) rfl rfl rfl
  | markFail =>
    exact taskMove_scanning h (t := { s with connnectState := .syncFail }) rfl hphase rfl rfl rfl
  | sending p =>
    have hsame := sendConnect_scanning ok p s
    have htask := (sendConnect_frame ok p s).2.1
    refine taskMove_scanning h hsame (htask.trans hphase) ?_ ?_ ?_ <;>
      cases (wiotaSendConnectMsg ok p s).1 <;> rfl
  | scanning id =>
    have hun : s.scanning.unanswered = id :: s.wiotaMq.filterMap Msg.scan :=
      scanning_unanswered hphase
    have hcomplete := h.complete hun (!ok)
    simpa [State.scanning, State.unanswered, TaskPhase.unanswered, TaskPhase.completed, TaskPhase.scans,
      hphase] using hcomplete
  | releasing id =>
    have hun : s.scanning.unanswered = id :: s.wiotaMq.filterMap Msg.scan :=
      scanning_unanswered hphase
    have hrelease := h.release hun (by show s.task.completed = _; rw [hphase]; rfl)
      (by show s.task.scans = _; rw [hphase]; rfl)
    have hresume : s.atServer.resume.asks = s.atServer.asks.resume := by
      cases s.atServer <;> rfl
    simpa [wiotaScanDone, State.scanning, State.unanswered, TaskPhase.unanswered, TaskPhase.completed,
      TaskPhase.scans, hphase, apply_ite AtPhase.asks, hresume] using hrelease
  | testState =>
    exact taskMove_scanning h rfl hphase (by split <;> rfl) (by split <;> rfl) (by split <;> rfl)
  | rejoining => cases ok <;> exact taskMove_scanning h rfl hphase rfl rfl rfl
  | resending p =>
    have hsame := sendConnect_scanning ok p s
    have htask := (sendConnect_frame ok p s).2.1
    refine taskMove_scanning h hsame (htask.trans hphase) ?_ ?_ ?_ <;>
      cases (wiotaSendConnectMsg ok p s).1 <;> rfl
  | clearing =>
    have hclear := h.clear
    simpa [State.scanning, State.unanswered, TaskPhase.unanswered, TaskPhase.completed, TaskPhase.scans,
      hphase] using hclear

end ScanSteps

/-- The step lemma: a module whose scans are spaced ties them to their commands. -/
theorem step_scanning (s : State) (e : Event) (s' : State) (h : s.scanning.Sound)
    (hok : SpacedScans s e) (hs : step s e = .next s') : s'.scanning.Sound := by
  cases e with
  | command c =>
    cases hs
    split
    · exact beginCommand_scanning h hok ‹_›
    · exact h
  | atServer ok =>
    cases hs
    exact atStep_scanning h hok
  | scanTimeout =>
    cases hs
    exact scanTimeout_scanning h
  | syncLost =>
    cases hs
    rw [syncLost]
    split <;> exact h
  | callback ok =>
    cases hs
    rw [callbackStep]
    split
    · rename_i p hphase
      have hsame := sendConnect_scanning ok p s
      show Scanning.Sound (wiotaSendConnectMsg ok p s).2.scanning
      rwa [hsame]
    · exact h
  | task ok freqs =>
    cases hs
    exact taskStep_scanning h ok freqs
  | gatewayBreaks =>
    cases hs
    split <;> exact h

/-- In a run whose scans are spaced every answer is that of the command's own scan. -/
theorem spaced_run_ownAnswers {es : List Event} (hok : Meets step SpacedScans State.boot es)
    {s : State} (hrun : run step State.boot es = .next s) : OwnAnswers s :=
  (run_invariant step_scanning boot_scanning hok hrun).ownAnswers

/-- The task connects, and a command for a scan begins to wait. -/
def waitingRun : List Event :=
  List.replicate 8 (.task true 0) ++ .command .rssi :: List.replicate 2 (.atServer true)

/-- A scan is answered, and the next one times out. -/
def answeredRun : List Event :=
  waitingRun ++ List.replicate 6 (.task true 0) ++ [.atServer true, .command .rssi, .atServer true,
    .atServer true, .scanTimeout]

theorem answeredRun_ownAnswers :
    ∃ s, run step State.boot answeredRun = .next s ∧
      s.replies.map (fun r => (r.id, r.ok)) = [(1, false), (0, true)] ∧ OwnAnswers s := by
  have hok : Meets step SpacedScans State.boot answeredRun := by decide
  exact ⟨_, rfl, rfl, spaced_run_ownAnswers hok rfl⟩

/-- A release that comes after the wait answers the next command before its own scan has begun, and a
request whose message is not queued stays. -/
theorem scans_misanswered :
    (∃ s, run step State.boot (waitingRun ++ .scanTimeout :: List.replicate 6 (.task true 0) ++
        .command .rssi :: List.replicate 3 (.atServer true)) = .next s ∧
      s.wiotaMq = [.scanFreq 1] ∧ s.replies.head? = some ⟨1, true, [(0, false)]⟩ ∧ ¬ OwnAnswers s) ∧
    ∃ s, run step State.boot (List.replicate 8 (.task true 0) ++ [.command .rssi, .atServer false,
        .atServer true, .scanTimeout]) = .next s ∧
      s.isScanReq = true ∧ s.wiotaMq = [] ∧ s.task = .receiving ∧ ¬ OwnAnswers s := by
  refine ⟨⟨_, rfl, rfl, rfl, fun h => ?_⟩, ⟨_, rfl, rfl, rfl, rfl, fun h => ?_⟩⟩
  · exact absurd (h.replies _ List.mem_cons_self rfl) (by decide)
  · rcases h.request rfl with (hscan | ⟨id, hid⟩) | ⟨id, hid⟩
    · cases hscan
    · cases hid
    · cases hid

end WiotaDev.SimplifiedAt
