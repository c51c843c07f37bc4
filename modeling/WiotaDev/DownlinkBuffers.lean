import WiotaDev.GatewayThreads
import Mathlib.Data.List.Perm.Basic

/-! # The buffers of downlink packets

A delivered payload and its record pass from the callback to the queue and from there to the
authentication, the task or the end of the gateway, where they are released, the decoded buffer with
them. -/

namespace WiotaDev.GatewayThreads
open HaltingRuns PacketCoding ResourceLedger WordBytes

def QueuedMsg.owned : QueuedMsg → List ℕ
  | .dlRecv record payload _ => [payload, record]
  | .other | .exit => []

def QueuePtr.owned : QueuePtr → List ℕ
  | .live msgs => msgs.flatMap QueuedMsg.owned
  | .null | .freed => []

def Control.owned : Control → List ℕ
  | .authHandling _ record payload decoded => decoded.toList ++ [payload, record]
  | _ => []

def TaskPhase.owned : TaskPhase → List ℕ
  | .analysing record payload _ => [payload, record]
  | .handling record payload decoded => decoded.toList ++ [payload, record]
  | _ => []

/-- The buffers that some part of the gateway has still to release. -/
def State.owned (s : State) : List ℕ := s.task.owned ++ s.control.owned ++ s.gatewayMq.owned

/-- Whatever has not been released is with a part that will release it, and nothing has been released
twice. -/
def Conserved (s : State) : Prop := s.ledger.Owns s.owned

/-- `app_data_decoding` accepts the packet. -/
def Packet.decodes (packet : Packet) : Bool := (decodingBuffers packet .empty).1.isSome

/-- The next message, if it is a packet, can be decoded. -/
def QueuePtr.decodes : QueuePtr → Bool
  | .live (.dlRecv _ _ packet :: _) => packet.decodes
  | _ => true

def QueuePtr.isLive : QueuePtr → Bool
  | .live _ => true
  | .null | .freed => false

def QueuePtr.isFreed : QueuePtr → Bool
  | .freed => true
  | .null | .live _ => false

/-- The end of the gateway has found the queue empty. -/
def Control.emptied : Control → Bool
  | .deletingQueue => true
  | _ => false

/-- The authentication meets no packet that cannot be decoded, a start whose timer or task is not
created has nothing queued, and none is ended behind that. -/
def ControlSafe (s : State) (answer : Answer) : Control → Prop
  | .authenticating _ => answer = .goesOn → s.gatewayMq.decodes = true
  | .creatingTimer | .creatingTask => answer = .fails → s.gatewayMq.owned = []
  | .sendingExit => s.gatewayMq.isFreed = false
  | _ => True

/-- A packet is delivered while there is a queue that the end has not found empty, and gets a record. -/
def BuffersSafe (s : State) : Event → Prop
  | .deliver _ allocated =>
    allocated = true ∧ s.gatewayMq.isLive = true ∧ s.control.emptied = false
  | .control answer => ControlSafe s answer s.control
  | .notify => s.gatewayMq.isFreed = false
  | _ => True

instance (s : State) (answer : Answer) : DecidablePred (ControlSafe s answer)
  | .authenticating _ => inferInstanceAs (Decidable (_ = _ → _ = _))
  | .creatingTimer | .creatingTask => inferInstanceAs (Decidable (_ = _ → _ = _))
  | .sendingExit => inferInstanceAs (Decidable (_ = _))
  | .idle | .testingSync _ | .authHandling .. | .forbidding | .unmarking | .testingRun | .clearingRun
  | .delaying | .testingExit | .waitingExit | .deletingTimer | .deletingSem | .clearingMode
  | .draining | .deletingQueue => inferInstanceAs (Decidable True)

instance (s : State) : DecidablePred (BuffersSafe s)
  | .deliver .. => inferInstanceAs (Decidable (_ = _ ∧ _ = _ ∧ _ = _))
  | .control answer => inferInstanceAs (Decidable (ControlSafe s answer s.control))
  | .notify => inferInstanceAs (Decidable (_ = _))
  | .start .. | .endCall | .autoRun | .task _ | .fnChange _ => inferInstanceAs (Decidable True)

/-- The decoding leaves the buffer that it returns, and no other. -/
theorem decodingBuffers_owns (packet : Packet) {l : Ledger} {hs : List ℕ} (ho : l.Owns hs) :
    (decodingBuffers packet l).2.Owns (((decodingBuffers packet l).1.getD none).toList ++ hs) := by
  rw [decodingBuffers]
  dsimp only
  split
  · exact ho
  · split
    · split
      · exact ho
      · split
        · split
          · exact ho.create.free
          · exact (ho.create.create.perm (List.Perm.swap _ _ _)).free
        · exact ho.create
    · exact ho

/-- What the decoding returns depends on the packet only. -/
theorem decodingBuffers_isSome (packet : Packet) (l : Ledger) :
    (decodingBuffers packet l).1.isSome = packet.decodes := by
  unfold Packet.decodes decodingBuffers
  dsimp only
  repeat' split
  all_goals rfl

/-- The end of the gateway has not looked at the queue yet, or there is none. -/
def Control.early : Control → Bool
  | .idle | .forbidding | .unmarking | .sendingExit => true
  | _ => false

/-- The end of the gateway is behind its message and has not found the queue empty. -/
def Control.ends : Control → Bool
  | .testingRun | .clearingRun | .delaying | .testingExit | .waitingExit | .deletingTimer
  | .deletingSem | .clearingMode | .draining => true
  | _ => false

/-- What holds in every run that is safe for the buffers. -/
structure BufferInv (s : State) : Prop where
  conserved : Conserved s
  closed : s.control = .idle → s.gwOpen = false → s.gatewayMq.isLive = false
  starts : s.control.starts = true → s.task.gone = true ∧ s.allowRun = false ∧ s.gwOpen = true
  freed : s.gatewayMq.isFreed = true →
    s.task.gone = true ∧ s.allowRun = false ∧ s.control.early = true
  emptied : s.control.emptied = true → s.gatewayMq.owned = []

theorem boot_bufferInv : BufferInv .boot where
  conserved := Ledger.empty_owns
  closed _ _ := rfl
  starts h := by cases h
  freed h := by cases h
  emptied h := by cases h

section Steps

variable {s s' : State}

theorem owned_of_gone {p : TaskPhase} (h : p.gone = true) : p.owned = [] := by
  cases p <;> first | rfl | cases h

theorem owned_of_not_live {q : QueuePtr} (h : q.isLive = false) : q.owned = [] := by
  cases q <;> first | rfl | cases h

theorem owned_append (msgs : List QueuedMsg) (msg : QueuedMsg) :
    (QueuePtr.live (msgs ++ [msg])).owned = (QueuePtr.live msgs).owned ++ msg.owned := by
  simp [QueuePtr.owned]

theorem owned_cons (msg : QueuedMsg) (rest : List QueuedMsg) :
    (QueuePtr.live (msg :: rest)).owned = msg.owned ++ (QueuePtr.live rest).owned := rfl

/-- Only a packet owns buffers. -/
theorem owned_of_no_packet {msg : QueuedMsg}
    (h : ∀ record payload packet, msg = .dlRecv record payload packet → False) : msg.owned = [] := by
  cases msg with
  | dlRecv record payload packet => exact (h record payload packet rfl).elim
  | other | exit => rfl

theorem perm_decoded (decoded task msg rest : List ℕ) :
    (decoded ++ (task ++ (msg ++ rest))).Perm (task ++ (decoded ++ msg) ++ rest) := by
  rw [List.append_assoc, List.append_assoc]
  exact List.perm_append_comm_assoc _ _ _

/-- The queue and the ledger change alike. -/
theorem BufferInv.buffers (h : BufferInv s) {mq : QueuePtr} {l : Ledger}
    (hown : l.Owns (s.task.owned ++ s.control.owned ++ mq.owned))
    (hlive : mq.isLive = s.gatewayMq.isLive) (hfreed : mq.isFreed = s.gatewayMq.isFreed)
    (hemptied : s.control.emptied = true → mq.owned = []) :
    BufferInv { s with gatewayMq := mq, ledger := l } where
  conserved := hown
  closed hc ho := hlive.trans (h.closed hc ho)
  starts := h.starts
  freed hf := h.freed (hfreed ▸ hf)
  emptied := hemptied

/-- A message that is no packet enters the queue. -/
theorem notify_bufferInv (h : BufferInv s) {msg : QueuedMsg} (hmsg : msg.owned = [])
    (hfreed : s.gatewayMq.isFreed = false) :
    ∃ s', notify msg s = .next s' ∧ BufferInv s' := by
  cases hmq : s.gatewayMq with
  | null => exact ⟨s, by rw [notify, hmq], h⟩
  | live msgs =>
    refine ⟨_, by rw [notify, hmq], ?_⟩
    split
    · have hsame : (QueuePtr.live (msgs ++ [msg])).owned = s.gatewayMq.owned := by
        rw [owned_append, hmsg, List.append_nil, hmq]
      refine h.buffers ?_ (by rw [hmq]; rfl) (by rw [hmq]; rfl) ?_
      · rw [hsame]
        exact h.conserved
      · rw [hsame]
        exact h.emptied
    · exact h
  | freed =>
    rw [hmq] at hfreed
    cases hfreed

/-- A packet is queued with its record, or both are released. -/
theorem deliver_bufferInv (h : BufferInv s) (packet : Packet) (hlive : s.gatewayMq.isLive = true)
    (hemptied : s.control.emptied = false) :
    ∃ s', deliver packet true s = .next s' ∧ BufferInv s' := by
  cases hmq : s.gatewayMq with
  | live msgs =>
    have hown := h.conserved.create.create
    refine ⟨_, by simp only [deliver, hmq]; rfl, ?_⟩
    split
    · refine h.buffers ?_ (by rw [hmq]; rfl) (by rw [hmq]; rfl) fun he => ?_
      · have hcomm : ([s.ledger.next, s.ledger.create.next] ++ s.owned).Perm
            (s.owned ++ [s.ledger.next, s.ledger.create.next]) := List.perm_append_comm
        have hmove := (List.Perm.swap s.ledger.next s.ledger.create.next s.owned).trans hcomm
        rw [owned_append, ← hmq, ← List.append_assoc]
        exact hown.perm hmove
      · rw [hemptied] at he
        cases he
    · have hfree : (s.ledger.create.create.freeAll [s.ledger.next, s.ledger.create.next]).Owns s.owned :=
        (hown.perm (List.Perm.swap _ _ _)).freeAll
      rw [State.owned, hmq] at hfree
      exact h.buffers hfree (by rw [hmq]) (by rw [hmq]) (hmq ▸ h.emptied)
  | null =>
    rw [hmq] at hlive
    cases hlive
  | freed =>
    rw [hmq] at hlive
    cases hlive

/-- The queue is not freed while the control thread is at a later step. -/
theorem BufferInv.not_freed (h : BufferInv s) (hearly : s.control.early = false) :
    s.gatewayMq.isFreed = false := by
  cases hf : s.gatewayMq.isFreed with
  | false => rfl
  | true => cases hearly.symm.trans (h.freed hf).2.2

/-- The start goes on, or returns. -/
theorem BufferInv.start (h : BufferInv s) (hstarts : s.control.starts = true) (htask : s'.task = s.task)
    (hallow : s'.allowRun = s.allowRun) (hopen : s'.gwOpen = s.gwOpen) (hown : Conserved s')
    (hfreed : s'.gatewayMq.isFreed = false) (hemptied : s'.control.emptied = false) : BufferInv s' := by
  have hkeep := h.starts hstarts
  rw [← htask, ← hallow, ← hopen] at hkeep
  refine ⟨hown, fun _ ho => ?_, fun _ => hkeep, fun hf => ?_, fun he => ?_⟩
  · cases ho.symm.trans hkeep.2.2
  · cases hfreed.symm.trans hf
  · cases hemptied.symm.trans he

theorem authEnded_plain (succeeded : Bool) (left : ℕ) :
    (authEnded succeeded left).owned = [] ∧ (authEnded succeeded left).emptied = false := by
  rw [authEnded]
  split
  · exact ⟨rfl, rfl⟩
  · cases succeeded <;> exact ⟨rfl, rfl⟩

/-- A decoding that succeeds, with what it leaves. -/
theorem decoding_succeeds {packet : Packet} {hs : List ℕ} (hdec : packet.decodes = true)
    (ho : s.ledger.Owns hs) :
    ∃ decoded l, decodingBuffers packet s.ledger = (some decoded, l) ∧ l.Owns (decoded.toList ++ hs) := by
  have hsome := decodingBuffers_isSome packet s.ledger
  rw [hdec] at hsome
  obtain ⟨decoded, hd⟩ := Option.isSome_iff_exists.mp hsome
  have hbuf := decodingBuffers_owns packet ho
  rw [hd] at hbuf
  exact ⟨decoded, _, Prod.ext hd rfl, hbuf⟩

/-- The authentication gets a message. -/
theorem authReceive_bufferInv (h : BufferInv s) {left : ℕ} (hphase : s.control = .authenticating left)
    (hok : s.gatewayMq.decodes = true) : ∃ s', authReceive left s = .next s' ∧ BufferInv s' := by
  have hstarts : s.control.starts = true := by rw [hphase]; rfl
  have hfreed := h.not_freed (by rw [hphase]; rfl)
  have hplain := authEnded_plain false left
  have hnone : s.control.owned = [] := by rw [hphase]; rfl
  have hown : s.ledger.Owns (s.task.owned ++ s.gatewayMq.owned) := by
    have hown := h.conserved
    rwa [Conserved, State.owned, hnone, List.append_nil] at hown
  have hfail : Conserved { s with control := authEnded false left } := by
    rwa [Conserved, State.owned, hplain.1, List.append_nil]
  rw [authReceive]
  split
  · exact ⟨_, rfl, h.start hstarts rfl rfl rfl hfail hfreed hplain.2⟩
  · exact ⟨_, rfl, h.start hstarts rfl rfl rfl hfail hfreed hplain.2⟩
  · rename_i record payload packet rest hmq
    rw [hmq] at hok hown
    obtain ⟨decoded, l, hpair, hbuf⟩ := decoding_succeeds hok hown
    refine ⟨_, rfl, ?_⟩
    rw [hpair]
    exact h.start hstarts rfl rfl rfl (hbuf.perm (perm_decoded _ _ _ _)) rfl rfl
  · rename_i msg rest hnot hmq
    have hmsg := owned_of_no_packet hnot
    refine ⟨_, rfl, h.start hstarts rfl rfl rfl ?_ rfl (by rw [hphase]; rfl)⟩
    rw [hmq, owned_cons, hmsg, List.nil_append] at hown
    rwa [Conserved, State.owned, hnone, List.append_nil]
  · rename_i hmq
    rw [hmq] at hfreed
    cases hfreed

/-- A start that gives up has nothing queued to lose. -/
theorem abandon_bufferInv (h : BufferInv s) (hstarts : s.control.starts = true)
    (hnone : s.control.owned = []) (hempty : s.gatewayMq.owned = []) (timer : Bool) :
    BufferInv (abandon timer s) := by
  have hown := h.conserved
  rw [Conserved, State.owned, hnone, hempty] at hown
  obtain ⟨hgone, hallow, -⟩ := h.starts hstarts
  exact ⟨hown, fun _ _ => rfl, (fun hs => by cases hs), fun _ => ⟨hgone, hallow, rfl⟩,
    fun he => by cases he⟩

/-- The end goes on with what it has found. -/
theorem BufferInv.ending (h : BufferInv s) {control : Control} {allow gwOpen run mode fn timer : Bool}
    {deletions : List (Resource × TaskPhase)} (hallow : s.gatewayMq.isFreed = true → allow = false)
    (hnone : s.control.owned = []) (hnone' : control.owned = []) (hidle : control ≠ .idle)
    (hstarts : control.starts = false) (hearly : s.gatewayMq.isFreed = true → control.early = true)
    (hemptied : control.emptied = true → s.gatewayMq.owned = []) :
    BufferInv { s with
      control := control, allowRun := allow, gwOpen := gwOpen, gatewayTaskRun := run
      gatewayMode := mode, fnRefreshSem := fn, otaTimer := timer, deletions := deletions } where
  conserved := by
    have hown := h.conserved
    rw [Conserved, State.owned, hnone] at hown
    rwa [Conserved, State.owned, hnone']
  closed hc _ := absurd hc hidle
  starts hs := by cases hstarts.symm.trans hs
  freed hf := ⟨(h.freed hf).1, hallow hf, hearly hf⟩
  emptied := hemptied

/-- The end of the gateway takes a message out of the queue, and releases a packet. -/
theorem drain_bufferInv (h : BufferInv s) (hphase : s.control = .draining) :
    ∃ s', drain s = .next s' ∧ BufferInv s' := by
  have hfreed := h.not_freed (by rw [hphase]; rfl)
  have hnone : s.control.owned = [] := by rw [hphase]; rfl
  have hempt : s.control.emptied = false := by rw [hphase]; rfl
  have hown : s.ledger.Owns (s.task.owned ++ s.gatewayMq.owned) := by
    have hown := h.conserved
    rwa [Conserved, State.owned, hnone, List.append_nil] at hown
  have hrest : ∀ (rest : List QueuedMsg) (l : Ledger), s.gatewayMq.isLive = true →
      l.Owns (s.task.owned ++ (QueuePtr.live rest).owned) →
      BufferInv { s with gatewayMq := .live rest, ledger := l } := fun rest l hlive hl => by
    refine h.buffers ?_ hlive.symm hfreed.symm fun he => by cases hempt.symm.trans he
    rwa [hnone, List.append_nil]
  rw [drain]
  split
  · rename_i hmq
    refine ⟨_, rfl, ?_, fun _ _ => ?_, (fun hs => by cases hs), fun hf => ?_, fun he => by cases he⟩
    · rw [Conserved, State.owned]
      exact (List.append_nil s.task.owned).symm ▸ hown
    · rw [hmq]
      rfl
    · cases hfreed.symm.trans hf
  · rename_i hmq
    refine ⟨_, rfl, h.ending ?_ hnone rfl (fun hc => by cases hc) rfl ?_ fun _ => by rw [hmq]; rfl⟩
    · exact fun hf => by cases hfreed.symm.trans hf
    · exact fun hf => by cases hfreed.symm.trans hf
  · rename_i record payload packet rest hmq
    rw [hmq] at hown
    have hmove : (s.task.owned ++ (QueuePtr.live (.dlRecv record payload packet :: rest)).owned).Perm
        ([payload, record] ++ (s.task.owned ++ (QueuePtr.live rest).owned)) := by
      rw [owned_cons]
      exact List.perm_append_comm_assoc _ _ _
    exact ⟨_, rfl, hrest rest _ (by rw [hmq]; rfl) (hown.perm hmove).freeAll⟩
  · rename_i msg rest hnot hmq
    have hmsg := owned_of_no_packet hnot
    rw [hmq, owned_cons, hmsg, List.nil_append] at hown
    exact ⟨_, rfl, hrest rest _ (by rw [hmq]; rfl) hown⟩
  · rename_i hmq
    rw [hmq] at hfreed
    cases hfreed

theorem sendExit_bufferInv (h : BufferInv s) (hphase : s.control = .sendingExit)
    (hok : s.gatewayMq.isFreed = false) : ∃ s', sendExit s = .next s' ∧ BufferInv s' := by
  have hnone : s.control.owned = [] := by rw [hphase]; rfl
  have hfree : s.gatewayMq.isFreed = true → ∀ b : Bool, b = true := fun hf => by
    cases hok.symm.trans hf
  have hend : ∀ control : Control, control.owned = [] → control ≠ .idle → control.starts = false →
      control.emptied = false → BufferInv { s with control := control } := fun control ho hi hs he => by
    refine h.ending (fun hf => ?_) hnone ho hi hs (fun hf => hfree hf _) fun he' => ?_
    · cases hok.symm.trans hf
    · cases he.symm.trans he'
  rw [sendExit]
  split
  · exact ⟨_, rfl, hend _ rfl (fun hc => by cases hc) rfl rfl⟩
  · rename_i msgs hmq
    refine ⟨_, rfl, ?_⟩
    split
    · have hnext := hend .testingExit rfl (fun hc => by cases hc) rfl rfl
      have hsame : (QueuePtr.live (msgs ++ [.exit])).owned = s.gatewayMq.owned := by
        rw [owned_append, hmq]
        exact List.append_nil _
      refine hnext.buffers ?_ (by rw [hmq]; rfl) (by rw [hmq]; rfl) fun he => by cases he
      rw [hsame]
      exact hnext.conserved
    · exact hend _ rfl (fun hc => by cases hc) rfl rfl
  · rename_i hmq
    rw [hmq] at hok
    cases hok

/-- At such a step the end owns nothing and has left the queue alone so far. -/
theorem Control.plain_of_ends {control : Control} (h : control.ends = true) :
    control.owned = [] ∧ control ≠ .idle ∧ control.starts = false ∧ control.emptied = false ∧
      control.early = false := by
  cases control <;> first
    | exact ⟨rfl, (fun hc => by cases hc), rfl, rfl, rfl⟩
    | cases h

/-- A step of the end that looks at neither the queue nor the ledger. -/
theorem endingStep_bufferInv (h : BufferInv s) {control : Control} {allow gwOpen run mode fn timer : Bool}
    {deletions : List (Resource × TaskPhase)} (hends : s.control.ends = true)
    (hends' : control.ends = true) :
    BufferInv { s with
      control := control, allowRun := allow, gwOpen := gwOpen, gatewayTaskRun := run
      gatewayMode := mode, fnRefreshSem := fn, otaTimer := timer, deletions := deletions } := by
  obtain ⟨hnone, -, -, -, hlate⟩ := Control.plain_of_ends hends
  obtain ⟨hnone', hidle, hstarts, hemptied, -⟩ := Control.plain_of_ends hends'
  have hfreed := h.not_freed hlate
  refine h.ending (fun hf => ?_) hnone hnone' hidle hstarts (fun hf => ?_) fun he => ?_
  · cases hfreed.symm.trans hf
  · cases hfreed.symm.trans hf
  · cases hemptied.symm.trans he

theorem testingSync_bufferInv (h : BufferInv s) {left : ℕ} (hphase : s.control = .testingSync left)
    (answer : Answer) : ∃ s', controlStep answer s = .next s' ∧ BufferInv s' := by
  have hown : Conserved { s with control := .idle } := by
    have hown := h.conserved
    rwa [Conserved, State.owned, hphase] at hown
  simp only [controlStep, hphase]
  refine ⟨_, rfl, h.start (by rw [hphase]; rfl) rfl rfl rfl ?_ (h.not_freed (by rw [hphase]; rfl)) ?_⟩
  · split <;> exact hown
  · dsimp only
    split <;> rfl

theorem authenticating_bufferInv (h : BufferInv s) {left : ℕ}
    (hphase : s.control = .authenticating left) {answer : Answer}
    (hok : ControlSafe s answer s.control) :
    ∃ s', controlStep answer s = .next s' ∧ BufferInv s' := by
  rw [hphase] at hok
  simp only [controlStep, hphase]
  split
  · exact authReceive_bufferInv h hphase (hok ‹_›)
  · have hplain := authEnded_plain (decide (answer = .succeeds)) left
    have hown : Conserved { s with control := authEnded (decide (answer = .succeeds)) left } := by
      have hown := h.conserved
      rw [Conserved, State.owned, hphase] at hown
      rwa [Conserved, State.owned, hplain.1]
    exact ⟨_, rfl, h.start (by rw [hphase]; rfl) rfl rfl rfl hown
      (h.not_freed (by rw [hphase]; rfl)) hplain.2⟩

/-- The start gives back what it has received and decoded. -/
theorem authHandling_bufferInv (h : BufferInv s) {left record payload : ℕ}
    {decoded : Option ℕ} (hphase : s.control = .authHandling left record payload decoded)
    (answer : Answer) : ∃ s', controlStep answer s = .next s' ∧ BufferInv s' := by
  have hown : s.ledger.Owns
      (s.task.owned ++ (decoded.toList ++ [payload, record]) ++ s.gatewayMq.owned) := by
    have hown := h.conserved
    rwa [Conserved, State.owned, hphase] at hown
  have hfree : (s.ledger.freeAll (decoded.toList ++ [payload, record])).Owns
      (s.task.owned ++ s.gatewayMq.owned) := by
    refine (hown.perm ?_).freeAll
    rw [List.append_assoc]
    exact List.perm_append_comm_assoc _ _ _
  have hplain : ∀ control : Control, control.owned = [] ∧ control.emptied = false →
      BufferInv { s with
        ledger := s.ledger.freeAll (decoded.toList ++ [payload, record]), control := control } :=
    fun control hc => by
      refine h.start (by rw [hphase]; rfl) rfl rfl rfl ?_ (h.not_freed (by rw [hphase]; rfl)) hc.2
      rwa [Conserved, State.owned, hc.1, List.append_nil]
  simp only [controlStep, hphase]
  refine ⟨_, rfl, hplain _ ?_⟩
  split
  · exact ⟨rfl, rfl⟩
  · exact authEnded_plain _ _

theorem creatingTimer_bufferInv (h : BufferInv s) (hphase : s.control = .creatingTimer)
    {answer : Answer} (hok : ControlSafe s answer s.control) :
    ∃ s', controlStep answer s = .next s' ∧ BufferInv s' := by
  rw [hphase] at hok
  simp only [controlStep, hphase]
  refine ⟨_, rfl, ?_⟩
  split
  · exact abandon_bufferInv h (by rw [hphase]; rfl) (by rw [hphase]; rfl) (hok ‹_›) false
  · refine h.start (by rw [hphase]; rfl) rfl rfl rfl ?_ (h.not_freed (by rw [hphase]; rfl)) rfl
    have hown := h.conserved
    rwa [Conserved, State.owned, hphase] at hown

/-- The task is created, is there already or cannot be created. -/
theorem creatingTask_bufferInv (h : BufferInv s) (hphase : s.control = .creatingTask)
    {answer : Answer} (hok : ControlSafe s answer s.control) :
    ∃ s', controlStep answer s = .next s' ∧ BufferInv s' := by
  rw [hphase] at hok
  have hstarts : s.control.starts = true := by rw [hphase]; rfl
  have hnone : s.control.owned = [] := by rw [hphase]; rfl
  have hfreed := h.not_freed (by rw [hphase]; rfl)
  have hopen := (h.starts hstarts).2.2
  have hgone := owned_of_gone (h.starts hstarts).1
  have hown : s.ledger.Owns s.gatewayMq.owned := by
    have hown := h.conserved
    rwa [Conserved, State.owned, hnone, hgone] at hown
  simp only [controlStep, hphase]
  refine ⟨_, rfl, ?_⟩
  cases answer with
  | succeeds =>
    refine ⟨hown, fun _ ho => ?_, (fun hs => by cases hs), fun hf => ?_, fun he => by cases he⟩
    · cases ho.symm.trans hopen
    · cases hfreed.symm.trans hf
  | goesOn =>
    refine ⟨?_, fun _ ho => ?_, (fun hs => by cases hs), fun hf => ?_, fun he => by cases he⟩
    · rw [Conserved, State.owned, hgone]
      exact hown
    · cases ho.symm.trans hopen
    · cases hfreed.symm.trans hf
  | fails => exact abandon_bufferInv h hstarts hnone (hok rfl) true

theorem deletingQueue_bufferInv (h : BufferInv s) (hphase : s.control = .deletingQueue)
    (answer : Answer) : ∃ s', controlStep answer s = .next s' ∧ BufferInv s' := by
  have hempty := h.emptied (by rw [hphase]; rfl)
  have hown := h.conserved
  rw [Conserved, State.owned, hphase, hempty] at hown
  simp only [controlStep, hphase]
  exact ⟨_, rfl, hown, fun _ _ => rfl, (fun hs => by cases hs), (fun hf => by cases hf),
    fun he => by cases he⟩

/-- A step of the end that does not touch the queue. -/
theorem ends_bufferInv (h : BufferInv s) (hends : s.control.ends = true) (answer : Answer)
    (hdrain : s.control ≠ .draining) :
    ∃ s', controlStep answer s = .next s' ∧ BufferInv s' := by
  cases hphase : s.control with
  | testingRun | testingExit =>
    simp only [controlStep, hphase]
    refine ⟨_, rfl, endingStep_bufferInv h hends ?_⟩
    split <;> rfl
  | waitingExit =>
    simp only [controlStep, hphase]
    refine ⟨_, rfl, ?_⟩
    split
    · exact endingStep_bufferInv h hends rfl
    · exact h
  | clearingRun | delaying | deletingTimer | deletingSem | clearingMode =>
    simp only [controlStep, hphase]
    exact ⟨_, rfl, endingStep_bufferInv h hends rfl⟩
  | draining => exact absurd hphase hdrain
  | _ =>
    rw [hphase] at hends
    cases hends

theorem controlStep_bufferInv (h : BufferInv s) {answer : Answer}
    (hok : ControlSafe s answer s.control) :
    ∃ s', controlStep answer s = .next s' ∧ BufferInv s' := by
  cases hphase : s.control with
  | idle =>
    simp only [controlStep, hphase]
    exact ⟨s, rfl, h⟩
  | testingSync left => exact testingSync_bufferInv h hphase answer
  | authenticating left => exact authenticating_bufferInv h hphase hok
  | authHandling left record payload decoded => exact authHandling_bufferInv h hphase answer
  | creatingTimer => exact creatingTimer_bufferInv h hphase hok
  | creatingTask => exact creatingTask_bufferInv h hphase hok
  | forbidding =>
    simp only [controlStep, hphase]
    exact ⟨_, rfl, h.ending (fun _ => rfl) (by rw [hphase]; rfl) rfl (fun hc => by cases hc) rfl
      (fun _ => rfl) fun he => by cases he⟩
  | unmarking =>
    simp only [controlStep, hphase]
    exact ⟨_, rfl, h.ending (fun hf => (h.freed hf).2.1) (by rw [hphase]; rfl) rfl
      (fun hc => by cases hc) rfl (fun _ => rfl) fun he => by cases he⟩
  | sendingExit =>
    rw [hphase] at hok
    simp only [controlStep, hphase]
    exact sendExit_bufferInv h hphase hok
  | draining =>
    simp only [controlStep, hphase]
    exact drain_bufferInv h hphase
  | deletingQueue => exact deletingQueue_bufferInv h hphase answer
  | testingRun | clearingRun | delaying | testingExit | waitingExit | deletingTimer | deletingSem
  | clearingMode =>
    exact ends_bufferInv h (by rw [hphase]; rfl) answer (by rw [hphase]; simp)

theorem fnChange_bufferInv (h : BufferInv s) (data : Bool) : BufferInv (fnChange data s) := by
  cases data with
  | true => exact h.buffers h.conserved.create.free rfl rfl h.emptied
  | false => exact h

/-- The task goes on, with what it takes from the queue and what it releases. -/
theorem BufferInv.task (h : BufferInv s) (hrun : s.task.gone = false) {p : TaskPhase} {mq : QueuePtr}
    {l : Ledger} {exit run gwOpen : Bool} (hown : l.Owns (p.owned ++ s.control.owned ++ mq.owned))
    (hlive : mq.isLive = s.gatewayMq.isLive) (hfreed : mq.isFreed = s.gatewayMq.isFreed)
    (hemptied : s.gatewayMq.owned = [] → mq.owned = []) (hopen : gwOpen = false → s.gwOpen = false) :
    BufferInv { s with
      task := p, gatewayMq := mq, ledger := l, exitFlag := exit, gatewayTaskRun := run
      gwOpen := gwOpen } where
  conserved := hown
  closed hc ho := hlive.trans (h.closed hc (hopen ho))
  starts hs := by cases hrun.symm.trans (h.starts hs).1
  freed hf := by cases hrun.symm.trans (h.freed (hfreed.symm.trans hf)).1
  emptied he := hemptied (h.emptied he)

/-- A step of the task that looks at neither the queue's messages nor the ledger. -/
theorem taskMove_bufferInv (h : BufferInv s) (hrun : s.task.gone = false) {p : TaskPhase}
    {exit run gwOpen : Bool} (hnone : s.task.owned = []) (hnone' : p.owned = [])
    (hopen : gwOpen = false → s.gwOpen = false) :
    BufferInv { s with task := p, exitFlag := exit, gatewayTaskRun := run, gwOpen := gwOpen } := by
  refine h.task hrun ?_ rfl rfl (fun hq => hq) hopen
  have hown := h.conserved
  rw [Conserved, State.owned, hnone] at hown
  rwa [hnone']

theorem taskReceive_bufferInv (h : BufferInv s) (hphase : s.task = .receiving) :
    ∃ s', taskReceive s = .next s' ∧ BufferInv s' := by
  have hrun : s.task.gone = false := by rw [hphase]; rfl
  have hnone : s.task.owned = [] := by rw [hphase]; rfl
  have hown : s.ledger.Owns (s.control.owned ++ s.gatewayMq.owned) := by
    have hown := h.conserved
    rwa [Conserved, State.owned, hnone] at hown
  rw [taskReceive]
  split
  · exact ⟨_, rfl, taskMove_bufferInv h hrun hnone rfl fun ho => ho⟩
  · exact ⟨_, rfl, taskMove_bufferInv h hrun hnone rfl fun ho => ho⟩
  · rename_i record payload packet rest hmq
    rw [hmq, owned_cons] at hown
    refine ⟨_, rfl, h.task hrun ?_ (by rw [hmq]; rfl) (by rw [hmq]; rfl) (fun hq => ?_) fun ho => ho⟩
    · rw [List.append_assoc]
      exact hown.perm (List.perm_append_comm_assoc _ _ _)
    · rw [hmq] at hq
      cases hq
  · rename_i rest hmq
    rw [hmq, owned_cons] at hown
    refine ⟨_, rfl, h.task hrun hown (by rw [hmq]; rfl) (by rw [hmq]; rfl) (fun hq => ?_) fun ho => ho⟩
    rwa [hmq, owned_cons] at hq
  · rename_i rest hmq
    rw [hmq, owned_cons] at hown
    refine ⟨_, rfl, h.task hrun hown (by rw [hmq]; rfl) (by rw [hmq]; rfl) (fun hq => ?_) fun ho => ho⟩
    rwa [hmq, owned_cons] at hq
  · rename_i hmq
    have hfreed := (h.freed (by rw [hmq]; rfl)).1
    cases hrun.symm.trans hfreed

theorem taskStep_bufferInv (h : BufferInv s) (answer : Answer) :
    ∃ s', taskStep answer s = .next s' ∧ BufferInv s' := by
  rw [taskStep]
  cases hphase : s.task with
  | none | ended => exact ⟨s, rfl, h⟩
  | receiving => exact taskReceive_bufferInv h hphase
  | analysing record payload packet =>
    have hrun : s.task.gone = false := by rw [hphase]; rfl
    have hown : s.ledger.Owns ([payload, record] ++ (s.control.owned ++ s.gatewayMq.owned)) := by
      have hown := h.conserved
      rwa [Conserved, State.owned, hphase, List.append_assoc] at hown
    refine ⟨_, rfl, ?_⟩
    have hbuf := decodingBuffers_owns packet hown
    split
    · rename_i l hpair
      rw [hpair] at hbuf
      have hleft : l.Owns ([payload, record] ++ (s.control.owned ++ s.gatewayMq.owned)) := hbuf
      exact h.task hrun hleft.freeAll rfl rfl (fun hq => hq) fun ho => ho
    · rename_i decoded l hpair
      rw [hpair] at hbuf
      refine h.task hrun ?_ rfl rfl (fun hq => hq) fun ho => ho
      rwa [List.append_assoc, TaskPhase.owned, List.append_assoc]
  | handling record payload decoded =>
    have hrun : s.task.gone = false := by rw [hphase]; rfl
    have hown : s.ledger.Owns
        (decoded.toList ++ [payload, record] ++ (s.control.owned ++ s.gatewayMq.owned)) := by
      have hown := h.conserved
      rwa [Conserved, State.owned, hphase, List.append_assoc] at hown
    exact ⟨_, rfl, h.task hrun hown.freeAll rfl rfl (fun hq => hq) fun ho => ho⟩
  | leaving =>
    exact ⟨_, rfl, taskMove_bufferInv h (by rw [hphase]; rfl) (by rw [hphase]; rfl) rfl
      fun ho => by cases ho⟩
  | testingRun | testingMode | judging =>
    refine ⟨_, rfl, taskMove_bufferInv h (by rw [hphase]; rfl) (by rw [hphase]; rfl) ?_ fun ho => ho⟩
    split <;> rfl
  | testingQueue =>
    refine ⟨_, rfl, taskMove_bufferInv h (by rw [hphase]; rfl) (by rw [hphase]; rfl) ?_ fun ho => ho⟩
    cases s.gatewayMq <;> rfl
  | resetting | marking | serving | acknowledging =>
    exact ⟨_, rfl, taskMove_bufferInv h (by rw [hphase]; rfl) (by rw [hphase]; rfl) rfl fun ho => ho⟩

/-- A start from a closed gateway finds nothing to lose. -/
theorem start_bufferInv (h : BufferInv s) (timeSlots authenticates created : Bool)
    (hidle : s.control = .idle) (hopen : s.gwOpen = false) (hgone : s.task.gone = true) :
    BufferInv (start timeSlots authenticates created s) := by
  have hown := h.conserved
  rw [Conserved, State.owned, owned_of_gone hgone, hidle,
    owned_of_not_live (h.closed hidle hopen)] at hown
  have hnew : ∀ control : Control, control.owned = [] →
      s.ledger.Owns (s.task.owned ++ control.owned ++ (QueuePtr.live []).owned) := fun control hc => by
    rw [owned_of_gone hgone, hc]
    exact hown
  rw [start]
  dsimp only
  split
  · cases authenticates with
    | true | false =>
      exact ⟨hnew _ rfl, (fun hc => by cases hc), fun _ => ⟨hgone, rfl, rfl⟩, (fun hf => by cases hf),
        fun he => by cases he⟩
  · refine ⟨?_, fun _ _ => rfl, fun hs => ?_, (fun hf => by cases hf), fun _ => rfl⟩
    · rw [Conserved, State.owned, owned_of_gone hgone, hidle]
      exact hown
    · rw [hidle] at hs
      cases hs

/-- The automatic connection enters the loop. -/
theorem autoRun_bufferInv (h : BufferInv s) (hallow : s.allowRun = true) (hgone : s.task.gone = true) :
    BufferInv { s with task := .resetting } where
  conserved := by
    have hown := h.conserved
    rwa [Conserved, State.owned, owned_of_gone hgone] at hown
  closed := h.closed
  starts hs := by cases (h.starts hs).2.1.symm.trans hallow
  freed hf := by cases (h.freed hf).2.1.symm.trans hallow
  emptied := h.emptied

/-- A step that is safe goes on, and loses nothing. -/
theorem step_live (h : BufferInv s) (e : Event) (hok : BuffersSafe s e) :
    ∃ s', step s e = .next s' ∧ BufferInv s' := by
  cases e with
  | start timeSlots authenticates created =>
    refine ⟨_, rfl, ?_⟩
    cases hidle : s.control with
    | idle =>
      dsimp only
      split
      · rename_i hguard
        obtain ⟨hopen, hgone⟩ := Bool.and_eq_true_iff.mp hguard
        exact start_bufferInv h _ _ _ hidle (by simpa using hopen) hgone
      · exact h
    | _ => exact h
  | endCall =>
    refine ⟨_, rfl, ?_⟩
    cases hidle : s.control with
    | idle =>
      dsimp only
      split
      · refine h.ending (fun hf => (h.freed hf).2.1) (by rw [hidle]; rfl) rfl (fun hc => by cases hc) rfl
          (fun _ => rfl) fun he => by cases he
      · exact h
    | _ => exact h
  | autoRun =>
    refine ⟨_, rfl, ?_⟩
    split
    · rename_i hguard
      obtain ⟨hallow, hgone⟩ := Bool.and_eq_true_iff.mp hguard
      exact autoRun_bufferInv h hallow hgone
    · exact h
  | control answer => exact controlStep_bufferInv h hok
  | task answer => exact taskStep_bufferInv h answer
  | fnChange data => exact ⟨_, rfl, fnChange_bufferInv h data⟩
  | deliver packet allocated =>
    obtain ⟨rfl, hlive, hemptied⟩ := hok
    exact deliver_bufferInv h packet hlive hemptied
  | notify => exact notify_bufferInv h rfl hok

end Steps

/-- The gateway has been closed, and neither thread is at work on it. -/
def State.Rests (s : State) : Prop := s.control = .idle ∧ s.gwOpen = false ∧ s.task.gone = true

theorem BufferInv.settled {s : State} (h : BufferInv s) (hrest : s.Rests) : s.ledger.live = ∅ := by
  obtain ⟨hidle, hclosed, hgone⟩ := hrest
  have hown := h.conserved
  rw [Conserved, State.owned, owned_of_gone hgone, hidle,
    owned_of_not_live (h.closed hidle hclosed)] at hown
  exact hown.settled

/-- A safe run goes on, releases nothing twice and loses no buffer, and none is left at rest. -/
theorem safe_run_conserved {es : List Event} (hok : Meets step BuffersSafe State.boot es) :
    ∃ s, run step State.boot es = .next s ∧ Conserved s ∧ (s.Rests → s.ledger.live = ∅) := by
  have hstep : ∀ s e, BufferInv s → BuffersSafe s e → ∃ s', step s e = .next s' ∧ BufferInv s' :=
    fun _ e h hsafe => step_live h e hsafe
  obtain ⟨s, hrun, hinv⟩ := run_live hstep boot_bufferInv hok
  exact ⟨s, hrun, hinv.conserved, hinv.settled⟩

def plainPacket : Packet := ⟨⟨[0x00, 0x64, 0x01], fun _ => 0⟩, fun _ => true⟩

def emptyPacket : Packet := ⟨⟨[], fun _ => 0⟩, fun _ => true⟩

/-- The gateway waits for the answer to its authentication. -/
def authenticatingRun : List Event := [.start true true true, .control .goesOn]

/-- A packet is handled by the authentication, one by the task, one fails to decode and the last
comes after the task's end. -/
def servedRun : List Event :=
  authenticatingRun ++ [.fnChange true, .deliver plainPacket true, .control .goesOn] ++
    .control .succeeds :: .control .goesOn :: .control .succeeds :: List.replicate 5 (.task .goesOn) ++
    .deliver plainPacket true :: List.replicate 6 (.task .goesOn) ++
    .deliver emptyPacket true :: List.replicate 5 (.task .goesOn) ++
    .endCall :: List.replicate 3 (.control .goesOn) ++
    .task .goesOn :: .deliver plainPacket true :: List.replicate 8 (.control .goesOn)

theorem servedRun_conserved :
    ∃ s, run step State.boot servedRun = .next s ∧ s.ledger.next = 11 ∧ s.Rests ∧
      s.ledger.live = ∅ := by
  have hok : Meets step BuffersSafe State.boot servedRun := by decide
  obtain ⟨s, hrun, -, hsettled⟩ := safe_run_conserved hok
  have hend : ∃ t, run step State.boot servedRun = .next t ∧ t.ledger.next = 11 ∧ t.Rests :=
    ⟨_, rfl, rfl, rfl, rfl, rfl⟩
  obtain ⟨t, hrun', hnext, hrest⟩ := hend
  cases hrun.symm.trans hrun'
  exact ⟨s, hrun, hnext, hrest, hsettled hrest⟩

/-- A packet that comes before the start, one without a record and one that the authentication cannot
decode are left at rest, and one that is queued when the start gives up is left with nobody. -/
theorem packets_lost :
    (∃ s, run step State.boot [.deliver plainPacket true] = .next s ∧ s.Rests ∧
      s.ledger.live = {0, 1}) ∧
    (∃ s, run step State.boot [.deliver plainPacket false] = .next s ∧ s.Rests ∧
      s.ledger.live = {0}) ∧
    (∃ s, run step State.boot (authenticatingRun ++
        [.deliver emptyPacket true, .control .goesOn, .control .fails, .endCall] ++
        List.replicate 10 (.control .goesOn)) = .next s ∧ s.Rests ∧ s.ledger.live = {0, 1}) ∧
    ∃ s, run step State.boot
        [.start true false true, .deliver plainPacket true, .control .fails] = .next s ∧
      s.owned = [] ∧ s.ledger.live = {0, 1} := by
  refine ⟨⟨_, rfl, ⟨rfl, rfl, rfl⟩, ?_⟩, ⟨_, rfl, ⟨rfl, rfl, rfl⟩, ?_⟩,
    ⟨_, rfl, ⟨rfl, rfl, rfl⟩, ?_⟩, _, rfl, rfl, ?_⟩ <;> decide

end WiotaDev.GatewayThreads
