import WiotaDev.MessageQueueMailbox
import WiotaDev.GatewayThreads

/-! # Runs of the message queue

Every run of the queue is one of the mailbox, in whatever order its threads make their steps. -/

namespace WiotaDev.MessageQueue
open WordBytes PointerChains Ownership

variable {T : Type} [DecidableEq T]

/-- The queue, with some chains, is this mailbox. -/
def Refines (s : System T) (b : Mailbox T) : Prop := ∃ free queue, Rel s b free queue

variable {s s' : System T} {b : Mailbox T}

section Acts
variable {free queue : List ℕ} {t : T}

theorem Rel.refines_send (h : Rel s b free queue) {m : List Byte}
    (hs : s.step (.send t m) = some s') : ∃ b', b.step (.send t m) = some b' ∧ Refines s' b' := by
  rw [System.step] at hs
  split at hs
  next msg mq ht hfree =>
    cases hs
    have hbring := h.bring ht false m (x := fun i => .taken i m) (fun i => rfl)
      (fun mq got i hlen => ⟨rfl, rfl, hlen⟩)
    rw [hfree] at hbring
    obtain ⟨b', free', hb, hrel⟩ := hbring
    exact ⟨b', hb, free', queue, hrel⟩
  next => cases hs

theorem Rel.refines_urgent (h : Rel s b free queue) {m : List Byte}
    (hs : s.step (.urgent t m) = some s') : ∃ b', b.step (.urgent t m) = some b' ∧ Refines s' b' := by
  rw [System.step] at hs
  split at hs
  next msg mq ht hfree =>
    cases hs
    have hbring := h.bring ht true m (x := fun i => .writing true i m 0) (fun i => rfl)
      (fun mq got i hlen => ⟨rfl, rfl, hlen, Nat.zero_le _, (fun k c hc => by cases hc), fun hlink => by
        cases hlink⟩)
    rw [hfree] at hbring
    obtain ⟨b', free', hb, hrel⟩ := hbring
    exact ⟨b', hb, free', queue, hrel⟩
  next => cases hs

theorem Rel.refines_clearNext (h : Rel s b free queue) (hs : s.step (.clearNext t) = some s') :
    ∃ b', b.step (.clearNext t) = some b' ∧ Refines s' b' := by
  rw [System.step] at hs
  split at hs
  next msg buffer ht =>
    cases hs
    exact ⟨b, rfl, free, queue, h.clearNext ht⟩
  next => cases hs

theorem Rel.refines_write (h : Rel s b free queue) (hs : s.step (.write t) = some s') :
    ∃ b', b.step (.write t) = some b' ∧ Refines s' b' := by
  rw [System.step] at hs
  split at hs
  next urgent msg buffer k ht =>
    split at hs
    next c hc =>
      cases hs
      exact ⟨b, rfl, free, queue, h.write ht hc⟩
    next => cases hs
  next => cases hs

theorem Rel.refines_link (h : Rel s b free queue) (hs : s.step (.link t) = some s') :
    ∃ b', b.step (.link t) = some b' ∧ Refines s' b' := by
  rw [System.step] at hs
  split at hs
  next urgent msg buffer k ht =>
    by_cases hk : k < buffer.length
    · rw [if_pos hk] at hs
      cases hs
    · rw [if_neg hk] at hs
      obtain ⟨mq, b', queue', hok, hb, hrel⟩ := h.link ht hk
      rw [hok] at hs
      cases hs
      exact ⟨b', hb, free, queue', hrel⟩
  next => cases hs

theorem Rel.refines_recv (h : Rel s b free queue) {size : ℕ} (hs : s.step (.recv t size) = some s') :
    ∃ b', b.step (.recv t size) = some b' ∧ Refines s' b' := by
  rw [System.step] at hs
  split at hs
  next msg mq ht hhead =>
    cases hs
    have hrecv := h.recv ht size
    rw [hhead] at hrecv
    obtain ⟨b', queue', hb, hrel⟩ := hrecv
    exact ⟨b', hb, free, queue', hrel⟩
  next => cases hs

theorem Rel.refines_read (h : Rel s b free queue) (hs : s.step (.read t) = some s') :
    ∃ b', b.step (.read t) = some b' ∧ Refines s' b' := by
  rw [System.step] at hs
  split at hs
  next msg n out ht =>
    by_cases hout : out.length < n
    · rw [if_pos hout] at hs
      cases hs
      exact ⟨b, rfl, free, queue, h.read ht hout⟩
    · rw [if_neg hout] at hs
      cases hs
  next => cases hs

theorem Rel.refines_giveBack (h : Rel s b free queue) (hs : s.step (.giveBack t) = some s') :
    ∃ b', b.step (.giveBack t) = some b' ∧ Refines s' b' := by
  rw [System.step] at hs
  split at hs
  next msg n out ht =>
    by_cases hout : out.length < n
    · rw [if_pos hout] at hs
      cases hs
    · rw [if_neg hout] at hs
      cases hs
      obtain ⟨b', hb, hrel⟩ := h.giveBack ht hout
      exact ⟨b', hb, msg :: free, queue, hrel⟩
  next => cases hs

end Acts

/-- Each step of the queue is one of the mailbox. -/
theorem Refines.step (h : Refines s b) {act : Act T} (hs : s.step act = some s') :
    ∃ b', b.step act = some b' ∧ Refines s' b' := by
  obtain ⟨free, queue, h⟩ := h
  cases act with
  | send t m => exact h.refines_send hs
  | urgent t m => exact h.refines_urgent hs
  | clearNext t => exact h.refines_clearNext hs
  | write t => exact h.refines_write hs
  | link t => exact h.refines_link hs
  | recv t size => exact h.refines_recv hs
  | read t => exact h.refines_read hs
  | giveBack t => exact h.refines_giveBack hs
  | reset =>
    cases hs
    exact ⟨_, rfl, _, _, h.reset⟩

/-- And so each run is one. -/
theorem Refines.run (h : Refines s b) {acts : List (Act T)} (hs : s.run acts = some s') :
    ∃ b', b.run acts = some b' ∧ Refines s' b' := by
  induction acts generalizing s b with
  | nil =>
    cases hs
    exact ⟨b, rfl, h⟩
  | cons act acts ih =>
    rw [System.run, List.foldlM_cons, Option.bind_eq_bind, Option.bind_eq_some_iff] at hs
    obtain ⟨s₁, hstep, hrest⟩ := hs
    obtain ⟨b₁, hb, hrel⟩ := h.step hstep
    obtain ⟨b', hrun, hrel'⟩ := ih hrel hrest
    refine ⟨b', ?_, hrel'⟩
    rw [Mailbox.run, List.foldlM_cons, hb]
    exact hrun

omit [DecidableEq T] in
/-- At first the mailbox is empty, and there is room for as many messages as there are items. -/
theorem start_refines (pool : ℕ → ℕ → Byte) (msgSize poolSize : ℕ) :
    Refines (System.start pool msgSize poolSize : System T)
      (Mailbox.empty (rtMqInit pool msgSize poolSize).msgSize
        (rtMqInit pool msgSize poolSize).maxMsgs) := by
  obtain ⟨free, hshape, hmem⟩ := rtMqInit_shape pool msgSize poolSize
  have hmax : (rtMqInit pool msgSize poolSize).maxMsgs ≤ RT_MQ_ENTRY_MAX := by
    rw [rtMqInit_maxMsgs]
    exact Nat.lt_succ_iff.mp (Nat.mod_lt _ (by decide))
  have hnodup : free.Nodup := by
    have hall := hshape.nodup
    rw [List.append_nil] at hall
    exact hall
  have hfree : free.length = (rtMqInit pool msgSize poolSize).maxMsgs := by
    have hperm : free.Perm (List.range (rtMqInit pool msgSize poolSize).maxMsgs) :=
      (List.perm_ext_iff_of_nodup hnodup List.nodup_range).mpr fun i => by rw [hmem, List.mem_range]
    rw [hperm.length_eq, List.length_range]
  refine ⟨free, [], hshape, ⟨fun i => ?_, nofun, nofun⟩, hmax, rfl, hfree.symm, List.Forall₂.nil,
    fun _ => trivial, List.Forall₂.nil⟩
  rw [List.append_nil, hmem]
  exact ⟨Or.inl, fun h => h.elim id fun ⟨_, ht⟩ => nomatch ht⟩

/-! ## What the mailbox keeps -/

/-- The ticket of the message that is being carried. -/
def Errand.ticket : Errand → Option ℕ
  | .carrying ticket _ _ => some ticket
  | _ => none

/-- Each message that has been taken has been received or is being carried, once; and there is room for
the other messages, but for those that are waiting, brought or carried. -/
structure Mailbox.Sound (max : ℕ) (b : Mailbox T) (threads : Finset T) : Prop where
  busy : ∀ t, t ∈ threads ↔ b.errand t ≠ .idle
  room : b.room + b.queue.length + threads.card = max
  tickets : Owned (· < b.got.length) (b.received.map Receipt.ticket) fun t => (b.errand t).ticket
  once : (b.received.map Receipt.ticket).Nodup
  carried : ∀ t ticket m size, b.errand t = .carrying ticket m size → b.got[ticket]? = some m
  received : ∀ r ∈ b.received, b.got[r.ticket]? = some r.message

omit [DecidableEq T] in
theorem Mailbox.empty_sound (limit room : ℕ) : (Mailbox.empty limit room : Mailbox T).Sound room ∅ where
  busy t := by simp [Mailbox.empty]
  room := by simp [Mailbox.empty]
  tickets := ⟨fun i => by simp [Mailbox.empty, Errand.ticket], nofun, nofun⟩
  once := List.nodup_nil
  carried := nofun
  received := nofun

theorem ticket_update (errand : T → Errand) (t : T) (x : Errand) :
    (fun t' => (Function.update errand t x t').ticket) =
      Function.update (fun t' => (errand t').ticket) t x.ticket := by
  funext t'
  by_cases h : t' = t
  · rw [h, Function.update_self, Function.update_self]
  · rw [Function.update_of_ne h, Function.update_of_ne h]

/-- A thread without a message to carry, before and after, has no ticket. -/
theorem ticket_update_same {errand : T → Errand} {t : T} {x : Errand} (hx : x.ticket = (errand t).ticket) :
    (fun t' => (Function.update errand t x t').ticket) = fun t' => (errand t').ticket := by
  rw [ticket_update, hx]
  exact Function.update_eq_self t fun t' => (errand t').ticket

theorem carried_update {errand : T → Errand} {t : T} {x : Errand} {got : List Message}
    (h : ∀ t' ticket m size, errand t' = .carrying ticket m size → got[ticket]? = some m)
    (hx : ∀ ticket m size, x = .carrying ticket m size → got[ticket]? = some m) :
    ∀ t' ticket m size, Function.update errand t x t' = .carrying ticket m size →
      got[ticket]? = some m := by
  intro t' ticket m size ht'
  by_cases hne : t' = t
  · rw [hne, Function.update_self] at ht'
    exact hx ticket m size ht'
  · rw [Function.update_of_ne hne] at ht'
    exact h t' ticket m size ht'

variable {b' : Mailbox T} {max : ℕ} {threads : Finset T} {t : T}

/-- A thread that sets out is busy from then on. -/
theorem busy_insert (h : ∀ t', t' ∈ threads ↔ b.errand t' ≠ .idle) {x : Errand} (hx : x ≠ .idle)
    (t' : T) : t' ∈ insert t threads ↔ Function.update b.errand t x t' ≠ .idle := by
  rw [Finset.mem_insert]
  by_cases ht : t' = t
  · rw [ht, Function.update_self]
    exact iff_of_true (Or.inl rfl) hx
  · rw [Function.update_of_ne ht, ← h]
    exact or_iff_right ht

/-- A thread that has done its errand is not busy. -/
theorem busy_erase (h : ∀ t', t' ∈ threads ↔ b.errand t' ≠ .idle) (t' : T) :
    t' ∈ threads.erase t ↔ Function.update b.errand t .idle t' ≠ .idle := by
  rw [Finset.mem_erase]
  by_cases ht : t' = t
  · rw [ht, Function.update_self]
    exact iff_of_false (fun hne => hne.1 rfl) (fun hne => hne rfl)
  · rw [Function.update_of_ne ht, ← h]
    exact and_iff_right ht

theorem Mailbox.Sound.bring (h : b.Sound max threads) {urgent : Bool} {m : Message}
    (hb : b.bring t urgent m = some b') : ∃ threads', b'.Sound max threads' := by
  rw [Mailbox.bring] at hb
  split at hb
  next room herrand hroom =>
    split_ifs at hb
    cases hb
    have hidle : t ∉ threads := fun hmem => (h.busy t).mp hmem herrand
    have hticket : (Errand.bringing urgent m).ticket = (b.errand t).ticket := by
      rw [herrand]
      rfl
    refine ⟨insert t threads, busy_insert h.busy (by simp), ?_, ticket_update_same hticket ▸ h.tickets, h.once,
      carried_update h.carried (by simp), h.received⟩
    · dsimp only
      rw [Finset.card_insert_of_notMem hidle, ← h.room, hroom]
      omega
  next => cases hb

theorem Mailbox.Sound.link (h : b.Sound max threads) (hb : b.step (.link t) = some b') :
    ∃ threads', b'.Sound max threads' := by
  rw [Mailbox.step] at hb
  split at hb
  next urgent m herrand =>
    cases hb
    have hbusy : t ∈ threads := (h.busy t).mpr fun hidle => by
      rw [hidle] at herrand
      cases herrand
    have hticket : Errand.idle.ticket = (b.errand t).ticket := by
      rw [herrand]
      rfl
    have hlen : (if urgent then m :: b.queue else b.queue ++ [m]).length = b.queue.length + 1 := by
      split_ifs
      · rfl
      · rw [List.length_append, List.length_singleton]
    refine ⟨threads.erase t, busy_erase h.busy, ?_, ticket_update_same hticket ▸ h.tickets, h.once,
      carried_update h.carried (by simp), h.received⟩
    have hcard : 0 < threads.card := Finset.card_pos.mpr ⟨t, hbusy⟩
    have hroom := h.room
    dsimp only
    rw [hlen, Finset.card_erase_of_mem hbusy]
    omega
  next => cases hb

theorem getElem?_append_of_some {got : List Message} {i : ℕ} {m : Message} (h : got[i]? = some m)
    (m' : Message) : (got ++ [m'])[i]? = some m := by
  rw [List.getElem?_append_left (List.getElem?_eq_some_iff.mp h).1]
  exact h

theorem Mailbox.Sound.recv (h : b.Sound max threads) {size : ℕ} (hb : b.step (.recv t size) = some b') :
    ∃ threads', b'.Sound max threads' := by
  rw [Mailbox.step] at hb
  split at hb
  next m rest herrand hqueue =>
    cases hb
    have hidle : t ∉ threads := fun hmem => (h.busy t).mp hmem herrand
    have hnone : (b.errand t).ticket = none := by
      rw [herrand]
      rfl
    refine ⟨insert t threads, busy_insert h.busy (by simp), ?_, ?_, h.once, ?_, ?_⟩
    · have hroom := h.room
      rw [hqueue, List.length_cons] at hroom
      dsimp only
      rw [Finset.card_insert_of_notMem hidle]
      omega
    · -- the ticket is new
      dsimp only
      rw [ticket_update]
      have hnew : ¬ b.got.length < b.got.length := Nat.lt_irrefl _
      have hfresh : b.got.length ∉ b.received.map Receipt.ticket := fun hmem =>
        hnew ((h.tickets.items _).mpr (Or.inl hmem))
      refine (h.tickets.grow hnew fun i => ?_).take hnone hfresh
      rw [List.length_append, List.length_singleton]
      omega
    · apply carried_update
      · exact fun t' ticket m' size' ht' => getElem?_append_of_some (h.carried t' ticket m' size' ht') m
      · intro ticket m' size' hcarry
        cases hcarry
        exact List.getElem?_concat_length
    · exact fun r hr => getElem?_append_of_some (h.received r hr) m
  next => cases hb

theorem Mailbox.Sound.giveBack (h : b.Sound max threads) (hb : b.step (.giveBack t) = some b') :
    ∃ threads', b'.Sound max threads' := by
  rw [Mailbox.step] at hb
  split at hb
  next ticket m size herrand =>
    cases hb
    have hbusy : t ∈ threads := (h.busy t).mpr fun hidle => by
      rw [hidle] at herrand
      cases herrand
    have hticket : (b.errand t).ticket = some ticket := by
      rw [herrand]
      rfl
    refine ⟨threads.erase t, busy_erase h.busy, ?_, ?_, ?_, carried_update h.carried (by simp), ?_⟩
    · have hcard : 0 < threads.card := Finset.card_pos.mpr ⟨t, hbusy⟩
      have hroom := h.room
      dsimp only
      rw [Finset.card_erase_of_mem hbusy]
      omega
    · dsimp only
      rw [ticket_update]
      apply (h.tickets.give hticket).congr
      intro i
      rw [List.map_append, List.mem_append, List.mem_cons, or_comm]
      simp
    · have hout := h.tickets.apart t ticket hticket
      rw [List.map_append, List.map_singleton, ← List.concat_eq_append]
      exact h.once.concat hout
    · intro r hr
      rcases List.mem_append.mp hr with hr | hr
      · exact h.received r hr
      · rw [List.mem_singleton.mp hr]
        exact h.carried t ticket m size herrand
  next => cases hb

/-- One step of the mailbox. -/
theorem Mailbox.Sound.step (h : b.Sound max threads) {act : Act T} (hb : b.step act = some b') :
    ∃ threads', b'.Sound max threads' := by
  cases act with
  | send t m => exact h.bring hb
  | urgent t m => exact h.bring hb
  | clearNext t =>
    cases hb
    exact ⟨threads, h⟩
  | write t =>
    cases hb
    exact ⟨threads, h⟩
  | read t =>
    cases hb
    exact ⟨threads, h⟩
  | link t => exact h.link hb
  | recv t size => exact h.recv hb
  | giveBack t => exact h.giveBack hb
  | reset =>
    cases hb
    refine ⟨threads, h.busy, ?_, h.tickets, h.once, h.carried, h.received⟩
    exact h.room

/-- And so in every run. -/
theorem Mailbox.Sound.run (h : b.Sound max threads) {acts : List (Act T)} (hb : b.run acts = some b') :
    ∃ threads', b'.Sound max threads' := by
  induction acts generalizing b threads with
  | nil =>
    cases hb
    exact ⟨threads, h⟩
  | cons act acts ih =>
    rw [Mailbox.run, List.foldlM_cons, Option.bind_eq_bind, Option.bind_eq_some_iff] at hb
    obtain ⟨b₁, hstep, hrest⟩ := hb
    obtain ⟨threads₁, h₁⟩ := h.step hstep
    exact ih h₁ hrest

/-! ## Order -/

/-- No message is urgent, and the queue is not reset. -/
def Act.InTurn : Act T → Prop
  | .urgent _ _ | .reset => False
  | _ => True

/-- Messages are taken in the order in which they have been put. -/
def Mailbox.InTurn (b : Mailbox T) : Prop :=
  b.put = b.got ++ b.queue ∧ ∀ t urgent m, b.errand t = .bringing urgent m → urgent = false

theorem bringing_update {errand : T → Errand} {t : T} {x : Errand}
    (h : ∀ t' urgent m, errand t' = .bringing urgent m → urgent = false)
    (hx : ∀ urgent m, x = .bringing urgent m → urgent = false) :
    ∀ t' urgent m, Function.update errand t x t' = .bringing urgent m → urgent = false := by
  intro t' urgent m ht'
  by_cases hne : t' = t
  · rw [hne, Function.update_self] at ht'
    exact hx urgent m ht'
  · rw [Function.update_of_ne hne] at ht'
    exact h t' urgent m ht'

theorem Mailbox.InTurn.step (h : b.InTurn) {act : Act T} (hact : act.InTurn)
    (hb : b.step act = some b') : b'.InTurn := by
  obtain ⟨hput, hturn⟩ := h
  cases act with
  | send t m =>
    rw [Mailbox.step, Mailbox.bring] at hb
    split at hb
    next room herrand hroom =>
      split_ifs at hb
      cases hb
      refine ⟨hput, bringing_update hturn fun urgent m' hbring => ?_⟩
      cases hbring
      rfl
    next => cases hb
  | urgent t m => exact hact.elim
  | clearNext t =>
    cases hb
    exact ⟨hput, hturn⟩
  | write t =>
    cases hb
    exact ⟨hput, hturn⟩
  | read t =>
    cases hb
    exact ⟨hput, hturn⟩
  | link t =>
    rw [Mailbox.step] at hb
    split at hb
    next urgent m herrand =>
      have hnot : urgent = false := hturn t urgent m herrand
      subst hnot
      cases hb
      refine ⟨?_, bringing_update hturn (by simp)⟩
      dsimp only
      rw [hput, List.append_assoc]
      rfl
    next => cases hb
  | recv t size =>
    rw [Mailbox.step] at hb
    split at hb
    next m rest herrand hqueue =>
      cases hb
      refine ⟨?_, bringing_update hturn (by simp)⟩
      dsimp only
      rw [hput, hqueue, List.append_assoc, List.singleton_append]
    next => cases hb
  | giveBack t =>
    rw [Mailbox.step] at hb
    split at hb
    next ticket m size herrand =>
      cases hb
      exact ⟨hput, bringing_update hturn (by simp)⟩
    next => cases hb
  | reset => exact hact.elim

theorem Mailbox.InTurn.run (h : b.InTurn) {acts : List (Act T)} (hacts : ∀ act ∈ acts, act.InTurn)
    (hb : b.run acts = some b') : b'.InTurn := by
  induction acts generalizing b with
  | nil =>
    cases hb
    exact h
  | cons act acts ih =>
    rw [Mailbox.run, List.foldlM_cons, Option.bind_eq_bind, Option.bind_eq_some_iff] at hb
    obtain ⟨b₁, hstep, hrest⟩ := hb
    exact ih (h.step (hacts act List.mem_cons_self) hstep)
      (fun a ha => hacts a (List.mem_cons_of_mem act ha)) hrest

/-! ## Runs of the queue -/

/-- The mailbox of a new queue. -/
def Mailbox.start (pool : ℕ → ℕ → Byte) (msgSize poolSize : ℕ) : Mailbox T :=
  Mailbox.empty (rtMqInit pool msgSize poolSize).msgSize (rtMqInit pool msgSize poolSize).maxMsgs

/-- A run of a new queue is one of its mailbox. -/
private theorem start_run (pool : ℕ → ℕ → Byte) (msgSize poolSize : ℕ) {acts : List (Act T)} {s : System T}
    (h : (System.start pool msgSize poolSize).run acts = some s) :
    ∃ b threads, (Mailbox.start pool msgSize poolSize).run acts = some b ∧ Refines s b ∧
      b.Sound (rtMqInit pool msgSize poolSize).maxMsgs threads := by
  obtain ⟨b, hb, hrel⟩ := (start_refines pool msgSize poolSize).run h
  obtain ⟨threads, hsound⟩ := (Mailbox.empty_sound (rtMqInit pool msgSize poolSize).msgSize
    (rtMqInit pool msgSize poolSize).maxMsgs).run hb
  exact ⟨b, threads, hb, hrel, hsound⟩

/-- Two threads send at the same time, and the third one receives what has been linked first. -/
def demoActs : List (Act ℕ) :=
  [.send 0 [1, 2], .send 1 [3], .clearNext 1, .clearNext 0, .write 0, .write 1, .link 1, .write 0,
    .recv 2 4, .read 2, .link 0, .read 2, .read 2, .read 2, .giveBack 2]

def demoState : System ℕ :=
  ((System.start (fun _ _ => 0) 4 16).run demoActs).getD (System.start (fun _ _ => 0) 4 16)

private theorem demoActs_run : (System.start (fun _ _ => 0) 4 16).run demoActs = some demoState := by
  have hsome : ((System.start (fun _ _ => 0) 4 16).run demoActs).isSome = true := by decide
  obtain ⟨s, hs⟩ := Option.isSome_iff_exists.mp hsome
  rw [demoState, hs, Option.getD_some]

/-- Whatever the order of the steps is in which threads send, receive and reset, the queue is a mailbox:
no item is lost or with two of its users, each message that is taken is received by one thread, and
what has been received is what had been sent. -/
theorem run_mailbox (pool : ℕ → ℕ → Byte) (msgSize poolSize : ℕ) {acts : List (Act T)} {s : System T}
    (h : (System.start pool msgSize poolSize).run acts = some s) :
    ∃ b threads, (Mailbox.start pool msgSize poolSize).run acts = some b ∧ Refines s b ∧
      b.Sound (rtMqInit pool msgSize poolSize).maxMsgs threads :=
  start_run pool msgSize poolSize h

theorem demo_run_mailbox : ∃ b threads, (Mailbox.start (fun _ _ => 0) 4 16).run demoActs = some b ∧
    Refines demoState b ∧ b.Sound (rtMqInit (fun _ _ => 0) 4 16).maxMsgs threads :=
  run_mailbox (fun _ _ => 0) 4 16 demoActs_run

/-- Where no message is urgent and the queue is not reset, the message that is taken as the `n`-th one is
the `n`-th one that has been put. -/
theorem run_inTurn (pool : ℕ → ℕ → Byte) (msgSize poolSize : ℕ) {acts : List (Act T)} {s : System T}
    (hacts : ∀ act ∈ acts, act.InTurn) (h : (System.start pool msgSize poolSize).run acts = some s) :
    ∃ b, (Mailbox.start pool msgSize poolSize).run acts = some b ∧
      List.Forall₂ (Matches s.mq.msgSize) s.returned b.received ∧
      (b.received.map Receipt.ticket).Nodup ∧
      (∀ r ∈ b.received, b.put[r.ticket]? = some r.message) ∧
      b.put.length = b.got.length + s.mq.entry := by
  obtain ⟨b, threads, hb, ⟨free, queue, hrel⟩, hsound⟩ := start_run pool msgSize poolSize h
  have hstart : (Mailbox.start pool msgSize poolSize : Mailbox T).InTurn := ⟨rfl, nofun⟩
  obtain ⟨hput, -⟩ := hstart.run hacts hb
  refine ⟨b, hb, hrel.received, hsound.once, fun r hr => ?_, ?_⟩
  · have hgot := hsound.received r hr
    rw [hput, List.getElem?_append_left (List.getElem?_eq_some_iff.mp hgot).1]
    exact hgot
  · rw [hput, List.length_append, hrel.shape.entry, hrel.messages.length_eq]

theorem demo_run_inTurn : ∃ b, (Mailbox.start (fun _ _ => 0) 4 16).run demoActs = some b ∧
    List.Forall₂ (Matches demoState.mq.msgSize) demoState.returned b.received ∧
    (b.received.map Receipt.ticket).Nodup ∧
    (∀ r ∈ b.received, b.put[r.ticket]? = some r.message) ∧
    b.put.length = b.got.length + demoState.mq.entry := by
  apply run_inTurn (fun _ _ => 0) 4 16 _ demoActs_run
  simp [demoActs, Act.InTurn]

/-- A call waits only where the queue is empty, or where all items are queued or with a thread, and a
message that has been copied is always linked. -/
theorem blocked_iff (pool : ℕ → ℕ → Byte) (msgSize poolSize : ℕ) {acts : List (Act T)} {s : System T}
    (h : (System.start pool msgSize poolSize).run acts = some s) :
    ∃ threads : Finset T, (∀ t, t ∈ threads ↔ s.task t ≠ .idle) ∧
      (∀ t m, s.task t = .idle → m.length ≤ s.mq.msgSize →
        (s.step (.send t m) = none ↔
          s.mq.entry + threads.card = (rtMqInit pool msgSize poolSize).maxMsgs)) ∧
      (∀ t size, s.task t = .idle → (s.step (.recv t size) = none ↔ s.mq.entry = 0)) ∧
      ∀ t urgent msg m k, s.task t = .writing urgent msg m k → m.length ≤ k →
        s.step (.link t) ≠ none := by
  obtain ⟨b, threads, hb, ⟨free, queue, hrel⟩, hsound⟩ := start_run pool msgSize poolSize h
  have hroom := hsound.room
  rw [hrel.room, ← hrel.messages.length_eq, ← hrel.shape.entry] at hroom
  refine ⟨threads, fun t => ?_, fun t m ht hlen => ?_, fun t size ht => ?_, fun t urgent msg m k ht hk => ?_⟩
  · rw [hsound.busy]
    apply not_congr
    constructor
    · intro herrand
      have hdo := hrel.tasks t
      rw [herrand] at hdo
      cases htask : s.task t with
      | idle => rfl
      | taken msg buffer =>
        rw [htask] at hdo
        exact hdo.elim
      | writing urgent msg buffer k =>
        rw [htask] at hdo
        exact hdo.elim
      | reading msg n out =>
        rw [htask] at hdo
        exact hdo.elim
    · exact hrel.errand_idle
  · rw [System.step, ht]
    rcases hrel.shape.takeFree hlen with ⟨hnil, hfull⟩ | ⟨msg, rest, mq, hcons, hok, -⟩
    · rw [hnil, List.length_nil] at hroom
      rw [hfull]
      exact iff_of_true rfl (by omega)
    · rw [hcons, List.length_cons] at hroom
      rw [hok]
      exact iff_of_false (Option.some_ne_none _) (by omega)
  · rw [System.step, ht, hrel.shape.entry]
    rcases hrel.shape.takeHead with ⟨rfl, hempty⟩ | ⟨msg, rest, mq, rfl, hok, -⟩
    · rw [hempty]
      exact iff_of_true rfl rfl
    · rw [hok]
      exact iff_of_false (Option.some_ne_none _) (Nat.succ_ne_zero _)
  · obtain ⟨mq, b', queue', hok, -, -⟩ := hrel.link ht (Nat.not_lt.mpr hk)
    rw [System.step, ht]
    dsimp only
    rw [if_neg (Nat.not_lt.mpr hk), hok]
    exact Option.some_ne_none _

theorem demo_blocked_iff : ∃ threads : Finset ℕ, (∀ t, t ∈ threads ↔ demoState.task t ≠ .idle) ∧
    (∀ t m, demoState.task t = .idle → m.length ≤ demoState.mq.msgSize →
      (demoState.step (.send t m) = none ↔
        demoState.mq.entry + threads.card = (rtMqInit (fun _ _ => 0) 4 16).maxMsgs)) ∧
    (∀ t size, demoState.task t = .idle →
      (demoState.step (.recv t size) = none ↔ demoState.mq.entry = 0)) ∧
    ∀ t urgent msg m k, demoState.task t = .writing urgent msg m k → m.length ≤ k →
      demoState.step (.link t) ≠ none :=
  blocked_iff (fun _ _ => 0) 4 16 demoActs_run

/-- The queue that `uc_wiota_gateway_create_queue` makes for eight messages has the items that the
gateway's threads find in it. -/
theorem gateway_items (pool : ℕ → ℕ → Byte) :
    (rtMqInit pool 4 (4 * 8)).maxMsgs = GatewayThreads.GATEWAY_MQ_SIZE := by
  rw [rtMqInit_maxMsgs]
  rfl

end WiotaDev.MessageQueue
