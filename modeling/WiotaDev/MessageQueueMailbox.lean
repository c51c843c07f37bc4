import WiotaDev.MessageQueueItems
import WiotaDev.Ownership
import Mathlib.Data.List.Forall2
import Mathlib.Data.Finset.Card

/-! # The message queue as a mailbox

For its threads the queue is a mailbox: a number of messages there is room for, and the messages that
wait. Each step that a thread makes in a call is one of the mailbox, or none. -/

namespace WiotaDev.MessageQueue
open WordBytes PointerChains Ownership

variable {T : Type} [DecidableEq T]

/-! ## The mailbox -/

abbrev Message := List Byte

/-- What a thread is about: it brings a message there is room for, or carries one away. Messages are
numbered in the order in which they have been taken. -/
inductive Errand
  | idle
  | bringing (urgent : Bool) (message : Message)
  | carrying (ticket : ℕ) (message : Message) (size : ℕ)

/-- A message that has been received, with the size that was asked for. -/
structure Receipt (T : Type) where
  thread : T
  ticket : ℕ
  message : Message
  size : ℕ

/-- The mailbox, and which messages have been put into it, taken out and received. -/
structure Mailbox (T : Type) where
  limit : ℕ
  room : ℕ
  queue : List Message
  errand : T → Errand
  put : List Message
  got : List Message
  received : List (Receipt T)

def Mailbox.bring (b : Mailbox T) (t : T) (urgent : Bool) (m : Message) : Option (Mailbox T) :=
  match b.errand t, b.room with
  | .idle, room + 1 =>
    if m.length ≤ b.limit then
      some { b with room := room, errand := Function.update b.errand t (.bringing urgent m) }
    else none
  | _, _ => none

def Mailbox.step (b : Mailbox T) : Act T → Option (Mailbox T)
  | .send t m => b.bring t false m
  | .urgent t m => b.bring t true m
  | .clearNext _ | .write _ | .read _ => some b
  | .link t =>
    match b.errand t with
    | .bringing urgent m =>
      some { b with
        queue := if urgent then m :: b.queue else b.queue ++ [m]
        put := b.put ++ [m]
        errand := Function.update b.errand t .idle }
    | _ => none
  | .recv t size =>
    match b.errand t, b.queue with
    | .idle, m :: rest =>
      some { b with
        queue := rest
        got := b.got ++ [m]
        errand := Function.update b.errand t (.carrying b.got.length m size) }
    | _, _ => none
  | .giveBack t =>
    match b.errand t with
    | .carrying ticket m size =>
      some { b with
        room := b.room + 1
        received := b.received ++ [⟨t, ticket, m, size⟩]
        errand := Function.update b.errand t .idle }
    | _ => none
  | .reset => some { b with room := b.room + b.queue.length, queue := [] }

def Mailbox.run (b : Mailbox T) (acts : List (Act T)) : Option (Mailbox T) :=
  acts.foldlM Mailbox.step b

def Mailbox.empty (limit room : ℕ) : Mailbox T := ⟨limit, room, [], fun _ => .idle, [], [], []⟩

/-! ## Items and threads -/

/-- The item that a thread has. -/
def Task.item : Task → Option ℕ
  | .idle => none
  | .taken msg _ => some msg
  | .writing _ msg _ _ => some msg
  | .reading msg _ _ => some msg

theorem item_update (task : T → Task) (t : T) (x : Task) :
    (fun t' => (Function.update task t x t').item) =
      Function.update (fun t' => (task t').item) t x.item := by
  funext t'
  by_cases h : t' = t
  · rw [h, Function.update_self, Function.update_self]
  · rw [Function.update_of_ne h, Function.update_of_ne h]

/-- The item holds the message. -/
def Stands (payload : ℕ → ℕ → Byte) (i : ℕ) (m : Message) : Prop :=
  ∀ (k : ℕ) (b : Byte), m[k]? = some b → payload i k = b

/-- Where a thread is in a call, and what it is about. -/
def Task.Does (mq : Mq) (got : List Message) : Task → Errand → Prop
  | .idle, .idle => True
  | .taken _ buffer, .bringing urgent m => urgent = false ∧ buffer = m ∧ m.length ≤ mq.msgSize
  | .writing urgent msg buffer k, .bringing urgent' m =>
    urgent = urgent' ∧ buffer = m ∧ m.length ≤ mq.msgSize ∧ k ≤ m.length ∧
      Stands mq.payload msg (m.take k) ∧ (urgent = false → mq.next msg = none)
  | .reading msg n out, .carrying ticket m size =>
    n = min size mq.msgSize ∧ got[ticket]? = some m ∧ m.length ≤ mq.msgSize ∧
      Stands mq.payload msg m ∧ out.length ≤ n ∧ Stands mq.payload msg out
  | _, _ => False

/-- Nothing changes for a thread when its item stays as it is and more messages are taken. -/
theorem Task.Does.congr {mq mq' : Mq} {got got' : List Message} {x : Task} {y : Errand}
    (h : x.Does mq got y) (hsize : mq'.msgSize = mq.msgSize) (hgot : got <+: got')
    (hpayload : ∀ i, x.item = some i → mq'.payload i = mq.payload i)
    (hnext : ∀ i, x.item = some i → mq'.next i = mq.next i) : x.Does mq' got' y := by
  cases x with
  | idle =>
    cases y with
    | idle => trivial
    | bringing urgent m => exact h.elim
    | carrying ticket m size => exact h.elim
  | taken msg buffer =>
    cases y with
    | bringing urgent m =>
      obtain ⟨hurgent, hbuffer, hlen⟩ := h
      exact ⟨hurgent, hbuffer, hsize ▸ hlen⟩
    | idle => exact h.elim
    | carrying ticket m size => exact h.elim
  | writing urgent msg buffer k =>
    cases y with
    | bringing urgent' m =>
      obtain ⟨hurgent, hbuffer, hlen, hk, hstands, hnone⟩ := h
      refine ⟨hurgent, hbuffer, hsize ▸ hlen, hk, fun j b hb => ?_, fun hu => ?_⟩
      · rw [hpayload msg rfl]
        exact hstands j b hb
      · rw [hnext msg rfl]
        exact hnone hu
    | idle => exact h.elim
    | carrying ticket m size => exact h.elim
  | reading msg n out =>
    cases y with
    | carrying ticket m size =>
      obtain ⟨hn, hticket, hlen, hstands, hout, hcopied⟩ := h
      obtain ⟨more, rfl⟩ := hgot
      have hticket' : (got ++ more)[ticket]? = some m := by
        rw [List.getElem?_append_left (List.getElem?_eq_some_iff.mp hticket).1]
        exact hticket
      refine ⟨hsize ▸ hn, hticket', hsize ▸ hlen, ?_, hout, ?_⟩
      · intro j b hb
        rw [hpayload msg rfl]
        exact hstands j b hb
      · intro j b hb
        rw [hpayload msg rfl]
        exact hcopied j b hb
    | idle => exact h.elim
    | bringing urgent m => exact h.elim

/-- What a call of `rt_mq_recv` has returned: as much of the message as was asked for, and what
stood behind it in the item. -/
def Matches (limit : ℕ) (x : T × List Byte) (r : Receipt T) : Prop :=
  x.1 = r.thread ∧ x.2.length = min r.size limit ∧
    ∀ (k : ℕ) (b c : Byte), x.2[k]? = some b → r.message[k]? = some c → b = c

/-- The queue, with its chains, is this mailbox. -/
structure Rel (s : System T) (b : Mailbox T) (free queue : List ℕ) : Prop where
  shape : s.mq.Shape free queue
  owned : Owned (· < s.mq.maxMsgs) (free ++ queue) fun t => (s.task t).item
  max : s.mq.maxMsgs ≤ RT_MQ_ENTRY_MAX
  limit : b.limit = s.mq.msgSize
  room : b.room = free.length
  messages : List.Forall₂ (fun i m => Stands s.mq.payload i m ∧ m.length ≤ s.mq.msgSize) queue b.queue
  tasks : ∀ t, (s.task t).Does s.mq b.got (b.errand t)
  received : List.Forall₂ (Matches s.mq.msgSize) s.returned b.received

variable {s : System T} {b b' : Mailbox T} {free queue free' queue' : List ℕ} {t : T}

/-- One thread makes a step that leaves the items of the others as they are. -/
theorem Rel.set (h : Rel s b free queue) {mq : Mq} {x : Task} {y : Errand}
    (hshape : mq.Shape free' queue') (hsize : mq.msgSize = s.mq.msgSize)
    (hmax : mq.maxMsgs = s.mq.maxMsgs)
    (howned : Owned (· < s.mq.maxMsgs) (free' ++ queue')
      (Function.update (fun t' => (s.task t').item) t x.item))
    (hothers : ∀ t' i, t' ≠ t → (s.task t').item = some i →
      mq.payload i = s.mq.payload i ∧ mq.next i = s.mq.next i)
    (hlimit : b'.limit = b.limit) (hroom : b'.room = free'.length)
    (hmessages : List.Forall₂ (fun i m => Stands mq.payload i m ∧ m.length ≤ s.mq.msgSize) queue' b'.queue)
    (herrand : b'.errand = Function.update b.errand t y) (hgot : b.got <+: b'.got)
    (hdoes : x.Does mq b'.got y) (hreceived : List.Forall₂ (Matches s.mq.msgSize) s.returned b'.received) :
    Rel (s.set t mq x) b' free' queue' where
  shape := hshape
  owned := by
    rw [System.set]
    dsimp only
    rw [item_update, hmax]
    exact howned
  max := by
    rw [System.set]
    dsimp only
    rw [hmax]
    exact h.max
  limit := by
    rw [hlimit, h.limit]
    exact hsize.symm
  room := hroom
  messages := by
    rw [System.set]
    dsimp only
    rw [hsize]
    exact hmessages
  tasks t' := by
    rw [herrand, System.set]
    dsimp only
    by_cases ht : t' = t
    · rw [ht, Function.update_self, Function.update_self]
      exact hdoes
    · rw [Function.update_of_ne ht, Function.update_of_ne ht]
      exact (h.tasks t').congr hsize hgot (fun i hi => (hothers t' i ht hi).1)
        (fun i hi => (hothers t' i ht hi).2)
  received := by
    rw [System.set]
    dsimp only
    rw [hsize]
    exact hreceived

omit [DecidableEq T] in
/-- There is an entry for each item that is not queued. -/
theorem Rel.entry_lt (h : Rel s b free queue) {i : ℕ} (hi : (s.task t).item = some i) :
    queue.length < RT_MQ_ENTRY_MAX := by
  have hout : i ∉ queue := fun hm => h.owned.apart t i hi (List.mem_append_right free hm)
  have hnodup : (i :: queue).Nodup :=
    List.nodup_cons.mpr ⟨hout, (List.nodup_append.mp h.shape.nodup).2.1⟩
  have hsub : i :: queue ⊆ List.range s.mq.maxMsgs := by
    intro j hj
    rw [List.mem_range]
    apply (h.owned.items j).mpr
    rcases List.mem_cons.mp hj with rfl | hj
    · exact Or.inr ⟨t, hi⟩
    · exact Or.inl (List.mem_append_right free hj)
  have hle := (hnodup.subperm hsub).length_le
  rw [List.length_cons, List.length_range] at hle
  exact Nat.lt_of_lt_of_le hle h.max

omit [DecidableEq T] in
theorem Rel.errand_idle (h : Rel s b free queue) (ht : s.task t = .idle) : b.errand t = .idle := by
  have hdo := h.tasks t
  rw [ht] at hdo
  cases hb : b.errand t with
  | idle => rfl
  | bringing urgent m =>
    rw [hb] at hdo
    exact hdo.elim
  | carrying ticket m size =>
    rw [hb] at hdo
    exact hdo.elim

/-- A thread takes a free item for its message, if there is room in the mailbox, and otherwise not. -/
theorem Rel.bring (h : Rel s b free queue) (ht : s.task t = .idle) (urgent : Bool) (m : Message)
    {x : ℕ → Task} (hx : ∀ i, (x i).item = some i)
    (hdoes : ∀ mq got i, m.length ≤ mq.msgSize → (x i).Does mq got (.bringing urgent m)) :
    match s.mq.takeFree m.length with
    | .ok (msg, mq) => ∃ b' free', b.bring t urgent m = some b' ∧ Rel (s.set t mq (x msg)) b' free' queue
    | .error _ => b.bring t urgent m = none := by
  have herrand := h.errand_idle ht
  by_cases hfits : m.length ≤ s.mq.msgSize
  · rcases h.shape.takeFree hfits with ⟨rfl, hfull⟩ | ⟨msg, rest, mq, rfl, hok, hshape, hsame, hnext⟩
    · have hroom : b.room = 0 := h.room
      rw [hfull]
      dsimp only
      rw [Mailbox.bring, herrand, hroom]
    · have hroom : b.room = rest.length + 1 := h.room
      rw [hok]
      dsimp only
      refine ⟨{ b with room := rest.length, errand := Function.update b.errand t (.bringing urgent m) },
        rest, ?_, ?_⟩
      · rw [Mailbox.bring, herrand, hroom]
        dsimp only
        rw [if_pos (h.limit.symm ▸ hfits)]
      · have hmsg : msg ∉ rest ++ queue := (List.nodup_cons.mp h.shape.nodup).1
        have hitem : (s.task t).item = none := by
          rw [ht]
          rfl
        refine h.set hshape hsame.msgSize hsame.maxMsgs ?_ ?_ rfl rfl ?_ rfl List.prefix_rfl ?_ h.received
        · rw [hx]
          exact h.owned.take hitem hmsg
        · intro t' i _ _
          exact ⟨congrFun hsame.payload i, congrFun hnext i⟩
        · rw [hsame.payload]
          exact h.messages
        · exact hdoes mq b.got msg (hsame.msgSize.symm ▸ hfits)
  · have hfail : s.mq.takeFree m.length = .error .error := by
      rw [Mq.takeFree, if_pos (Nat.lt_of_not_le hfits)]
    rw [hfail]
    dsimp only
    rw [Mailbox.bring, herrand]
    cases hroom : b.room with
    | zero => rfl
    | succ room =>
      dsimp only
      rw [if_neg (h.limit.symm ▸ hfits)]

/-- A thread that has copied its message links it, and that does not fail. -/
theorem Rel.link (h : Rel s b free queue) {urgent : Bool} {msg k : ℕ} {buffer : List Byte}
    (ht : s.task t = .writing urgent msg buffer k) (hk : ¬ k < buffer.length) :
    ∃ mq b' queue', (if urgent then s.mq.linkHead msg else s.mq.linkTail msg) = .ok mq ∧
      b.step (.link t) = some b' ∧ Rel (s.set t mq .idle) b' free queue' := by
  have hitem : (s.task t).item = some msg := by
    rw [ht]
    rfl
  have hout := h.owned.apart t msg hitem
  have hfree : msg ∉ free := fun hm => hout (List.mem_append_left _ hm)
  have hdo := h.tasks t
  rw [ht] at hdo
  cases herrand : b.errand t with
  | idle =>
    rw [herrand] at hdo
    exact hdo.elim
  | carrying ticket m size =>
    rw [herrand] at hdo
    exact hdo.elim
  | bringing urgent' m =>
    rw [herrand] at hdo
    obtain ⟨rfl, rfl, hlen, hle, hstands, hnone⟩ := hdo
    have hfull : Stands s.mq.payload msg buffer := by
      rw [List.take_of_length_le (Nat.not_lt.mp hk)] at hstands
      exact hstands
    have howned := h.owned.give hitem
    -- the items of the other threads are not in the queue
    have hothers : ∀ t' i, t' ≠ t → (s.task t').item = some i → i ∉ queue ∧ i ≠ msg := fun t' i hne hi =>
      ⟨fun hm => h.owned.apart t' i hi (List.mem_append_right _ hm),
        fun heq => hne (h.owned.alone t' t msg (heq ▸ hi) hitem)⟩
    cases urgent with
    | true =>
      obtain ⟨mq, hok, hshape, hsame, hnext⟩ := h.shape.linkHead hout (h.entry_lt hitem)
      refine ⟨mq, { b with
        queue := buffer :: b.queue
        put := b.put ++ [buffer]
        errand := Function.update b.errand t .idle }, msg :: queue, hok, ?_, ?_⟩
      · rw [Mailbox.step, herrand]
        rfl
      · refine h.set hshape hsame.msgSize hsame.maxMsgs ?_ ?_ rfl h.room ?_ rfl List.prefix_rfl trivial
          h.received
        · exact howned.congr fun i => List.perm_middle.symm.mem_iff
        · intro t' i hne hi
          exact ⟨congrFun hsame.payload i, hnext i (hothers t' i hne hi).2⟩
        · rw [hsame.payload]
          exact List.Forall₂.cons ⟨hfull, hlen⟩ h.messages
    | false =>
      obtain ⟨mq, hok, hshape, hsame, hnext⟩ := h.shape.linkTail hout (hnone rfl) (h.entry_lt hitem)
      refine ⟨mq, { b with
        queue := b.queue ++ [buffer]
        put := b.put ++ [buffer]
        errand := Function.update b.errand t .idle }, queue ++ [msg], hok, ?_, ?_⟩
      · rw [Mailbox.step, herrand]
        rfl
      · refine h.set hshape hsame.msgSize hsame.maxMsgs ?_ ?_ rfl h.room ?_ rfl List.prefix_rfl trivial
          h.received
        · apply howned.congr
          intro i
          rw [← List.append_assoc, List.mem_append, List.mem_singleton, List.mem_cons, or_comm]
        · intro t' i hne hi
          exact ⟨congrFun hsame.payload i, hnext i (hothers t' i hne hi).1⟩
        · rw [hsame.payload]
          exact List.rel_append h.messages (List.Forall₂.cons ⟨hfull, hlen⟩ List.Forall₂.nil)

/-- A thread takes the first message, if there is one, and otherwise not. -/
theorem Rel.recv (h : Rel s b free queue) (ht : s.task t = .idle) (size : ℕ) :
    match s.mq.takeHead with
    | .ok (msg, mq) => ∃ b' queue', b.step (.recv t size) = some b' ∧
        Rel (s.set t mq (.reading msg (if size > mq.msgSize then mq.msgSize else size) [])) b' free queue'
    | .error _ => b.step (.recv t size) = none := by
  have herrand := h.errand_idle ht
  rcases h.shape.takeHead with ⟨rfl, hempty⟩ | ⟨msg, rest, mq, rfl, hok, hshape, hsame, hnext⟩
  · rw [hempty]
    dsimp only
    have hqueue : b.queue = [] := List.forall₂_nil_left_iff.mp h.messages
    rw [Mailbox.step, herrand, hqueue]
  · rw [hok]
    dsimp only
    obtain ⟨m, more, ⟨hstands, hlen⟩, hrest, hqueue⟩ := List.forall₂_cons_left_iff.mp h.messages
    refine ⟨{ b with
      queue := more
      got := b.got ++ [m]
      errand := Function.update b.errand t (.carrying b.got.length m size) }, rest, ?_, ?_⟩
    · rw [Mailbox.step, herrand, hqueue]
    · have hmsg : msg ∉ free ++ rest := by
        have hnodup := List.nodup_middle.mp h.shape.nodup
        exact (List.nodup_cons.mp hnodup).1
      have hitem : (s.task t).item = none := by
        rw [ht]
        rfl
      have hn : (if size > mq.msgSize then mq.msgSize else size) = min size mq.msgSize := by
        rw [Nat.min_def]
        split_ifs <;> omega
      refine h.set hshape hsame.msgSize hsame.maxMsgs ?_ ?_ rfl h.room ?_ rfl (List.prefix_append _ _) ?_
        h.received
      · have howned := h.owned.congr fun i => List.perm_middle.mem_iff
        exact howned.take hitem hmsg
      · intro t' i _ _
        exact ⟨congrFun hsame.payload i, congrFun hnext i⟩
      · rw [hsame.payload]
        exact hrest
      · refine ⟨hn, List.getElem?_concat_length, hsame.msgSize.symm ▸ hlen, ?_, Nat.zero_le _, ?_⟩
        · rw [hsame.payload]
          exact hstands
        · intro k c hc
          cases hc

/-- A thread that has copied a message out of its item gives the item back. -/
theorem Rel.giveBack (h : Rel s b free queue) {msg n : ℕ} {out : List Byte}
    (ht : s.task t = .reading msg n out) (hout : ¬ out.length < n) :
    ∃ b', b.step (.giveBack t) = some b' ∧
      Rel { s.set t (s.mq.giveBack msg) .idle with returned := s.returned ++ [(t, out)] } b'
        (msg :: free) queue := by
  have hitem : (s.task t).item = some msg := by
    rw [ht]
    rfl
  have hnotin := h.owned.apart t msg hitem
  have hdo := h.tasks t
  rw [ht] at hdo
  cases herrand : b.errand t with
  | idle =>
    rw [herrand] at hdo
    exact hdo.elim
  | bringing urgent m =>
    rw [herrand] at hdo
    exact hdo.elim
  | carrying ticket m size =>
    rw [herrand] at hdo
    obtain ⟨hn, hticket, hlen, hstands, hle, hcopied⟩ := hdo
    have hmatch : Matches s.mq.msgSize (t, out) ⟨t, ticket, m, size⟩ :=
      ⟨rfl, by dsimp only; omega, fun k c d hc hd => (hcopied k c hc).symm.trans (hstands k d hd)⟩
    have hset : Rel (s.set t (s.mq.giveBack msg) .idle) { b with
        room := b.room + 1
        errand := Function.update b.errand t .idle } (msg :: free) queue := by
      refine h.set (h.shape.giveBack hnotin) rfl rfl (h.owned.give hitem) ?_ rfl ?_ h.messages rfl
        List.prefix_rfl trivial h.received
      · intro t' i hne hi
        have hother : i ≠ msg := fun heq => hne (h.owned.alone t' t msg (heq ▸ hi) hitem)
        exact ⟨rfl, Function.update_of_ne hother _ _⟩
      · rw [h.room]
        rfl
    refine ⟨{ b with
      room := b.room + 1
      received := b.received ++ [⟨t, ticket, m, size⟩]
      errand := Function.update b.errand t .idle }, ?_, ?_⟩
    · rw [Mailbox.step, herrand]
    · exact ⟨hset.shape, hset.owned, hset.max, hset.limit, hset.room, hset.messages, hset.tasks,
        List.rel_append h.received (List.Forall₂.cons hmatch List.Forall₂.nil)⟩

theorem forall₂_stands_congr {payload payload' : ℕ → ℕ → Byte} {limit : ℕ} {is : List ℕ}
    {ms : List Message} (h : List.Forall₂ (fun i m => Stands payload i m ∧ m.length ≤ limit) is ms)
    (heq : ∀ i ∈ is, payload' i = payload i) :
    List.Forall₂ (fun i m => Stands payload' i m ∧ m.length ≤ limit) is ms := by
  induction h with
  | nil => exact List.Forall₂.nil
  | cons hhead htail ih =>
    refine List.Forall₂.cons ⟨fun k c hc => ?_, hhead.2⟩ (ih fun i hi => heq i (List.mem_cons_of_mem _ hi))
    rw [heq _ List.mem_cons_self]
    exact hhead.1 k c hc

/-- `msg->next = RT_NULL` in the item of a thread. -/
theorem Rel.clearNext (h : Rel s b free queue) {msg : ℕ} {buffer : List Byte}
    (ht : s.task t = .taken msg buffer) :
    Rel (s.set t (s.mq.clearNext msg) (.writing false msg buffer 0)) b free queue := by
  have hitem : (s.task t).item = some msg := by
    rw [ht]
    rfl
  have hnotin := h.owned.apart t msg hitem
  have hdo := h.tasks t
  rw [ht] at hdo
  refine h.set (y := b.errand t) (h.shape.clearNext hnotin) rfl rfl ?_ ?_ rfl h.room h.messages
    (Function.update_eq_self t b.errand).symm List.prefix_rfl ?_ h.received
  · rw [show (Task.writing false msg buffer 0).item = (s.task t).item from hitem.symm]
    exact (Function.update_eq_self t fun t' => (s.task t').item).symm ▸ h.owned
  · intro t' i hne hi
    have hother : i ≠ msg := fun heq => hne (h.owned.alone t' t msg (heq ▸ hi) hitem)
    exact ⟨rfl, Function.update_of_ne hother _ _⟩
  · cases herrand : b.errand t with
    | idle =>
      rw [herrand] at hdo
      exact hdo.elim
    | carrying ticket m size =>
      rw [herrand] at hdo
      exact hdo.elim
    | bringing urgent m =>
      rw [herrand] at hdo
      obtain ⟨rfl, rfl, hlen⟩ := hdo
      refine ⟨rfl, rfl, hlen, Nat.zero_le _, fun k c hc => ?_, fun _ => Function.update_self _ _ _⟩
      cases hc

/-- A thread copies a byte of its message into its item. -/
theorem Rel.write (h : Rel s b free queue) {urgent : Bool} {msg k : ℕ} {buffer : List Byte} {c : Byte}
    (ht : s.task t = .writing urgent msg buffer k) (hc : buffer[k]? = some c) :
    Rel (s.set t (s.mq.writeByte msg k c) (.writing urgent msg buffer (k + 1))) b free queue := by
  have hitem : (s.task t).item = some msg := by
    rw [ht]
    rfl
  have hnotin := h.owned.apart t msg hitem
  have hdo := h.tasks t
  rw [ht] at hdo
  have hpayload : ∀ i, i ≠ msg → (s.mq.writeByte msg k c).payload i = s.mq.payload i := fun i hi =>
    Function.update_of_ne hi _ _
  refine h.set (y := b.errand t) (h.shape.writeByte k c) rfl rfl ?_ ?_ rfl h.room ?_
    (Function.update_eq_self t b.errand).symm List.prefix_rfl ?_ h.received
  · rw [show (Task.writing urgent msg buffer (k + 1)).item = (s.task t).item from hitem.symm]
    exact (Function.update_eq_self t fun t' => (s.task t').item).symm ▸ h.owned
  · intro t' i hne hi
    exact ⟨hpayload i fun heq => hne (h.owned.alone t' t msg (heq ▸ hi) hitem), rfl⟩
  · apply forall₂_stands_congr h.messages
    exact fun i hi => hpayload i fun heq => hnotin (heq ▸ List.mem_append_right free hi)
  · cases herrand : b.errand t with
    | idle =>
      rw [herrand] at hdo
      exact hdo.elim
    | carrying ticket m size =>
      rw [herrand] at hdo
      exact hdo.elim
    | bringing urgent' m =>
      rw [herrand] at hdo
      obtain ⟨rfl, rfl, hlen, hk, hstands, hnone⟩ := hdo
      have hlt : k < buffer.length := (List.getElem?_eq_some_iff.mp hc).1
      refine ⟨rfl, rfl, hlen, hlt, fun j d hd => ?_, hnone⟩
      rw [Mq.writeByte]
      dsimp only
      rw [Function.update_self]
      rw [List.getElem?_take] at hd
      by_cases hj : j = k
      · rw [hj, Function.update_self]
        rw [hj, if_pos (Nat.lt_succ_self k), hc] at hd
        exact Option.some.inj hd
      · rw [Function.update_of_ne hj]
        apply hstands j d
        rw [List.getElem?_take]
        split_ifs at hd with hlt'
        rw [if_pos (Nat.lt_of_le_of_ne (Nat.lt_succ_iff.mp hlt') hj)]
        exact hd

/-- A thread copies a byte out of its item. -/
theorem Rel.read (h : Rel s b free queue) {msg n : ℕ} {out : List Byte}
    (ht : s.task t = .reading msg n out) (hout : out.length < n) :
    Rel (s.set t s.mq (.reading msg n (out ++ [s.mq.payload msg out.length]))) b free queue := by
  have hitem : (s.task t).item = some msg := by
    rw [ht]
    rfl
  have hdo := h.tasks t
  rw [ht] at hdo
  refine h.set (y := b.errand t) h.shape rfl rfl ?_ (fun _ _ _ _ => ⟨rfl, rfl⟩) rfl h.room h.messages
    (Function.update_eq_self t b.errand).symm List.prefix_rfl ?_ h.received
  · rw [show (Task.reading msg n (out ++ [s.mq.payload msg out.length])).item = (s.task t).item
      from hitem.symm]
    exact (Function.update_eq_self t fun t' => (s.task t').item).symm ▸ h.owned
  · cases herrand : b.errand t with
    | idle =>
      rw [herrand] at hdo
      exact hdo.elim
    | bringing urgent m =>
      rw [herrand] at hdo
      exact hdo.elim
    | carrying ticket m size =>
      rw [herrand] at hdo
      obtain ⟨hn, hticket, hlen, hstands, hle, hcopied⟩ := hdo
      refine ⟨hn, hticket, hlen, hstands, ?_, fun k c hc => ?_⟩
      · rw [List.length_append, List.length_singleton]
        exact hout
      · rcases Nat.lt_trichotomy k out.length with hk | hk | hk
        · rw [List.getElem?_append_left hk] at hc
          exact hcopied k c hc
        · rw [hk, List.getElem?_concat_length] at hc
          rw [hk]
          exact Option.some.inj hc
        · rw [List.getElem?_eq_none] at hc
          · cases hc
          · rw [List.length_append, List.length_singleton]
            exact hk

omit [DecidableEq T] in
theorem Rel.queue_length_le (h : Rel s b free queue) : queue.length ≤ s.mq.maxMsgs := by
  have hsub : queue ⊆ List.range s.mq.maxMsgs := fun i hi =>
    List.mem_range.mpr ((h.owned.items i).mpr (Or.inl (List.mem_append_right free hi)))
  have hle := ((List.nodup_append.mp h.shape.nodup).2.1.subperm hsub).length_le
  rw [List.length_range] at hle
  exact hle

omit [DecidableEq T] in
/-- A reset makes room for what waited. -/
theorem Rel.reset (h : Rel s b free queue) :
    Rel { s with mq := s.mq.reset } { b with room := b.room + b.queue.length, queue := [] }
      (queue.reverse ++ free) [] := by
  obtain ⟨hshape, hsame, hnext⟩ := h.shape.reset h.queue_length_le
  refine ⟨hshape, ?_, ?_, ?_, ?_, List.Forall₂.nil, fun t => ?_, ?_⟩
  · rw [hsame.maxMsgs, List.append_nil]
    apply h.owned.congr
    intro i
    rw [List.mem_append, List.mem_append, List.mem_reverse, or_comm]
  · rw [hsame.maxMsgs]
    exact h.max
  · rw [hsame.msgSize]
    exact h.limit
  · dsimp only
    rw [List.length_append, List.length_reverse, h.room, h.messages.length_eq, Nat.add_comm]
  · refine (h.tasks t).congr hsame.msgSize List.prefix_rfl (fun i _ => congrFun hsame.payload i) ?_
    intro i hi
    exact hnext i fun hm => h.owned.apart t i hi (List.mem_append_right free hm)
  · rw [hsame.msgSize]
    exact h.received

end WiotaDev.MessageQueue
