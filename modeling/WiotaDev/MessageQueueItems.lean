import WiotaDev.MessageQueue
import Mathlib.Data.List.Nodup

/-! # The items of a message queue

Every item stands on the free list, in the queue or with one thread, whatever the steps are that the
threads make. -/

namespace WiotaDev.MessageQueue
open WordBytes PointerChains

/-- The chains of free and of queued items. -/
structure Mq.Chains (mq : Mq) (free queue : List ℕ) : Prop where
  frees : Chain mq.next mq.msgQueueFree free
  queued : Chain mq.next mq.msgQueueHead queue
  tail : mq.msgQueueTail = queue.getLast?
  nodup : (free ++ queue).Nodup

/-- The chains, and the queued items are counted. -/
structure Mq.Shape (mq : Mq) (free queue : List ℕ) : Prop extends mq.Chains free queue where
  entry : mq.entry = queue.length

/-- The same sizes, and the same bytes in the items. -/
structure Mq.SameItems (mq mq' : Mq) : Prop where
  msgSize : mq'.msgSize = mq.msgSize
  maxMsgs : mq'.maxMsgs = mq.maxMsgs
  payload : mq'.payload = mq.payload

theorem Mq.SameItems.refl (mq : Mq) : mq.SameItems mq := ⟨rfl, rfl, rfl⟩

variable {mq : Mq} {free queue : List ℕ} {msg : ℕ}

theorem Mq.Chains.notMem_free (h : mq.Chains free queue) {i : ℕ} (hi : i ∈ queue) : i ∉ free :=
  fun hfree => List.disjoint_of_nodup_append h.nodup hfree hi

/-- The pointer of an item in neither chain can change. -/
theorem Mq.Shape.clearNext (h : mq.Shape free queue) (hmsg : msg ∉ free ++ queue) :
    (mq.clearNext msg).Shape free queue where
  frees := h.frees.update_of_notMem (fun hm => hmsg (List.mem_append_left _ hm)) none
  queued := h.queued.update_of_notMem (fun hm => hmsg (List.mem_append_right _ hm)) none
  tail := h.tail
  nodup := h.nodup
  entry := h.entry

theorem Mq.Shape.writeByte (h : mq.Shape free queue) (k : ℕ) (b : Byte) :
    (mq.writeByte msg k b).Shape free queue :=
  ⟨⟨h.frees, h.queued, h.tail, h.nodup⟩, h.entry⟩

/-- The first item leaves the queue; the last one leaves it empty. -/
theorem Mq.Chains.unlink {rest : List ℕ} (h : mq.Chains free (msg :: rest)) :
    Mq.Chains { mq with
      msgQueueHead := mq.next msg
      msgQueueTail := if mq.msgQueueTail = some msg then none else mq.msgQueueTail } free rest where
  frees := h.frees
  queued := h.queued.2
  tail := by
    have hqueue := (List.nodup_append.mp h.nodup).2.1
    have hmsg : msg ∉ rest := (List.nodup_cons.mp hqueue).1
    dsimp only
    rw [h.tail]
    cases rest with
    | nil => exact if_pos rfl
    | cons b rest =>
      rw [List.getLast?_cons_cons]
      apply if_neg
      intro hlast
      exact hmsg (List.mem_of_getLast? hlast)
  nodup := by
    obtain ⟨hfree, hqueue, hapart⟩ := List.nodup_append.mp h.nodup
    rw [List.nodup_append]
    exact ⟨hfree, (List.nodup_cons.mp hqueue).2,
      fun a ha b hb => hapart a ha b (List.mem_cons_of_mem msg hb)⟩

/-- An item of neither chain becomes the first free one. -/
theorem Mq.Chains.giveBack (h : mq.Chains free queue) (hmsg : msg ∉ free ++ queue) :
    (mq.giveBack msg).Chains (msg :: free) queue where
  frees := h.frees.push fun hm => hmsg (List.mem_append_left _ hm)
  queued := h.queued.update_of_notMem (fun hm => hmsg (List.mem_append_right _ hm)) _
  tail := h.tail
  nodup := List.nodup_cons.mpr ⟨hmsg, h.nodup⟩

/-- An item is taken from the free list unless the list is empty. -/
theorem Mq.Shape.takeFree (h : mq.Shape free queue) {size : ℕ} (hsize : size ≤ mq.msgSize) :
    (free = [] ∧ mq.takeFree size = .error .full) ∨
      ∃ msg rest mq', free = msg :: rest ∧ mq.takeFree size = .ok (msg, mq') ∧
        mq'.Shape rest queue ∧ mq.SameItems mq' ∧ mq'.next = mq.next := by
  have hfits : ¬ size > mq.msgSize := Nat.not_lt.mpr hsize
  cases free with
  | nil =>
    have hnone : mq.msgQueueFree = none := h.frees
    refine Or.inl ⟨rfl, ?_⟩
    rw [Mq.takeFree, if_neg hfits, hnone]
  | cons msg rest =>
    obtain ⟨hsome, hrest⟩ := h.frees
    refine Or.inr ⟨msg, rest, { mq with msgQueueFree := mq.next msg }, rfl, ?_, ?_, ⟨rfl, rfl, rfl⟩, rfl⟩
    · rw [Mq.takeFree, if_neg hfits, hsome]
    · exact ⟨⟨hrest, h.queued, h.tail, (List.nodup_cons.mp h.nodup).2⟩, h.entry⟩

/-- What `rt_mq_recv` takes is the first item. -/
theorem Mq.Shape.takeHead (h : mq.Shape free queue) :
    (queue = [] ∧ mq.takeHead = .error .timeout) ∨
      ∃ msg rest mq', queue = msg :: rest ∧ mq.takeHead = .ok (msg, mq') ∧
        mq'.Shape free rest ∧ mq.SameItems mq' ∧ mq'.next = mq.next := by
  cases queue with
  | nil =>
    refine Or.inl ⟨rfl, ?_⟩
    have hentry : mq.entry = 0 := h.entry
    rw [Mq.takeHead, if_pos hentry]
  | cons msg rest =>
    have hentry : mq.entry ≠ 0 := by
      rw [h.entry, List.length_cons]
      exact Nat.succ_ne_zero _
    have hchains := h.toChains.unlink
    refine Or.inr ⟨msg, rest, { mq with
      msgQueueHead := mq.next msg
      msgQueueTail := if mq.msgQueueTail = some msg then none else mq.msgQueueTail
      entry := mq.entry - 1 }, rfl, ?_,
      ⟨⟨hchains.frees, hchains.queued, hchains.tail, hchains.nodup⟩, ?_⟩, ⟨rfl, rfl, rfl⟩, rfl⟩
    · rw [Mq.takeHead, if_neg hentry, h.queued.1]
      dsimp only
      split_ifs <;> rfl
    · dsimp only
      rw [h.entry, List.length_cons, Nat.add_sub_cancel]

theorem Mq.countEntry_ok {n : ℕ} (hentry : mq.entry = n) (hroom : n < RT_MQ_ENTRY_MAX) :
    mq.countEntry = .ok { mq with entry := n + 1 } := by
  rw [Mq.countEntry, hentry, if_pos hroom]

/-- The item becomes the last one. -/
theorem Mq.Shape.linkTail (h : mq.Shape free queue) (hmsg : msg ∉ free ++ queue)
    (hnone : mq.next msg = none) (hroom : queue.length < RT_MQ_ENTRY_MAX) :
    ∃ mq', mq.linkTail msg = .ok mq' ∧ mq'.Shape free (queue ++ [msg]) ∧ mq.SameItems mq' ∧
      ∀ i, i ∉ queue → mq'.next i = mq.next i := by
  have hnodup : (free ++ (queue ++ [msg])).Nodup := by
    rw [← List.append_assoc, ← List.concat_eq_append]
    exact h.nodup.concat hmsg
  have hfree : msg ∉ free := fun hm => hmsg (List.mem_append_left _ hm)
  have hqueue : msg ∉ queue := fun hm => hmsg (List.mem_append_right _ hm)
  rcases List.eq_nil_or_concat queue with rfl | ⟨init, last, rfl⟩
  · have htail : mq.msgQueueTail = none := h.tail
    have hhead : mq.msgQueueHead = none := h.queued
    refine ⟨{ mq with msgQueueTail := some msg, msgQueueHead := some msg, entry := 0 + 1 }, ?_,
      ⟨⟨h.frees, ⟨rfl, hnone⟩, rfl, hnodup⟩, rfl⟩, ⟨rfl, rfl, rfl⟩, fun i _ => rfl⟩
    rw [Mq.linkTail, htail]
    dsimp only
    rw [if_pos hhead]
    exact Mq.countEntry_ok h.entry hroom
  · rw [List.concat_eq_append] at h hroom hqueue hnodup ⊢
    have htail : mq.msgQueueTail = some last := by
      rw [h.tail, List.getLast?_concat]
    have hhead : mq.msgQueueHead ≠ none := fun hn =>
      List.append_ne_nil_of_right_ne_nil init (List.cons_ne_nil last []) (h.queued.eq_none_iff.mp hn)
    have hlast : last ∉ free := h.notMem_free (List.mem_append_right _ (List.mem_singleton_self _))
    have hinit : last ∉ init := fun hm => by
      have hq := (List.nodup_append.mp h.nodup).2.1
      exact List.disjoint_of_nodup_append hq hm (List.mem_singleton_self _)
    refine ⟨{ mq with
      next := Function.update mq.next last (some msg)
      msgQueueTail := some msg
      entry := (init ++ [last]).length + 1 }, ?_, ⟨⟨?_, ?_, ?_, hnodup⟩, ?_⟩, ⟨rfl, rfl, rfl⟩, ?_⟩
    · rw [Mq.linkTail, htail]
      dsimp only
      rw [if_neg hhead]
      exact Mq.countEntry_ok h.entry hroom
    · exact h.frees.update_of_notMem hlast _
    · rw [List.append_assoc]
      exact h.queued.concat hinit hqueue hnone
    · dsimp only
      rw [List.getLast?_concat]
    · simp only [List.length_append, List.length_singleton]
    · intro i hi
      have hne : i ≠ last := fun heq => hi (heq ▸ List.mem_append_right _ (List.mem_singleton_self _))
      exact Function.update_of_ne hne _ _

/-- The item becomes the first one. -/
theorem Mq.Shape.linkHead (h : mq.Shape free queue) (hmsg : msg ∉ free ++ queue)
    (hroom : queue.length < RT_MQ_ENTRY_MAX) :
    ∃ mq', mq.linkHead msg = .ok mq' ∧ mq'.Shape free (msg :: queue) ∧ mq.SameItems mq' ∧
      ∀ i, i ≠ msg → mq'.next i = mq.next i := by
  have hfree : msg ∉ free := fun hm => hmsg (List.mem_append_left _ hm)
  have hqueue : msg ∉ queue := fun hm => hmsg (List.mem_append_right _ hm)
  have hnodup : (free ++ msg :: queue).Nodup := List.nodup_middle.mpr (List.nodup_cons.mpr ⟨hmsg, h.nodup⟩)
  refine ⟨{ mq with
    next := Function.update mq.next msg mq.msgQueueHead
    msgQueueHead := some msg
    msgQueueTail := if mq.msgQueueTail = none then some msg else mq.msgQueueTail
    entry := queue.length + 1 }, ?_,
    ⟨⟨h.frees.update_of_notMem hfree _, h.queued.push hqueue, ?_, hnodup⟩, rfl⟩, ⟨rfl, rfl, rfl⟩,
    fun i hi => Function.update_of_ne hi _ _⟩
  · rw [Mq.linkHead]
    dsimp only
    split_ifs
    · exact Mq.countEntry_ok h.entry hroom
    · exact Mq.countEntry_ok h.entry hroom
  · dsimp only
    rw [h.tail]
    cases queue with
    | nil => exact if_pos rfl
    | cons b queue =>
      rw [List.getLast?_cons_cons]
      apply if_neg
      rw [List.getLast?_cons]
      exact Option.some_ne_none _

theorem Mq.Shape.giveBack (h : mq.Shape free queue) (hmsg : msg ∉ free ++ queue) :
    (mq.giveBack msg).Shape (msg :: free) queue := ⟨h.toChains.giveBack hmsg, h.entry⟩

/-- The loop of the reset puts one queued item after the other on the free list. -/
theorem Mq.Chains.release (h : mq.Chains free queue) {n : ℕ} (hn : queue.length ≤ n) :
    (mq.release n).Chains (queue.reverse ++ free) [] ∧ mq.SameItems (mq.release n) ∧
      ∀ i, i ∉ queue → (mq.release n).next i = mq.next i := by
  induction queue generalizing mq free n with
  | nil =>
    have hhead : mq.msgQueueHead = none := h.queued
    have hstop : mq.release n = mq := by
      cases n with
      | zero => rfl
      | succ n =>
        rw [Mq.release, hhead]
    rw [hstop]
    exact ⟨h, Mq.SameItems.refl mq, fun i _ => rfl⟩
  | cons msg rest ih =>
    cases n with
    | zero => exact absurd hn (Nat.not_succ_le_zero _)
    | succ n =>
      have hqueue := (List.nodup_append.mp h.nodup).2.1
      have hout : msg ∉ free ++ rest := fun hm => by
        rcases List.mem_append.mp hm with hm | hm
        · exact h.notMem_free List.mem_cons_self hm
        · exact (List.nodup_cons.mp hqueue).1 hm
      have hstep : mq.release (n + 1) = (Mq.giveBack { mq with
          msgQueueHead := mq.next msg
          msgQueueTail := if mq.msgQueueTail = some msg then none else mq.msgQueueTail } msg).release n := by
        rw [Mq.release, h.queued.1]
        dsimp only
        split_ifs <;> rfl
      obtain ⟨hchains, hsame, hnext⟩ := ih (h.unlink.giveBack hout) (Nat.le_of_succ_le_succ hn)
      rw [hstep, List.reverse_cons, List.append_assoc, List.singleton_append]
      refine ⟨hchains, ⟨hsame.msgSize, hsame.maxMsgs, hsame.payload⟩, fun i hi => ?_⟩
      rw [hnext i fun hm => hi (List.mem_cons_of_mem msg hm)]
      have hne : i ≠ msg := fun heq => hi (heq ▸ List.mem_cons_self)
      exact Function.update_of_ne hne _ _

/-- After a reset all items of both chains are free. -/
theorem Mq.Shape.reset (h : mq.Shape free queue) (hmax : queue.length ≤ mq.maxMsgs) :
    mq.reset.Shape (queue.reverse ++ free) [] ∧ mq.SameItems mq.reset ∧
      ∀ i, i ∉ queue → mq.reset.next i = mq.next i := by
  obtain ⟨hchains, hsame, hnext⟩ := h.toChains.release hmax
  exact ⟨⟨⟨hchains.frees, hchains.queued, hchains.tail, hchains.nodup⟩, rfl⟩,
    ⟨hsame.msgSize, hsame.maxMsgs, hsame.payload⟩, hnext⟩

/-- At first all items are free. -/
theorem Mq.linkFree_shape (mq : Mq) (h : mq.Shape [] []) (n : ℕ) :
    ∃ free, (mq.linkFree n).Shape free [] ∧ mq.SameItems (mq.linkFree n) ∧
      ∀ i, i ∈ free ↔ i < n := by
  induction n with
  | zero => exact ⟨[], h, Mq.SameItems.refl mq, fun i => by simp⟩
  | succ n ih =>
    obtain ⟨free, hshape, hsame, hmem⟩ := ih
    have hout : n ∉ free ++ [] := by
      rw [List.append_nil, hmem]
      exact Nat.lt_irrefl n
    refine ⟨n :: free, hshape.giveBack hout, ⟨hsame.msgSize, hsame.maxMsgs, hsame.payload⟩, ?_⟩
    intro i
    rw [List.mem_cons, hmem]
    omega

/-- The pool without its chains. -/
private def rawMq (pool : ℕ → ℕ → Byte) (msgSize poolSize : ℕ) : Mq :=
  ⟨rtAlign msgSize RT_ALIGN_SIZE % 2 ^ 16,
    poolSize / (rtAlign msgSize RT_ALIGN_SIZE % 2 ^ 16 + MESSAGE_HEADER) % 2 ^ 16, 0, none, none, none,
    fun _ => none, pool⟩

private theorem rawMq_shape (pool : ℕ → ℕ → Byte) (msgSize poolSize : ℕ) :
    (rawMq pool msgSize poolSize).Shape [] [] := ⟨⟨rfl, rfl, rfl, List.nodup_nil⟩, rfl⟩

theorem rtMqInit_maxMsgs (pool : ℕ → ℕ → Byte) (msgSize poolSize : ℕ) :
    (rtMqInit pool msgSize poolSize).maxMsgs =
      poolSize / (rtAlign msgSize RT_ALIGN_SIZE % 2 ^ 16 + MESSAGE_HEADER) % 2 ^ 16 := by
  obtain ⟨free, hshape, hsame, hmem⟩ := Mq.linkFree_shape _ (rawMq_shape pool msgSize poolSize)
    (rawMq pool msgSize poolSize).maxMsgs
  exact hsame.maxMsgs

/-- All items of a new queue are free. -/
theorem rtMqInit_shape (pool : ℕ → ℕ → Byte) (msgSize poolSize : ℕ) :
    ∃ free, (rtMqInit pool msgSize poolSize).Shape free [] ∧
      ∀ i, i ∈ free ↔ i < (rtMqInit pool msgSize poolSize).maxMsgs := by
  obtain ⟨free, hshape, hsame, hmem⟩ := Mq.linkFree_shape _ (rawMq_shape pool msgSize poolSize)
    (rawMq pool msgSize poolSize).maxMsgs
  refine ⟨free, hshape, fun i => ?_⟩
  rw [hmem, rtMqInit_maxMsgs]
  rfl

end WiotaDev.MessageQueue
