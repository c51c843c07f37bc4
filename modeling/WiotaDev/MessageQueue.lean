import WiotaDev.PointerChains
import WiotaDev.WordBytes
import Mathlib.Algebra.Group.Nat.Hom

/-! # The message queue of the kernel

The pool is divided into items, each a pointer to the next item and room for a message. Free items
and queued ones are chained. Interrupts are off while the chains change, but not while a message is
copied: an item that is being filled or emptied is in neither chain. -/

namespace WiotaDev.MessageQueue
open WordBytes

def RT_ALIGN_SIZE : ℕ := 4
def RT_MQ_ENTRY_MAX : ℕ := 65535

/-- `RT_ALIGN`. -/
def rtAlign (size align : ℕ) : ℕ := (size + align - 1) / align * align

/-- `sizeof(struct rt_mq_message)`. -/
def MESSAGE_HEADER : ℕ := 4

/-- `struct rt_messagequeue`, with the items of its pool. -/
structure Mq where
  msgSize : ℕ
  maxMsgs : ℕ
  entry : ℕ
  msgQueueHead : Option ℕ
  msgQueueTail : Option ℕ
  msgQueueFree : Option ℕ
  next : ℕ → Option ℕ
  payload : ℕ → ℕ → Byte

inductive Err
  | error | full | timeout | fault
  deriving DecidableEq

/-- The first items of the pool are put on the free list. -/
def Mq.linkFree (mq : Mq) : ℕ → Mq
  | 0 => mq
  | n + 1 =>
    let mq := mq.linkFree n
    { mq with next := Function.update mq.next n mq.msgQueueFree, msgQueueFree := some n }

/-- `rt_mq_init`, with what stood in the pool. The sizes are kept in 16 bits. -/
def rtMqInit (pool : ℕ → ℕ → Byte) (msgSize poolSize : ℕ) : Mq :=
  let size := rtAlign msgSize RT_ALIGN_SIZE % 2 ^ 16
  let max := poolSize / (size + MESSAGE_HEADER) % 2 ^ 16
  Mq.linkFree ⟨size, max, 0, none, none, none, fun _ => none, pool⟩ max

/-- `rt_mq_send_wait` and `rt_mq_urgent` up to the copy: an item is taken from the free list. -/
def Mq.takeFree (mq : Mq) (size : ℕ) : Except Err (ℕ × Mq) :=
  if size > mq.msgSize then .error .error
  else
    match mq.msgQueueFree with
    | none => .error .full
    | some msg => .ok (msg, { mq with msgQueueFree := mq.next msg })

/-- `msg->next = RT_NULL`. -/
def Mq.clearNext (mq : Mq) (msg : ℕ) : Mq := { mq with next := Function.update mq.next msg none }

/-- One byte of a message. -/
def Mq.writeByte (mq : Mq) (msg k : ℕ) (b : Byte) : Mq :=
  { mq with payload := Function.update mq.payload msg (Function.update (mq.payload msg) k b) }

/-- Another entry, or the error where there are too many. -/
def Mq.countEntry (mq : Mq) : Except Err Mq :=
  if mq.entry < RT_MQ_ENTRY_MAX then .ok { mq with entry := mq.entry + 1 } else .error .full

/-- The item becomes the last one. -/
def Mq.linkTail (mq : Mq) (msg : ℕ) : Except Err Mq :=
  let mq := match mq.msgQueueTail with
    | some last => { mq with next := Function.update mq.next last (some msg) }
    | none => mq
  let mq := { mq with msgQueueTail := some msg }
  let mq := if mq.msgQueueHead = none then { mq with msgQueueHead := some msg } else mq
  mq.countEntry

/-- The item becomes the first one. -/
def Mq.linkHead (mq : Mq) (msg : ℕ) : Except Err Mq :=
  let mq := { mq with next := Function.update mq.next msg mq.msgQueueHead, msgQueueHead := some msg }
  let mq := if mq.msgQueueTail = none then { mq with msgQueueTail := some msg } else mq
  mq.countEntry

/-- `rt_mq_recv` up to the copy: the first item is taken from the queue. -/
def Mq.takeHead (mq : Mq) : Except Err (ℕ × Mq) :=
  if mq.entry = 0 then .error .timeout
  else
    match mq.msgQueueHead with
    | none => .error .fault
    | some msg =>
      let mq := { mq with msgQueueHead := mq.next msg }
      let mq := if mq.msgQueueTail = some msg then { mq with msgQueueTail := none } else mq
      .ok (msg, { mq with entry := mq.entry - 1 })

/-- The item is put on the free list. -/
def Mq.giveBack (mq : Mq) (msg : ℕ) : Mq :=
  { mq with next := Function.update mq.next msg mq.msgQueueFree, msgQueueFree := some msg }

/-- The loop of `rt_mq_control`, for as many items as there may be. -/
def Mq.release : ℕ → Mq → Mq
  | 0, mq => mq
  | n + 1, mq =>
    match mq.msgQueueHead with
    | none => mq
    | some msg =>
      let mq := { mq with msgQueueHead := mq.next msg }
      let mq := if mq.msgQueueTail = some msg then { mq with msgQueueTail := none } else mq
      (mq.giveBack msg).release n

/-- `rt_mq_control` with `RT_IPC_CMD_RESET`. -/
def Mq.reset (mq : Mq) : Mq := { mq.release mq.maxMsgs with entry := 0 }

/-! ## Threads -/

/-- Where a thread is in a call. -/
inductive Task
  | idle
  | taken (msg : ℕ) (buffer : List Byte)
  | writing (urgent : Bool) (msg : ℕ) (buffer : List Byte) (k : ℕ)
  | reading (msg n : ℕ) (out : List Byte)

/-- The queue, its threads, and what calls of `rt_mq_recv` have returned. -/
structure System (T : Type) where
  mq : Mq
  task : T → Task
  returned : List (T × List Byte)

/-- What can happen between two moments with interrupts on. -/
inductive Act (T : Type)
  | send (t : T) (buffer : List Byte)
  | urgent (t : T) (buffer : List Byte)
  | clearNext (t : T)
  | write (t : T)
  | link (t : T)
  | recv (t : T) (size : ℕ)
  | read (t : T)
  | giveBack (t : T)
  | reset

variable {T : Type} [DecidableEq T]

def System.set (s : System T) (t : T) (mq : Mq) (task : Task) : System T :=
  { s with mq := mq, task := Function.update s.task t task }

/-- One step, where it can be made: calls that fail or wait change nothing. -/
def System.step (s : System T) : Act T → Option (System T)
  | .send t buffer =>
    match s.task t, s.mq.takeFree buffer.length with
    | .idle, .ok (msg, mq) => some (s.set t mq (.taken msg buffer))
    | _, _ => none
  | .urgent t buffer =>
    match s.task t, s.mq.takeFree buffer.length with
    | .idle, .ok (msg, mq) => some (s.set t mq (.writing true msg buffer 0))
    | _, _ => none
  | .clearNext t =>
    match s.task t with
    | .taken msg buffer => some (s.set t (s.mq.clearNext msg) (.writing false msg buffer 0))
    | _ => none
  | .write t =>
    match s.task t with
    | .writing urgent msg buffer k =>
      match buffer[k]? with
      | some b => some (s.set t (s.mq.writeByte msg k b) (.writing urgent msg buffer (k + 1)))
      | none => none
    | _ => none
  | .link t =>
    match s.task t with
    | .writing urgent msg buffer k =>
      if k < buffer.length then none
      else
        match if urgent then s.mq.linkHead msg else s.mq.linkTail msg with
        | .ok mq => some (s.set t mq .idle)
        | .error _ => none
    | _ => none
  | .recv t size =>
    match s.task t, s.mq.takeHead with
    | .idle, .ok (msg, mq) =>
      some (s.set t mq (.reading msg (if size > mq.msgSize then mq.msgSize else size) []))
    | _, _ => none
  | .read t =>
    match s.task t with
    | .reading msg n out =>
      if out.length < n then
        some (s.set t s.mq (.reading msg n (out ++ [s.mq.payload msg out.length])))
      else none
    | _ => none
  | .giveBack t =>
    match s.task t with
    | .reading msg n out =>
      if out.length < n then none
      else some { s.set t (s.mq.giveBack msg) .idle with returned := s.returned ++ [(t, out)] }
    | _ => none
  | .reset => some { s with mq := s.mq.reset }

/-- A run, where all its steps can be made. -/
def System.run (s : System T) (acts : List (Act T)) : Option (System T) :=
  acts.foldlM System.step s

/-- A queue as it comes from `rt_mq_init`, and no thread in a call. -/
def System.start (pool : ℕ → ℕ → Byte) (msgSize poolSize : ℕ) : System T :=
  ⟨rtMqInit pool msgSize poolSize, fun _ => .idle, []⟩

end WiotaDev.MessageQueue
