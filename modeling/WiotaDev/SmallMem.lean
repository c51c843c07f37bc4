import Mathlib.Logic.Function.Basic
import Mathlib.Algebra.Group.Nat.Hom

/-! # The heap of the kernel

`rt_smem_alloc`, `rt_smem_realloc` and `rt_smem_free`. The heap is a sequence of blocks, each a header
of three words and its data: the pool with a bit that says whether the block is used, and where the
next and the previous block stand. Addresses are counted from the start of the heap. -/

namespace WiotaDev.SmallMem

def RT_ALIGN_SIZE : ℕ := 4
def MIN_SIZE : ℕ := 12
def MIN_SIZE_ALIGNED : ℕ := 12
def SIZEOF_STRUCT_MEM : ℕ := 12

/-- `RT_ALIGN`, in 32 bits. -/
def rtAlign (size : ℕ) : ℕ := (size + (RT_ALIGN_SIZE - 1)) % 2 ^ 32 / RT_ALIGN_SIZE * RT_ALIGN_SIZE

/-- `struct rt_small_mem`, with the words of its heap. -/
structure Smem where
  address : ℕ
  word : ℕ → ℕ
  heapEnd : ℕ
  lfree : ℕ
  memSizeAligned : ℕ
  used : ℕ
  max : ℕ

def Smem.memUsed (m : Smem) : ℕ := m.address / 2 * 2 + 1
def Smem.memFreed (m : Smem) : ℕ := m.address / 2 * 2

def Smem.isUsed (m : Smem) (mem : ℕ) : Prop := m.word mem % 2 = 1
def Smem.memPool (m : Smem) (mem : ℕ) : ℕ := m.word mem / 2 * 2
def Smem.next (m : Smem) (mem : ℕ) : ℕ := m.word (mem + 4)
def Smem.prev (m : Smem) (mem : ℕ) : ℕ := m.word (mem + 8)

instance (m : Smem) (mem : ℕ) : Decidable (m.isUsed mem) := inferInstanceAs (Decidable (_ = _))

def Smem.setPoolPtr (m : Smem) (mem v : ℕ) : Smem := { m with word := Function.update m.word mem v }
def Smem.setNext (m : Smem) (mem v : ℕ) : Smem := { m with word := Function.update m.word (mem + 4) v }
def Smem.setPrev (m : Smem) (mem v : ℕ) : Smem := { m with word := Function.update m.word (mem + 8) v }

theorem setPoolPtr_word_self (m : Smem) (mem v : ℕ) : (m.setPoolPtr mem v).word mem = v := by
  simp [Smem.setPoolPtr]

theorem setNext_word_self (m : Smem) (mem v : ℕ) : (m.setNext mem v).word (mem + 4) = v := by
  simp [Smem.setNext]

theorem setPrev_word_self (m : Smem) (mem v : ℕ) : (m.setPrev mem v).word (mem + 8) = v := by
  simp [Smem.setPrev]

theorem setPoolPtr_word_of_ne (m : Smem) {mem x : ℕ} (h : x ≠ mem) (v : ℕ) :
    (m.setPoolPtr mem v).word x = m.word x := by
  simp [Smem.setPoolPtr, h]

theorem setNext_word_of_ne (m : Smem) {mem x : ℕ} (h : x ≠ mem + 4) (v : ℕ) :
    (m.setNext mem v).word x = m.word x := by
  simp [Smem.setNext, h]

theorem setPrev_word_of_ne (m : Smem) {mem x : ℕ} (h : x ≠ mem + 8) (v : ℕ) :
    (m.setPrev mem v).word x = m.word x := by
  simp [Smem.setPrev, h]

/-- `plug_holes` with the block behind. -/
def Smem.plugForward (m : Smem) (mem : ℕ) : Smem :=
  let nmem := m.next mem
  if mem ≠ nmem ∧ ¬ m.isUsed nmem ∧ nmem ≠ m.heapEnd then
    let m := if m.lfree = nmem then { m with lfree := mem } else m
    let m := m.setPoolPtr nmem 0
    let m := m.setNext mem (m.next nmem)
    m.setPrev (m.next nmem) mem
  else m

/-- `plug_holes` with the block before. -/
def Smem.plugBackward (m : Smem) (mem : ℕ) : Smem :=
  let pmem := m.prev mem
  if pmem ≠ mem ∧ ¬ m.isUsed pmem then
    let m := if m.lfree = mem then { m with lfree := pmem } else m
    let m := m.setPoolPtr mem 0
    let m := m.setNext pmem (m.next mem)
    m.setPrev (m.next mem) pmem
  else m

/-- `plug_holes`; none where an assertion fails. -/
def Smem.plugHoles (m : Smem) (mem : ℕ) : Option Smem :=
  if mem < m.heapEnd then some ((m.plugForward mem).plugBackward mem) else none

/-- `rt_smem_init`, for an object of this size; what the words of the heap were stays there. What it
returns is the address of the object, so an object at address 0 is none. -/
def rtSmemInit (objectSize beginAddr size : ℕ) (word : ℕ → ℕ) : Option Smem :=
  let address := rtAlign beginAddr
  let startAddr := (address + objectSize) % 2 ^ 32
  let beginAlign := rtAlign startAddr
  let endAlign := (beginAddr + size) % 2 ^ 32 / RT_ALIGN_SIZE * RT_ALIGN_SIZE
  if endAlign > 2 * SIZEOF_STRUCT_MEM ∧ endAlign - 2 * SIZEOF_STRUCT_MEM ≥ startAddr then
    let memSize := endAlign - beginAlign - 2 * SIZEOF_STRUCT_MEM
    let m : Smem := ⟨address, word, 0, 0, memSize, 0, 0⟩
    let m := m.setPoolPtr 0 m.memFreed
    let m := m.setNext 0 (memSize + SIZEOF_STRUCT_MEM)
    let m := m.setPrev 0 0
    let m := { m with heapEnd := m.next 0 }
    let m := m.setPoolPtr m.heapEnd m.memUsed
    let m := m.setNext m.heapEnd (memSize + SIZEOF_STRUCT_MEM)
    let m := m.setPrev m.heapEnd (memSize + SIZEOF_STRUCT_MEM)
    if address = 0 then none else some { m with lfree := 0 }
  else none

/-- The search of `rt_smem_alloc` for a free block that is large enough. -/
def Smem.findFit (m : Smem) (size : ℕ) : ℕ → ℕ → Option ℕ
  | 0, _ => none
  | n + 1, ptr =>
    if ptr ≤ m.memSizeAligned - size then
      if ¬ m.isUsed ptr ∧ m.next ptr - (ptr + SIZEOF_STRUCT_MEM) ≥ size then some ptr
      else m.findFit size n (m.next ptr)
    else none

/-- `used` grows, and with it `max`. -/
def Smem.charge (m : Smem) (n : ℕ) : Smem :=
  let m := { m with used := m.used + n }
  if m.max < m.used then { m with max := m.used } else m

/-- A block of this size at the start of the block, and a free one of the rest. -/
def Smem.splitAt (m : Smem) (ptr size : ℕ) : Smem :=
  let ptr2 := ptr + SIZEOF_STRUCT_MEM + size
  let m := m.setPoolPtr ptr2 m.memFreed
  let m := m.setNext ptr2 (m.next ptr)
  let m := m.setPrev ptr2 ptr
  let m := m.setNext ptr ptr2
  if m.next ptr2 ≠ m.memSizeAligned + SIZEOF_STRUCT_MEM then m.setPrev (m.next ptr2) ptr2 else m

/-- The lowest free block is looked for from the old one on. -/
def Smem.skipUsed (m : Smem) : ℕ → Smem
  | 0 => m
  | n + 1 =>
    if m.isUsed m.lfree ∧ m.lfree ≠ m.heapEnd then { m with lfree := m.next m.lfree }.skipUsed n else m

/-- The block that has been found becomes a used one of the size. -/
def Smem.takeBlock (m : Smem) (ptr size : ℕ) : Smem :=
  let room := m.next ptr - (ptr + SIZEOF_STRUCT_MEM)
  let m :=
    if room ≥ size + SIZEOF_STRUCT_MEM + MIN_SIZE_ALIGNED then
      (m.splitAt ptr size).charge (size + SIZEOF_STRUCT_MEM)
    else m.charge (m.next ptr - ptr)
  let m := m.setPoolPtr ptr m.memUsed
  if ptr = m.lfree then m.skipUsed m.heapEnd else m

/-- `rt_smem_alloc`; none where an assertion fails. -/
def rtSmemAlloc (m : Smem) (size : ℕ) : Option (Smem × Option ℕ) :=
  if size = 0 then some (m, none)
  else if m.address = 0 then none
  else
    let size := rtAlign size
    let size := if size < MIN_SIZE_ALIGNED then MIN_SIZE_ALIGNED else size
    if size > m.memSizeAligned then some (m, none)
    else
      match m.findFit size m.heapEnd m.lfree with
      | none => some (m, none)
      | some ptr =>
        let m := m.takeBlock ptr size
        if (m.lfree = m.heapEnd ∨ ¬ m.isUsed m.lfree) ∧ ptr + SIZEOF_STRUCT_MEM + size ≤ m.heapEnd ∧
            ptr % RT_ALIGN_SIZE = 0 then
          some (m, some (ptr + SIZEOF_STRUCT_MEM))
        else none

/-- The lowest free block is this one, where it is lower. -/
def Smem.lower (m : Smem) (mem : ℕ) : Smem := if mem < m.lfree then { m with lfree := mem } else m

/-- `rt_smem_free`; none where an assertion fails. -/
def rtSmemFree (m : Smem) (rmem : Option ℕ) : Option Smem :=
  match rmem with
  | none => some m
  | some rmem =>
    let mem := rmem - SIZEOF_STRUCT_MEM
    if rmem % RT_ALIGN_SIZE = 0 ∧ m.memPool mem = m.address ∧ m.memPool mem ≠ 0 ∧ m.isUsed mem ∧
        rmem < m.heapEnd ∧ m.memPool (m.next mem) = m.address then
      let m := m.setPoolPtr mem m.memFreed
      let m := m.lower mem
      let m := { m with used := m.used - (m.next mem - mem) }
      m.plugHoles mem
    else none

/-- `rt_memcpy` of `n` bytes in words, between areas that do not meet. -/
def Smem.copy (m : Smem) (dst src n : ℕ) : Smem :=
  { m with word := fun q => if dst ≤ q ∧ q < dst + n then m.word (q - dst + src) else m.word q }

/-- `rt_smem_realloc`; none where an assertion fails. -/
def rtSmemRealloc (m : Smem) (rmem : Option ℕ) (newsize : ℕ) : Option (Smem × Option ℕ) :=
  let newsize := rtAlign newsize
  if m.address = 0 then none
  else if newsize > m.memSizeAligned then some (m, none)
  else if newsize = 0 then (rtSmemFree m rmem).map fun m => (m, none)
  else
    match rmem with
    | none => rtSmemAlloc m newsize
    | some rmem =>
      if rmem % RT_ALIGN_SIZE = 0 ∧ rmem < m.heapEnd then
        let mem := rmem - SIZEOF_STRUCT_MEM
        let size := m.next mem - mem - SIZEOF_STRUCT_MEM
        if size = newsize then some (m, some rmem)
        else if newsize + SIZEOF_STRUCT_MEM + MIN_SIZE < size then
          let m := { m with used := m.used - (size - newsize) }
          let ptr2 := mem + SIZEOF_STRUCT_MEM + newsize
          let m := m.splitAt mem newsize
          ((m.lower ptr2).plugHoles ptr2).map fun m => (m, some rmem)
        else
          match rtSmemAlloc m newsize with
          | none => none
          | some (m, none) => some (m, none)
          | some (m, some nmem) =>
            let m := m.copy nmem rmem (if size < newsize then size else newsize)
            (rtSmemFree m (some rmem)).map fun m => (m, some nmem)
      else none

end WiotaDev.SmallMem
