import WiotaDev.SmallMemOwners

/-! # Runs on the heap

What holds after any run of allowed operations on a heap that has been initialized. -/

namespace WiotaDev.SmallMem
open BlockTiling

/-! ## The blocks that the headers describe -/

/-- From header to header, up to the end of the heap. -/
def Smem.walk (m : Smem) : ℕ → ℕ → List Block
  | 0, _ => []
  | n + 1, ptr =>
    if ptr ≠ m.heapEnd then ⟨m.isUsed ptr, m.next ptr - ptr - SIZEOF_STRUCT_MEM⟩ :: m.walk n (m.next ptr)
    else []

def Smem.blocks (m : Smem) : List Block := m.walk m.heapEnd 0

variable {s s' : System} {m m' : Smem} {bs cs pre post : List Block} {p q n size : ℕ} {c : Chunk} {ops : List Op}

theorem Laid.walk_eq (h : Laid m (pre ++ post)) {fuel : ℕ} (hfuel : post.length ≤ fuel) :
    m.walk fuel (place pre) = post := by
  induction post generalizing pre fuel with
  | nil =>
    have hend : place pre = m.heapEnd := by
      rw [← h.fin, List.append_nil]
    cases fuel with
    | zero => rfl
    | succ fuel => rw [Smem.walk, if_neg (not_not_intro hend)]
  | cons b post ih =>
    cases fuel with
    | zero => exact absurd hfuel (Nat.not_succ_le_zero _)
    | succ fuel =>
      obtain ⟨used, k⟩ := b
      have hend : place pre ≠ m.heapEnd := by
        have hle := h.behind_le
        change place pre + 12 + k ≤ m.heapEnd at hle
        omega
      have hsize : place pre + 12 + k - place pre - SIZEOF_STRUCT_MEM = k := by
        change place pre + 12 + k - place pre - 12 = k
        omega
      have hused : decide (m.isUsed (place pre)) = used := by
        cases used with
        | true => exact decide_eq_true (h.isUsed_iff.mpr rfl)
        | false => exact decide_eq_false fun hu => Bool.false_ne_true (h.isUsed_iff.mp hu)
      have hrest := h
      rw [List.append_cons] at hrest
      rw [Smem.walk, if_pos hend, h.next_eq, hused, hsize]
      have htail := ih hrest (Nat.le_of_succ_le_succ hfuel)
      rw [place_concat] at htail
      rw [htail]

theorem Laid.blocks_eq (h : Laid m bs) : m.blocks = bs := by
  have hlen := length_le_stop (show 0 < SIZEOF_STRUCT_MEM by decide) 0 bs
  have hfin := h.fin
  rw [place] at hfin
  have hall : Laid m ([] ++ bs) := h
  exact hall.walk_eq (by omega)

/-! ## The start -/

/-- One free block, with its header and the end of the heap. -/
theorem single_heap {address : ℕ} {word : ℕ → ℕ} (heven : address / 2 * 2 = address)
    (hplaced : address ≠ 0) (hn : 4 ≤ n ∧ n % 4 = 0)
    (hpool : word 0 = address / 2 * 2) (hnext : word 4 = n + 12) (hprev : word 8 = 0)
    (hend : word (n + 12) = address / 2 * 2 + 1) :
    Heap ⟨address, word, n + 12, 0, n, 0, 0⟩ [⟨false, n⟩] where
  laid := by
    refine ⟨⟨⟨hpool, ?_, hprev⟩, trivial⟩, ?_, hend, rfl, heven, hplaced, fun b hb => ?_⟩
    · rw [Nat.zero_add]
      change word 4 = 0 + 12 + n
      omega
    · change 0 + 12 + n = n + 12
      omega
    · rw [List.mem_singleton.mp hb]
      exact hn
  low := rfl
  apart := List.isChain_singleton _
  used := rfl
  max := Nat.le_refl 0

/-- A new heap is one free block. -/
theorem rtSmemInit_heap {objectSize beginAddr : ℕ} {word : ℕ → ℕ}
    (h : rtSmemInit objectSize beginAddr size word = some m) (hroom : m.memSizeAligned ≠ 0) :
    Heap m [⟨false, m.memSizeAligned⟩] ∧ m.memSizeAligned + 24 < 2 ^ 32 := by
  rw [rtSmemInit] at h
  dsimp only at h
  set start := (rtAlign beginAddr + objectSize) % 2 ^ 32 with hstart
  set fin := (beginAddr + size) % 2 ^ 32 / RT_ALIGN_SIZE * RT_ALIGN_SIZE with hfin
  split_ifs at h with hlarge hplaced
  cases h
  have hsub : 2 * SIZEOF_STRUCT_MEM = 24 := rfl
  have hfinmod : fin % 4 = 0 := Nat.mul_mod_left _ 4
  have hfinlt : fin < 2 ^ 32 := by
    have hlt : (beginAddr + size) % 2 ^ 32 < 2 ^ 32 := Nat.mod_lt _ (by decide)
    change (beginAddr + size) % 2 ^ 32 / 4 * 4 < 2 ^ 32
    omega
  have halign := rtAlign_mod start
  have heven : rtAlign beginAddr / 2 * 2 = rtAlign beginAddr := by
    have hmod := rtAlign_mod beginAddr
    omega
  rw [hsub] at hlarge
  simp only [Smem.setPoolPtr, Smem.setNext, Smem.setPrev, Smem.next, Smem.memUsed, Smem.memFreed, hsub] at hroom ⊢
  set n := fin - rtAlign start - 24 with hn
  refine ⟨?_, by omega⟩
  have hend : Function.update (Function.update (Function.update word 0 (rtAlign beginAddr / 2 * 2)) (0 + 4)
      (n + SIZEOF_STRUCT_MEM)) (0 + 8) 0 (0 + 4) = n + 12 := by
    simp [SIZEOF_STRUCT_MEM]
  rw [hend]
  refine single_heap heven hplaced (by omega) ?_ ?_ ?_ ?_
  · rw [Function.update_of_ne (by omega), Function.update_of_ne (by omega), Function.update_of_ne (by omega)]
    simp
  · rw [Function.update_of_ne (by omega), Function.update_of_ne (by omega), Function.update_of_ne (by omega)]
    exact hend
  · rw [Function.update_of_ne (by omega), Function.update_of_ne (by omega), Function.update_of_ne (by omega)]
    exact Function.update_self _ _ _
  · rw [Function.update_of_ne (by omega), Function.update_of_ne (by omega)]
    exact Function.update_self _ _ _

/-! ## Runs -/

/-- One operation after the other. -/
def run : System → List Op → Option System
  | s, [] => some s
  | s, op :: ops => (step s op).bind fun s => run s ops

/-- Every operation is allowed where it is done. -/
def Allowed : System → List Op → Prop
  | _, [] => True
  | s, op :: ops => op.Ok s ∧ ∀ s' ∈ step s op, Allowed s' ops

instance (s : System) : (op : Op) → Decidable (op.Ok s)
  | .malloc _ => inferInstanceAs (Decidable (_ < _))
  | .realloc _ _ => inferInstanceAs (Decidable (_ ∧ _))
  | .free p => inferInstanceAs (Decidable (∀ q ∈ p, (s.owned q).isSome))
  | .store _ _ _ => inferInstanceAs (Decidable (_ ∧ _))

instance decidableAllowed : (s : System) → (ops : List Op) → Decidable (Allowed s ops)
  | _, [] => inferInstanceAs (Decidable True)
  | s, op :: ops =>
    have : ∀ s', Decidable (Allowed s' ops) := fun s' => decidableAllowed s' ops
    inferInstanceAs (Decidable (op.Ok s ∧ ∀ s' ∈ step s op, Allowed s' ops))

/-- Nothing is held yet. -/
def start (m : Smem) : System := ⟨m, fun _ => none⟩

theorem start_holds (h : Heap m [⟨false, n⟩]) : Holds (start m) [⟨false, n⟩] :=
  ⟨h, nofun, nofun⟩

theorem Holds.run (h : Holds s bs) (hok : Allowed s ops) :
    ∃ s' cs, run s ops = some s' ∧ Holds s' cs ∧ SameHeap s.heap s'.heap := by
  induction ops generalizing s bs with
  | nil => exact ⟨s, bs, rfl, h, rfl, rfl, rfl⟩
  | cons op ops ih =>
    obtain ⟨hop, hrest⟩ := hok
    obtain ⟨s₁, cs, hstep, hholds, hsame⟩ := h.safe op hop
    obtain ⟨s', ds, hrun, hholds', hsame'⟩ := ih hholds (hrest s₁ hstep)
    refine ⟨s', ds, ?_, hholds', hsame.trans hsame'⟩
    rw [SmallMem.run, hstep]
    exact hrun

/-- A run of allowed operations on a new heap. -/
structure Reached (m : Smem) (ops : List Op) (s : System) : Prop where
  init : ∃ objectSize beginAddr size word, rtSmemInit objectSize beginAddr size word = some m
  room : m.memSizeAligned ≠ 0
  allowed : Allowed (start m) ops
  run : run (start m) ops = some s

theorem Reached.holds (h : Reached m ops s) : Holds s s.heap.blocks ∧
    s.heap.memSizeAligned = m.memSizeAligned ∧ m.memSizeAligned + 24 < 2 ^ 32 := by
  obtain ⟨objectSize, beginAddr, size, word, hinit⟩ := h.init
  obtain ⟨hheap, hlt⟩ := rtSmemInit_heap hinit h.room
  obtain ⟨s', cs, hrun, hholds, hsame⟩ := (start_holds hheap).run h.allowed
  rw [h.run] at hrun
  cases hrun
  rw [hholds.heap.laid.blocks_eq]
  exact ⟨hholds, hsame.memSizeAligned, hlt⟩

def demoHeap : Smem := (rtSmemInit 60 4096 200 fun _ => 0).getD ⟨0, fun _ => 0, 0, 0, 0, 0, 0⟩

def demoOps : List Op := [.malloc 5, .malloc 16, .store 12 0 7, .realloc (some 12) 20, .free (some 36)]

def demoSystem (ops : List Op) : System := (run (start demoHeap) ops).getD (start demoHeap)

private theorem demoHeap_init : rtSmemInit 60 4096 200 (fun _ => 0) = some demoHeap := rfl

private theorem demo_reached {ops : List Op} (hok : Allowed (start demoHeap) ops) :
    Reached demoHeap ops (demoSystem ops) := by
  have hroom : demoHeap.memSizeAligned ≠ 0 := by decide
  obtain ⟨s, cs, hrun, -⟩ := (start_holds (rtSmemInit_heap demoHeap_init hroom).1).run hok
  refine ⟨⟨60, 4096, 200, _, demoHeap_init⟩, hroom, hok, ?_⟩
  rw [demoSystem, hrun, Option.getD_some]

/-- No assertion of the allocator fails in a run of allowed operations, and at its end the headers divide
the heap into blocks: the used ones are those that threads hold, and no two free ones stand side by side. -/
theorem run_blocks {objectSize beginAddr : ℕ} {word : ℕ → ℕ}
    (hinit : rtSmemInit objectSize beginAddr size word = some m) (hroom : m.memSizeAligned ≠ 0)
    (hok : Allowed (start m) ops) : ∃ s, run (start m) ops = some s ∧
      stop SIZEOF_STRUCT_MEM 0 s.heap.blocks = m.memSizeAligned + SIZEOF_STRUCT_MEM ∧
      NoFreePair s.heap.blocks ∧
      s.heap.lfree = firstFree SIZEOF_STRUCT_MEM 0 s.heap.blocks ∧
      s.heap.used = usedBytes SIZEOF_STRUCT_MEM 0 s.heap.blocks ∧ s.heap.used ≤ s.heap.max ∧
      ∀ p, (s.owned p).isSome ↔ ∃ n, (p, n) ∈ live SIZEOF_STRUCT_MEM 0 s.heap.blocks := by
  obtain ⟨hheap, -⟩ := rtSmemInit_heap hinit hroom
  obtain ⟨s, cs, hrun, hholds, hsame⟩ := (start_holds hheap).run hok
  refine ⟨s, hrun, ?_⟩
  have hend : m.memSizeAligned + SIZEOF_STRUCT_MEM = s.heap.heapEnd := by
    rw [hholds.heap.laid.heapEnd, hsame.memSizeAligned]
    rfl
  rw [hholds.heap.laid.blocks_eq, hend]
  refine ⟨hholds.heap.laid.fin, hholds.heap.apart, hholds.heap.low, hholds.heap.used, hholds.heap.max,
    fun p => ⟨fun hp => ?_, fun ⟨n, hn⟩ => hholds.owners p n hn⟩⟩
  obtain ⟨c, hc⟩ := Option.isSome_iff_exists.mp hp
  obtain ⟨n, hmem, -⟩ := hholds.rooms p c hc
  exact ⟨n, hmem⟩

theorem demo_run_blocks : ∃ s, run (start demoHeap) demoOps = some s ∧
    stop SIZEOF_STRUCT_MEM 0 s.heap.blocks = demoHeap.memSizeAligned + SIZEOF_STRUCT_MEM ∧
    NoFreePair s.heap.blocks ∧
    s.heap.lfree = firstFree SIZEOF_STRUCT_MEM 0 s.heap.blocks ∧
    s.heap.used = usedBytes SIZEOF_STRUCT_MEM 0 s.heap.blocks ∧ s.heap.used ≤ s.heap.max ∧
    ∀ p, (s.owned p).isSome ↔ ∃ n, (p, n) ∈ live SIZEOF_STRUCT_MEM 0 s.heap.blocks :=
  run_blocks demoHeap_init (by decide) (by decide +kernel)

/-- What a thread has stored in its memory is there until the thread stores something else or gives the
memory back; what threads hold is inside the heap, aligned, and apart from what others hold. -/
theorem held_words (h : Reached m ops s) (hc : s.owned p = some c) :
    p % 4 = 0 ∧ p + c.size ≤ s.heap.heapEnd ∧
      (∀ i v, c.data i = some v → s.heap.word (p + i) = v) ∧
      ∀ q d, s.owned q = some d → q ≠ p → p + c.size + 12 ≤ q ∨ q + d.size + 12 ≤ p := by
  obtain ⟨hholds, -⟩ := h.holds
  obtain ⟨n, hmem, hsize, hkept⟩ := hholds.rooms p c hc
  obtain ⟨p', hp', hmod, -, hend, -⟩ := hholds.heap.at_room hmem
  refine ⟨by omega, by omega, fun i v hv => (hkept i v hv).2, fun q d hd hqp => ?_⟩
  obtain ⟨k, hmem', hsize', -⟩ := hholds.rooms q d hd
  rcases live_apart hmem hmem' with heq | hapart | hapart
  · exact absurd (congrArg Prod.fst heq).symm hqp
  · left
    change p + n + 12 ≤ q at hapart
    omega
  · right
    change q + k + 12 ≤ p at hapart
    omega

theorem demo_held_words : ∃ c, (demoSystem demoOps).owned 64 = some c ∧ 64 % 4 = 0 ∧
    64 + c.size ≤ (demoSystem demoOps).heap.heapEnd ∧
    (∀ i v, c.data i = some v → (demoSystem demoOps).heap.word (64 + i) = v) ∧
    ∀ q d, (demoSystem demoOps).owned q = some d → q ≠ 64 → 64 + c.size + 12 ≤ q ∨ q + d.size + 12 ≤ 64 := by
  have hsome : ((demoSystem demoOps).owned 64).isSome = true := by decide +kernel
  obtain ⟨c, hc⟩ := Option.isSome_iff_exists.mp hsome
  exact ⟨c, hc, held_words (demo_reached (by decide +kernel)) hc⟩

theorem request_eq (size : ℕ) : request size = max MIN_SIZE_ALIGNED (rtAlign size) := by
  rw [request]
  split_ifs with hmin
  · rw [Nat.max_eq_left (Nat.le_of_lt hmin)]
  · rw [Nat.max_eq_right (Nat.not_lt.mp hmin)]

theorem rtAlign_idem (size : ℕ) : rtAlign (rtAlign size) = rtAlign size := by
  have hmod := rtAlign_mod size
  have hlt := rtAlign_lt size
  change (rtAlign size + 3) % 2 ^ 32 / 4 * 4 = rtAlign size
  rw [Nat.mod_eq_of_lt hlt]
  omega

/-- When no pointer is returned. -/
theorem malloc_null (h : Heap m m.blocks) (hsize : size ≠ 0) : ∃ m' r, rtSmemAlloc m size = some (m', r) ∧
    (r = none ↔ ∀ b ∈ m.blocks, b.used = false → b.size < max MIN_SIZE_ALIGNED (rtAlign size)) ∧
    (r = none → m' = m) := by
  rw [← request_eq]
  rcases h.alloc_spec hsize with ⟨hnone, hall⟩ | ⟨pre, k, post, n, rest, m', hbs, ha, hsome⟩
  · refine ⟨m, none, hnone, iff_of_true rfl fun b hb hfree => ?_, fun _ => rfl⟩
    exact (hall b hb).resolve_left fun hused => Bool.false_ne_true (hfree.symm.trans hused)
  · refine ⟨m', _, hsome, iff_of_false nofun fun hall => ?_, nofun⟩
    have hk : k < request size := by
      refine hall ⟨false, k⟩ ?_ rfl
      rw [hbs]
      exact List.mem_append_right _ List.mem_cons_self
    exact absurd ha.fits (Nat.not_le.mpr hk)

/-- What is returned has room for the request, unless that has been lost in the rounding. -/
theorem malloc_room (h : Heap m m.blocks) (hbound : m.memSizeAligned + 24 < 2 ^ 32) (hsize : size ≠ 0)
    (hq : rtSmemAlloc m size = some (m', some q)) :
    ∃ n, (q, n) ∈ live SIZEOF_STRUCT_MEM 0 m'.blocks ∧ (size ≤ n ↔ size + 3 < 2 ^ 32) := by
  rcases h.alloc_spec hsize with ⟨hnone, -⟩ | ⟨pre, k, post, n, rest, m₁, -, ha, hsome⟩
  · cases hnone.symm.trans hq
  · cases hsome.symm.trans hq
    have hmem : (place pre + 12, n) ∈ live SIZEOF_STRUCT_MEM 0 m'.blocks := by
      rw [ha.heap.laid.blocks_eq, ha.left.live_eq]
      simp
    refine ⟨n, hmem, fun hn => ?_, fun h3 => (le_request h3).trans ha.left.le⟩
    have hle : place pre + 12 + n ≤ m'.heapEnd := ha.heap.laid.behind_le
    have hend : m'.heapEnd = m'.memSizeAligned + 12 := ha.heap.laid.heapEnd
    have hsize' : m'.memSizeAligned = m.memSizeAligned := ha.same.memSizeAligned
    omega

/-- `rt_smem_alloc` returns no pointer if and only if every free block is too small, and the block that it
returns has the size that was asked for unless that is lost when it is rounded up to four bytes. -/
theorem malloc_fits (h : Reached m ops s) (hsize : size ≠ 0) :
    ∃ m' r, rtSmemAlloc s.heap size = some (m', r) ∧
      (r = none ↔ ∀ b ∈ s.heap.blocks, b.used = false → b.size < max MIN_SIZE_ALIGNED (rtAlign size)) ∧
      ∀ q ∈ r, ∃ n, (q, n) ∈ live SIZEOF_STRUCT_MEM 0 m'.blocks ∧ (size ≤ n ↔ size + 3 < 2 ^ 32) := by
  obtain ⟨hholds, hsame, hbound⟩ := h.holds
  obtain ⟨m', r, hres, hnull, -⟩ := malloc_null hholds.heap hsize
  refine ⟨m', r, hres, hnull, fun q hq => ?_⟩
  rw [Option.mem_def.mp hq] at hres
  exact malloc_room hholds.heap (by omega) hsize hres

theorem demo_malloc_fits : ∃ m' r, rtSmemAlloc (demoSystem demoOps).heap 41 = some (m', r) ∧
    (r = none ↔ ∀ b ∈ (demoSystem demoOps).heap.blocks,
      b.used = false → b.size < max MIN_SIZE_ALIGNED (rtAlign 41)) ∧
    ∀ q ∈ r, ∃ n, (q, n) ∈ live SIZEOF_STRUCT_MEM 0 m'.blocks ∧ (41 ≤ n ↔ 41 + 3 < 2 ^ 32) :=
  malloc_fits (demo_reached (by decide +kernel)) (by decide)

/-- When everything has been given back there is one free block again. -/
theorem all_freed (h : Reached m ops s) (hfree : ∀ p, s.owned p = none) :
    s.heap.blocks = [⟨false, m.memSizeAligned⟩] ∧ s.heap.used = 0 ∧ s.heap.lfree = 0 := by
  obtain ⟨hholds, hsame, -⟩ := h.holds
  have hlive : live SIZEOF_STRUCT_MEM 0 s.heap.blocks = [] := by
    refine List.eq_nil_iff_forall_not_mem.mpr fun e he => ?_
    have howned := hholds.owners e.1 e.2 he
    rw [hfree] at howned
    cases howned
  obtain ⟨b, hb⟩ : ∃ b, s.heap.blocks = [b] := by
    have hlen := hholds.heap.apart.of_free (free_of_live_nil hlive)
    match hbs : s.heap.blocks, hlen with
    | [], _ =>
      have hfin := hholds.heap.laid.fin
      rw [hbs, hholds.heap.laid.heapEnd] at hfin
      exact absurd hfin (Nat.succ_ne_zero _).symm
    | [b], _ => exact ⟨b, rfl⟩
  have hused : b.used = false := free_of_live_nil hlive b (hb ▸ List.mem_cons_self)
  obtain ⟨used, k⟩ := b
  dsimp only at hused
  subst hused
  have hfin := hholds.heap.laid.fin
  have hlow := hholds.heap.low
  have hbytes := hholds.heap.used
  rw [hb, hholds.heap.laid.heapEnd, hsame] at hfin
  change 0 + 12 + k = m.memSizeAligned + 12 at hfin
  have hk : k = m.memSizeAligned := by omega
  rw [hb] at hlow hbytes
  exact ⟨by rw [hb, hk], hbytes, hlow⟩

theorem demo_all_freed : (demoSystem (demoOps ++ [.free (some 64)])).heap.blocks =
    [⟨false, demoHeap.memSizeAligned⟩] ∧ (demoSystem (demoOps ++ [.free (some 64)])).heap.used = 0 ∧
    (demoSystem (demoOps ++ [.free (some 64)])).heap.lfree = 0 := by
  have hreached : Reached demoHeap (demoOps ++ [.free (some 64)]) (demoSystem (demoOps ++ [.free (some 64)])) :=
    demo_reached (by decide +kernel)
  have hblocks : (demoSystem (demoOps ++ [.free (some 64)])).heap.blocks = [⟨false, 116⟩] := by decide +kernel
  refine all_freed hreached fun p => Option.eq_none_iff_forall_ne_some.mpr fun c hc => ?_
  obtain ⟨n, hmem, -⟩ := hreached.holds.1.rooms p c hc
  rw [hblocks] at hmem
  cases hmem

/-- `rt_smem_realloc` of memory that is held returns no pointer if and only if the heap is smaller than the
new size, or the block has to move and every free block is too small; it moves also where up to 24 bytes
less are asked for. -/
theorem realloc_null_iff (h : Reached m ops s) {n : ℕ} (hq : (q, n) ∈ live SIZEOF_STRUCT_MEM 0 s.heap.blocks)
    (hsize : size ≠ 0) (hlt : size + 3 < 2 ^ 32) :
    ∃ m' r, rtSmemRealloc s.heap (some q) size = some (m', r) ∧
      (r = none ↔ rtAlign size > s.heap.memSizeAligned ∨ (n ≠ rtAlign size ∧ n ≤ rtAlign size + 24 ∧
        ∀ b ∈ s.heap.blocks, b.used = false → b.size < max MIN_SIZE_ALIGNED (rtAlign size))) ∧
      (r = none → m' = s.heap) := by
  obtain ⟨hholds, -, -⟩ := h.holds
  obtain ⟨c, hc⟩ := Option.isSome_iff_exists.mp (hholds.owners q n hq)
  obtain ⟨s', -, hstep, -⟩ := hholds.realloc hc hlt
  obtain ⟨⟨m', r⟩, hres, -⟩ := Option.map_eq_some_iff.mp hstep
  refine ⟨m', r, hres, ?_⟩
  by_cases hlarge : rtAlign size ≤ s.heap.memSizeAligned
  · have hzero : rtAlign size ≠ 0 := by
      have hle := le_rtAlign hlt
      omega
    obtain ⟨p, hp, -⟩ := hholds.heap.at_room hq
    have heq := (hholds.heap.realloc_eq hq hp hlarge hzero).symm.trans hres
    by_cases hsame : n = rtAlign size
    · rw [if_pos hsame] at heq
      cases heq
      exact ⟨iff_of_false nofun fun hor => hor.elim (by omega) fun hor => hor.1 hsame, nofun⟩
    · rw [if_neg hsame] at heq
      by_cases hcut : rtAlign size + 24 < n
      · rw [if_pos hcut] at heq
        obtain ⟨m₁, -, hsome⟩ := Option.map_eq_some_iff.mp heq
        cases hsome
        exact ⟨iff_of_false nofun fun hor => hor.elim (by omega) fun hor => by omega, nofun⟩
      · rw [if_neg hcut] at heq
        obtain ⟨m₁, r₁, halloc, hnull⟩ := malloc_null hholds.heap hzero
        rw [rtAlign_idem] at hnull
        rw [halloc] at heq
        cases r₁ with
        | none =>
          dsimp only at heq
          cases heq
          have hall := hnull.1.mp rfl
          exact ⟨iff_of_true rfl (Or.inr ⟨hsame, by omega, hall⟩), fun _ => hnull.2 rfl⟩
        | some nmem =>
          obtain ⟨m₂, -, hsome⟩ := Option.map_eq_some_iff.mp heq
          cases hsome
          refine ⟨iff_of_false nofun ?_, nofun⟩
          rintro (hor | ⟨-, -, hall⟩)
          · omega
          · exact nomatch hnull.1.mpr hall
  · have hnone : rtSmemRealloc s.heap (some q) size = some (s.heap, none) :=
      (if_neg hholds.heap.laid.placed).trans (if_pos (Nat.lt_of_not_le hlarge))
    cases hnone.symm.trans hres
    exact ⟨iff_of_true rfl (Or.inl (Nat.lt_of_not_le hlarge)), fun _ => rfl⟩

theorem demo_realloc_null_iff : ∃ m' r, rtSmemRealloc (demoSystem demoOps).heap (some 64) 60 = some (m', r) ∧
    (r = none ↔ rtAlign 60 > (demoSystem demoOps).heap.memSizeAligned ∨
      (20 ≠ rtAlign 60 ∧ 20 ≤ rtAlign 60 + 24 ∧ ∀ b ∈ (demoSystem demoOps).heap.blocks,
        b.used = false → b.size < max MIN_SIZE_ALIGNED (rtAlign 60))) ∧
    (r = none → m' = (demoSystem demoOps).heap) :=
  realloc_null_iff (demo_reached (by decide +kernel)) (by decide +kernel) (by decide) (by decide)

end WiotaDev.SmallMem
