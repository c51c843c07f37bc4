import WiotaDev.SmallMemFree

/-! # The users of the heap

Threads ask for memory, store words into what they hold, and give it back. What they hold is kept beside
the heap: how much they asked for, and the words that they have stored since. -/

namespace WiotaDev.SmallMem
open BlockTiling

/-- What a thread holds: what it asked for, and the words it has stored. -/
structure Chunk where
  size : ℕ
  data : ℕ → Option ℕ

/-- Nothing has been stored yet. -/
def Chunk.fresh (size : ℕ) : Chunk := ⟨size, fun _ => none⟩

/-- The words that are still inside. -/
def Chunk.resize (c : Chunk) (size : ℕ) : Chunk := ⟨size, fun i => if i + 4 ≤ size then c.data i else none⟩

/-- The heap and what the threads hold of it. -/
structure System where
  heap : Smem
  owned : ℕ → Option Chunk

/-- What a thread can do. -/
inductive Op
  | malloc (size : ℕ)
  | realloc (p : Option ℕ) (size : ℕ)
  | free (p : Option ℕ)
  | store (p i v : ℕ)

/-- A pointer that has been returned is held. -/
def System.give (s : System) (m : Smem) (p : Option ℕ) (c : Chunk) : System :=
  match p with
  | none => { s with heap := m }
  | some p => ⟨m, Function.update s.owned p (some c)⟩

/-- A pointer that has been given back is not held. -/
def System.drop (s : System) (m : Smem) (p : Option ℕ) : System :=
  match p with
  | none => { s with heap := m }
  | some p => ⟨m, Function.update s.owned p none⟩

/-- What is held there. -/
def System.chunk (s : System) (p : Option ℕ) : Chunk := (p.bind s.owned).getD (Chunk.fresh 0)

/-- One operation; none where an assertion fails. -/
def step (s : System) : Op → Option System
  | .malloc size => (rtSmemAlloc s.heap size).map fun r => s.give r.1 r.2 (Chunk.fresh size)
  | .free p => (rtSmemFree s.heap p).map fun m => s.drop m p
  | .realloc p size => (rtSmemRealloc s.heap p size).map fun r =>
    match r.2 with
    | none => if size = 0 then s.drop r.1 p else { s with heap := r.1 }
    | some q => (s.drop r.1 p).give r.1 (some q) ((s.chunk p).resize size)
  | .store p i v =>
    some ⟨{ s.heap with word := Function.update s.heap.word (p + i) v }, Function.update s.owned p
      ((s.owned p).map fun c => { c with data := Function.update c.data i (some v) })⟩

/-- Threads give back and write only what they hold, and ask for less than the address space. -/
def Op.Ok (s : System) : Op → Prop
  | .malloc size => size + 3 < 2 ^ 32
  | .realloc p size => (∀ q ∈ p, (s.owned q).isSome) ∧ size + 3 < 2 ^ 32
  | .free p => ∀ q ∈ p, (s.owned q).isSome
  | .store p i _ => i % 4 = 0 ∧ (s.owned p).any fun c => i + 4 ≤ c.size

/-- The words that have been stored are there. -/
def Chunk.Kept (c : Chunk) (word : ℕ → ℕ) (p : ℕ) : Prop :=
  ∀ i v, c.data i = some v → i + 4 ≤ c.size ∧ word (p + i) = v

/-- The used blocks are those that are held. -/
structure Holds (s : System) (bs : List Block) : Prop where
  heap : Heap s.heap bs
  rooms : ∀ p c, s.owned p = some c → ∃ n, (p, n) ∈ live SIZEOF_STRUCT_MEM 0 bs ∧ c.size ≤ n ∧ c.Kept s.heap.word p
  owners : ∀ p n, (p, n) ∈ live SIZEOF_STRUCT_MEM 0 bs → (s.owned p).isSome

variable {s : System} {m m' : Smem} {bs cs pre post : List Block} {p q n size : ℕ} {c : Chunk}

/-- Only at one place something has changed. -/
structure Elsewhere (q : ℕ) (m m' : Smem) (bs cs : List Block) : Prop where
  live : ∀ p n, p ≠ q → ((p, n) ∈ live SIZEOF_STRUCT_MEM 0 cs ↔ (p, n) ∈ live SIZEOF_STRUCT_MEM 0 bs)
  words : ∀ p n, p ≠ q → (p, n) ∈ BlockTiling.live SIZEOF_STRUCT_MEM 0 bs →
    ∀ x, p ≤ x → x < p + n → m'.word x = m.word x

theorem Holds.change (h : Holds s bs) (heap : Heap m cs) (helse : Elsewhere q s.heap m bs cs) (c : Option Chunk)
    (hroom : ∀ d, c = some d → ∃ n, (q, n) ∈ live SIZEOF_STRUCT_MEM 0 cs ∧ d.size ≤ n ∧ d.Kept m.word q)
    (howner : ∀ n, (q, n) ∈ live SIZEOF_STRUCT_MEM 0 cs → c.isSome) :
    Holds ⟨m, Function.update s.owned q c⟩ cs := by
  refine ⟨heap, fun p d hd => ?_, fun p n hn => ?_⟩
  · by_cases hpq : p = q
    · subst hpq
      dsimp only at hd
      rw [Function.update_self] at hd
      exact hroom d hd
    · dsimp only at hd
      rw [Function.update_of_ne hpq] at hd
      obtain ⟨n, hmem, hsize, hkept⟩ := h.rooms p d hd
      refine ⟨n, (helse.live p n hpq).mpr hmem, hsize, fun i v hv => ?_⟩
      obtain ⟨hi, hword⟩ := hkept i v hv
      exact ⟨hi, (helse.words p n hpq hmem (p + i) (by omega) (by omega)).trans hword⟩
  · by_cases hpq : p = q
    · subst hpq
      dsimp only
      rw [Function.update_self]
      exact howner n hn
    · dsimp only
      rw [Function.update_of_ne hpq]
      exact h.owners p n ((helse.live p n hpq).mp hn)

/-- One block starts at a place. -/
theorem live_unique {k : ℕ} (hn : (p, n) ∈ live SIZEOF_STRUCT_MEM 0 bs) (hk : (p, k) ∈ live SIZEOF_STRUCT_MEM 0 bs) :
    n = k := by
  rcases live_apart hn hk with h | h | h
  · exact congrArg Prod.snd h
  · change p + n + 12 ≤ p at h
    omega
  · change p + k + 12 ≤ p at h
    omega

/-- `rt_smem_alloc` for its callers. -/
theorem Heap.malloc (h : Heap m bs) (hsize : size ≠ 0) :
    (rtSmemAlloc m size = some (m, none) ∧ ∀ b ∈ bs, TooSmall (request size) b) ∨
      ∃ m' cs q n, rtSmemAlloc m size = some (m', some q) ∧ Heap m' cs ∧ SameHeap m m' ∧
        Elsewhere q m m' bs cs ∧ request size ≤ n ∧ (q, n) ∈ live SIZEOF_STRUCT_MEM 0 cs ∧
        ∀ k, (q, k) ∉ live SIZEOF_STRUCT_MEM 0 bs := by
  rcases h.alloc_spec hsize with hnone | ⟨pre, k, post, n, rest, m', rfl, ha, hsome⟩
  · exact Or.inl hnone
  · right
    have hnew := ha.left.live_eq pre
    have hold : live SIZEOF_STRUCT_MEM 0 (pre ++ ⟨false, k⟩ :: post) = live SIZEOF_STRUCT_MEM 0 pre ++
      live SIZEOF_STRUCT_MEM (place pre + 12 + k) post := live_append
    refine ⟨m', _, _, n, hsome, ha.heap, ha.same, ⟨fun p j hp => ?_, fun p j hp hmem x hle hlt => ?_⟩, ha.left.le,
      ?_, fun j hj => ?_⟩
    · rw [hnew, hold]
      simp [hp]
    · exact ha.keeps x ⟨_, hmem, hle, hlt⟩
    · rw [hnew]
      simp
    · rw [hold] at hj
      rcases List.mem_append.mp hj with hj | hj
      · have hend : place pre + 12 + j ≤ place pre := (live_bounds hj).2
        omega
      · have hstart : place pre + 12 + k + 12 ≤ place pre + 12 := (live_bounds hj).1
        omega

/-- `rt_smem_free` for its callers. -/
theorem Heap.free (h : Heap m bs) (hq : (q, n) ∈ live SIZEOF_STRUCT_MEM 0 bs) :
    ∃ m' cs, rtSmemFree m (some q) = some m' ∧ Heap m' cs ∧ SameHeap m m' ∧ Elsewhere q m m' bs cs ∧
      ∀ k, (q, k) ∉ live SIZEOF_STRUCT_MEM 0 cs := by
  obtain ⟨pre, post, rfl, hplace⟩ := live_split hq
  change q = place pre + 12 at hplace
  subst hplace
  obtain ⟨m', cs, hfree, hs⟩ := h.free_spec rfl
  have hold : live SIZEOF_STRUCT_MEM 0 (pre ++ ⟨true, n⟩ :: post) = live SIZEOF_STRUCT_MEM 0 pre ++
      (place pre + 12, n) :: live SIZEOF_STRUCT_MEM (place pre + 12 + n) post := live_append
  have hnew : live SIZEOF_STRUCT_MEM 0 cs = live SIZEOF_STRUCT_MEM 0 pre ++
      live SIZEOF_STRUCT_MEM (place pre + 12 + n) post := hs.live.trans live_append
  refine ⟨m', cs, hfree, hs.heap, hs.same, ⟨fun p j hp => ?_, fun p j hp hmem x hle hlt => ?_⟩, fun j hj => ?_⟩
  · rw [hnew, hold]
    simp [hp]
  · refine hs.keeps x ⟨(p, j), ?_, hle, hlt⟩
    rw [← hs.live, hnew]
    rw [hold] at hmem
    simpa [hp] using hmem
  · rw [hnew] at hj
    rcases List.mem_append.mp hj with hj | hj
    · have hend : place pre + 12 + j ≤ place pre := (live_bounds hj).2
      omega
    · have hstart : place pre + 12 + n + 12 ≤ place pre + 12 := (live_bounds hj).1
      omega

/-- Where a used block stands, and what it is. -/
theorem Heap.at_room (h : Heap m bs) (hq : (q, n) ∈ live SIZEOF_STRUCT_MEM 0 bs) :
    ∃ p, q = p + 12 ∧ p % 4 = 0 ∧ m.next p = q + n ∧ q + n ≤ m.heapEnd ∧ 4 ≤ n ∧ n % 4 = 0 := by
  obtain ⟨pre, post, rfl, hplace⟩ := live_split hq
  have hsizes := h.laid.sizes ⟨true, n⟩ (List.mem_append_right _ List.mem_cons_self)
  change q = place pre + 12 at hplace
  subst hplace
  exact ⟨place pre, rfl, h.laid.place_mod, h.laid.next_eq, h.laid.behind_le, hsizes.1, hsizes.2⟩

/-- The end of a used block is given back, for the callers. -/
theorem Heap.cut (h : Heap m bs) (hq : (q, n) ∈ live SIZEOF_STRUCT_MEM 0 bs) (hp : q = p + 12)
    (hsize : 4 ≤ size ∧ size % 4 = 0) (hlt : size + 24 < n) :
    ∃ m' cs, ((({ m with used := m.used - (n - size) } : Smem).splitAt p size).lower (p + 12 + size)).plugHoles
        (p + 12 + size) = some m' ∧ Heap m' cs ∧ SameHeap m m' ∧ Elsewhere q m m' bs cs ∧
      (∀ k, (q, k) ∈ live SIZEOF_STRUCT_MEM 0 cs ↔ k = size) ∧
      ∀ x, q ≤ x → x < q + size → m'.word x = m.word x := by
  obtain ⟨pre, post, rfl, hplace⟩ := live_split hq
  have hp' : place pre = p := by
    change q = place pre + 12 at hplace
    omega
  have hmod := h.laid.sizes ⟨true, n⟩ (List.mem_append_right _ List.mem_cons_self)
  obtain ⟨j, hj⟩ := Nat.exists_eq_add_of_le (Nat.le_of_lt hlt)
  have hn : n = size + 12 + (12 + j) := by omega
  dsimp only at hmod
  obtain ⟨m', cs, hplug, hs⟩ := h.shrink hp' hn hsize (by omega)
  subst hp
  have hold : live SIZEOF_STRUCT_MEM 0 (pre ++ ⟨true, n⟩ :: post) = live SIZEOF_STRUCT_MEM 0 pre ++
      (p + 12, n) :: live SIZEOF_STRUCT_MEM (p + 12 + n) post := by
    rw [← hp']
    exact live_append
  have hnew : live SIZEOF_STRUCT_MEM 0 cs = live SIZEOF_STRUCT_MEM 0 pre ++
      (p + 12, size) :: live SIZEOF_STRUCT_MEM (p + 12 + n) post := by
    rw [hs.live, live_append, live_cons_used, live_cons_free]
    have hend : p + 12 + n = p + 12 + size + 12 + (12 + j) := by omega
    rw [hend, ← hp']
    rfl
  have hself : (p + 12, size) ∈ live SIZEOF_STRUCT_MEM 0 cs := by
    rw [hnew]
    simp
  refine ⟨m', cs, hplug, hs.heap, hs.same, ⟨fun r k hr => ?_, fun r k hr hmem x hle hlt => ?_⟩, fun k => ?_,
    fun x hle hlt => ?_⟩
  · rw [hnew, hold]
    simp [hr]
  · refine hs.keeps x ⟨(r, k), ?_, hle, hlt⟩
    rw [← hs.live, hnew]
    rw [hold] at hmem
    simpa [hr] using hmem
  · constructor
    · exact fun hk => live_unique hk hself
    · rintro rfl
      exact hself
  · exact hs.keeps x ⟨(p + 12, size), hs.live ▸ hself, hle, hlt⟩

/-- `rt_smem_realloc` of a used block passes its assertions. -/
theorem Heap.realloc_eq (h : Heap m bs) (hq : (q, n) ∈ live SIZEOF_STRUCT_MEM 0 bs) (hp : q = p + 12)
    (hlarge : rtAlign size ≤ m.memSizeAligned) (hzero : rtAlign size ≠ 0) :
    rtSmemRealloc m (some q) size =
      if n = rtAlign size then some (m, some q)
      else if rtAlign size + 24 < n then
        (((({ m with used := m.used - (n - rtAlign size) } : Smem).splitAt p (rtAlign size)).lower
          (p + 12 + rtAlign size)).plugHoles (p + 12 + rtAlign size)).map fun m => (m, some q)
      else match rtSmemAlloc m (rtAlign size) with
        | none => none
        | some (m, none) => some (m, none)
        | some (m, some nmem) => (rtSmemFree (m.copy nmem q (if n < rtAlign size then n else rtAlign size))
            (some q)).map fun m => (m, some nmem) := by
  obtain ⟨p', hp', hmod, hnext, hend, hn⟩ := h.at_room hq
  have hpp : p' = p := by omega
  subst hpp
  have hasserts : q % RT_ALIGN_SIZE = 0 ∧ q < m.heapEnd := by
    change q % 4 = 0 ∧ q < m.heapEnd
    omega
  have hsub : q - SIZEOF_STRUCT_MEM = p' := by
    change q - 12 = p'
    omega
  have hroom : m.next p' - p' - SIZEOF_STRUCT_MEM = n := by
    change m.next p' - p' - 12 = n
    omega
  rw [rtSmemRealloc, if_neg h.laid.placed, if_neg (Nat.not_lt.mpr hlarge), if_neg hzero]
  dsimp only
  rw [if_pos hasserts, hsub, hroom]
  rfl

/-! ## One operation -/

/-- An operation that is allowed passes every assertion, and the used blocks are those that are held. -/
def Safe (s : System) (op : Op) : Prop :=
  ∃ s' cs, step s op = some s' ∧ Holds s' cs ∧ SameHeap s.heap s'.heap

theorem Chunk.fresh_kept (size : ℕ) (word : ℕ → ℕ) (p : ℕ) : (Chunk.fresh size).Kept word p :=
  fun _ _ hv => nomatch hv

/-- What is still inside after `resize` is where the words have been copied to. -/
theorem Chunk.Kept.resize {word word' : ℕ → ℕ} (h : c.Kept word p)
    (heq : ∀ i, i < c.size → i < size → word' (q + i) = word (p + i)) : (c.resize size).Kept word' q := by
  intro i v hv
  have hv' : (if i + 4 ≤ size then c.data i else none) = some v := hv
  by_cases hi : i + 4 ≤ size
  · rw [if_pos hi] at hv'
    obtain ⟨hsize, hword⟩ := h i v hv'
    exact ⟨hi, (heq i (by omega) (by omega)).trans hword⟩
  · rw [if_neg hi] at hv'
    cases hv'

theorem Holds.store (h : Holds s bs) {i v : ℕ} (hc : s.owned p = some c) (hi : i + 4 ≤ c.size) :
    Safe s (.store p i v) := by
  obtain ⟨n, hmem, hsize, hkept⟩ := h.rooms p c hc
  have hheap : Heap { s.heap with word := Function.update s.heap.word (p + i) v } bs := by
    refine h.heap.store fun x hx => Function.update_of_ne ?_ _ _
    rintro rfl
    exact hx ⟨(p, n), hmem, Nat.le_add_right p i, by dsimp only; omega⟩
  refine ⟨_, bs, rfl, ?_, rfl, rfl, rfl⟩
  refine h.change hheap ⟨fun _ _ _ => Iff.rfl, fun r k hr hmem' x hle hlt => ?_⟩ _ ?_ ?_
  · refine Function.update_of_ne ?_ _ _
    rintro rfl
    rcases live_apart hmem hmem' with heq | hlt' | hlt'
    · exact hr (congrArg Prod.fst heq).symm
    · dsimp only at hlt'
      omega
    · change r + k + 12 ≤ p at hlt'
      omega
  · intro d hd
    rw [hc] at hd
    cases hd
    refine ⟨n, hmem, hsize, fun j w hw => ?_⟩
    dsimp only at hw ⊢
    by_cases hji : j = i
    · subst hji
      rw [Function.update_self] at hw
      cases hw
      exact ⟨hi, Function.update_self _ _ _⟩
    · rw [Function.update_of_ne hji] at hw
      obtain ⟨hj, hword⟩ := hkept j w hw
      refine ⟨hj, ?_⟩
      rw [Function.update_of_ne (by omega)]
      exact hword
  · intro n' _
    rw [hc]
    rfl

/-- A new block is held. -/
theorem Holds.receive (h : Holds s bs) {k : ℕ} (heap : Heap m cs) (helse : Elsewhere q s.heap m bs cs)
    (hq : (q, k) ∈ live SIZEOF_STRUCT_MEM 0 cs) (hsize : size ≤ k) :
    Holds (s.give m (some q) (Chunk.fresh size)) cs := by
  refine h.change heap helse _ (fun d hd => ?_) fun _ _ => rfl
  cases hd
  exact ⟨k, hq, hsize, Chunk.fresh_kept size _ q⟩

theorem Holds.malloc (h : Holds s bs) (hsize : size + 3 < 2 ^ 32) : Safe s (.malloc size) := by
  by_cases hzero : size = 0
  · subst hzero
    exact ⟨s, bs, rfl, h, rfl, rfl, rfl⟩
  · rcases h.heap.malloc hzero with ⟨hnone, -⟩ | ⟨m', cs, q, n, hsome, hheap, hsame, helse, hle, hq, -⟩
    · refine ⟨s, bs, ?_, h, rfl, rfl, rfl⟩
      rw [step, hnone]
      rfl
    · refine ⟨s.give m' (some q) (Chunk.fresh size), cs, ?_, ?_, hsame⟩
      · rw [step, hsome]
        rfl
      · exact h.receive hheap helse hq ((le_request hsize).trans hle)

theorem Holds.free (h : Holds s bs) (hc : s.owned q = some c) :
    ∃ m cs, rtSmemFree s.heap (some q) = some m ∧ Holds (s.drop m (some q)) cs ∧ SameHeap s.heap m := by
  obtain ⟨n, hmem, -, -⟩ := h.rooms q c hc
  obtain ⟨m, cs, hfree, hheap, hsame, helse, hgone⟩ := h.heap.free hmem
  exact ⟨m, cs, hfree, h.change hheap helse none nofun fun k hk => absurd hk (hgone k), hsame⟩

theorem rtAlign_lt (size : ℕ) : rtAlign size + 3 < 2 ^ 32 := by
  have hlt : (size + 3) % 2 ^ 32 < 2 ^ 32 := Nat.mod_lt _ (by decide)
  change (size + 3) % 2 ^ 32 / 4 * 4 + 3 < 2 ^ 32
  omega

/-- What stays in its place is held with its new size. -/
theorem Holds.stay (h : Holds s bs) (hc : s.owned q = some c) (heap : Heap m cs)
    (helse : Elsewhere q s.heap m bs cs) {k : ℕ} (hq : (q, k) ∈ live SIZEOF_STRUCT_MEM 0 cs) (hsize : size ≤ k)
    (hwords : ∀ x, q ≤ x → x < q + k → m.word x = s.heap.word x) :
    Holds ((s.drop m (some q)).give m (some q) ((s.chunk (some q)).resize size)) cs := by
  have hchunk : s.chunk (some q) = c := by
    rw [System.chunk, Option.bind_some, hc]
    rfl
  have howned : Function.update (Function.update s.owned q none) q (some (c.resize size)) =
      Function.update s.owned q (some (c.resize size)) := Function.update_idem _ _ _
  obtain ⟨n, -, -, hkept⟩ := h.rooms q c hc
  rw [hchunk]
  change Holds ⟨m, Function.update (Function.update s.owned q none) q (some (c.resize size))⟩ cs
  rw [howned]
  refine h.change heap helse _ (fun d hd => ?_) fun _ _ => rfl
  cases hd
  exact ⟨k, hq, hsize, hkept.resize fun i _ hi => hwords (q + i) (Nat.le_add_right q i) (by omega)⟩

/-- The words are copied into the new block, and the old one is given back. -/
theorem Holds.move (h : Holds s bs) (hc : s.owned q = some c) {r n k : ℕ} (heap : Heap m cs)
    (hsame : SameHeap s.heap m) (helse : Elsewhere r s.heap m bs cs)
    (hq : (q, n) ∈ live SIZEOF_STRUCT_MEM 0 bs) (hr : (r, k) ∈ live SIZEOF_STRUCT_MEM 0 cs)
    (hnew : ∀ k, (r, k) ∉ live SIZEOF_STRUCT_MEM 0 bs) {a : ℕ} (hsize : size ≤ a) (ha : a ≤ k) (hcn : c.size ≤ n) :
    ∃ m' ds, rtSmemFree (m.copy r q (if n < a then n else a)) (some q) = some m' ∧
      Holds ((s.drop m' (some q)).give m' (some r) ((s.chunk (some q)).resize size)) ds ∧ SameHeap s.heap m' := by
  have hqr : q ≠ r := by
    rintro rfl
    exact hnew n hq
  have hchunk : s.chunk (some q) = c := by
    rw [System.chunk, Option.bind_some, hc]
    rfl
  obtain ⟨-, -, -, hkept⟩ := h.rooms q c hc
  set len := if n < a then n else a with hlen
  have hlen' : len ≤ n ∧ len ≤ a ∧ (n ≤ len ∨ a ≤ len) := by
    rw [hlen]
    split_ifs with hlt
    · omega
    · omega
  have hcopied : ∀ i, i < len → (m.copy r q len).word (r + i) = s.heap.word (q + i) := by
    intro i hi
    have hword : (m.copy r q len).word (r + i) = m.word (r + i - r + q) :=
      if_pos ⟨Nat.le_add_right r i, Nat.add_lt_add_left hi r⟩
    have hplace : r + i - r + q = q + i := by omega
    rw [hword, hplace]
    exact helse.words q n hqr hq (q + i) (Nat.le_add_right q i) (by omega)
  have hother : ∀ x, ¬ (r ≤ x ∧ x < r + len) → (m.copy r q len).word x = m.word x := fun x hx => if_neg hx
  have hcopy : Heap (m.copy r q len) cs := by
    refine heap.store fun x hx => hother x fun hin => hx ⟨(r, k), hr, hin.1, ?_⟩
    dsimp only
    omega
  have helse' : Elsewhere r s.heap (m.copy r q len) bs cs := by
    refine ⟨helse.live, fun p j hp hmem x hle hlt => ?_⟩
    rw [hother]
    · exact helse.words p j hp hmem x hle hlt
    · rintro ⟨hle', hlt'⟩
      have hp' : (p, j) ∈ live SIZEOF_STRUCT_MEM 0 cs := (helse.live p j hp).mpr hmem
      rcases live_apart hr hp' with heq | hapart | hapart
      · exact hp (congrArg Prod.fst heq).symm
      · dsimp only at hapart
        omega
      · dsimp only at hapart
        omega
  have hheld : Holds ⟨m.copy r q len, Function.update s.owned r (some (c.resize size))⟩ cs := by
    refine h.change hcopy helse' _ (fun d hd => ?_) fun _ _ => rfl
    cases hd
    exact ⟨k, hr, hsize.trans ha, hkept.resize fun i hi hi' => hcopied i (by omega)⟩
  have howned : (Function.update s.owned r (some (c.resize size))) q = some c := by
    rw [Function.update_of_ne hqr]
    exact hc
  obtain ⟨m', ds, hfree, hholds, hsame'⟩ := hheld.free howned
  refine ⟨m', ds, hfree, ?_, ?_⟩
  · rw [hchunk]
    have hcomm := Function.update_comm hqr none (some (c.resize size)) s.owned
    change Holds ⟨m', Function.update (Function.update s.owned q none) r (some (c.resize size))⟩ ds
    rw [hcomm]
    exact hholds
  · exact ⟨hsame'.address.trans hsame.address, hsame'.heapEnd.trans hsame.heapEnd,
      hsame'.memSizeAligned.trans hsame.memSizeAligned⟩

theorem Holds.realloc (h : Holds s bs) (hc : s.owned q = some c) (hsize : size + 3 < 2 ^ 32) :
    Safe s (.realloc (some q) size) := by
  obtain ⟨n, hmem, hcn, hkept⟩ := h.rooms q c hc
  obtain ⟨p, hp, -, -, -, hn⟩ := h.heap.at_room hmem
  have hle : size ≤ rtAlign size := le_rtAlign hsize
  have hmod := rtAlign_mod size
  by_cases hlarge : rtAlign size ≤ s.heap.memSizeAligned
  · by_cases hzero : rtAlign size = 0
    · obtain rfl : size = 0 := by omega
      obtain ⟨m, cs, hfree, hholds, hsame⟩ := h.free hc
      refine ⟨s.drop m (some q), cs, ?_, hholds, hsame⟩
      rw [step, rtSmemRealloc, if_neg h.heap.laid.placed, if_neg (Nat.not_lt.mpr hlarge), if_pos hzero,
        hfree]
      rfl
    · have heq := h.heap.realloc_eq hmem hp hlarge hzero
      by_cases hsame : n = rtAlign size
      · rw [if_pos hsame] at heq
        refine ⟨(s.drop s.heap (some q)).give s.heap (some q) ((s.chunk (some q)).resize size), bs,
          by rw [step, heq]; rfl, ?_, rfl, rfl, rfl⟩
        exact h.stay hc h.heap ⟨fun _ _ _ => Iff.rfl, fun _ _ _ _ _ _ _ => rfl⟩ hmem (by omega) fun _ _ _ => rfl
      · rw [if_neg hsame] at heq
        by_cases hcut : rtAlign size + 24 < n
        · obtain ⟨m', cs, hplug, hheap, hkeep, helse, hself, hwords⟩ :=
            h.heap.cut hmem hp ⟨by omega, hmod⟩ hcut
          rw [if_pos hcut, hplug] at heq
          refine ⟨_, cs, by rw [step, heq]; rfl, ?_, hkeep⟩
          exact h.stay hc hheap helse ((hself _).mpr rfl) hle hwords
        · rw [if_neg hcut] at heq
          rcases h.heap.malloc hzero with ⟨hnone, -⟩ | ⟨m, cs, r, k, hsome, hheap, hkeep, helse, hk, hr, hnew⟩
          · rw [hnone] at heq
            have hne : size ≠ 0 := by
              rintro rfl
              exact hzero rfl
            refine ⟨s, bs, ?_, h, rfl, rfl, rfl⟩
            rw [step, heq, Option.map_some]
            dsimp only
            rw [if_neg hne]
          · rw [hsome] at heq
            have ha : rtAlign size ≤ k := (le_request (rtAlign_lt size)).trans hk
            obtain ⟨m', ds, hfree, hholds, hkeep'⟩ := h.move hc hheap hkeep helse hmem hr hnew hle ha hcn
            dsimp only at heq
            rw [hfree] at heq
            exact ⟨_, ds, by rw [step, heq]; rfl, hholds, hkeep'⟩
  · have hne : size ≠ 0 := by
      rintro rfl
      exact hlarge (Nat.zero_le _)
    refine ⟨s, bs, ?_, h, rfl, rfl, rfl⟩
    rw [step, rtSmemRealloc, if_neg h.heap.laid.placed, if_pos (Nat.lt_of_not_le hlarge),
      Option.map_some]
    dsimp only
    rw [if_neg hne]

/-- `rt_smem_realloc` of no block. -/
theorem Holds.realloc_none (h : Holds s bs) (hsize : size + 3 < 2 ^ 32) : Safe s (.realloc none size) := by
  have hle : size ≤ rtAlign size := le_rtAlign hsize
  have hstay : rtSmemRealloc s.heap none size = some (s.heap, none) → Safe s (.realloc none size) := by
    intro heq
    refine ⟨s, bs, ?_, h, rfl, rfl, rfl⟩
    rw [step, heq, Option.map_some]
    dsimp only
    split_ifs
    · rfl
    · rfl
  by_cases hlarge : rtAlign size ≤ s.heap.memSizeAligned
  · by_cases hzero : rtAlign size = 0
    · apply hstay
      rw [rtSmemRealloc, if_neg h.heap.laid.placed, if_neg (Nat.not_lt.mpr hlarge), if_pos hzero]
      rfl
    · have heq : rtSmemRealloc s.heap none size = rtSmemAlloc s.heap (rtAlign size) := by
        rw [rtSmemRealloc, if_neg h.heap.laid.placed, if_neg (Nat.not_lt.mpr hlarge), if_neg hzero]
      rcases h.heap.malloc hzero with ⟨hnone, -⟩ | ⟨m, cs, r, k, hsome, hheap, hkeep, helse, hk, hr, -⟩
      · exact hstay (heq.trans hnone)
      · have ha : rtAlign size ≤ k := (le_request (rtAlign_lt size)).trans hk
        refine ⟨s.give m (some r) ((s.chunk none).resize size), cs, ?_, ?_, hkeep⟩
        · rw [step, heq, hsome]
          rfl
        · have hfresh : (s.chunk none).resize size = Chunk.fresh size := by
            rw [System.chunk, Chunk.resize, Chunk.fresh]
            simp [Chunk.fresh]
          rw [hfresh]
          exact h.receive hheap helse hr (hle.trans ha)
  · exact hstay ((if_neg h.heap.laid.placed).trans (if_pos (Nat.lt_of_not_le hlarge)))

/-- Whatever is allowed is safe. -/
theorem Holds.safe (h : Holds s bs) (op : Op) (hop : op.Ok s) : Safe s op := by
  cases op with
  | malloc size => exact h.malloc hop
  | realloc p size =>
    obtain ⟨hp, hsize⟩ := hop
    cases p with
    | none => exact h.realloc_none hsize
    | some q =>
      obtain ⟨c, hc⟩ := Option.isSome_iff_exists.mp (hp q rfl)
      exact h.realloc hc hsize
  | free p =>
    cases p with
    | none => exact ⟨s, bs, rfl, h, rfl, rfl, rfl⟩
    | some q =>
      obtain ⟨c, hc⟩ := Option.isSome_iff_exists.mp (hop q rfl)
      obtain ⟨m, cs, hfree, hholds, hsame⟩ := h.free hc
      refine ⟨_, cs, ?_, hholds, hsame⟩
      rw [step, hfree]
      rfl
  | store p i v =>
    obtain ⟨-, hi⟩ := hop
    cases hc : s.owned p with
    | none =>
      rw [hc] at hi
      cases hi
    | some c =>
      rw [hc] at hi
      exact h.store hc (by simpa using hi)

end WiotaDev.SmallMem
