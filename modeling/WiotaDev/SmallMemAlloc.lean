import WiotaDev.SmallMemSteps

/-! # Taking a block

The search finds the first free block that is large enough, from the lowest free one on, and the block
that is taken is divided where the rest is large enough for a block of its own. -/

namespace WiotaDev.SmallMem
open BlockTiling

variable {m m' : Smem} {pre post bs cs : List Block} {n p size : ℕ}

/-- A block that is not taken for a request. -/
def TooSmall (size : ℕ) (b : Block) : Prop := b.used = true ∨ b.size < size

/-- The search finds the first free block that is large enough, or there is none. -/
theorem Laid.findFit (h : Laid m (pre ++ post)) (hp : place pre = p) (hsize : size ≤ m.memSizeAligned)
    {fuel : ℕ} (hfuel : post.length ≤ fuel) :
    (m.findFit size fuel p = none ∧ ∀ b ∈ post, TooSmall size b) ∨
      ∃ mid k post', post = mid ++ ⟨false, k⟩ :: post' ∧ size ≤ k ∧ (∀ b ∈ mid, TooSmall size b) ∧
        m.findFit size fuel p = some (place (pre ++ mid)) := by
  induction post generalizing pre p fuel with
  | nil =>
    refine Or.inl ⟨?_, nofun⟩
    have hend : p = m.heapEnd := by
      rw [← h.fin, List.append_nil, hp]
    cases fuel with
    | zero => rfl
    | succ fuel =>
      have hheap := h.heapEnd
      change m.heapEnd = m.memSizeAligned + 12 at hheap
      rw [Smem.findFit, if_neg (by omega)]
  | cons b post ih =>
    cases fuel with
    | zero => exact absurd hfuel (Nat.not_succ_le_zero _)
    | succ fuel =>
      obtain ⟨used, k⟩ := b
      have hheap := h.heapEnd
      change m.heapEnd = m.memSizeAligned + 12 at hheap
      have hused := h.isUsed_iff
      have hnext := h.next_eq
      rw [hp] at hused hnext
      by_cases hlate : p ≤ m.memSizeAligned - size
      · rw [Smem.findFit, if_pos hlate, hnext]
        by_cases hfit : used = false ∧ size ≤ k
        · obtain ⟨rfl, hk⟩ := hfit
          refine Or.inr ⟨[], k, post, rfl, hk, nofun, ?_⟩
          have hroom : p + 12 + k - (p + SIZEOF_STRUCT_MEM) ≥ size := by
            change p + 12 + k - (p + 12) ≥ size
            omega
          rw [if_pos ⟨fun hu => Bool.false_ne_true (hused.mp hu), hroom⟩, List.append_nil, hp]
        · have hsmall : TooSmall size ⟨used, k⟩ := by
            cases used with
            | true => exact Or.inl rfl
            | false => exact Or.inr (Nat.lt_of_not_le fun hk => hfit ⟨rfl, hk⟩)
          have hno : ¬ (¬ m.isUsed p ∧ p + 12 + k - (p + SIZEOF_STRUCT_MEM) ≥ size) := by
            rintro ⟨hfree, hroom⟩
            change p + 12 + k - (p + 12) ≥ size at hroom
            rcases hsmall with hu | hk
            · exact hfree (hused.mpr hu)
            · dsimp only at hk
              omega
          rw [if_neg hno]
          rw [List.append_cons] at h
          have hplace : place (pre ++ [⟨used, k⟩]) = p + 12 + k := by
            rw [place_concat, hp]
          rcases ih h hplace (Nat.le_of_succ_le_succ hfuel) with ⟨hnone, hall⟩ | ⟨mid, j, post', rfl, hj, hmid, hsome⟩
          · refine Or.inl ⟨hnone, fun b hb => ?_⟩
            rcases List.mem_cons.mp hb with rfl | hb
            · exact hsmall
            · exact hall b hb
          · refine Or.inr ⟨⟨used, k⟩ :: mid, j, post', rfl, hj, fun b hb => ?_, ?_⟩
            · rcases List.mem_cons.mp hb with rfl | hb
              · exact hsmall
              · exact hmid b hb
            · rw [hsome, List.append_assoc]
              rfl
      · -- what is behind is too near to the end
        refine Or.inl ⟨?_, fun b hb => Or.inr ?_⟩
        · rw [Smem.findFit, if_neg hlate]
        · obtain ⟨xs, ys, hsplit⟩ := List.append_of_mem hb
          rw [hsplit, ← List.append_assoc] at h
          have hle := h.behind_le
          rw [place, stop_append] at hle
          change stop 12 (place pre) xs + 12 + b.size ≤ m.heapEnd at hle
          rw [hp] at hle
          have hpx : p ≤ stop 12 p xs := le_stop
          omega

/-- The lowest free block is found behind used ones. -/
theorem Laid.skipUsed (h : Laid m (pre ++ post)) (hp : m.lfree = place pre) {fuel : ℕ}
    (hfuel : post.length ≤ fuel) :
    m.skipUsed fuel = { m with lfree := firstFree SIZEOF_STRUCT_MEM (place pre) post } := by
  induction post generalizing pre m fuel with
  | nil =>
    have hend : m.lfree = m.heapEnd := by
      rw [← h.fin, List.append_nil, hp]
    have hstay : m.skipUsed fuel = m := by
      cases fuel with
      | zero => rfl
      | succ fuel => rw [Smem.skipUsed, if_neg fun hc => hc.2 hend]
    rw [hstay, firstFree, ← hp]
  | cons b post ih =>
    cases fuel with
    | zero => exact absurd hfuel (Nat.not_succ_le_zero _)
    | succ fuel =>
      obtain ⟨used, k⟩ := b
      have hused := h.isUsed_iff
      have hnext := h.next_eq
      have hend : place pre ≠ m.heapEnd := by
        have hle := h.behind_le
        change place pre + 12 + k ≤ m.heapEnd at hle
        omega
      cases used with
      | false =>
        rw [Smem.skipUsed, hp, if_neg fun hc => Bool.false_ne_true (hused.mp hc.1), firstFree, ← hp]
        rfl
      | true =>
        rw [Smem.skipUsed, hp, if_pos ⟨hused.mpr rfl, hend⟩, hnext]
        rw [List.append_cons] at h
        have hlaid : Laid { m with lfree := place pre + 12 + k } (pre ++ [⟨true, k⟩] ++ post) :=
          h.congr rfl ⟨rfl, rfl, rfl⟩
        rw [ih hlaid (place_concat pre ⟨true, k⟩).symm (Nat.le_of_succ_le_succ hfuel), place_concat]
        rfl

theorem charge_eq (m : Smem) (n : ℕ) : m.charge n =
    { m with used := m.used + n, max := max m.max (m.used + n) } := by
  rw [Smem.charge]
  dsimp only
  split_ifs with h
  · rw [Nat.max_eq_right (Nat.le_of_lt h)]
  · rw [Nat.max_eq_left (Nat.not_lt.mp h)]

theorem Laid.place_mod (h : Laid m (pre ++ post)) : place pre % 4 = 0 := by
  have hsizes : ∀ b ∈ pre, b.size % 4 = 0 := fun b hb => (h.sizes b (List.mem_append_left _ hb)).2
  clear h
  have hstop : ∀ p, p % 4 = 0 → stop SIZEOF_STRUCT_MEM p pre % 4 = 0 := by
    induction pre with
    | nil => exact fun p hp => hp
    | cons b pre ih =>
      intro p hp
      have hb := hsizes b List.mem_cons_self
      apply ih fun c hc => hsizes c (List.mem_cons_of_mem b hc)
      change (p + 12 + b.size) % 4 = 0
      omega
  exact hstop 0 rfl

theorem splitAt_counts (m : Smem) (p size : ℕ) :
    SameCounts m (m.splitAt p size) ∧ (m.splitAt p size).lfree = m.lfree := by
  rw [Smem.splitAt]
  split_ifs
  · exact ⟨⟨⟨rfl, rfl, rfl⟩, rfl, rfl⟩, rfl⟩
  · exact ⟨⟨⟨rfl, rfl, rfl⟩, rfl, rfl⟩, rfl⟩

/-- A word in the room of a used block stands before a free block, or behind the header that follows. -/
theorem outside_free {k x : ℕ} (hp : place pre = p)
    (hx : InUse SIZEOF_STRUCT_MEM 0 (pre ++ ⟨false, k⟩ :: post) x) : x < p ∨ p + 12 + k + 12 ≤ x := by
  rcases InUse_append.mp hx with hx | hx
  · exact Or.inl (hp ▸ hx.bounds.2)
  · have hx' : InUse SIZEOF_STRUCT_MEM (place pre + 12 + k) post x := hx
    rw [hp] at hx'
    exact Or.inr hx'.bounds.1

/-- A block has been marked as used and charged, and the lowest free block is not known yet. -/
structure Marked (m m' : Smem) (pre : List Block) (n : ℕ) (rest old : List Block) : Prop where
  laid : Laid m' (pre ++ ⟨true, n⟩ :: rest)
  same : SameHeap m m'
  used : m'.used = m.used + (12 + n)
  max : m'.max = max m.max m'.used
  lfree : m'.lfree = m.lfree
  keeps : KeepsData m m' old

/-- The whole block is taken. -/
theorem Laid.takeWhole {k : ℕ} (h : Laid m (pre ++ ⟨false, k⟩ :: post)) (hp : place pre = p) :
    Marked m ((m.charge (12 + k)).setPoolPtr p m.memUsed) pre k post (pre ++ ⟨false, k⟩ :: post) := by
  rw [charge_eq]
  have hcharged : Laid { m with used := m.used + (12 + k), max := max m.max (m.used + (12 + k)) }
      (pre ++ ⟨false, k⟩ :: post) := h.congr rfl ⟨rfl, rfl, rfl⟩
  obtain ⟨hmarked, hword⟩ := hcharged.mark true hp (v := m.memUsed) rfl
  refine ⟨hmarked, ⟨rfl, rfl, rfl⟩, rfl, rfl, rfl, fun x hx => hword x ?_⟩
  have hout := outside_free hp hx
  omega

/-- The block is divided. -/
theorem Laid.takePart {k j : ℕ} (h : Laid m (pre ++ ⟨false, k⟩ :: post)) (hp : place pre = p)
    (hk : k = size + 12 + j) (hsize : 4 ≤ size ∧ size % 4 = 0) (hrest : 4 ≤ j ∧ j % 4 = 0) :
    Marked m (((m.splitAt p size).charge (size + SIZEOF_STRUCT_MEM)).setPoolPtr p m.memUsed) pre size
      (⟨false, j⟩ :: post) (pre ++ ⟨false, k⟩ :: post) := by
  obtain ⟨hlaid, -, hword⟩ := h.split hp hk hsize hrest
  obtain ⟨hcounts, hlfree⟩ := splitAt_counts m p size
  have hcharge : size + SIZEOF_STRUCT_MEM = 12 + size := Nat.add_comm size 12
  rw [charge_eq, hcharge, hcounts.used, hcounts.max]
  have hcharged : Laid { m.splitAt p size with
      used := m.used + (12 + size)
      max := max m.max (m.used + (12 + size)) } (pre ++ ⟨false, size⟩ :: ⟨false, j⟩ :: post) :=
    hlaid.congr rfl ⟨rfl, rfl, rfl⟩
  have hfreed : m.memUsed = (m.splitAt p size).memFreed + 1 := by
    rw [Smem.memUsed, Smem.memFreed, hcounts.address]
  obtain ⟨hmarked, hmark⟩ := hcharged.mark true hp hfreed
  refine ⟨hmarked, ⟨hcounts.address, hcounts.heapEnd, hcounts.memSizeAligned⟩, rfl, rfl, hlfree,
    fun x hx => ?_⟩
  have hout := outside_free hp hx
  rw [hmark x (by omega)]
  exact hword x (by omega) (by omega) (by omega)

/-- What is left of a free block of `k` bytes when `n` are taken of it. -/
inductive Rest (k size : ℕ) (post : List Block) : ℕ → List Block → Prop
  | whole (h : k < size + 24) (hfit : size ≤ k) : Rest k size post k post
  | part (j : ℕ) (h : k = size + 12 + j) (hj : 12 ≤ j) : Rest k size post size (⟨false, j⟩ :: post)

theorem Rest.le {k n : ℕ} {rest : List Block} (h : Rest k size post n rest) : size ≤ n := by
  cases h with
  | whole hk hfit => exact hfit
  | part j hk hj => exact Nat.le_refl size

/-- The block that is taken is used, and the lowest free block is known again. -/
theorem Laid.takeBlock {k : ℕ} (h : Laid m (pre ++ ⟨false, k⟩ :: post)) (hp : place pre = p)
    (hlow : Lowest m (pre ++ ⟨false, k⟩ :: post)) (hfit : size ≤ k) (hsize : 4 ≤ size ∧ size % 4 = 0) :
    ∃ n rest, Rest k size post n rest ∧ Laid (m.takeBlock p size) (pre ++ ⟨true, n⟩ :: rest) ∧
      Lowest (m.takeBlock p size) (pre ++ ⟨true, n⟩ :: rest) ∧ SameHeap m (m.takeBlock p size) ∧
      (m.takeBlock p size).used = m.used + (12 + n) ∧
      (m.takeBlock p size).max = max m.max (m.takeBlock p size).used ∧
      KeepsData m (m.takeBlock p size) (pre ++ ⟨false, k⟩ :: post) := by
  have hnext : m.next p = p + 12 + k := hp ▸ h.next_eq
  have hk : 4 ≤ k ∧ k % 4 = 0 := h.sizes ⟨false, k⟩ (List.mem_append_right _ List.mem_cons_self)
  have hroom : m.next p - (p + SIZEOF_STRUCT_MEM) = k := by
    rw [hnext]
    change p + 12 + k - (p + 12) = k
    omega
  have hspan : m.next p - p = 12 + k := by omega
  -- the block is marked
  obtain ⟨n, rest, m₁, hrest, hmarked, htake⟩ : ∃ n rest m₁, Rest k size post n rest ∧
      Marked m m₁ pre n rest (pre ++ ⟨false, k⟩ :: post) ∧
      m.takeBlock p size = if p = m₁.lfree then m₁.skipUsed m₁.heapEnd else m₁ := by
    by_cases hsplit : k ≥ size + SIZEOF_STRUCT_MEM + MIN_SIZE_ALIGNED
    · obtain ⟨j, hj⟩ := Nat.exists_eq_add_of_le hsplit
      have hkj : k = size + 12 + (12 + j) := by
        change k = size + 12 + 12 + j at hj
        omega
      have hpool : ((m.splitAt p size).charge (size + SIZEOF_STRUCT_MEM)).memUsed = m.memUsed := by
        rw [charge_eq, Smem.memUsed, (splitAt_counts m p size).1.address]
        rfl
      refine ⟨size, _, _, Rest.part (12 + j) hkj (by omega), h.takePart hp hkj hsize (by omega), ?_⟩
      rw [Smem.takeBlock, hroom, if_pos hsplit, hpool]
    · have hsmall : k < size + 24 := by
        change ¬ k ≥ size + 12 + 12 at hsplit
        omega
      have hpool : (m.charge (12 + k)).memUsed = m.memUsed := by
        rw [charge_eq]
        rfl
      refine ⟨k, post, _, Rest.whole hsmall hfit, h.takeWhole hp, ?_⟩
      rw [Smem.takeBlock, hroom, hspan, if_neg hsplit, hpool]
  have hfree : m₁.lfree = firstFree SIZEOF_STRUCT_MEM 0 (pre ++ ⟨false, k⟩ :: post) :=
    hmarked.lfree.trans hlow
  have hstop : stop SIZEOF_STRUCT_MEM 0 pre = p := hp
  rw [htake]
  rcases firstFree_cases (p := 0) (show 0 < SIZEOF_STRUCT_MEM by decide) pre with ⟨-, hall⟩ | ⟨hlt, hsome⟩
  · -- all blocks before it are used
    have hlfree : m₁.lfree = place pre := by
      rw [hfree, hall]
      rfl
    have hfuel : (⟨true, n⟩ :: rest : List Block).length ≤ m₁.heapEnd := by
      have hlen := length_le_stop (show 0 < SIZEOF_STRUCT_MEM by decide) (place pre) (⟨true, n⟩ :: rest)
      have hfin := hmarked.laid.fin
      rw [place, stop_append] at hfin
      change stop SIZEOF_STRUCT_MEM (place pre) (⟨true, n⟩ :: rest) = m₁.heapEnd at hfin
      omega
    rw [if_pos (hp ▸ hlfree.symm), hmarked.laid.skipUsed hlfree hfuel]
    refine ⟨n, rest, hrest, hmarked.laid.congr rfl ⟨rfl, rfl, rfl⟩, ?_,
      ⟨hmarked.same.address, hmarked.same.heapEnd, hmarked.same.memSizeAligned⟩, hmarked.used, hmarked.max,
      hmarked.keeps⟩
    exact (hall _).symm
  · have hne : p ≠ m₁.lfree := by
      rw [hfree, hsome]
      omega
    rw [if_neg hne]
    refine ⟨n, rest, hrest, hmarked.laid, ?_, hmarked.same, hmarked.used, hmarked.max, hmarked.keeps⟩
    rw [Lowest, hfree, hsome, hsome]

/-! ## `rt_smem_alloc` -/

/-- The heap is in order. -/
structure Heap (m : Smem) (bs : List Block) : Prop where
  laid : Laid m bs
  low : Lowest m bs
  apart : NoFreePair bs
  used : m.used = usedBytes SIZEOF_STRUCT_MEM 0 bs
  max : m.used ≤ m.max

/-- How large a block is looked for. -/
def request (size : ℕ) : ℕ := if rtAlign size < MIN_SIZE_ALIGNED then MIN_SIZE_ALIGNED else rtAlign size

theorem rtAlign_mod (size : ℕ) : rtAlign size % 4 = 0 := Nat.mul_mod_left _ 4

theorem le_rtAlign (h : size + 3 < 2 ^ 32) : size ≤ rtAlign size := by
  have hwrap : rtAlign size = (size + 3) / 4 * 4 := by
    change (size + 3) % 2 ^ 32 / 4 * 4 = _
    rw [Nat.mod_eq_of_lt h]
  omega

theorem request_spec (size : ℕ) : 12 ≤ request size ∧ request size % 4 = 0 := by
  have hmod := rtAlign_mod size
  rw [request]
  split_ifs with h
  · exact ⟨Nat.le_refl 12, rfl⟩
  · exact ⟨Nat.not_lt.mp h, hmod⟩

theorem le_request (h : size + 3 < 2 ^ 32) : size ≤ request size := by
  have hle := le_rtAlign h
  rw [request]
  split_ifs with hlt
  · exact Nat.le_of_lt (Nat.lt_of_le_of_lt hle hlt)
  · exact hle

/-- The new block is among the used ones, and the others are what they were. -/
theorem Rest.live_eq {k : ℕ} {rest : List Block} (h : Rest k size post n rest) (pre : List Block) :
    live SIZEOF_STRUCT_MEM 0 (pre ++ ⟨true, n⟩ :: rest) = live SIZEOF_STRUCT_MEM 0 pre ++
      (place pre + 12, n) :: live SIZEOF_STRUCT_MEM (place pre + 12 + k) post := by
  rw [live_append, live_cons_used]
  cases h with
  | whole hk hfit => rfl
  | part j hk hj =>
    rw [live_cons_free]
    subst hk
    rw [← Nat.add_assoc, ← Nat.add_assoc]
    rfl

theorem Rest.usedBytes_eq {k : ℕ} {rest : List Block} (h : Rest k size post n rest) (pre : List Block) :
    usedBytes SIZEOF_STRUCT_MEM 0 (pre ++ ⟨true, n⟩ :: rest) =
      usedBytes SIZEOF_STRUCT_MEM 0 (pre ++ ⟨false, k⟩ :: post) + (12 + n) := by
  have hold : live SIZEOF_STRUCT_MEM 0 (pre ++ ⟨false, k⟩ :: post) = live SIZEOF_STRUCT_MEM 0 pre ++
      live SIZEOF_STRUCT_MEM (place pre + 12 + k) post := live_append
  rw [usedBytes, usedBytes, h.live_eq, hold]
  simp only [List.map_append, List.map_cons, List.sum_append, List.sum_cons, SIZEOF_STRUCT_MEM]
  omega

theorem Rest.apart {k : ℕ} {rest : List Block} (h : Rest k size post n rest)
    (hapart : NoFreePair (pre ++ ⟨false, k⟩ :: post)) : NoFreePair (pre ++ ⟨true, n⟩ :: rest) := by
  obtain ⟨hpre, htail, -⟩ := List.isChain_append.mp hapart
  refine NoFreePair.append hpre ?_ fun b _ c hc => ?_
  · refine List.isChain_cons.mpr ⟨fun b _ => Or.inl rfl, ?_⟩
    obtain ⟨hhead, hpost⟩ := List.isChain_cons.mp htail
    cases h with
    | whole hk hfit => exact hpost
    | part j hk hj => exact List.isChain_cons.mpr ⟨hhead, hpost⟩
  · cases hc
    exact Or.inr rfl

/-- The lowest free block is free, or the end of the heap. -/
theorem Lowest.free (hlow : Lowest m bs) (h : Laid m bs) : m.lfree = m.heapEnd ∨ ¬ m.isUsed m.lfree := by
  obtain ⟨pre, post, rfl, -, hfree, hhead⟩ := firstFree_split SIZEOF_STRUCT_MEM 0 bs
  have hplace : m.lfree = place pre := hlow.trans hfree
  cases post with
  | nil =>
    left
    rw [hplace, ← h.fin, List.append_nil]
  | cons b post =>
    right
    obtain ⟨used, k⟩ := b
    have hused := hhead _ rfl
    dsimp only at hused
    subst hused
    rw [hplace, h.isUsed_iff]
    exact Bool.false_ne_true

/-- What `rt_smem_alloc` has done when it returns a pointer. -/
structure Allocated (m m' : Smem) (pre : List Block) (k size n : ℕ) (post rest : List Block) : Prop where
  fits : request size ≤ k
  first : ∀ b ∈ pre, TooSmall (request size) b
  left : Rest k (request size) post n rest
  heap : Heap m' (pre ++ ⟨true, n⟩ :: rest)
  same : SameHeap m m'
  max : m'.max = max m.max m'.used
  keeps : KeepsData m m' (pre ++ ⟨false, k⟩ :: post)

/-- `rt_smem_alloc` takes the first free block with room for the request, and otherwise there is none. -/
theorem Heap.alloc_spec (h : Heap m bs) (hsize : size ≠ 0) :
    (rtSmemAlloc m size = some (m, none) ∧ ∀ b ∈ bs, TooSmall (request size) b) ∨
      ∃ pre k post n rest m', bs = pre ++ ⟨false, k⟩ :: post ∧ Allocated m m' pre k size n post rest ∧
        rtSmemAlloc m size = some (m', some (place pre + 12)) := by
  obtain ⟨hmin, hmod⟩ := request_spec size
  have hrequest : (if rtAlign size < MIN_SIZE_ALIGNED then MIN_SIZE_ALIGNED else rtAlign size) = request size := rfl
  rw [rtSmemAlloc, if_neg hsize, if_neg h.laid.placed]
  dsimp only
  rw [hrequest]
  by_cases hlarge : request size > m.memSizeAligned
  · refine Or.inl ⟨if_pos hlarge, fun b hb => Or.inr ?_⟩
    obtain ⟨pre, post, rfl⟩ := List.append_of_mem hb
    have hle := h.laid.behind_le
    rw [h.laid.heapEnd] at hle
    change place pre + 12 + b.size ≤ m.memSizeAligned + 12 at hle
    omega
  · rw [if_neg hlarge]
    obtain ⟨pre, post, rfl, hused, hfree, -⟩ := firstFree_split SIZEOF_STRUCT_MEM 0 bs
    have hlow : m.lfree = place pre := h.low.trans hfree
    have hfuel : post.length ≤ m.heapEnd := by
      have hlen := length_le_stop (show 0 < SIZEOF_STRUCT_MEM by decide) (place pre) post
      have hfin := h.laid.fin
      rw [place, stop_append] at hfin
      change stop SIZEOF_STRUCT_MEM (place pre) post = m.heapEnd at hfin
      omega
    have hpre : ∀ b ∈ pre, TooSmall (request size) b := fun b hb => Or.inl (hused b hb)
    rcases h.laid.findFit hlow.symm (Nat.not_lt.mp hlarge) hfuel with ⟨hnone, hpost⟩ | hsome
    · refine Or.inl ⟨by rw [hnone], fun b hb => ?_⟩
      rcases List.mem_append.mp hb with hb | hb
      · exact hpre b hb
      · exact hpost b hb
    · obtain ⟨mid, k, post', rfl, hk, hmid, hptr⟩ := hsome
      rw [← List.append_assoc] at h ⊢
      have hlaid := h.laid
      obtain ⟨n, rest, hrest, hlaid', hlow', hsame, hused', hmax, hkeeps⟩ :=
        hlaid.takeBlock rfl h.low hk ⟨by omega, hmod⟩
      have hassert : place (pre ++ mid) + SIZEOF_STRUCT_MEM + request size ≤
          (m.takeBlock (place (pre ++ mid)) (request size)).heapEnd := by
        have hle := hlaid'.behind_le
        have hn := hrest.le
        dsimp only at hle
        omega
      refine Or.inr ⟨pre ++ mid, k, post', n, rest, _, rfl, ⟨hk, ?_, hrest, ?_, hsame, hmax, hkeeps⟩, ?_⟩
      · intro b hb
        rcases List.mem_append.mp hb with hb | hb
        · exact hpre b hb
        · exact hmid b hb
      · refine ⟨hlaid', hlow', hrest.apart h.apart, ?_, ?_⟩
        · rw [hused', h.used, hrest.usedBytes_eq]
        · rw [hmax]
          exact Nat.le_max_right _ _
      · rw [hptr]
        dsimp only
        rw [if_pos ⟨hlow'.free hlaid', hassert, hlaid.place_mod⟩]
        rfl

end WiotaDev.SmallMem
