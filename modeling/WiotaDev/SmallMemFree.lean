import WiotaDev.SmallMemAlloc

/-! # Giving a block back

`rt_smem_free` and `rt_smem_realloc` on a heap that is in order. -/

namespace WiotaDev.SmallMem
open BlockTiling

variable {m m' : Smem} {pre post bs cs : List Block} {n p size : ℕ}

/-- Blocks have been joined, and the heap is in order again. -/
structure Settled (m m' : Smem) (bs cs : List Block) : Prop where
  heap : Heap m' cs
  same : SameHeap m m'
  max : m'.max = m.max
  live : live SIZEOF_STRUCT_MEM 0 cs = live SIZEOF_STRUCT_MEM 0 bs
  keeps : KeepsData m m' bs

/-- `plug_holes` puts a heap in order that has a new free block. -/
theorem Laid.settle (h : Laid m (pre ++ ⟨false, n⟩ :: post)) (hp : place pre = p)
    (hlow : Lowest m (pre ++ ⟨false, n⟩ :: post)) (hpre : NoFreePair pre) (hpost : NoFreePair post)
    (hused : m.used = usedBytes SIZEOF_STRUCT_MEM 0 (pre ++ ⟨false, n⟩ :: post)) (hmax : m.used ≤ m.max) :
    ∃ m' cs, m.plugHoles p = some m' ∧ Settled m m' (pre ++ ⟨false, n⟩ :: post) cs := by
  obtain ⟨m', cs, hplug, hjoined, hapart⟩ := h.plugHoles hp hlow hpre hpost
  refine ⟨m', cs, hplug, ⟨hjoined.laid, ?_, hapart, ?_, ?_⟩, hjoined.counts.toSameHeap, hjoined.counts.max,
    hjoined.same.live, hjoined.keeps⟩
  · exact (hjoined.lfree.trans hlow).trans hjoined.same.firstFree.symm
  · rw [hjoined.counts.used, hused, usedBytes, usedBytes, hjoined.same.live]
  · rw [hjoined.counts.used, hjoined.counts.max]
    exact hmax

/-- Every header of the heap says to whom it belongs. -/
theorem Laid.memPool_place (h : Laid m (pre ++ post)) : m.memPool (place pre) = m.address := by
  have heven := h.even
  rw [Smem.memFreed] at heven
  cases post with
  | nil =>
    have hpool := h.endPool
    rw [← h.fin, List.append_nil, Smem.memUsed] at hpool
    rw [Smem.memPool, hpool]
    omega
  | cons b post =>
    have hpool := h.around.2.1.pool
    rw [Smem.memPool, hpool]
    split_ifs
    · omega
    · omega

/-- A used block and what stands around it. -/
theorem NoFreePair.around_used (h : NoFreePair (pre ++ ⟨true, n⟩ :: post)) :
    NoFreePair pre ∧ NoFreePair post := by
  obtain ⟨hpre, htail, -⟩ := List.isChain_append.mp h
  exact ⟨hpre, (List.isChain_cons.mp htail).2⟩

theorem usedBytes_mark : usedBytes SIZEOF_STRUCT_MEM 0 (pre ++ ⟨true, n⟩ :: post) =
    usedBytes SIZEOF_STRUCT_MEM 0 (pre ++ ⟨false, n⟩ :: post) + (12 + n) := by
  rw [usedBytes_append, usedBytes_append, usedBytes_cons_used, usedBytes_cons_free, SIZEOF_STRUCT_MEM]
  omega

theorem lower_eq (m : Smem) (mem : ℕ) : m.lower mem = { m with lfree := min mem m.lfree } := by
  rw [Smem.lower]
  split_ifs with h
  · rw [Nat.min_eq_left (Nat.le_of_lt h)]
  · rw [Nat.min_eq_right (Nat.not_lt.mp h)]

/-- `rt_smem_free` of a used block passes every assertion, and puts the heap in order. -/
theorem Heap.free_spec (h : Heap m (pre ++ ⟨true, n⟩ :: post)) (hp : place pre = p) :
    ∃ m' cs, rtSmemFree m (some (p + 12)) = some m' ∧ Settled m m' (pre ++ ⟨false, n⟩ :: post) cs := by
  have hlaid := h.laid
  have hsize := hlaid.sizes ⟨true, n⟩ (List.mem_append_right _ List.mem_cons_self)
  have hnext : m.next p = p + 12 + n := hp ▸ hlaid.next_eq
  have hend : p + 12 + n ≤ m.heapEnd := hp ▸ hlaid.behind_le
  have hmod : p % 4 = 0 := hp ▸ hlaid.place_mod
  have hpool : m.memPool p = m.address := hp ▸ hlaid.memPool_place
  have hpool' : m.memPool (m.next p) = m.address := by
    have hlist : Laid m ((pre ++ [⟨true, n⟩]) ++ post) := List.append_cons pre _ post ▸ hlaid
    have hplace := hlist.memPool_place
    rw [place_concat, hp] at hplace
    rw [hnext]
    exact hplace
  have hisUsed : m.isUsed p := by
    rw [← hp, hlaid.isUsed_iff]
  have hsub : p + 12 - SIZEOF_STRUCT_MEM = p := Nat.add_sub_cancel p 12
  -- the block is marked as free, and the counts follow
  obtain ⟨hmarked, hword⟩ := hlaid.mark false hp (v := m.memFreed) rfl
  set m₁ : Smem := { m.setPoolPtr p m.memFreed with
    lfree := min p m.lfree
    used := m.used - (12 + n) } with hm₁
  have hstep : rtSmemFree m (some (p + 12)) = m₁.plugHoles p := by
    have hspan : (m.setPoolPtr p m.memFreed).next p - p = 12 + n := by
      rw [Smem.next, setPoolPtr_word_of_ne _ (by omega)]
      change m.next p - p = _
      omega
    have hasserts : (p + 12) % RT_ALIGN_SIZE = 0 ∧ m.memPool p = m.address ∧ m.memPool p ≠ 0 ∧
        m.isUsed p ∧ p + 12 < m.heapEnd ∧ m.memPool (m.next p) = m.address := by
      refine ⟨?_, hpool, hpool.symm ▸ hlaid.placed, hisUsed, ?_, hpool'⟩
      · change (p + 12) % 4 = 0
        omega
      · dsimp only at hsize
        omega
    rw [rtSmemFree, hsub, if_pos hasserts]
    dsimp only
    rw [lower_eq]
    change Smem.plugHoles { m.setPoolPtr p m.memFreed with
      lfree := min p m.lfree
      used := m.used - ((m.setPoolPtr p m.memFreed).next p - p) } p = _
    rw [hspan]
  have hlow : Lowest m₁ (pre ++ ⟨false, n⟩ :: post) := by
    rw [Lowest, firstFree_min (by decide) (⟨true, n⟩ :: post), ← h.low]
    change min p m.lfree = min (place pre) m.lfree
    rw [hp]
  obtain ⟨hpre, hpost⟩ := NoFreePair.around_used h.apart
  have hused : m.used = _ + (12 + n) := h.used.trans usedBytes_mark
  have hmax := h.max
  have hlaid₁ : Laid m₁ (pre ++ ⟨false, n⟩ :: post) := hmarked.congr rfl ⟨rfl, rfl, rfl⟩
  obtain ⟨m', cs, hplug, hsettled⟩ := hlaid₁.settle hp hlow hpre hpost
    (show m.used - (12 + n) = _ by omega) (show m.used - (12 + n) ≤ m.max by omega)
  refine ⟨m', cs, hstep.trans hplug, hsettled.heap, ?_, hsettled.max, hsettled.live, fun x hx => ?_⟩
  · exact ⟨hsettled.same.address, hsettled.same.heapEnd, hsettled.same.memSizeAligned⟩
  · have hout := outside_free hp hx
    exact (hsettled.keeps x hx).trans (hword x (by omega))

/-! ## Words of used blocks -/

/-- Words in the room of used blocks are no part of a header. -/
theorem Seg.store {address q : ℕ} {word word' : ℕ → ℕ} (h : Seg address word q p bs)
    (heq : ∀ x, p ≤ x → ¬ InUse SIZEOF_STRUCT_MEM p bs x → word' x = word x) : Seg address word' q p bs := by
  induction bs generalizing q p with
  | nil => trivial
  | cons b bs ih =>
    refine ⟨h.1.congr fun x hle hlt => heq x hle fun hx => ?_, ih h.2 fun x hle hx => heq x ?_ fun hin => ?_⟩
    · have hstart := hx.bounds.1
      omega
    · omega
    · obtain ⟨used, k⟩ := b
      cases used with
      | false => exact hx hin
      | true =>
        rcases InUse_cons_used.mp hin with hroom | htail
        · dsimp only at hle
          omega
        · exact hx htail

/-- The heap stays in order when its users write into their blocks. -/
theorem Heap.store (h : Heap m bs) {word' : ℕ → ℕ}
    (heq : ∀ x, ¬ InUse SIZEOF_STRUCT_MEM 0 bs x → word' x = m.word x) : Heap { m with word := word' } bs where
  laid := by
    refine ⟨h.laid.seg.store fun x _ hx => heq x hx, h.laid.fin, ?_, h.laid.heapEnd,
      h.laid.even, h.laid.placed, h.laid.sizes⟩
    refine (heq _ fun hx => ?_).trans h.laid.endPool
    have hlt := hx.bounds.2
    rw [← h.laid.fin] at hlt
    exact Nat.lt_irrefl _ hlt
  low := h.low
  apart := h.apart
  used := h.used
  max := h.max

/-! ## `rt_smem_realloc` -/

/-- A used block gives up its end. -/
theorem Heap.shrink (h : Heap m (pre ++ ⟨true, n⟩ :: post)) (hp : place pre = p) {k : ℕ}
    (hn : n = size + 12 + k) (hsize : 4 ≤ size ∧ size % 4 = 0) (hk : 4 ≤ k ∧ k % 4 = 0) :
    ∃ m' cs, ((({ m with used := m.used - (n - size) } : Smem).splitAt p size).lower (p + 12 + size)).plugHoles
        (p + 12 + size) = some m' ∧ Settled m m' (pre ++ ⟨true, size⟩ :: ⟨false, k⟩ :: post) cs := by
  have hcounted : Laid { m with used := m.used - (n - size) } (pre ++ ⟨true, n⟩ :: post) :=
    h.laid.congr rfl ⟨rfl, rfl, rfl⟩
  obtain ⟨hsplit, -, hword⟩ := hcounted.split hp hn hsize hk
  obtain ⟨hcounts, hlfree⟩ := splitAt_counts ({ m with used := m.used - (n - size) } : Smem) p size
  set m₁ := ({ m with used := m.used - (n - size) } : Smem).splitAt p size with hm₁
  rw [lower_eq, hlfree]
  have hlist : pre ++ ⟨true, size⟩ :: ⟨false, k⟩ :: post = (pre ++ [⟨true, size⟩]) ++ ⟨false, k⟩ :: post :=
    List.append_cons pre _ _
  have hplace : place (pre ++ [⟨true, size⟩]) = p + 12 + size := by
    rw [place_concat, hp]
  have hlow : Lowest { m₁ with lfree := min (p + 12 + size) m.lfree }
      ((pre ++ [⟨true, size⟩]) ++ ⟨false, k⟩ :: post) := by
    have hold : m.lfree = firstFree SIZEOF_STRUCT_MEM 0 ((pre ++ [⟨true, size⟩]) ++ ⟨true, k⟩ :: post) := by
      rw [← List.append_cons, firstFree_split_used, h.low, hn]
      rfl
    rw [Lowest, firstFree_min (by decide) (⟨true, k⟩ :: post), ← hold, ← hplace]
    rfl
  obtain ⟨hpre, hpost⟩ := NoFreePair.around_used h.apart
  have hpre' : NoFreePair (pre ++ [⟨true, size⟩]) := by
    refine NoFreePair.append hpre (List.isChain_singleton _) fun b _ c hc => ?_
    cases hc
    exact Or.inr rfl
  have hbytes : usedBytes SIZEOF_STRUCT_MEM 0 (pre ++ ⟨true, n⟩ :: post) =
      usedBytes SIZEOF_STRUCT_MEM 0 (pre ++ ⟨true, size⟩ :: ⟨false, k⟩ :: post) + (n - size) := by
    have hend : stop 12 0 pre + 12 + n = stop 12 0 pre + 12 + size + 12 + k := by omega
    rw [usedBytes_append, usedBytes_append, usedBytes_cons_used, usedBytes_cons_used, usedBytes_cons_free,
      SIZEOF_STRUCT_MEM, hend]
    omega
  have hused := h.used.trans hbytes
  have hmax := h.max
  rw [hlist] at hused hsplit ⊢
  have hlaid : Laid { m₁ with lfree := min (p + 12 + size) m.lfree } _ := hsplit.congr rfl ⟨rfl, rfl, rfl⟩
  obtain ⟨m', cs, hplug, hsettled⟩ := hlaid.settle hplace hlow hpre' hpost
    (show m₁.used = _ by rw [hcounts.used]; dsimp only; omega)
    (show m₁.used ≤ m₁.max by rw [hcounts.used, hcounts.max]; dsimp only; omega)
  refine ⟨m', cs, hplug, hsettled.heap, ?_, hsettled.max.trans hcounts.max, hsettled.live, fun x hx => ?_⟩
  · exact ⟨hsettled.same.address.trans hcounts.address, hsettled.same.heapEnd.trans hcounts.heapEnd,
      hsettled.same.memSizeAligned.trans hcounts.memSizeAligned⟩
  · have hout : x < p ∨ (p + 12 ≤ x ∧ x < p + 12 + size) ∨ p + 12 + size + 12 + k + 12 ≤ x := by
      rcases InUse_append.mp hx with hx | hx
      · rw [← hp]
        rcases InUse_append.mp hx with hx | hx
        · exact Or.inl hx.bounds.2
        · exact Or.inr (Or.inl ((InUse_cons_used.mp hx).resolve_right fun hx => by
            have hlt := hx.bounds
            exact absurd hlt.2 (by rw [stop]; omega)))
      · have hx' : InUse SIZEOF_STRUCT_MEM (place (pre ++ [⟨true, size⟩]) + 12 + k) post x := hx
        rw [hplace] at hx'
        exact Or.inr (Or.inr hx'.bounds.1)
    exact (hsettled.keeps x hx).trans (hword x (by omega) (by omega) (by omega))

end WiotaDev.SmallMem
