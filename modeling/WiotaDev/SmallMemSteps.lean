import WiotaDev.SmallMemBlocks

/-! # The steps of the allocator

What `plug_holes`, the search and the taking of a block do to the row of blocks. -/

namespace WiotaDev.SmallMem
open BlockTiling

variable {m m' : Smem} {pre post bs cs : List Block} {n p : ℕ} {u : Bool}

/-- The lowest free block is known. -/
def Lowest (m : Smem) (bs : List Block) : Prop := m.lfree = firstFree SIZEOF_STRUCT_MEM 0 bs

/-- Nothing is written into the room of used blocks. -/
def KeepsData (m m' : Smem) (bs : List Block) : Prop :=
  ∀ x, InUse SIZEOF_STRUCT_MEM 0 bs x → m'.word x = m.word x

/-- Only the words of the heap and the lowest free block may be different. -/
structure SameCounts (m m' : Smem) : Prop extends SameHeap m m' where
  used : m'.used = m.used
  max : m'.max = m.max

theorem SameCounts.refl (m : Smem) : SameCounts m m := ⟨⟨rfl, rfl, rfl⟩, rfl, rfl⟩

theorem SameCounts.trans {m₁ m₂ m₃ : Smem} (h : SameCounts m₁ m₂) (h' : SameCounts m₂ m₃) :
    SameCounts m₁ m₃ :=
  ⟨h.toSameHeap.trans h'.toSameHeap, h'.used.trans h.used, h'.max.trans h.max⟩

/-- The row of blocks does not depend on what is counted. -/
theorem Laid.congr (h : Laid m bs) (hword : m'.word = m.word) (hsame : SameHeap m m') : Laid m' bs where
  seg := by
    rw [hsame.address, hword]
    exact h.seg
  fin := h.fin.trans hsame.heapEnd.symm
  endPool := by
    rw [hsame.heapEnd, hword, Smem.memUsed, hsame.address]
    exact h.endPool
  heapEnd := by
    rw [hsame.heapEnd, hsame.memSizeAligned]
    exact h.heapEnd
  even := by
    rw [Smem.memFreed, hsame.address]
    exact h.even
  placed := by
    rw [hsame.address]
    exact h.placed
  sizes := h.sizes

/-! ## What the headers say -/

theorem Laid.next_eq (h : Laid m (pre ++ ⟨u, n⟩ :: post)) : m.next (place pre) = place pre + 12 + n :=
  h.around.2.1.next

theorem Laid.isUsed_iff (h : Laid m (pre ++ ⟨u, n⟩ :: post)) : m.isUsed (place pre) ↔ u = true := by
  have hpool := h.around.2.1.pool
  have heven := h.even
  rw [Smem.memFreed] at heven
  rw [Smem.isUsed, hpool]
  cases u with
  | true => exact iff_of_true (by dsimp only; rw [if_pos rfl]; omega) rfl
  | false => exact iff_of_false (by dsimp only; rw [if_neg Bool.false_ne_true]; omega) Bool.false_ne_true

/-! ## Joining -/

/-- Free blocks have been joined, and the used ones are as they were. -/
structure Joined (m m' : Smem) (bs cs : List Block) : Prop where
  laid : Laid m' cs
  same : SameUsed SIZEOF_STRUCT_MEM 0 bs cs
  counts : SameCounts m m'
  lfree : m'.lfree = m.lfree
  keeps : KeepsData m m' bs

theorem Joined.refl (h : Laid m bs) : Joined m m bs bs :=
  ⟨h, SameUsed.refl _ _ _, SameCounts.refl m, rfl, fun _ _ => rfl⟩

theorem Joined.trans {m₁ m₂ m₃ : Smem} {ds : List Block} (h : Joined m₁ m₂ bs cs) (h' : Joined m₂ m₃ cs ds) :
    Joined m₁ m₃ bs ds := by
  refine ⟨h'.laid, h.same.trans h'.same, h.counts.trans h'.counts, h'.lfree.trans h.lfree, fun x hx => ?_⟩
  have hx' : InUse SIZEOF_STRUCT_MEM 0 cs x := by
    rw [InUse, h.same.live]
    exact hx
  exact (h'.keeps x hx').trans (h.keeps x hx)

/-- The words of two joined free blocks are not in the room of a used one. -/
theorem keepsData_join {k : ℕ} (hp : place pre = p)
    (hword : ∀ x, x ≠ p + 4 → x ≠ p + 12 + n → x ≠ p + 12 + n + 12 + k + 8 → m'.word x = m.word x) :
    KeepsData m m' (pre ++ ⟨false, n⟩ :: ⟨false, k⟩ :: post) := by
  intro x hx
  rcases InUse_append.mp hx with hx | hx
  · have hlt : x < p := hp ▸ hx.bounds.2
    exact hword x (by omega) (by omega) (by omega)
  · have hx' : InUse SIZEOF_STRUCT_MEM (place pre + 12 + n + 12 + k) post x := hx
    rw [hp] at hx'
    have hle : p + 12 + n + 12 + k + 12 ≤ x := hx'.bounds.1
    exact hword x (by omega) (by omega) (by omega)

/-- The joining of two free blocks side by side. -/
theorem Laid.joined {k q r : ℕ} (h : Laid m (pre ++ ⟨false, n⟩ :: ⟨false, k⟩ :: post)) (hp : place pre = p)
    (hq : q = p + 12 + n) (hr : r = q + 12 + k) :
    Joined m (((m.setPoolPtr q 0).setNext p r).setPrev r p)
      (pre ++ ⟨false, n⟩ :: ⟨false, k⟩ :: post) (pre ++ ⟨false, n + 12 + k⟩ :: post) := by
  obtain ⟨hlaid, hword⟩ := h.join hp hq hr
  subst hq hr
  exact ⟨hlaid, sameUsed_join, ⟨⟨rfl, rfl, rfl⟩, rfl, rfl⟩, rfl, keepsData_join hp hword⟩

/-- `plug_holes` with the block behind. -/
theorem Laid.plugForward (h : Laid m (pre ++ ⟨false, n⟩ :: post)) (hp : place pre = p)
    (hlow : Lowest m (pre ++ ⟨false, n⟩ :: post)) (hpost : NoFreePair post) :
    ∃ k post', Joined m (m.plugForward p) (pre ++ ⟨false, n⟩ :: post) (pre ++ ⟨false, k⟩ :: post') ∧
      (∀ b ∈ post'.head?, b.used = true) ∧ NoFreePair post' := by
  have hnext : m.next p = p + 12 + n := hp ▸ h.next_eq
  have hlist : pre ++ ⟨false, n⟩ :: post = (pre ++ [⟨false, n⟩]) ++ post := List.append_cons pre _ post
  have hplace : place (pre ++ [⟨false, n⟩]) = p + 12 + n := by
    rw [place, stop_append, ← hp]
    rfl
  cases post with
  | nil =>
    have hend : p + 12 + n = m.heapEnd := by
      rw [← h.fin, hlist, List.append_nil, hplace]
    have hstay : m.plugForward p = m := by
      rw [Smem.plugForward, hnext]
      dsimp only
      rw [if_neg fun hc => hc.2.2 hend]
    rw [hstay]
    exact ⟨n, [], Joined.refl h, by simp, hpost⟩
  | cons c post =>
    obtain ⟨used, k⟩ := c
    rw [hlist] at h
    have hused := h.isUsed_iff
    rw [hplace] at hused
    rw [← hlist] at h
    cases used with
    | true =>
      have hstay : m.plugForward p = m := by
        rw [Smem.plugForward, hnext]
        dsimp only
        rw [if_neg fun hc => hc.2.1 (hused.mpr rfl)]
      rw [hstay]
      refine ⟨n, ⟨true, k⟩ :: post, Joined.refl h, ?_, hpost⟩
      intro b hb
      cases hb
      rfl
    | false =>
      have hend : p + 12 + n + 12 + k ≤ m.heapEnd := by
        rw [hlist] at h
        have hle := h.behind_le
        rw [hplace] at hle
        exact hle
      have hfree : m.lfree ≠ p + 12 + n := by
        have hle : m.lfree ≤ p := by
          rw [hlow, ← hp]
          exact firstFree_le
        omega
      have hnext2 : m.word (p + 12 + n + 4) = p + 12 + n + 12 + k := by
        rw [hlist] at h
        have heq := h.next_eq
        rw [hplace] at heq
        exact heq
      have hstep : m.plugForward p = ((m.setPoolPtr (p + 12 + n) 0).setNext p
          (p + 12 + n + 12 + k)).setPrev (p + 12 + n + 12 + k) p := by
        have hread : (m.setPoolPtr (p + 12 + n) 0).next (p + 12 + n) = p + 12 + n + 12 + k := by
          rw [Smem.next, setPoolPtr_word_of_ne _ (by omega)]
          exact hnext2
        have hread2 : ((m.setPoolPtr (p + 12 + n) 0).setNext p (p + 12 + n + 12 + k)).next (p + 12 + n) =
            p + 12 + n + 12 + k := by
          rw [Smem.next, setNext_word_of_ne _ (by omega)]
          exact hread
        rw [Smem.plugForward, hnext]
        dsimp only
        rw [if_pos ⟨by omega, fun hu => Bool.false_ne_true (hused.mp hu), by omega⟩, if_neg hfree, hread, hread2]
      rw [hstep]
      refine ⟨n + 12 + k, post, h.joined hp rfl rfl, ?_, ?_⟩
      · intro b hb
        have hpair := List.isChain_cons.mp hpost
        exact (hpair.1 b hb).resolve_left Bool.false_ne_true
      · exact (List.isChain_cons.mp hpost).2

theorem before_concat (pre : List Block) (b : Block) : before (pre ++ [b]) = place pre := last_append

theorem place_concat (pre : List Block) (b : Block) : place (pre ++ [b]) = place pre + 12 + b.size :=
  stop_append

/-- `plug_holes` with the block before. -/
theorem Laid.plugBackward (h : Laid m (pre ++ ⟨false, n⟩ :: post)) (hp : place pre = p)
    (hlow : Lowest m (pre ++ ⟨false, n⟩ :: post)) (hpre : NoFreePair pre) (hpost : NoFreePair post)
    (hbehind : ∀ b ∈ post.head?, b.used = true) :
    ∃ cs, Joined m (m.plugBackward p) (pre ++ ⟨false, n⟩ :: post) cs ∧ NoFreePair cs := by
  have hprev : m.prev p = before pre := hp ▸ h.around.2.1.prev
  have hfree : NoFreePair (⟨false, n⟩ :: post) :=
    List.isChain_cons.mpr ⟨fun b hb => Or.inr (hbehind b hb), hpost⟩
  rcases List.eq_nil_or_concat pre with rfl | ⟨init, b, rfl⟩
  · have hzero : m.prev p = p := hprev.trans hp
    have hstay : m.plugBackward p = m := by
      rw [Smem.plugBackward, hzero]
      dsimp only
      rw [if_neg fun hc => hc.1 rfl]
    rw [hstay]
    exact ⟨_, Joined.refl h, hfree⟩
  · rw [List.concat_eq_append] at *
    obtain ⟨used, k⟩ := b
    have hplace : p = place init + 12 + k := by
      rw [← hp, place_concat]
    rw [before_concat] at hprev
    have hlist : init ++ [⟨used, k⟩] ++ ⟨false, n⟩ :: post = init ++ ⟨used, k⟩ :: ⟨false, n⟩ :: post :=
      (List.append_cons init _ _).symm
    rw [hlist] at h hlow ⊢
    have hused := h.isUsed_iff
    cases used with
    | true =>
      have hstay : m.plugBackward p = m := by
        rw [Smem.plugBackward, hprev]
        dsimp only
        rw [if_neg fun hc => hc.2 (hused.mpr rfl)]
      rw [hstay]
      refine ⟨_, Joined.refl h, ?_⟩
      rw [← hlist]
      apply hpre.append hfree
      intro b hb c _
      rw [List.getLast?_concat] at hb
      cases hb
      exact Or.inl rfl
    | false =>
      have hlfree : m.lfree ≠ p := by
        have hle : m.lfree ≤ place init := by
          rw [hlow]
          exact firstFree_le
        omega
      have hnext : m.word (p + 4) = p + 12 + n := by
        rw [← hlist] at h
        have heq := h.next_eq
        rw [hp] at heq
        exact heq
      have hstep : m.plugBackward p = ((m.setPoolPtr p 0).setNext (place init)
          (p + 12 + n)).setPrev (p + 12 + n) (place init) := by
        have hread : (m.setPoolPtr p 0).next p = p + 12 + n := by
          rw [Smem.next, setPoolPtr_word_of_ne _ (by omega)]
          exact hnext
        have hread2 : ((m.setPoolPtr p 0).setNext (place init) (p + 12 + n)).next p = p + 12 + n := by
          rw [Smem.next, setNext_word_of_ne _ (by omega)]
          exact hread
        rw [Smem.plugBackward, hprev]
        dsimp only
        rw [if_pos ⟨by omega, fun hu => Bool.false_ne_true (hused.mp hu)⟩, if_neg hlfree, hread, hread2]
      rw [hstep]
      refine ⟨_, h.joined rfl hplace rfl, ?_⟩
      obtain ⟨hinit, -, hlast⟩ := List.isChain_append.mp hpre
      apply List.IsChain.append hinit
      · exact List.isChain_cons.mpr ⟨fun b hb => Or.inr (hbehind b hb), hpost⟩
      · intro b hb c hc
        cases hc
        exact Or.inl ((hlast b hb _ rfl).resolve_right Bool.false_ne_true)

/-- `plug_holes` leaves no free block beside another one. -/
theorem Laid.plugHoles (h : Laid m (pre ++ ⟨false, n⟩ :: post)) (hp : place pre = p)
    (hlow : Lowest m (pre ++ ⟨false, n⟩ :: post)) (hpre : NoFreePair pre) (hpost : NoFreePair post) :
    ∃ m' cs, m.plugHoles p = some m' ∧ Joined m m' (pre ++ ⟨false, n⟩ :: post) cs ∧ NoFreePair cs := by
  have hlt : p < m.heapEnd := by
    have hle := h.behind_le
    rw [hp] at hle
    change p + 12 + n ≤ m.heapEnd at hle
    omega
  obtain ⟨k, post', hjoined, hbehind, hpost'⟩ := h.plugForward hp hlow hpost
  have hlow' : Lowest (m.plugForward p) (pre ++ ⟨false, k⟩ :: post') := by
    rw [Lowest, hjoined.lfree, hjoined.same.firstFree]
    exact hlow
  obtain ⟨cs, hjoined', hcs⟩ := hjoined.laid.plugBackward hp hlow' hpre hpost' hbehind
  exact ⟨_, cs, if_pos hlt, hjoined.trans hjoined', hcs⟩

end WiotaDev.SmallMem
