import WiotaDev.SmallMem
import WiotaDev.BlockTiling

/-! # The blocks of the heap

The words of the heap as a row of blocks, and how the steps of the allocator divide and join them. -/

namespace WiotaDev.SmallMem
open BlockTiling

/-! ## Headers -/

/-- The header of a block, with the place of the block before. -/
structure Header (address : ℕ) (word : ℕ → ℕ) (p : ℕ) (b : Block) (prev : ℕ) : Prop where
  pool : word p = address / 2 * 2 + if b.used then 1 else 0
  next : word (p + 4) = p + SIZEOF_STRUCT_MEM + b.size
  prev : word (p + 8) = prev

/-- The headers of blocks in a row. -/
def Seg (address : ℕ) (word : ℕ → ℕ) : ℕ → ℕ → List Block → Prop
  | _, _, [] => True
  | q, p, b :: bs => Header address word p b q ∧
      Seg address word p (p + SIZEOF_STRUCT_MEM + b.size) bs

variable {address q p : ℕ} {word word' : ℕ → ℕ} {bs cs : List Block} {b c : Block}

theorem Header.congr (h : Header address word p b q)
    (heq : ∀ x, p ≤ x → x < p + SIZEOF_STRUCT_MEM → word' x = word x) : Header address word' p b q where
  pool := by
    rw [heq p (Nat.le_refl p) (Nat.lt_add_of_pos_right (by decide))]
    exact h.pool
  next := by
    rw [heq (p + 4) (Nat.le_add_right p 4) (Nat.add_lt_add_left (by decide) p)]
    exact h.next
  prev := by
    rw [heq (p + 8) (Nat.le_add_right p 8) (Nat.add_lt_add_left (by decide) p)]
    exact h.prev

theorem Seg_append : Seg address word q p (bs ++ cs) ↔ Seg address word q p bs ∧
    Seg address word (last SIZEOF_STRUCT_MEM q p bs) (stop SIZEOF_STRUCT_MEM p bs) cs := by
  induction bs generalizing q p with
  | nil => exact iff_of_eq (true_and _).symm
  | cons b bs ih =>
    rw [List.cons_append, Seg, Seg, ih, and_assoc]
    rfl

/-- Words behind the blocks and before them do not matter. -/
theorem Seg.congr (h : Seg address word q p bs)
    (heq : ∀ x, p ≤ x → x < stop SIZEOF_STRUCT_MEM p bs → word' x = word x) :
    Seg address word' q p bs := by
  induction bs generalizing q p with
  | nil => trivial
  | cons b bs ih =>
    have hstop : p + SIZEOF_STRUCT_MEM + b.size ≤
        stop SIZEOF_STRUCT_MEM (p + SIZEOF_STRUCT_MEM + b.size) bs := le_stop
    refine ⟨h.1.congr fun x hp hx => heq x hp ?_, ih h.2 fun x hp hx => heq x ?_ hx⟩
    · rw [stop]
      omega
    · omega

/-- The first block gets another one before it. -/
theorem Seg.setPrev (h : Seg address word q p bs) {q' : ℕ}
    (hprev : word' (p + 8) = q') (heq : ∀ x, p ≤ x → x ≠ p + 8 → word' x = word x) :
    Seg address word' q' p bs := by
  cases bs with
  | nil => trivial
  | cons b bs =>
    obtain ⟨hhead, htail⟩ := h
    refine ⟨⟨?_, ?_, hprev⟩, htail.congr fun x hx _ => heq x (by omega) ?_⟩
    · rw [heq p (Nat.le_refl p) (by omega)]
      exact hhead.pool
    · rw [heq (p + 4) (by omega) (by omega)]
      exact hhead.next
    · change p + 12 + b.size ≤ x at hx
      omega

/-! ## The heap -/

/-- Where a block stands behind these. -/
def place (pre : List Block) : ℕ := stop SIZEOF_STRUCT_MEM 0 pre

/-- The block before it. -/
def before (pre : List Block) : ℕ := last SIZEOF_STRUCT_MEM 0 0 pre

/-- The heap is a row of blocks, with a used header behind the last one. -/
structure Laid (m : Smem) (bs : List Block) : Prop where
  seg : Seg m.address m.word 0 0 bs
  fin : place bs = m.heapEnd
  endPool : m.word m.heapEnd = m.memUsed
  heapEnd : m.heapEnd = m.memSizeAligned + SIZEOF_STRUCT_MEM
  even : m.memFreed = m.address
  placed : m.address ≠ 0
  sizes : ∀ b ∈ bs, 4 ≤ b.size ∧ b.size % 4 = 0

/-- All but the words is the same. -/
structure SameHeap (m m' : Smem) : Prop where
  address : m'.address = m.address
  heapEnd : m'.heapEnd = m.heapEnd
  memSizeAligned : m'.memSizeAligned = m.memSizeAligned

theorem SameHeap.trans {m₁ m₂ m₃ : Smem} (h : SameHeap m₁ m₂) (h' : SameHeap m₂ m₃) : SameHeap m₁ m₃ :=
  ⟨h'.address.trans h.address, h'.heapEnd.trans h.heapEnd, h'.memSizeAligned.trans h.memSizeAligned⟩

variable {m m' : Smem} {pre post mid : List Block}

theorem place_append_cons : place (pre ++ b :: post) =
    stop SIZEOF_STRUCT_MEM (place pre + SIZEOF_STRUCT_MEM + b.size) post := stop_append

/-- What the words of a heap say around a block. -/
theorem Laid.around (h : Laid m (pre ++ b :: post)) :
    Seg m.address m.word 0 0 pre ∧ Header m.address m.word (place pre) b (before pre) ∧
      Seg m.address m.word (place pre) (place pre + SIZEOF_STRUCT_MEM + b.size) post :=
  Seg_append.mp h.seg

/-- Behind a block there is another one, or the end. -/
theorem Laid.behind_le (h : Laid m (pre ++ b :: post)) :
    place pre + SIZEOF_STRUCT_MEM + b.size ≤ m.heapEnd := by
  rw [← h.fin, place_append_cons]
  exact le_stop

/-- A block reaches to the end of the heap exactly if none stands behind it. -/
theorem Laid.ends_iff (h : Laid m (pre ++ b :: post)) :
    place pre + SIZEOF_STRUCT_MEM + b.size = m.memSizeAligned + SIZEOF_STRUCT_MEM ↔ post = [] := by
  rw [← h.heapEnd, ← h.fin, place_append_cons]
  cases post with
  | nil => exact iff_of_true rfl rfl
  | cons c post =>
    have hle : place pre + SIZEOF_STRUCT_MEM + b.size + 12 + c.size ≤
        stop SIZEOF_STRUCT_MEM (place pre + SIZEOF_STRUCT_MEM + b.size) (c :: post) := le_stop
    exact iff_of_false (by omega) (List.cons_ne_nil c post)

/-- The words of some blocks are written anew, and the header behind them points back to the last of the
blocks that stand there now. -/
theorem Laid.replace {old : List Block} (h : Laid m (pre ++ old ++ post)) (hsame : SameHeap m m') {p r : ℕ}
    (hp : place pre = p) (hr : stop SIZEOF_STRUCT_MEM p old = r)
    (hmid : Seg m.address m'.word (before pre) p mid) (hend : stop SIZEOF_STRUCT_MEM p mid = r)
    (hprev : post ≠ [] → m'.word (r + 8) = last SIZEOF_STRUCT_MEM (before pre) p mid)
    (hpre : ∀ x, x < p → m'.word x = m.word x)
    (hpost : ∀ x, r ≤ x → x ≠ r + 8 → m'.word x = m.word x)
    (hsizes : ∀ c ∈ mid, 4 ≤ c.size ∧ c.size % 4 = 0) : Laid m' (pre ++ mid ++ post) := by
  have hplace : ∀ bs, stop SIZEOF_STRUCT_MEM p bs = r →
      place (pre ++ bs ++ post) = stop SIZEOF_STRUCT_MEM r post := by
    intro bs hbs
    rw [place, stop_append, stop_append, ← hbs, ← hp]
    rfl
  have hfin : stop SIZEOF_STRUCT_MEM r post = m.heapEnd := by
    rw [← hplace old hr]
    exact h.fin
  obtain ⟨hseg, hbehind⟩ := Seg_append.mp h.seg
  rw [stop_append, last_append] at hbehind
  change Seg m.address m.word (last SIZEOF_STRUCT_MEM (before pre) (place pre) old)
    (stop SIZEOF_STRUCT_MEM (place pre) old) post at hbehind
  rw [hp, hr] at hbehind
  refine ⟨?_, ?_, ?_, ?_, ?_, ?_, ?_⟩
  · rw [hsame.address, Seg_append, Seg_append]
    refine ⟨⟨(Seg_append.mp hseg).1.congr fun x _ hx => hpre x (hp ▸ hx), ?_⟩, ?_⟩
    · change Seg m.address m'.word (before pre) (place pre) mid
      rw [hp]
      exact hmid
    · rw [last_append, stop_append]
      change Seg m.address m'.word (last SIZEOF_STRUCT_MEM (before pre) (place pre) mid)
        (stop SIZEOF_STRUCT_MEM (place pre) mid) post
      rw [hp, hend]
      cases post with
      | nil => trivial
      | cons c post => exact hbehind.setPrev (hprev (List.cons_ne_nil c post)) hpost
  · rw [hplace mid hend, hfin, hsame.heapEnd]
  · have hend8 : r ≤ m.heapEnd ∧ m.heapEnd ≠ r + 8 := by
      rw [← hfin]
      cases post with
      | nil => exact ⟨Nat.le_refl r, by rw [stop]; omega⟩
      | cons c post =>
        have hle : r + 12 + c.size ≤ stop SIZEOF_STRUCT_MEM r (c :: post) := le_stop
        omega
    rw [hsame.heapEnd, Smem.memUsed, hsame.address, hpost _ hend8.1 hend8.2]
    exact h.endPool
  · rw [hsame.heapEnd, hsame.memSizeAligned]
    exact h.heapEnd
  · rw [Smem.memFreed, hsame.address]
    exact h.even
  · rw [hsame.address]
    exact h.placed
  · intro c hc
    rcases List.mem_append.mp hc with hc | hc
    · rcases List.mem_append.mp hc with hc | hc
      · exact h.sizes c (List.mem_append_left _ (List.mem_append_left _ hc))
      · exact hsizes c hc
    · exact h.sizes c (List.mem_append_right _ hc)

/-- A block is marked as a used or as a free one. -/
theorem Laid.mark (h : Laid m (pre ++ b :: post)) (u : Bool) {p v : ℕ} (hp : place pre = p)
    (hv : v = m.memFreed + if u then 1 else 0) :
    Laid (m.setPoolPtr p v) (pre ++ ⟨u, b.size⟩ :: post) ∧
      ∀ x, x ≠ p → (m.setPoolPtr p v).word x = m.word x := by
  obtain ⟨-, hheader, hbehind⟩ := h.around
  rw [hp] at hheader hbehind
  have hword : ∀ x, x ≠ p → (m.setPoolPtr p v).word x = m.word x := fun x hx =>
    setPoolPtr_word_of_ne m hx v
  refine ⟨?_, hword⟩
  rw [List.append_cons]
  have hmid : Seg m.address (m.setPoolPtr p v).word (before pre) p [⟨u, b.size⟩] := by
    refine ⟨⟨?_, ?_, ?_⟩, trivial⟩
    · rw [setPoolPtr_word_self, hv]
      rfl
    · rw [hword _ (by omega)]
      exact hheader.next
    · rw [hword _ (by omega)]
      exact hheader.prev
  rw [List.append_cons] at h
  refine h.replace ⟨rfl, rfl, rfl⟩ hp rfl hmid rfl (fun hpost => ?_) (fun x hx => hword x (by omega))
    (fun x hx _ => hword x ?_) ?_
  · change (m.setPoolPtr p v).word (p + 12 + b.size + 8) = p
    rw [hword _ (by omega)]
    cases post with
    | nil => exact absurd rfl hpost
    | cons c post => exact hbehind.1.prev
  · change p + 12 + b.size ≤ x at hx
    omega
  · intro c hc
    rw [List.mem_singleton.mp hc]
    exact h.sizes b (List.mem_append_left _ (List.mem_append_right _ List.mem_cons_self))

/-- The words of a divided block. -/
private def Smem.divided (m : Smem) (p p2 r : ℕ) : Smem :=
  (((m.setPoolPtr p2 m.memFreed).setNext p2 r).setPrev p2 p).setNext p p2

private theorem divided_word (m : Smem) {p p2 r x : ℕ} (h4 : x ≠ p + 4) (h2 : x < p2 ∨ p2 + 12 ≤ x) :
    (m.divided p p2 r).word x = m.word x := by
  rw [Smem.divided, setNext_word_of_ne _ h4, setPrev_word_of_ne _ (by omega),
    setNext_word_of_ne _ (by omega), setPoolPtr_word_of_ne _ (by omega)]

/-- The headers of the two parts. -/
private theorem divided_seg {p size k : ℕ} (hheader : Header m.address m.word p b q) :
    Seg m.address (m.divided p (p + 12 + size) (p + 24 + size + k)).word q p
      [⟨b.used, size⟩, ⟨false, k⟩] := by
  refine ⟨⟨?_, ?_, ?_⟩, ⟨?_, ?_, ?_⟩, trivial⟩
  · rw [divided_word m (by omega) (by omega)]
    exact hheader.pool
  · exact setNext_word_self _ _ _
  · rw [divided_word m (by omega) (by omega)]
    exact hheader.prev
  · change (m.divided p (p + 12 + size) _).word (p + 12 + size) = _
    rw [Smem.divided, setNext_word_of_ne _ (by omega), setPrev_word_of_ne _ (by omega),
      setNext_word_of_ne _ (by omega), setPoolPtr_word_self]
    rfl
  · change (m.divided p (p + 12 + size) _).word (p + 12 + size + 4) = p + 12 + size + 12 + k
    rw [Smem.divided, setNext_word_of_ne _ (by omega), setPrev_word_of_ne _ (by omega), setNext_word_self]
    omega
  · change (m.divided p (p + 12 + size) _).word (p + 12 + size + 8) = p
    rw [Smem.divided, setNext_word_of_ne _ (by omega), setPrev_word_self]

private theorem splitAt_eq {p r : ℕ} (size : ℕ) (hnext : m.next p = r) :
    m.splitAt p size = if r ≠ m.memSizeAligned + SIZEOF_STRUCT_MEM then
      (m.divided p (p + 12 + size) r).setPrev r (p + 12 + size) else m.divided p (p + 12 + size) r := by
  have hnext' : (m.setPoolPtr (p + SIZEOF_STRUCT_MEM + size) m.memFreed).next p = r := by
    rw [Smem.next, setPoolPtr_word_of_ne]
    · exact hnext
    · change p + 4 ≠ p + 12 + size
      omega
  have hread : (m.divided p (p + 12 + size) r).next (p + 12 + size) = r := by
    rw [Smem.next, Smem.divided, setNext_word_of_ne _ (by omega), setPrev_word_of_ne _ (by omega),
      setNext_word_self]
  rw [Smem.splitAt, hnext']
  change (if (m.divided p (p + 12 + size) r).next (p + 12 + size) ≠
      (m.divided p (p + 12 + size) r).memSizeAligned + SIZEOF_STRUCT_MEM then
    (m.divided p (p + 12 + size) r).setPrev ((m.divided p (p + 12 + size) r).next (p + 12 + size))
      (p + 12 + size) else m.divided p (p + 12 + size) r) = _
  rw [hread]
  rfl

/-- A block is divided: the first part has the size, and the rest is free. -/
theorem Laid.split (h : Laid m (pre ++ b :: post)) {p size k : ℕ} (hp : place pre = p)
    (hsize : b.size = size + 12 + k) (hfirst : 4 ≤ size ∧ size % 4 = 0) (hrest : 4 ≤ k ∧ k % 4 = 0) :
    Laid (m.splitAt p size) (pre ++ ⟨b.used, size⟩ :: ⟨false, k⟩ :: post) ∧
      SameHeap m (m.splitAt p size) ∧
      ∀ x, x ≠ p + 4 → (x < p + 12 + size ∨ p + 24 + size ≤ x) → x ≠ p + 24 + size + k + 8 →
        (m.splitAt p size).word x = m.word x := by
  obtain ⟨-, hheader, hbehind⟩ := h.around
  rw [hp] at hheader hbehind
  have hr : p + 12 + b.size = p + 24 + size + k := by omega
  have hnext : m.next p = p + 24 + size + k := hheader.next.trans hr
  have hlist : pre ++ ⟨b.used, size⟩ :: ⟨false, k⟩ :: post = pre ++ [⟨b.used, size⟩, ⟨false, k⟩] ++ post := by
    rw [List.append_assoc]
    rfl
  have hend : p + 24 + size + k = m.memSizeAligned + SIZEOF_STRUCT_MEM ↔ post = [] := by
    rw [← h.ends_iff, hp, ← hr]
    rfl
  set m' := m.splitAt p size with hm'
  have hsplit := splitAt_eq size hnext
  have hsame : SameHeap m m' := by
    rw [hm', hsplit]
    split_ifs
    · exact ⟨rfl, rfl, rfl⟩
    · exact ⟨rfl, rfl, rfl⟩
  have hword : ∀ x, x ≠ p + 24 + size + k + 8 →
      m'.word x = (m.divided p (p + 12 + size) (p + 24 + size + k)).word x := by
    intro x hx
    rw [hm', hsplit]
    split_ifs
    · rw [setPrev_word_of_ne _ hx]
    · rfl
  have hprev : post ≠ [] → m'.word (p + 24 + size + k + 8) = p + 12 + size := by
    intro hpost
    rw [hm', hsplit, if_pos fun heq => hpost (hend.mp heq)]
    exact setPrev_word_self _ _ _
  have houtside : ∀ x, x ≠ p + 4 → (x < p + 12 + size ∨ p + 24 + size ≤ x) →
      x ≠ p + 24 + size + k + 8 → m'.word x = m.word x := by
    intro x h4 h2 hx
    rw [hword x hx]
    exact divided_word m h4 (by omega)
  have hmid : Seg m.address m'.word (before pre) p [⟨b.used, size⟩, ⟨false, k⟩] := by
    refine (divided_seg hheader).congr fun x _ hx => hword x ?_
    change x < p + 12 + size + 12 + k at hx
    omega
  refine ⟨?_, hsame, houtside⟩
  rw [hlist]
  rw [List.append_cons] at h
  refine h.replace hsame hp hr hmid ?_ hprev (fun x hx => houtside x ?_ ?_ ?_)
    (fun x hx hx8 => houtside x ?_ ?_ hx8) ?_
  · change p + 12 + size + 12 + k = _
    omega
  · omega
  · omega
  · omega
  · omega
  · omega
  · intro c hc
    rcases List.mem_cons.mp hc with rfl | hc
    · exact hfirst
    · rw [List.mem_singleton.mp hc]
      exact hrest

/-- Two blocks side by side become one; the second header is no header any more. -/
theorem Laid.join (h : Laid m (pre ++ b :: c :: post)) {p q r : ℕ} (hp : place pre = p)
    (hq : q = p + 12 + b.size) (hr : r = q + 12 + c.size) :
    Laid (((m.setPoolPtr q 0).setNext p r).setPrev r p)
        (pre ++ ⟨b.used, b.size + 12 + c.size⟩ :: post) ∧
      ∀ x, x ≠ p + 4 → x ≠ q → x ≠ r + 8 →
        (((m.setPoolPtr q 0).setNext p r).setPrev r p).word x = m.word x := by
  obtain ⟨-, hheader, hcheader, hbehind⟩ := h.around
  rw [hp] at hheader hcheader hbehind
  change Header m.address m.word (p + 12 + b.size) c p at hcheader
  change Seg m.address m.word (p + 12 + b.size) (p + 12 + b.size + 12 + c.size) post at hbehind
  rw [← hq] at hcheader hbehind
  set m' := ((m.setPoolPtr q 0).setNext p r).setPrev r p with hm'
  have hword : ∀ x, x ≠ p + 4 → x ≠ q → x ≠ r + 8 → m'.word x = m.word x := by
    intro x h4 hq' hr'
    rw [hm', setPrev_word_of_ne _ hr', setNext_word_of_ne _ h4, setPoolPtr_word_of_ne _ hq']
  have hlist : pre ++ b :: c :: post = pre ++ [b, c] ++ post := by
    rw [List.append_assoc]
    rfl
  refine ⟨?_, hword⟩
  rw [hlist] at h
  rw [List.append_cons]
  have hmid : Seg m.address m'.word (before pre) p [⟨b.used, b.size + 12 + c.size⟩] := by
    refine ⟨⟨?_, ?_, ?_⟩, trivial⟩
    · rw [hword _ (by omega) (by omega) (by omega)]
      exact hheader.pool
    · rw [hm', setPrev_word_of_ne _ (by omega), setNext_word_self]
      change r = p + 12 + (b.size + 12 + c.size)
      omega
    · rw [hword _ (by omega) (by omega) (by omega)]
      exact hheader.prev
  refine h.replace ⟨rfl, rfl, rfl⟩ hp ?_ hmid ?_ (fun _ => ?_) (fun x hx => hword x ?_ ?_ ?_)
    (fun x hx hx8 => hword x ?_ ?_ hx8) ?_
  · change p + 12 + b.size + 12 + c.size = r
    omega
  · change p + 12 + (b.size + 12 + c.size) = r
    omega
  · rw [hm', setPrev_word_self]
    rfl
  · omega
  · omega
  · omega
  · omega
  · omega
  · intro d hd
    rw [List.mem_singleton.mp hd]
    have hb := h.sizes b (by simp)
    have hc := h.sizes c (by simp)
    dsimp only
    omega

end WiotaDev.SmallMem
