import Mathlib.Data.List.Basic
import Mathlib.Data.List.Chain
import Mathlib.Data.List.Pairwise
import Mathlib.Algebra.Ring.Nat

/-! # Blocks in a row

An area is divided into blocks, used or free, each behind a header of the same length. Blocks are
given by what they have room for; where they stand follows. Nothing here depends on a particular
program. -/

namespace WiotaDev.BlockTiling

structure Block where
  used : Bool
  size : ℕ
  deriving DecidableEq

variable {hdr : ℕ}

/-- Where the area ends that starts at `p`. -/
def stop (hdr p : ℕ) : List Block → ℕ
  | [] => p
  | b :: bs => stop hdr (p + hdr + b.size) bs

/-- Where the last block stands, or else `q`. -/
def last (hdr q p : ℕ) : List Block → ℕ
  | [] => q
  | b :: bs => last hdr p (p + hdr + b.size) bs

/-- Where the used blocks have their room, and how much. -/
def live (hdr p : ℕ) : List Block → List (ℕ × ℕ)
  | [] => []
  | b :: bs =>
    if b.used then (p + hdr, b.size) :: live hdr (p + hdr + b.size) bs
    else live hdr (p + hdr + b.size) bs

/-- Where the first free block stands, or else the end. -/
def firstFree (hdr p : ℕ) : List Block → ℕ
  | [] => p
  | b :: bs => if b.used then firstFree hdr (p + hdr + b.size) bs else p

/-- What used blocks take with their headers. -/
def usedBytes (hdr p : ℕ) (bs : List Block) : ℕ := ((live hdr p bs).map fun e => hdr + e.2).sum

/-- A place in the room of a used block. -/
def InUse (hdr p : ℕ) (bs : List Block) (x : ℕ) : Prop := ∃ e ∈ live hdr p bs, e.1 ≤ x ∧ x < e.1 + e.2

/-- No two free blocks stand side by side. -/
def NoFreePair (bs : List Block) : Prop := bs.IsChain fun a b => a.used = true ∨ b.used = true

variable {q p : ℕ} {bs cs : List Block} {b : Block}

theorem stop_append : stop hdr p (bs ++ cs) = stop hdr (stop hdr p bs) cs := by
  induction bs generalizing p with
  | nil => rfl
  | cons b bs ih => exact ih

theorem last_append : last hdr q p (bs ++ cs) = last hdr (last hdr q p bs) (stop hdr p bs) cs := by
  induction bs generalizing q p with
  | nil => rfl
  | cons b bs ih => exact ih

theorem live_append : live hdr p (bs ++ cs) = live hdr p bs ++ live hdr (stop hdr p bs) cs := by
  induction bs generalizing p with
  | nil => rfl
  | cons b bs ih =>
    rw [List.cons_append, live, live, ih]
    cases b.used with
    | true => rfl
    | false => rfl

theorem live_cons_used {n : ℕ} :
    live hdr p (⟨true, n⟩ :: bs) = (p + hdr, n) :: live hdr (p + hdr + n) bs := rfl

theorem live_cons_free {n : ℕ} : live hdr p (⟨false, n⟩ :: bs) = live hdr (p + hdr + n) bs := rfl

theorem usedBytes_append :
    usedBytes hdr p (bs ++ cs) = usedBytes hdr p bs + usedBytes hdr (stop hdr p bs) cs := by
  rw [usedBytes, live_append, List.map_append, List.sum_append]
  rfl

theorem usedBytes_cons_used {n : ℕ} :
    usedBytes hdr p (⟨true, n⟩ :: bs) = hdr + n + usedBytes hdr (p + hdr + n) bs := by
  rw [usedBytes, live_cons_used, List.map_cons, List.sum_cons]
  rfl

theorem usedBytes_cons_free {n : ℕ} : usedBytes hdr p (⟨false, n⟩ :: bs) = usedBytes hdr (p + hdr + n) bs := rfl

theorem le_stop : p ≤ stop hdr p bs := by
  induction bs generalizing p with
  | nil => exact Nat.le_refl p
  | cons b bs ih =>
    have hrest : p + hdr + b.size ≤ stop hdr (p + hdr + b.size) bs := ih
    rw [stop]
    omega

/-- The room of a used block is in the area, behind a header. -/
theorem live_bounds {e : ℕ × ℕ} (h : e ∈ live hdr p bs) : p + hdr ≤ e.1 ∧ e.1 + e.2 ≤ stop hdr p bs := by
  induction bs generalizing p with
  | nil => cases h
  | cons b bs ih =>
    rw [live] at h
    cases hb : b.used with
    | true =>
      rw [hb] at h
      rcases List.mem_cons.mp h with rfl | hmem
      · exact ⟨Nat.le_refl _, le_stop⟩
      · obtain ⟨hle, hstop⟩ := ih hmem
        exact ⟨by omega, hstop⟩
    | false =>
      rw [hb] at h
      obtain ⟨hle, hstop⟩ := ih h
      exact ⟨by omega, hstop⟩

theorem InUse.bounds {x : ℕ} (h : InUse hdr p bs x) : p + hdr ≤ x ∧ x < stop hdr p bs := by
  obtain ⟨e, he, hle, hlt⟩ := h
  obtain ⟨hstart, hstop⟩ := live_bounds he
  exact ⟨by omega, by omega⟩

theorem InUse_append {x : ℕ} :
    InUse hdr p (bs ++ cs) x ↔ InUse hdr p bs x ∨ InUse hdr (stop hdr p bs) cs x := by
  rw [InUse, live_append]
  constructor
  · rintro ⟨e, he, hx⟩
    rcases List.mem_append.mp he with he | he
    · exact Or.inl ⟨e, he, hx⟩
    · exact Or.inr ⟨e, he, hx⟩
  · rintro (⟨e, he, hx⟩ | ⟨e, he, hx⟩)
    · exact ⟨e, List.mem_append_left _ he, hx⟩
    · exact ⟨e, List.mem_append_right _ he, hx⟩

theorem InUse_cons_used {n x : ℕ} : InUse hdr p (⟨true, n⟩ :: bs) x ↔
    (p + hdr ≤ x ∧ x < p + hdr + n) ∨ InUse hdr (p + hdr + n) bs x := by
  rw [InUse, live_cons_used]
  constructor
  · rintro ⟨e, he, hx⟩
    rcases List.mem_cons.mp he with rfl | he
    · exact Or.inl hx
    · exact Or.inr ⟨e, he, hx⟩
  · rintro (hx | ⟨e, he, hx⟩)
    · exact ⟨_, List.mem_cons_self, hx⟩
    · exact ⟨e, List.mem_cons_of_mem _ he, hx⟩

/-- Used blocks do not overlap, and have headers between them. -/
theorem live_pairwise : (live hdr p bs).Pairwise fun x y => x.1 + x.2 + hdr ≤ y.1 := by
  induction bs generalizing p with
  | nil => exact List.Pairwise.nil
  | cons b bs ih =>
    rw [live]
    cases b.used with
    | true =>
      rw [if_pos rfl, List.pairwise_cons]
      exact ⟨fun y hy => (live_bounds hy).1, ih⟩
    | false => exact ih

/-- Two used blocks are one, or stand apart. -/
theorem live_apart {e f : ℕ × ℕ} (he : e ∈ live hdr p bs) (hf : f ∈ live hdr p bs) :
    e = f ∨ e.1 + e.2 + hdr ≤ f.1 ∨ f.1 + f.2 + hdr ≤ e.1 := by
  let R : ℕ × ℕ → ℕ × ℕ → Prop := fun x y => x = y ∨ x.1 + x.2 + hdr ≤ y.1 ∨ y.1 + y.2 + hdr ≤ x.1
  have hsymm : Std.Symm R := ⟨fun x y h => by
    rcases h with h | h | h
    · exact Or.inl h.symm
    · exact Or.inr (Or.inr h)
    · exact Or.inr (Or.inl h)⟩
  have hpair : (live hdr p bs).Pairwise R := live_pairwise.imp fun h => Or.inr (Or.inl h)
  exact List.Pairwise.forall_of_forall (R := R) (fun x _ => Or.inl rfl) hpair he hf

/-- A used block divides the area. -/
theorem live_split {e : ℕ × ℕ} (h : e ∈ live hdr p bs) :
    ∃ pre post, bs = pre ++ ⟨true, e.2⟩ :: post ∧ e.1 = stop hdr p pre + hdr := by
  induction bs generalizing p with
  | nil => cases h
  | cons b bs ih =>
    rw [live] at h
    obtain ⟨used, size⟩ := b
    cases used with
    | true =>
      rcases List.mem_cons.mp h with rfl | hmem
      · exact ⟨[], bs, rfl, rfl⟩
      · obtain ⟨pre, post, rfl, hplace⟩ := ih hmem
        exact ⟨_ :: pre, post, rfl, hplace⟩
    | false =>
      obtain ⟨pre, post, rfl, hplace⟩ := ih h
      exact ⟨_ :: pre, post, rfl, hplace⟩

theorem free_of_live_nil (h : live hdr p bs = []) : ∀ b ∈ bs, b.used = false := by
  induction bs generalizing p with
  | nil => exact nofun
  | cons c bs ih =>
    rw [live] at h
    cases hc : c.used with
    | true =>
      rw [hc] at h
      cases h
    | false =>
      rw [hc] at h
      intro b hb
      rcases List.mem_cons.mp hb with rfl | hb
      · exact hc
      · exact ih h b hb

/-- Before the first free block all are used. -/
theorem firstFree_split (hdr p : ℕ) (bs : List Block) :
    ∃ pre post, bs = pre ++ post ∧ (∀ b ∈ pre, b.used = true) ∧ firstFree hdr p bs = stop hdr p pre ∧
      ∀ b ∈ post.head?, b.used = false := by
  induction bs generalizing p with
  | nil => exact ⟨[], [], rfl, nofun, rfl, nofun⟩
  | cons b bs ih =>
    cases hb : b.used with
    | true =>
      obtain ⟨pre, post, rfl, hused, hfree, hhead⟩ := ih (p + hdr + b.size)
      refine ⟨b :: pre, post, rfl, ?_, ?_, hhead⟩
      · intro c hc
        rcases List.mem_cons.mp hc with rfl | hc
        · exact hb
        · exact hused c hc
      · rw [firstFree, if_pos hb, hfree]
        rfl
    | false =>
      refine ⟨[], b :: bs, rfl, nofun, ?_, ?_⟩
      · rw [firstFree, hb]
        rfl
      · intro c hc
        cases hc
        exact hb

theorem firstFree_append_used (hused : ∀ b ∈ bs, b.used = true) :
    firstFree hdr p (bs ++ cs) = firstFree hdr (stop hdr p bs) cs := by
  induction bs generalizing p with
  | nil => rfl
  | cons b bs ih =>
    rw [List.cons_append, firstFree, if_pos (hused b List.mem_cons_self),
      ih fun c hc => hused c (List.mem_cons_of_mem b hc)]
    rfl

/-- Where there is a free block among the first ones, the others do not matter. -/
theorem firstFree_append_free (h : ∃ b ∈ bs, b.used = false) :
    firstFree hdr p (bs ++ cs) = firstFree hdr p bs := by
  induction bs generalizing p with
  | nil =>
    obtain ⟨b, hb, -⟩ := h
    cases hb
  | cons c bs ih =>
    rw [List.cons_append, firstFree, firstFree]
    cases hc : c.used with
    | false => rfl
    | true =>
      rw [if_pos rfl, if_pos rfl]
      obtain ⟨b, hb, hfree⟩ := h
      rcases List.mem_cons.mp hb with rfl | hb
      · rw [hc] at hfree
        cases hfree
      · exact ih ⟨b, hb, hfree⟩

theorem le_firstFree : p ≤ firstFree hdr p bs := by
  obtain ⟨pre, post, -, -, hfree, -⟩ := firstFree_split hdr p bs
  rw [hfree]
  exact le_stop

/-- A free block stands before the end. -/
theorem firstFree_lt_stop (hhdr : 0 < hdr) (h : ∃ b ∈ bs, b.used = false) :
    firstFree hdr p bs < stop hdr p bs := by
  induction bs generalizing p with
  | nil =>
    obtain ⟨b, hb, -⟩ := h
    cases hb
  | cons c bs ih =>
    rw [firstFree, stop]
    cases hc : c.used with
    | false =>
      have hle : p + hdr + c.size ≤ stop hdr (p + hdr + c.size) bs := le_stop
      rw [if_neg Bool.false_ne_true]
      omega
    | true =>
      rw [if_pos rfl]
      obtain ⟨b, hb, hfree⟩ := h
      rcases List.mem_cons.mp hb with rfl | hb
      · rw [hc] at hfree
        cases hfree
      · exact ih ⟨b, hb, hfree⟩

/-- The first free block stands behind some blocks if these are used, and among them otherwise. -/
theorem firstFree_cases (hhdr : 0 < hdr) (bs : List Block) :
    (∀ b ∈ bs, b.used = true) ∧ (∀ cs, firstFree hdr p (bs ++ cs) = firstFree hdr (stop hdr p bs) cs) ∨
      firstFree hdr p bs < stop hdr p bs ∧ ∀ cs, firstFree hdr p (bs ++ cs) = firstFree hdr p bs := by
  by_cases h : ∃ b ∈ bs, b.used = false
  · exact Or.inr ⟨firstFree_lt_stop hhdr h, fun cs => firstFree_append_free h⟩
  · have hused : ∀ b ∈ bs, b.used = true := fun b hb => by
      cases hb' : b.used with
      | true => rfl
      | false => exact absurd ⟨b, hb, hb'⟩ h
    exact Or.inl ⟨hused, fun cs => firstFree_append_used hused⟩

theorem length_le_stop (hhdr : 0 < hdr) (p : ℕ) (bs : List Block) : p + bs.length ≤ stop hdr p bs := by
  induction bs generalizing p with
  | nil => exact Nat.le_refl p
  | cons b bs ih =>
    have hrest := ih (p + hdr + b.size)
    rw [List.length_cons, stop]
    omega

/-- A free block is not before the first free one. -/
theorem firstFree_le {n : ℕ} : firstFree hdr p (bs ++ ⟨false, n⟩ :: cs) ≤ stop hdr p bs := by
  induction bs generalizing p with
  | nil => exact Nat.le_refl p
  | cons b bs ih =>
    rw [List.cons_append, firstFree, stop]
    cases b.used with
    | true => exact ih
    | false =>
      have hle : p + hdr + b.size ≤ stop hdr (p + hdr + b.size) bs := le_stop
      rw [if_neg Bool.false_ne_true]
      omega

/-- A free block stands where the first free one is then, unless there was one before. -/
theorem firstFree_min (hhdr : 0 < hdr) (xs : List Block) {n : ℕ} :
    firstFree hdr p (bs ++ ⟨false, n⟩ :: cs) = min (stop hdr p bs) (firstFree hdr p (bs ++ xs)) := by
  rcases firstFree_cases hhdr bs (p := p) with ⟨-, hall⟩ | ⟨hlt, hsome⟩
  · rw [hall, hall, Nat.min_eq_left le_firstFree]
    rfl
  · rw [hsome, hsome, Nat.min_eq_right (Nat.le_of_lt hlt)]

/-- A used block may as well be two, as far as free ones are looked for. -/
theorem firstFree_split_used {n k : ℕ} : firstFree hdr p (bs ++ ⟨true, n⟩ :: ⟨true, k⟩ :: cs) =
    firstFree hdr p (bs ++ ⟨true, n + hdr + k⟩ :: cs) := by
  induction bs generalizing p with
  | nil =>
    have hend : p + hdr + n + hdr + k = p + hdr + (n + hdr + k) := by omega
    change firstFree hdr (p + hdr + n + hdr + k) cs = firstFree hdr (p + hdr + (n + hdr + k)) cs
    rw [hend]
  | cons b bs ih =>
    rw [List.cons_append, List.cons_append, firstFree, firstFree, ih]

/-- Without a used block there is one block. -/
theorem NoFreePair.of_free (h : NoFreePair bs) (hfree : ∀ b ∈ bs, b.used = false) : bs.length ≤ 1 := by
  match bs, h with
  | [], _ => exact Nat.zero_le 1
  | [_], _ => exact Nat.le_refl 1
  | a :: b :: bs, h =>
    have hpair := List.IsChain.rel h
    rw [hfree a List.mem_cons_self, hfree b (List.mem_cons_of_mem a List.mem_cons_self)] at hpair
    rcases hpair with h | h <;> cases h

theorem NoFreePair.append (hbs : NoFreePair bs) (hcs : NoFreePair cs)
    (h : ∀ b ∈ bs.getLast?, ∀ c ∈ cs.head?, b.used = true ∨ c.used = true) : NoFreePair (bs ++ cs) :=
  List.isChain_append.mpr ⟨hbs, hcs, h⟩

/-! ## Joining free blocks -/

/-- The same used blocks, and the same first free place. -/
structure SameUsed (hdr p : ℕ) (bs cs : List Block) : Prop where
  live : live hdr p cs = live hdr p bs
  firstFree : firstFree hdr p cs = firstFree hdr p bs
  stop : stop hdr p cs = stop hdr p bs

theorem SameUsed.refl (hdr p : ℕ) (bs : List Block) : SameUsed hdr p bs bs := ⟨rfl, rfl, rfl⟩

theorem SameUsed.trans {as : List Block} (h : SameUsed hdr p as bs) (h' : SameUsed hdr p bs cs) :
    SameUsed hdr p as cs :=
  ⟨h'.live.trans h.live, h'.firstFree.trans h.firstFree, h'.stop.trans h.stop⟩

/-- Two free blocks side by side may as well be one. -/
theorem sameUsed_join {n k : ℕ} : SameUsed hdr p (bs ++ ⟨false, n⟩ :: ⟨false, k⟩ :: cs)
    (bs ++ ⟨false, n + hdr + k⟩ :: cs) := by
  have hend : p + hdr + n + hdr + k = p + hdr + (n + hdr + k) := by omega
  induction bs generalizing p with
  | nil =>
    refine ⟨?_, rfl, ?_⟩
    · rw [List.nil_append, List.nil_append, live_cons_free, live_cons_free, live_cons_free, hend]
    · rw [List.nil_append, List.nil_append, stop, stop, stop, hend]
  | cons b bs ih =>
    obtain ⟨hlive, hfree, hstop⟩ := ih (p := p + hdr + b.size) (by omega)
    refine ⟨?_, ?_, hstop⟩
    · rw [List.cons_append, List.cons_append, live, live, hlive]
    · rw [List.cons_append, List.cons_append, firstFree, firstFree, hfree]

end WiotaDev.BlockTiling
