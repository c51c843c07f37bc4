import Mathlib.Data.List.Nodup
import Mathlib.Order.Lattice

/-! # Lists with one item for each key

A list in which no key occurs twice represents a partial map. Items are put in place of the item with
their key, or inserted by rank, so that the ranks do not increase along the list. -/

namespace WiotaDev.KeyedLists

variable {α κ ρ : Type*} {key : α → κ} {rank : α → ρ} {a : α} {l : List α} {f : κ → Option α}

/-- The list has the values of a partial map as its items, each once. -/
structure Represents (key : α → κ) (l : List α) (f : κ → Option α) : Prop where
  nodup : (l.map key).Nodup
  mem : ∀ k a, f k = some a ↔ a ∈ l ∧ key a = k

theorem represents_nil : Represents key ([] : List α) fun _ => none :=
  ⟨List.nodup_nil, fun k a => by simp⟩

/-- A list represents one map only. -/
theorem Represents.unique {g : κ → Option α} (hf : Represents key l f) (hg : Represents key l g) :
    f = g := by
  funext k
  refine Option.ext fun a => ?_
  rw [hf.mem, hg.mem]

theorem Represents.none_iff (h : Represents key l f) {k : κ} : f k = none ↔ k ∉ l.map key := by
  rw [Option.eq_none_iff_forall_ne_some]
  simp only [List.mem_map, not_exists, not_and, ne_eq, h.mem]

theorem Represents.perm {l' : List α} (h : Represents key l f) (hp : l.Perm l') :
    Represents key l' f :=
  ⟨(hp.map key).nodup_iff.mp h.nodup, fun k a => by rw [h.mem, hp.mem_iff]⟩

section Keys

variable [DecidableEq κ]

/-- Puts an item in place of the first one with its key. -/
def replaceFirst (key : α → κ) (a : α) : List α → List α
  | [] => []
  | b :: l => if key b = key a then a :: l else b :: replaceFirst key a l

/-- Removes the first item with a key. -/
def removeFirst (key : α → κ) (k : κ) : List α → List α
  | [] => []
  | b :: l => if key b = k then l else b :: removeFirst key k l

/-- The last item with a key. -/
def lastOf (key : α → κ) (items : List α) (k : κ) : Option α :=
  items.reverse.find? fun a => key a = k

theorem lastOf_snoc (items : List α) (a : α) :
    lastOf key (items ++ [a]) = Function.update (lastOf key items) (key a) (some a) := by
  funext k
  rw [lastOf, List.reverse_append, List.reverse_singleton, List.singleton_append, List.find?_cons]
  rcases eq_or_ne k (key a) with rfl | hne
  · rw [Function.update_self, decide_eq_true rfl]
  · rw [Function.update_of_ne hne, decide_eq_false hne.symm]
    rfl

/-- The map is what a search of the list finds. -/
theorem Represents.find_eq (h : Represents key l f) (k : κ) :
    l.find? (fun a => key a = k) = f k := by
  cases hfind : l.find? fun a => key a = k with
  | none =>
    symm
    rw [h.none_iff]
    intro hmem
    obtain ⟨a, ha, hk⟩ := List.mem_map.mp hmem
    exact List.find?_eq_none.mp hfind a ha (decide_eq_true hk)
  | some a =>
    symm
    rw [h.mem]
    have hkey : decide (key a = k) = true := List.find?_some (p := fun a => decide (key a = k)) hfind
    exact ⟨List.mem_of_find?_eq_some hfind, of_decide_eq_true hkey⟩

/-- A new key. -/
theorem Represents.cons (h : Represents key l f) (hnew : key a ∉ l.map key) :
    Represents key (a :: l) (Function.update f (key a) (some a)) := by
  refine ⟨List.nodup_cons.mpr ⟨hnew, h.nodup⟩, fun k b => ?_⟩
  rcases eq_or_ne k (key a) with rfl | hne
  · rw [Function.update_self, Option.some.injEq, List.mem_cons]
    constructor
    · rintro rfl
      exact ⟨.inl rfl, rfl⟩
    · rintro ⟨rfl | hb, hk⟩
      · rfl
      · exact absurd (hk ▸ List.mem_map_of_mem hb) hnew
  · rw [Function.update_of_ne hne, h.mem, List.mem_cons]
    refine and_congr_left fun hk => ⟨.inr, fun hb => hb.resolve_left ?_⟩
    rintro rfl
    exact hne hk.symm

/-- Two changes of a map come to the same. -/
theorem update_eq_update_iff {k k' : κ} {x y : Option α} :
    Function.update f k x = Function.update f k' y ↔
      k = k' ∧ x = y ∨ k ≠ k' ∧ f k = x ∧ f k' = y := by
  rcases eq_or_ne k k' with rfl | hne
  · constructor
    · intro h
      have hk := congrFun h k
      rw [Function.update_self, Function.update_self] at hk
      exact .inl ⟨rfl, hk⟩
    · rintro (⟨-, rfl⟩ | ⟨hne, -⟩)
      · rfl
      · exact absurd rfl hne
  · constructor
    · intro h
      have hk := congrFun h k
      have hk' := congrFun h k'
      rw [Function.update_self, Function.update_of_ne hne] at hk
      rw [Function.update_self, Function.update_of_ne hne.symm] at hk'
      exact .inr ⟨hne, hk.symm, hk'⟩
    · rintro (⟨heq, -⟩ | ⟨-, rfl, rfl⟩)
      · exact absurd heq hne
      · rw [Function.update_eq_self, Function.update_eq_self]

theorem removeFirst_eq_filter (k : κ) (h : (l.map key).Nodup) :
    removeFirst key k l = l.filter fun b => key b ≠ k := by
  induction l with
  | nil => rfl
  | cons b l ih =>
    obtain ⟨hnot, hnodup⟩ := List.nodup_cons.mp h
    rw [removeFirst, List.filter_cons]
    rcases eq_or_ne (key b) k with rfl | hne
    · have hall : ∀ c ∈ l, decide (key c ≠ key b) = true := by
        intro c hc
        exact decide_eq_true fun he => hnot (he ▸ List.mem_map_of_mem hc)
      rw [if_pos rfl, if_neg (by simp), List.filter_eq_self.mpr hall]
    · rw [if_neg hne, if_pos (by simpa using hne), ih hnodup]

/-- Without the item of a key. -/
theorem Represents.removeFirst (h : Represents key l f) (k : κ) :
    Represents key (removeFirst key k l) (Function.update f k none) := by
  rw [removeFirst_eq_filter k h.nodup]
  refine ⟨h.nodup.sublist ((List.filter_sublist).map key), fun k' b => ?_⟩
  rw [List.mem_filter, decide_eq_true_iff]
  rcases eq_or_ne k' k with rfl | hne
  · rw [Function.update_self]
    constructor
    · intro hb
      cases hb
    · rintro ⟨⟨_, hne⟩, hk⟩
      exact absurd hk hne
  · rw [Function.update_of_ne hne, h.mem]
    refine and_congr_left fun hk => ⟨fun hb => ⟨hb, hk ▸ hne⟩, And.left⟩

theorem replaceFirst_perm (h : key a ∈ l.map key) :
    (a :: removeFirst key (key a) l).Perm (replaceFirst key a l) := by
  induction l with
  | nil => cases h
  | cons b l ih =>
    rw [replaceFirst, removeFirst]
    split
    · exact List.Perm.refl _
    · rename_i hne
      rw [List.map_cons] at h
      have hmem := (List.mem_cons.mp h).resolve_left (Ne.symm hne)
      exact (List.Perm.swap b a _).trans ((ih hmem).cons b)

theorem removeFirst_sublist {k : κ} : (removeFirst key k l).Sublist l := by
  induction l with
  | nil => exact List.Sublist.refl _
  | cons b l ih =>
    rw [removeFirst]
    split
    · exact List.sublist_cons_self b l
    · exact ih.cons_cons b

/-- What the items are mapped to has the same keys. -/
theorem map_replaceFirst_comm {β : Type*} (g : α → β) (key' : β → κ) (hkey : ∀ a, key' (g a) = key a) :
    (replaceFirst key a l).map g = replaceFirst key' (g a) (l.map g) := by
  induction l with
  | nil => rfl
  | cons b l ih =>
    rw [List.map_cons, replaceFirst, replaceFirst, apply_ite (List.map g), List.map_cons,
      List.map_cons, ih, hkey, hkey]

theorem map_removeFirst_comm {β : Type*} (g : α → β) (key' : β → κ) (hkey : ∀ a, key' (g a) = key a)
    (k : κ) : (removeFirst key k l).map g = removeFirst key' k (l.map g) := by
  induction l with
  | nil => rfl
  | cons b l ih =>
    rw [List.map_cons, removeFirst, removeFirst, apply_ite (List.map g), List.map_cons, ih, hkey]

theorem map_replaceFirst : (replaceFirst key a l).map key = l.map key := by
  induction l with
  | nil => rfl
  | cons b l ih =>
    rw [replaceFirst]
    split
    · rename_i heq
      rw [List.map_cons, List.map_cons, heq]
    · rw [List.map_cons, List.map_cons, ih]

theorem mem_replaceFirst {c : α} (hc : c ∈ replaceFirst key a l) : c = a ∨ c ∈ l := by
  induction l with
  | nil => cases hc
  | cons b l ih =>
    rw [replaceFirst] at hc
    split at hc
    · exact (List.mem_cons.mp hc).imp_right (List.mem_cons_of_mem b)
    · rcases List.mem_cons.mp hc with rfl | hc
      · exact .inr List.mem_cons_self
      · exact (ih hc).imp_right (List.mem_cons_of_mem b)

/-- A key with another item. -/
theorem Represents.replaceFirst (h : Represents key l f) (hold : key a ∈ l.map key) :
    Represents key (replaceFirst key a l) (Function.update f (key a) (some a)) := by
  have hrest := h.removeFirst (key a)
  have hnew : key a ∉ (KeyedLists.removeFirst key (key a) l).map key := by
    rw [← hrest.none_iff, Function.update_self]
  have hcons := hrest.cons hnew
  rw [Function.update_idem] at hcons
  exact hcons.perm (replaceFirst_perm hold)

end Keys

section Ranks

variable [LinearOrder ρ]

/-- Puts an item in front of the first one with a smaller rank. -/
def insertRanked (rank : α → ρ) (a : α) : List α → List α
  | [] => [a]
  | b :: l => if rank b < rank a then a :: b :: l else b :: insertRanked rank a l

/-- Puts an item behind the first one with a larger rank, or at the end. -/
def insertBehind (rank : α → ρ) (a : α) : List α → List α
  | [] => [a]
  | b :: l => if rank a < rank b then b :: a :: l else b :: insertBehind rank a l

/-- The ranks do not increase. -/
def Ranked (rank : α → ρ) (l : List α) : Prop := l.Pairwise fun a b => rank b ≤ rank a

instance Ranked.decidable (rank : α → ρ) (l : List α) : Decidable (Ranked rank l) :=
  inferInstanceAs (Decidable (l.Pairwise _))

theorem insertRanked_perm : (a :: l).Perm (insertRanked rank a l) := by
  induction l with
  | nil => exact List.Perm.refl _
  | cons b l ih =>
    rw [insertRanked]
    split
    · exact List.Perm.refl _
    · exact (List.Perm.swap b a l).trans (ih.cons b)

theorem Ranked.insertRanked (h : Ranked rank l) : Ranked rank (insertRanked rank a l) := by
  induction l with
  | nil => exact List.pairwise_singleton _ _
  | cons b l ih =>
    obtain ⟨hb, hl⟩ := List.pairwise_cons.mp h
    rw [KeyedLists.insertRanked]
    split
    · rename_i hlt
      refine List.pairwise_cons.mpr ⟨fun c hc => ?_, h⟩
      rcases List.mem_cons.mp hc with rfl | hc
      · exact hlt.le
      · exact (hb c hc).trans hlt.le
    · rename_i hge
      refine List.pairwise_cons.mpr ⟨fun c hc => ?_, ih hl⟩
      rcases List.mem_cons.mp (insertRanked_perm.mem_iff.mpr hc) with rfl | hc
      · exact not_lt.mp hge
      · exact hb c hc

theorem insertBehind_perm : (a :: l).Perm (insertBehind rank a l) := by
  induction l with
  | nil => exact List.Perm.refl _
  | cons b l ih =>
    rw [insertBehind]
    split
    · exact List.Perm.swap b a l
    · exact (List.Perm.swap b a l).trans (ih.cons b)

theorem map_insertBehind_comm {β : Type*} (g : α → β) (rank' : β → ρ)
    (hrank : ∀ a, rank' (g a) = rank a) :
    (insertBehind rank a l).map g = insertBehind rank' (g a) (l.map g) := by
  induction l with
  | nil => rfl
  | cons b l ih =>
    rw [List.map_cons, insertBehind, insertBehind, apply_ite (List.map g), List.map_cons, List.map_cons,
      List.map_cons, ih, hrank, hrank]

/-- The rank of an item lies between those in front of the place behind the first larger one, and those
behind that place. -/
def FitsBehind (rank : α → ρ) (a : α) : List α → Prop
  | [] => True
  | b :: l => if rank a < rank b then ∀ c ∈ l, rank c ≤ rank a else rank a ≤ rank b ∧ FitsBehind rank a l

instance FitsBehind.decidable (rank : α → ρ) (a : α) : DecidablePred (FitsBehind rank a)
  | [] => .isTrue trivial
  | b :: l =>
    have := FitsBehind.decidable rank a l
    inferInstanceAs (Decidable (if rank a < rank b then ∀ c ∈ l, rank c ≤ rank a
      else rank a ≤ rank b ∧ FitsBehind rank a l))

theorem Ranked.insertBehind_iff (h : Ranked rank l) :
    Ranked rank (insertBehind rank a l) ↔ FitsBehind rank a l := by
  induction l with
  | nil => exact iff_of_true (List.pairwise_singleton _ _) trivial
  | cons b l ih =>
    obtain ⟨hb, hl⟩ := List.pairwise_cons.mp h
    rw [insertBehind, FitsBehind]
    split
    · rename_i hlt
      have hfirst : ∀ c ∈ a :: l, rank c ≤ rank b := List.forall_mem_cons.mpr ⟨hlt.le, hb⟩
      rw [Ranked, List.pairwise_cons, List.pairwise_cons, and_iff_right hfirst, and_iff_left hl]
    · rw [← ih hl]
      refine List.pairwise_cons.trans (and_congr_left fun _ => ?_)
      constructor
      · exact fun hall => hall a (insertBehind_perm.mem_iff.mp List.mem_cons_self)
      · intro hle c hc
        rcases List.mem_cons.mp (insertBehind_perm.mem_iff.mpr hc) with rfl | hc
        · exact hle
        · exact hb c hc

variable [DecidableEq κ]

/-- The rank of an item lies between those in front of the item with its key and those behind it. -/
def FitsInPlace (key : α → κ) (rank : α → ρ) (a : α) : List α → Prop
  | [] => True
  | b :: l => if key b = key a then ∀ c ∈ l, rank c ≤ rank a
    else rank a ≤ rank b ∧ FitsInPlace key rank a l

instance FitsInPlace.decidable (key : α → κ) (rank : α → ρ) (a : α) :
    DecidablePred (FitsInPlace key rank a)
  | [] => .isTrue trivial
  | b :: l =>
    have := FitsInPlace.decidable key rank a l
    inferInstanceAs (Decidable (if key b = key a then ∀ c ∈ l, rank c ≤ rank a
      else rank a ≤ rank b ∧ FitsInPlace key rank a l))

/-- What is put in place of another item keeps the ranks in order exactly if its own fits there. -/
theorem Ranked.replaceFirst_iff (h : Ranked rank l) (hold : key a ∈ l.map key) :
    Ranked rank (replaceFirst key a l) ↔ FitsInPlace key rank a l := by
  induction l with
  | nil => cases hold
  | cons b l ih =>
    obtain ⟨hb, hl⟩ := List.pairwise_cons.mp h
    rw [replaceFirst, FitsInPlace]
    split
    · exact List.pairwise_cons.trans (and_iff_left hl)
    · rename_i hne
      rw [List.map_cons] at hold
      have hmem := (List.mem_cons.mp hold).resolve_left (Ne.symm hne)
      rw [← ih hl hmem]
      refine List.pairwise_cons.trans (and_congr_left fun _ => ?_)
      constructor
      · intro hall
        exact hall a ((replaceFirst_perm hmem).mem_iff.mp List.mem_cons_self)
      · rintro hle c hc
        rcases mem_replaceFirst hc with rfl | hc
        · exact hle
        · exact hb c hc

end Ranks

end WiotaDev.KeyedLists
