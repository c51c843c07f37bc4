import Mathlib.Data.List.Infix
import Mathlib.Data.List.Basic

/-! # Lines of a stream

A stream of symbols is read into lines, each of which ends with a pair of symbols. A cut begins a new
line and drops what there is of the old one. -/

namespace WiotaDev.LineFraming

variable {α : Type*} {cr lf : α}

inductive Item (α : Type*)
  | byte (c : α)
  | cut

/-- The line that is being read, the lines that have been completed, and whether the one completed
last, with no cut behind it, is empty. -/
structure Lines (α : Type*) where
  cur : List α
  lines : List (List α)
  behindEmpty : Bool

/-- The symbol completes a pair, and with it the line. -/
def Completes (cr lf : α) (cur : List α) (c : α) : Prop := c = lf ∧ cur.getLast? = some cr

theorem pair_infix_concat_iff (xs : List α) (c : α) :
    [cr, lf] <:+: xs ++ [c] ↔ Completes cr lf xs c ∨ [cr, lf] <:+: xs := by
  have hsuffix : [cr, lf] <:+ xs ++ [c] ↔ Completes cr lf xs c := by
    rw [List.suffix_concat_iff]
    constructor
    · rintro (h | ⟨t, ht, hsuf⟩)
      · exact absurd h (List.cons_ne_nil _ _)
      · have hparts : [cr] ++ [lf] = t ++ [c] := ht
        obtain ⟨rfl, hc⟩ := List.append_inj' hparts rfl
        exact ⟨(List.cons.inj hc).1.symm, List.singleton_suffix_iff_getLast?_eq_some.mp hsuf⟩
    · rintro ⟨rfl, hlast⟩
      exact Or.inr ⟨[cr], rfl, List.singleton_suffix_iff_getLast?_eq_some.mpr hlast⟩
  rw [List.infix_concat_iff, hsuffix]

/-- A completed line is what stood before the first symbol of its pair. -/
theorem Completes.eq_concat {cur : List α} {c : α} (h : Completes cr lf cur c) :
    cur = cur.dropLast ++ [cr] := (List.dropLast_append_getLast? cr h.2).symm

/-- The line is empty when there is only the first symbol of the pair. -/
theorem Completes.dropLast_eq_nil_iff {cur : List α} {c : α} (h : Completes cr lf cur c) :
    cur.dropLast = [] ↔ cur = [cr] := by
  constructor
  · intro hnil
    rw [h.eq_concat, hnil]
    rfl
  · rintro rfl
    rfl

variable [DecidableEq α]

instance (cr lf : α) (cur : List α) (c : α) : Decidable (Completes cr lf cur c) :=
  inferInstanceAs (Decidable (_ ∧ _))

def take (cr lf : α) (l : Lines α) : Item α → Lines α
  | .cut => ⟨[], l.lines, false⟩
  | .byte c =>
    if Completes cr lf l.cur c then ⟨[], l.lines ++ [l.cur.dropLast], l.cur.dropLast = []⟩
    else { l with cur := l.cur ++ [c] }

def read (cr lf : α) (items : List (Item α)) : Lines α :=
  items.foldl (take cr lf) ⟨[], [], false⟩

theorem read_append (xs ys : List (Item α)) :
    read cr lf (xs ++ ys) = ys.foldl (take cr lf) (read cr lf xs) := List.foldl_append

theorem read_cut (items : List (Item α)) :
    read cr lf (items ++ [.cut]) = ⟨[], (read cr lf items).lines, false⟩ := read_append items [.cut]

theorem read_completes {items : List (Item α)} {c : α}
    (h : Completes cr lf (read cr lf items).cur c) :
    read cr lf (items ++ [.byte c]) =
      ⟨[], (read cr lf items).lines ++ [(read cr lf items).cur.dropLast],
        (read cr lf items).cur.dropLast = []⟩ := by
  rw [read_append]
  exact if_pos h

theorem read_goes_on {items : List (Item α)} {c : α}
    (h : ¬ Completes cr lf (read cr lf items).cur c) :
    read cr lf (items ++ [.byte c]) =
      { read cr lf items with cur := (read cr lf items).cur ++ [c] } := by
  rw [read_append]
  exact if_neg h

/-- Neither the lines nor what there is of the next one contain a pair. -/
theorem read_noPair (items : List (Item α)) : ¬ [cr, lf] <:+: (read cr lf items).cur ∧
    ∀ line ∈ (read cr lf items).lines, ¬ [cr, lf] <:+: line := by
  have hnil : ¬ [cr, lf] <:+: ([] : List α) := fun h =>
    absurd (List.infix_nil.mp h) (List.cons_ne_nil _ _)
  induction items using List.reverseRecOn with
  | nil => exact ⟨hnil, fun _ hmem => absurd hmem List.not_mem_nil⟩
  | append_singleton items item ih =>
    obtain ⟨hcur, hlines⟩ := ih
    cases item with
    | cut =>
      rw [read_cut]
      exact ⟨hnil, hlines⟩
    | byte c =>
      by_cases hc : Completes cr lf (read cr lf items).cur c
      · rw [read_completes hc]
        refine ⟨hnil, fun line hline => ?_⟩
        rcases List.mem_append.mp hline with hline | hline
        · exact hlines line hline
        · rw [List.mem_singleton.mp hline]
          exact fun hpair => hcur (hpair.trans (List.dropLast_prefix _).isInfix)
      · rw [read_goes_on hc]
        exact ⟨fun hpair => ((pair_infix_concat_iff _ c).mp hpair).elim hc hcur, hlines⟩

end WiotaDev.LineFraming
