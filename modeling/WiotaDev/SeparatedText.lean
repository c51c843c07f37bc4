import Mathlib.Data.List.DropRight
import Mathlib.Data.List.ReduceOption
import Mathlib.Data.List.Forall2

/-! # Lists of items in a text

A text is cut at a separator, and each part is stripped of the blanks at both ends; the parts in which
something is left are the items. Blank parts count for nothing, and so do the blanks around the whole
text. Nothing here depends on a particular program. -/

namespace WiotaDev.SeparatedText

section Strip
variable {α : Type*} (blank : α → Bool)

/-- Without the blanks at both ends. -/
def strip (s : List α) : List α := (s.dropWhile blank).rdropWhile blank

variable {blank}

/-- What is stripped are blanks. -/
theorem exists_strip (blank : α → Bool) (s : List α) : ∃ l r, s = l ++ strip blank s ++ r ∧
    (∀ c ∈ l, blank c = true) ∧ ∀ c ∈ r, blank c = true := by
  refine ⟨s.takeWhile blank, (s.dropWhile blank).rtakeWhile blank, ?_, fun c hc => ?_, fun c hc => ?_⟩
  · rw [strip, List.append_assoc, List.rdropWhile_append_rtakeWhile, List.takeWhile_append_dropWhile]
  · exact List.mem_takeWhile_imp hc
  · exact List.mem_rtakeWhile_imp hc

theorem strip_eq_nil_iff {s : List α} : strip blank s = [] ↔ ∀ c ∈ s, blank c = true := by
  constructor
  · intro h
    obtain ⟨l, r, hs, hl, hr⟩ := exists_strip blank s
    rw [h, List.append_nil] at hs
    rw [hs]
    intro c hc
    exact (List.mem_append.mp hc).elim (hl c) (hr c)
  · intro h
    rw [strip, List.dropWhile_eq_nil_iff.mpr h]
    rfl

/-- Blanks around a text that has none are stripped. -/
theorem strip_of_blanks {l t r : List α} (hl : ∀ c ∈ l, blank c = true)
    (ht : ∀ c ∈ t, blank c = false) (hne : t ≠ []) (hr : ∀ c ∈ r, blank c = true) :
    strip blank (l ++ t ++ r) = t := by
  have hleft : (l ++ t ++ r).dropWhile blank = t ++ r := by
    rw [List.append_assoc, List.dropWhile_append_of_pos hl]
    obtain ⟨c, t, rfl⟩ := List.exists_cons_of_ne_nil hne
    rw [List.cons_append, List.dropWhile_cons_of_neg]
    rw [ht c List.mem_cons_self]
    exact Bool.false_ne_true
  rw [strip, hleft, List.rdropWhile, List.reverse_append,
    List.dropWhile_append_of_pos fun c hc => hr c (List.mem_reverse.mp hc)]
  obtain ⟨t, c, rfl⟩ := List.eq_nil_or_concat t |>.resolve_left hne
  rw [List.concat_eq_append, List.reverse_append, List.reverse_singleton, List.singleton_append,
    List.dropWhile_cons_of_neg]
  · rw [List.reverse_cons, List.reverse_reverse]
  · rw [ht c (by simp)]
    exact Bool.false_ne_true

theorem strip_cons {c : α} (hc : blank c = true) (s : List α) :
    strip blank (c :: s) = strip blank s := by
  rw [strip, List.dropWhile_cons_of_pos hc, strip]

theorem strip_concat {c : α} (hc : blank c = true) (s : List α) :
    strip blank (s ++ [c]) = strip blank s := by
  rw [strip, strip, List.dropWhile_append]
  split
  · rename_i h
    rw [List.isEmpty_iff.mp h, List.dropWhile_cons_of_pos hc]
    rfl
  · exact List.rdropWhile_concat_pos _ _ _ hc

end Strip

section Items
variable {α : Type*} [DecidableEq α] (blank : α → Bool) (sep : α)

/-- The parts between the separators in which something is left. -/
def items (s : List α) : List (List α) :=
  ((s.splitOn sep).map (strip blank)).filter fun item => item ≠ []

variable {blank sep}

theorem items_cons {c : α} (hc : blank c = true) (hsep : c ≠ sep) (s : List α) :
    items blank sep (c :: s) = items blank sep s := by
  have hne := List.splitOn_ne_nil sep s
  rw [items, items, List.splitOn_cons_eq_if_modifyHead, if_neg (by simpa using hsep)]
  obtain ⟨part, parts, hparts⟩ := List.exists_cons_of_ne_nil hne
  rw [hparts, List.modifyHead_cons, List.map_cons, List.map_cons, strip_cons hc]

/-- A character behind a text goes to its last part. -/
theorem splitOn_concat {c : α} (hsep : c ≠ sep) (s : List α) : ∃ parts part,
    s.splitOn sep = parts ++ [part] ∧ (s ++ [c]).splitOn sep = parts ++ [part ++ [c]] := by
  induction s with
  | nil => exact ⟨[], [], rfl, List.splitOn_eq_singleton (by simpa using hsep.symm)⟩
  | cons x s ih =>
    obtain ⟨parts, part, hs, hc⟩ := ih
    rw [List.cons_append, List.splitOn_cons_eq_if_modifyHead, List.splitOn_cons_eq_if_modifyHead,
      hs, hc]
    by_cases hx : x == sep
    · rw [if_pos hx, if_pos hx]
      exact ⟨[] :: parts, part, rfl, rfl⟩
    · rw [if_neg hx, if_neg hx]
      cases parts with
      | nil => exact ⟨[], x :: part, rfl, rfl⟩
      | cons first parts => exact ⟨(x :: first) :: parts, part, rfl, rfl⟩

theorem items_concat {c : α} (hc : blank c = true) (hsep : c ≠ sep) (s : List α) :
    items blank sep (s ++ [c]) = items blank sep s := by
  obtain ⟨parts, part, hs, hsc⟩ := splitOn_concat hsep s
  rw [items, items, hs, hsc, List.map_append, List.map_append, List.map_singleton,
    List.map_singleton, strip_concat hc]

/-- The blanks around the text belong to no item. -/
theorem items_strip (hsep : blank sep = false) (s : List α) :
    items blank sep (strip blank s) = items blank sep s := by
  have hne {c : α} (hc : blank c = true) : c ≠ sep := by
    rintro rfl
    rw [hc] at hsep
    exact Bool.noConfusion hsep
  have hleft (s : List α) : items blank sep (s.dropWhile blank) = items blank sep s := by
    induction s with
    | nil => rfl
    | cons c s ih =>
      by_cases hc : blank c = true
      · rw [List.dropWhile_cons_of_pos hc, ih, items_cons hc (hne hc)]
      · rw [List.dropWhile_cons_of_neg hc]
  have hright (s : List α) : items blank sep (s.rdropWhile blank) = items blank sep s := by
    induction s using List.reverseRecOn with
    | nil => rfl
    | append_singleton s c ih =>
      by_cases hc : blank c = true
      · rw [List.rdropWhile_concat_pos _ _ _ hc, ih, items_concat hc (hne hc)]
      · rw [List.rdropWhile_concat_neg _ _ _ hc]
  rw [strip, hright, hleft]

/-- A text without items has nothing but blanks and separators. -/
theorem items_eq_nil_iff {s : List α} :
    items blank sep s = [] ↔ ∀ c ∈ s, blank c = true ∨ c = sep := by
  have hparts (s : List α) :
      items blank sep s = [] ↔ ∀ part ∈ s.splitOn sep, ∀ c ∈ part, blank c = true := by
    rw [items, List.filter_eq_nil_iff, List.forall_mem_map]
    refine forall₂_congr fun part _ => ?_
    rw [← strip_eq_nil_iff]
    simp
  rw [hparts]
  induction s with
  | nil => simp
  | cons x s ih =>
    rw [List.splitOn_cons_eq_if_modifyHead, List.forall_mem_cons]
    by_cases hx : x = sep
    · rw [if_pos (by simpa using hx), List.forall_mem_cons]
      exact and_congr (iff_of_true nofun (.inr hx)) ih
    · obtain ⟨part, parts, hs⟩ := List.exists_cons_of_ne_nil (List.splitOn_ne_nil sep s)
      rw [hs, List.forall_mem_cons] at ih
      rw [if_neg (by simpa using hx), hs, List.modifyHead_cons, List.forall_mem_cons,
        List.forall_mem_cons, and_assoc]
      exact and_congr (or_iff_left hx).symm ih

end Items

section Grammar
variable {α β : Type*} (blank : α → Bool) (sep : α) (Item : List α → β → Prop)

/-- A part between separators: nothing but blanks, or an item with blanks around it. -/
inductive Part : List α → Option β → Prop where
  | blank (s : List α) (h : ∀ c ∈ s, blank c = true) : Part s none
  | item (l t r : List α) (v : β) (hl : ∀ c ∈ l, blank c = true) (ht : Item t v)
      (hr : ∀ c ∈ r, blank c = true) : Part (l ++ t ++ r) (some v)

/-- The text is a list of parts, and `vs` are the values of those that are not blank. -/
def Separated (s : List α) (vs : List β) : Prop :=
  ∃ parts values, parts ≠ [] ∧ s = [sep].intercalate parts ∧
    List.Forall₂ (Part blank Item) parts values ∧ vs = values.reduceOption

variable {blank sep Item}

theorem forall₂_items {parts : List (List α)} {values : List (Option β)}
    (hitem : ∀ t v, Item t v → t ≠ [] ∧ ∀ c ∈ t, blank c = false)
    (h : List.Forall₂ (Part blank Item) parts values) :
    List.Forall₂ Item ((parts.map (strip blank)).filter fun item => item ≠ [])
      values.reduceOption := by
  induction h with
  | nil => exact .nil
  | cons hpart _ ih =>
    rw [List.map_cons]
    cases hpart with
    | blank s hs =>
      rw [List.filter_cons_of_neg (by simpa using strip_eq_nil_iff.mpr hs),
        List.reduceOption_cons_of_none]
      exact ih
    | item l t r v hl ht hr =>
      obtain ⟨hne, hnone⟩ := hitem t v ht
      rw [strip_of_blanks hl hnone hne hr, List.filter_cons_of_pos (by simpa using hne),
        List.reduceOption_cons_of_some]
      exact .cons ht ih

/-- No part holds the separator. -/
theorem sep_not_mem {parts : List (List α)} {values : List (Option β)} (hsep : blank sep = false)
    (hitem : ∀ t v, Item t v → sep ∉ t) (h : List.Forall₂ (Part blank Item) parts values) :
    ∀ part ∈ parts, sep ∉ part := by
  have hblank {s : List α} (hs : ∀ c ∈ s, blank c = true) : sep ∉ s := fun hmem => by
    rw [hs sep hmem] at hsep
    exact Bool.noConfusion hsep
  induction h with
  | nil => nofun
  | cons hpart _ ih =>
    refine List.forall_mem_cons.mpr ⟨?_, ih⟩
    cases hpart with
    | blank s hs => exact hblank hs
    | item l t r v hl ht hr =>
      simp only [List.mem_append, not_or]
      exact ⟨⟨hblank hl, hitem t v ht⟩, hblank hr⟩

theorem exists_values {parts : List (List α)} {vs : List β}
    (h : List.Forall₂ Item ((parts.map (strip blank)).filter fun item => item ≠ []) vs) :
    ∃ values, List.Forall₂ (Part blank Item) parts values ∧ vs = values.reduceOption := by
  induction parts generalizing vs with
  | nil =>
    cases h
    exact ⟨[], .nil, rfl⟩
  | cons part parts ih =>
    rw [List.map_cons] at h
    by_cases hblank : strip blank part = []
    · rw [List.filter_cons_of_neg (by simpa using hblank)] at h
      obtain ⟨values, hparts, hvs⟩ := ih h
      exact ⟨none :: values, .cons (.blank part (strip_eq_nil_iff.mp hblank)) hparts, hvs⟩
    · rw [List.filter_cons_of_pos (by simpa using hblank)] at h
      cases h with
      | cons hv hrest =>
        obtain ⟨values, hparts, rfl⟩ := ih hrest
        obtain ⟨l, r, hpart, hl, hr⟩ := exists_strip blank part
        refine ⟨some _ :: values, .cons ?_ hparts, rfl⟩
        rw [hpart]
        exact .item l _ r _ hl hv hr

/-- A text is a list of values exactly if these are the values of its items. -/
theorem separated_iff [DecidableEq α] (hsep : blank sep = false)
    (hitem : ∀ t v, Item t v → t ≠ [] ∧ sep ∉ t ∧ ∀ c ∈ t, blank c = false)
    {s : List α} {vs : List β} :
    Separated blank sep Item s vs ↔ List.Forall₂ Item (items blank sep s) vs := by
  constructor
  · rintro ⟨parts, values, hne, rfl, hparts, rfl⟩
    have hfree := sep_not_mem hsep (fun t v ht => (hitem t v ht).2.1) hparts
    rw [items, List.splitOn_intercalate sep hfree hne]
    exact forall₂_items (fun t v ht => ⟨(hitem t v ht).1, (hitem t v ht).2.2⟩) hparts
  · intro h
    obtain ⟨values, hparts, hvs⟩ := exists_values h
    exact ⟨s.splitOn sep, values, List.splitOn_ne_nil sep s, (List.intercalate_splitOn sep).symm,
      hparts, hvs⟩

end Grammar

end WiotaDev.SeparatedText
