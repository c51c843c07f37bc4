import Mathlib.Algebra.Group.Nat.Even
import Mathlib.Data.List.DropRight
import Mathlib.Data.List.Basic

/-! # Texts between separators that are read without a look at what is behind one

What stands directly behind a separator belongs to the next text, also if it is a separator itself. At
the end of the whole there is nothing for it to be. -/

namespace WiotaDev.SkippedSeparators

variable {α : Type*} [DecidableEq α] (sep : α)

/-- The texts, the first of which goes on behind `text`; there are none when nothing stands behind a
separator. -/
def texts (text : List α) : List α → Option (List (List α))
  | [] => some [text]
  | c :: rest =>
    if c = sep then
      match rest with
      | [] => none
      | d :: rest => (texts [d] rest).map (text :: ·)
    else texts (text ++ [c]) rest

variable {sep}

theorem texts_nil (text : List α) : texts sep text [] = some [text] := rfl

theorem texts_end (text : List α) : texts sep text [sep] = none := if_pos rfl

theorem texts_sep (text : List α) (d : α) (rest : List α) :
    texts sep text (sep :: d :: rest) = (texts sep [d] rest).map (text :: ·) := if_pos rfl

theorem texts_cons {c : α} (h : c ≠ sep) (text rest : List α) :
    texts sep text (c :: rest) = texts sep (text ++ [c]) rest := by
  cases rest with
  | nil => exact if_neg h
  | cons d rest => exact if_neg h

/-- A text goes on through what has no separators. -/
theorem texts_append {t : List α} (h : sep ∉ t) (text rest : List α) :
    texts sep text (t ++ rest) = texts sep (text ++ t) rest := by
  induction t generalizing text with
  | nil => rw [List.nil_append, List.append_nil]
  | cons c t ih =>
    obtain ⟨hc, ht⟩ := List.ne_and_not_mem_of_not_mem_cons h
    rw [List.cons_append, texts_cons (Ne.symm hc), ih ht, List.append_assoc]
    rfl

/-- Nothing is lost: the texts with the separators between them are the whole. -/
theorem intercalate_texts {text rest : List α} {ts : List (List α)}
    (h : texts sep text rest = some ts) : ts ≠ [] ∧ [sep].intercalate ts = text ++ rest := by
  induction text, rest using texts.induct sep generalizing ts with
  | case1 text =>
    obtain rfl := Option.some.inj h
    exact ⟨List.cons_ne_nil _ _, by rw [List.intercalate_singleton, List.append_nil]⟩
  | case2 text =>
    rw [texts_end] at h
    exact absurd h (by simp)
  | case3 text d rest ih =>
    rw [texts_sep, Option.map_eq_some_iff] at h
    obtain ⟨us, hus, rfl⟩ := h
    obtain ⟨hne, hwhole⟩ := ih hus
    refine ⟨List.cons_ne_nil _ _, ?_⟩
    rw [List.intercalate_cons_of_ne_nil hne, hwhole, List.append_assoc]
    rfl
  | case4 text c rest hc ih =>
    rw [texts_cons hc] at h
    obtain ⟨hne, hwhole⟩ := ih h
    exact ⟨hne, by rw [hwhole, List.append_assoc]; rfl⟩

/-- Texts that have no separators are those which the separators delimit. -/
theorem splitOn_of_texts {text rest : List α} {ts : List (List α)}
    (h : texts sep text rest = some ts) (hfree : ∀ t ∈ ts, sep ∉ t) :
    (text ++ rest).splitOn sep = ts := by
  obtain ⟨hne, hwhole⟩ := intercalate_texts h
  rw [← hwhole, List.splitOn_intercalate sep hfree hne]

theorem texts_intercalate {t : List α} {ts : List (List α)} (hfree : ∀ u ∈ t :: ts, sep ∉ u)
    (hne : ∀ u ∈ ts, u ≠ []) (text : List α) :
    texts sep text ([sep].intercalate (t :: ts)) = some ((text ++ t) :: ts) := by
  induction ts generalizing t text with
  | nil =>
    have ht := texts_append (hfree t List.mem_cons_self) text []
    rw [List.append_nil] at ht
    rw [List.intercalate_singleton, ht, texts_nil]
  | cons u ts ih =>
    cases u with
    | nil => exact absurd rfl (hne [] List.mem_cons_self)
    | cons d u =>
      have hdu := List.forall_mem_of_forall_mem_cons hfree
      have hu : ∀ v ∈ u :: ts, sep ∉ v := by
        intro v hv
        rcases List.mem_cons.mp hv with rfl | hv
        · exact fun hsep => hdu _ List.mem_cons_self (List.mem_cons_of_mem d hsep)
        · exact hdu v (List.mem_cons_of_mem _ hv)
      rw [List.intercalate_cons_cons, List.append_assoc,
        texts_append (hfree t List.mem_cons_self), List.intercalate_cons_cons_left, List.singleton_append,
        texts_sep, ih hu (List.forall_mem_of_forall_mem_cons hne)]
      rfl

theorem sep_notMem_of_mem_splitOn {whole t : List α} (h : t ∈ whole.splitOn sep) : sep ∉ t := by
  induction whole generalizing t with
  | nil =>
    rw [List.splitOn_nil, List.mem_singleton] at h
    rw [h]
    exact List.not_mem_nil
  | cons c whole ih =>
    rw [List.splitOn_cons_eq_if_modifyHead] at h
    split at h
    · rcases List.mem_cons.mp h with rfl | h
      · exact List.not_mem_nil
      · exact ih h
    · rename_i hc
      obtain ⟨head, tail, hsplit⟩ := List.exists_cons_of_ne_nil (List.splitOn_ne_nil sep whole)
      rw [hsplit] at h ih
      rcases List.mem_cons.mp h with rfl | h
      · refine List.not_mem_cons_of_ne_of_not_mem (fun heq => hc ?_) (ih List.mem_cons_self)
        rw [← heq, beq_self_eq_true]
      · exact ih (List.mem_cons_of_mem _ h)

/-- The texts that the separators delimit, when none of them is empty. -/
theorem texts_eq_splitOn {whole : List α} (hne : ∀ t ∈ whole.splitOn sep, t ≠ []) :
    texts sep [] whole = some (whole.splitOn sep) := by
  obtain ⟨t, ts, hsplit⟩ := List.exists_cons_of_ne_nil (List.splitOn_ne_nil sep whole)
  have hfree : ∀ u ∈ t :: ts, sep ∉ u := fun u hu => sep_notMem_of_mem_splitOn (hsplit ▸ hu)
  have hwhole : [sep].intercalate (t :: ts) = whole := by rw [← hsplit, List.intercalate_splitOn]
  rw [hsplit] at hne ⊢
  rw [← hwhole, texts_intercalate hfree (List.forall_mem_of_forall_mem_cons hne), List.nil_append]

/-- There are two symbols at least for every further text. -/
theorem length_texts_le {text rest : List α} {ts : List (List α)} (h : texts sep text rest = some ts) :
    2 * ts.length ≤ rest.length + 2 := by
  induction text, rest using texts.induct sep generalizing ts with
  | case1 text =>
    obtain rfl := Option.some.inj h
    exact le_rfl
  | case2 text =>
    rw [texts_end] at h
    exact absurd h (by simp)
  | case3 text d rest ih =>
    rw [texts_sep, Option.map_eq_some_iff] at h
    obtain ⟨us, hus, rfl⟩ := h
    have hle := ih hus
    simp only [List.length_cons]
    omega
  | case4 text c rest hc ih =>
    rw [texts_cons hc] at h
    have hle := ih h
    rw [List.length_cons]
    omega

/-- How many separators stand at the end. -/
def run (sep : α) (whole : List α) : ℕ := (whole.rtakeWhile (· = sep)).length

theorem run_of_forall {whole : List α} (h : ∀ c ∈ whole, c = sep) : run sep whole = whole.length := by
  rw [run, List.rtakeWhile_eq_self_iff.mpr fun c hc => decide_eq_true (h c hc)]

theorem run_cons {c : α} {rest : List α} (h : ¬ ∀ d ∈ c :: rest, d = sep) :
    run sep (c :: rest) = run sep rest := by
  rw [run, run, List.rtakeWhile, List.rtakeWhile, List.length_reverse, List.length_reverse,
    List.reverse_cons]
  by_cases hrest : ∀ d ∈ rest, d = sep
  · have hc : ¬ c = sep := fun hc => h (List.forall_mem_cons.mpr ⟨hc, hrest⟩)
    have hreverse : ∀ d ∈ rest.reverse, decide (d = sep) = true :=
      fun d hd => decide_eq_true (hrest d (List.mem_reverse.mp hd))
    rw [List.takeWhile_append_of_pos hreverse, List.takeWhile_cons_of_neg (by simpa using hc),
      List.append_nil, List.takeWhile_eq_self_iff.mpr hreverse]
  · rw [List.takeWhile_append, if_neg]
    intro hlength
    refine hrest fun d hd => ?_
    have hself := (List.takeWhile_prefix _).eq_of_length hlength
    exact of_decide_eq_true (List.takeWhile_eq_self_iff.mp hself d (List.mem_reverse.mpr hd))

/-- There are texts exactly if an even number of separators stand at the end. -/
theorem texts_isSome_iff (text rest : List α) :
    (texts sep text rest).isSome ↔ Even (run sep rest) := by
  induction text, rest using texts.induct sep with
  | case1 text => exact iff_of_true rfl Even.zero
  | case2 text =>
    rw [texts_end, run_of_forall fun c hc => List.mem_singleton.mp hc]
    exact iff_of_false (by simp) (by simp)
  | case3 text d rest ih =>
    rw [texts_sep, Option.isSome_map, ih]
    by_cases hall : ∀ c ∈ sep :: d :: rest, c = sep
    · rw [run_of_forall hall, run_of_forall fun c hc => hall c (by simp [hc]), List.length_cons,
        List.length_cons, Nat.even_add_one, Nat.even_add_one, not_not]
    · have hd : ¬ ∀ c ∈ d :: rest, c = sep :=
        fun h => hall (List.forall_mem_cons.mpr ⟨rfl, h⟩)
      rw [run_cons hall, run_cons hd]
  | case4 text c rest hc ih =>
    rw [texts_cons hc, ih, run_cons fun h => hc (h c List.mem_cons_self)]

end WiotaDev.SkippedSeparators
