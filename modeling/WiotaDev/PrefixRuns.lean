import Mathlib.Data.List.Infix

/-! # What holds in all states along a run

The steps of these runs never halt: a run is a fold, and its states are those after its prefixes. -/

namespace WiotaDev.PrefixRuns

variable {σ ε : Type*} (next : σ → ε → σ) (ok : σ → ε → Prop)

/-- Every step of a run meets a condition on the state before the step and on the event. -/
def Along : σ → List ε → Prop
  | _, [] => True
  | s, e :: es => ok s e ∧ Along (next s e) es

instance Along.decidable [∀ s e, Decidable (ok s e)] :
    ∀ (s : σ) (es : List ε), Decidable (Along next ok s es)
  | _, [] => .isTrue trivial
  | s, e :: es =>
    have := Along.decidable (next s e) es
    inferInstanceAs (Decidable (ok s e ∧ Along next ok (next s e) es))

variable {next ok}

theorem along_snoc {s : σ} {es : List ε} {e : ε} :
    Along next ok s (es ++ [e]) ↔ Along next ok s es ∧ ok (es.foldl next s) e := by
  induction es generalizing s with
  | nil => exact ⟨fun h => ⟨trivial, h.1⟩, fun h => ⟨h.2, trivial⟩⟩
  | cons a es ih =>
    rw [List.cons_append, Along, Along, ih, and_assoc]
    rfl

/-- A run whose steps meet the condition keeps what they keep. -/
theorem Along.invariant {Inv : σ → Prop} (hstep : ∀ s e, Inv s → ok s e → Inv (next s e))
    {s : σ} {es : List ε} (hs : Inv s) (h : Along next ok s es) : Inv (es.foldl next s) := by
  induction es generalizing s with
  | nil => exact hs
  | cons e es ih => exact ih (hstep s e hs h.1) h.2

/-- A property of what has happened and of the state that has been reached, beside an invariant of the
steps that meet a condition. Where both hold, a step keeps the property exactly if it meets the condition.
Then the property holds in all states of a run exactly if all steps meet the condition. -/
theorem forall_prefix_iff_along (Inv : σ → Prop) (P : List ε → σ → Prop) {s : σ}
    (hinv : ∀ s e, Inv s → ok s e → Inv (next s e)) (hi : Inv s) (h0 : P [] s)
    (hstep : ∀ pre t e, Inv t → P pre t → (P (pre ++ [e]) (next t e) ↔ ok t e)) (es : List ε) :
    (∀ pre, pre <+: es → P pre (pre.foldl next s)) ↔ Along next ok s es := by
  induction es using List.reverseRecOn with
  | nil =>
    refine ⟨fun _ => trivial, fun _ pre hpre => ?_⟩
    rw [List.prefix_nil.mp hpre]
    exact h0
  | append_singleton es e ih =>
    have hfold : (es ++ [e]).foldl next s = next (es.foldl next s) e := by
      rw [List.foldl_append]
      rfl
    rw [along_snoc]
    constructor
    · intro h
      have hes : P es (es.foldl next s) := h es (List.prefix_append es [e])
      have hal : Along next ok s es := ih.mp fun pre hpre => h pre (hpre.trans (List.prefix_append es [e]))
      refine ⟨hal, ?_⟩
      rw [← hstep es _ e (hal.invariant hinv hi) hes, ← hfold]
      exact h _ (List.prefix_refl _)
    · rintro ⟨hal, hok⟩ pre hpre
      have h := ih.mpr hal
      rcases List.prefix_concat_iff.mp hpre with rfl | hpre
      · rw [hfold]
        exact (hstep es _ e (hal.invariant hinv hi) (h es (List.prefix_refl es))).mpr hok
      · exact h pre hpre

end WiotaDev.PrefixRuns
