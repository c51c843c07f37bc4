import Mathlib.Data.List.Infix

/-! # Runs of a step function that may halt

A step either yields the next state or halts for good with a reason and the state
it had reached. Once halted, a run stays halted. -/

namespace WiotaDev.HaltingRuns

universe u v w
variable {ρ : Type u} {σ : Type v} {ε : Type w}

inductive Outcome (ρ : Type u) (σ : Type v) where
  | next (s : σ)
  | halt (reason : ρ) (s : σ)

namespace Outcome

def state : Outcome ρ σ → σ
  | .next s => s
  | .halt _ s => s

def bind (o : Outcome ρ σ) (f : σ → Outcome ρ σ) : Outcome ρ σ :=
  match o with
  | .next s => f s
  | .halt r s => .halt r s

def map {τ : Type*} (f : σ → τ) : Outcome ρ σ → Outcome ρ τ
  | .next s => .next (f s)
  | .halt r s => .halt r (f s)

@[simp] theorem state_next (s : σ) : (Outcome.next s : Outcome ρ σ).state = s := rfl
@[simp] theorem state_halt (r : ρ) (s : σ) : (Outcome.halt r s).state = s := rfl
@[simp] theorem bind_next (s : σ) (f : σ → Outcome ρ σ) : (Outcome.next s).bind f = f s := rfl
@[simp] theorem bind_halt (r : ρ) (s : σ) (f : σ → Outcome ρ σ) :
    (Outcome.halt r s).bind f = .halt r s := rfl

theorem map_eq_next {τ : Type*} {o : Outcome ρ σ} {f : σ → τ} {t : τ} :
    o.map f = .next t ↔ ∃ s, o = .next s ∧ f s = t := by
  cases o <;> simp [map]

theorem bind_eq_next {o : Outcome ρ σ} {f : σ → Outcome ρ σ} {s : σ} :
    o.bind f = .next s ↔ ∃ a, o = .next a ∧ f a = .next s := by
  cases o <;> simp

end Outcome

def run (step : σ → ε → Outcome ρ σ) : σ → List ε → Outcome ρ σ
  | s, [] => .next s
  | s, e :: es => (step s e).bind fun s' => run step s' es

variable (step : σ → ε → Outcome ρ σ)

@[simp] theorem run_nil (s : σ) : run step s [] = .next s := rfl

theorem run_cons (s : σ) (e : ε) (es : List ε) :
    run step s (e :: es) = (step s e).bind fun s' => run step s' es := rfl

theorem run_append (s : σ) (es fs : List ε) :
    run step s (es ++ fs) = (run step s es).bind fun s' => run step s' fs := by
  induction es generalizing s with
  | nil => rfl
  | cons e es ih =>
    simp only [List.cons_append, run_cons]
    cases h : step s e with
    | next s' => simpa using ih s'
    | halt r s' => simp

theorem run_snoc (s : σ) (es : List ε) (e : ε) :
    run step s (es ++ [e]) = (run step s es).bind fun s' => step s' e := by
  rw [run_append]
  congr 1
  funext s'
  rw [run_cons]
  cases step s' e <;> rfl

/-- States that some run of live steps ends in. -/
def Reachable (init s : σ) : Prop := ∃ es, run step init es = .next s

theorem Reachable.refl (s : σ) : Reachable step s s := ⟨[], rfl⟩

/-- Every step that the run takes meets `ok`, a condition on the state before the
step and on the event. -/
def Meets (ok : σ → ε → Prop) : σ → List ε → Prop
  | _, [] => True
  | s, e :: es => ok s e ∧ ∀ s', step s e = .next s' → Meets ok s' es

variable {step} {ok : σ → ε → Prop}

/-- Whether a run meets a decidable condition can be computed. -/
instance Meets.decidable [∀ s e, Decidable (ok s e)] :
    ∀ (s : σ) (es : List ε), Decidable (Meets step ok s es)
  | _, [] => .isTrue trivial
  | s, e :: es =>
    match hs : step s e with
    | .next t =>
      have := Meets.decidable t es
      decidable_of_iff (ok s e ∧ Meets step ok t es) (and_congr_right fun _ =>
        ⟨fun h s' hs' => by cases hs.symm.trans hs'; exact h, fun h => h t hs⟩)
    | .halt _ _ =>
      decidable_of_iff (ok s e)
        ⟨fun h => ⟨h, fun s' hs' => by cases hs.symm.trans hs'⟩, And.left⟩

theorem Reachable.snoc {init s s' : σ} {e : ε} (h : Reachable step init s)
    (hs : step s e = .next s') : Reachable step init s' := by
  obtain ⟨es, hes⟩ := h
  exact ⟨es ++ [e], by rw [run_snoc, hes]; simpa using hs⟩

theorem Meets.prefix {s : σ} {es fs : List ε} (h : Meets step ok s (es ++ fs)) :
    Meets step ok s es := by
  induction es generalizing s with
  | nil => trivial
  | cons e es ih => exact ⟨h.1, fun s' hs => ih (h.2 s' hs)⟩

theorem Meets.mono {ok' : σ → ε → Prop} (h : ∀ s e, ok s e → ok' s e) {s : σ} {es : List ε}
    (hok : Meets step ok s es) : Meets step ok' s es := by
  induction es generalizing s with
  | nil => trivial
  | cons e es ih => exact ⟨h s e hok.1, fun s' hs => ih (hok.2 s' hs)⟩

theorem Meets.at {s s' : σ} {es fs : List ε} {e : ε} (h : Meets step ok s (es ++ e :: fs))
    (hr : run step s es = .next s') : ok s' e := by
  induction es generalizing s with
  | nil =>
    cases hr
    exact h.1
  | cons a es ih =>
    obtain ⟨t, ht, hrt⟩ := Outcome.bind_eq_next.mp hr
    exact ih (h.2 t ht) hrt

/-- The invariant rule: what every permitted live step keeps holds after every
permitted live run. -/
theorem run_invariant {Inv : σ → Prop}
    (hstep : ∀ s e s', Inv s → ok s e → step s e = .next s' → Inv s')
    {s s' : σ} {es : List ε} (hs : Inv s) (hok : Meets step ok s es)
    (hr : run step s es = .next s') : Inv s' := by
  induction es generalizing s with
  | nil =>
    cases hr
    exact hs
  | cons e es ih =>
    obtain ⟨t, ht, hrt⟩ := Outcome.bind_eq_next.mp hr
    exact ih (hstep s e t hs hok.1 ht) (hok.2 t ht) hrt

/-- What holds in every state that keeps an invariant and in every state a permitted step
halts in holds after every permitted run. -/
theorem run_state_invariant (Inv Q : σ → Prop)
    (hstep : ∀ s e s', Inv s → ok s e → step s e = .next s' → Inv s')
    (hhalt : ∀ s e r s', Inv s → ok s e → step s e = .halt r s' → Q s')
    (hinv : ∀ s, Inv s → Q s) {s : σ} {es : List ε} (hs : Inv s) (hok : Meets step ok s es) :
    Q (run step s es).state := by
  induction es generalizing s with
  | nil => exact hinv s hs
  | cons e es ih =>
    rw [run_cons]
    cases h : step s e with
    | next t => exact ih (hstep s e t hs hok.1 h) (hok.2 t h)
    | halt r t => exact hhalt s e r t hs hok.1 h

/-- Where permitted steps from an invariant go on and keep it, permitted runs go on. -/
theorem run_live {Inv : σ → Prop}
    (hstep : ∀ s e, Inv s → ok s e → ∃ s', step s e = .next s' ∧ Inv s')
    {s : σ} {es : List ε} (hs : Inv s) (hok : Meets step ok s es) :
    ∃ s', run step s es = .next s' ∧ Inv s' := by
  induction es generalizing s with
  | nil => exact ⟨s, rfl, hs⟩
  | cons e es ih =>
    obtain ⟨t, ht, hinv⟩ := hstep s e hs hok.1
    obtain ⟨s', hrun, hinv'⟩ := ih hinv (hok.2 t ht)
    exact ⟨s', by rw [run_cons, ht, Outcome.bind_next, hrun], hinv'⟩

/-- Conditions that agree on some events, where an invariant of the permitted steps holds, permit the
same runs of these events. -/
theorem meets_congr_of {Inv : σ → Prop} {Q : ε → Prop} {ok' : σ → ε → Prop}
    (hstep : ∀ s e s', Inv s → Q e → ok s e → step s e = .next s' → Inv s')
    (hiff : ∀ s e, Inv s → Q e → (ok' s e ↔ ok s e)) {s : σ} {es : List ε} (hs : Inv s)
    (hes : ∀ e ∈ es, Q e) : Meets step ok' s es ↔ Meets step ok s es := by
  induction es generalizing s with
  | nil => exact Iff.rfl
  | cons e es ih =>
    have he := hes e List.mem_cons_self
    show ok' s e ∧ _ ↔ ok s e ∧ _
    rw [hiff s e hs he]
    exact and_congr_right fun hok => forall₂_congr fun t ht =>
      ih (hstep s e t hs he hok ht) fun a ha => hes a (List.mem_cons_of_mem e ha)

/-- Conditions that agree where an invariant of the permitted steps holds permit the same runs. -/
theorem meets_congr {Inv : σ → Prop} {ok' : σ → ε → Prop}
    (hstep : ∀ s e s', Inv s → ok s e → step s e = .next s' → Inv s')
    (hiff : ∀ s e, Inv s → (ok' s e ↔ ok s e)) {s : σ} {es : List ε} (hs : Inv s) :
    Meets step ok' s es ↔ Meets step ok s es :=
  meets_congr_of (Q := fun _ => True) (fun s e s' hi _ => hstep s e s' hi)
    (fun s e hi _ => hiff s e hi) hs fun _ _ => trivial

/-- A run meets the condition exactly if every split of it does. -/
theorem meets_iff_splits {s : σ} {es : List ε} : Meets step ok s es ↔
    ∀ pre e post s', es = pre ++ e :: post → run step s pre = .next s' → ok s' e := by
  constructor
  · rintro h pre e post s' rfl hr
    exact h.at hr
  · intro h
    induction es generalizing s with
    | nil => trivial
    | cons e es ih =>
      refine ⟨h [] e es s rfl rfl, fun s' hs => ih fun pre a post t he ht => ?_⟩
      exact h (e :: pre) a post t (by rw [he]; rfl) (by rw [run_cons, hs]; exact ht)

/-- What every live step keeps holds after every live run. -/
theorem run_keeps {Inv : σ → Prop} (hstep : ∀ s e s', Inv s → step s e = .next s' → Inv s')
    {s s' : σ} {es : List ε} (hs : Inv s) (hr : run step s es = .next s') : Inv s' := by
  have hok : Meets step (fun _ _ => True) s es :=
    meets_iff_splits.mpr fun _ _ _ _ _ _ => trivial
  exact run_invariant (fun t e t' ht _ => hstep t e t' ht) hs hok hr

/-- Where an invariant holds and the state is as it should be, a step has an outcome as it should be
exactly if it meets the condition. Then a run is as it should be all along exactly if it meets the
condition. -/
theorem forall_prefix_outcome_iff_meets (Inv : σ → Prop) (Q : Outcome ρ σ → Prop)
    (hinv : ∀ s e t, Inv s → step s e = .next t → Inv t)
    (hstep : ∀ s e, Inv s → Q (.next s) → (Q (step s e) ↔ ok s e))
    {s : σ} (hi : Inv s) (hs : Q (.next s)) (es : List ε) :
    (∀ pre, pre <+: es → Q (run step s pre)) ↔ Meets step ok s es := by
  induction es generalizing s with
  | nil =>
    refine ⟨fun _ => trivial, fun _ pre hpre => ?_⟩
    rw [List.prefix_nil.mp hpre]
    exact hs
  | cons e es ih =>
    have hone : run step s [e] = step s e := by
      rw [run_cons]
      cases step s e <;> rfl
    constructor
    · intro h
      have hnext : Q (step s e) := hone ▸ h [e] (List.prefix_append [e] es)
      refine ⟨(hstep s e hi hs).mp hnext, fun t ht => ?_⟩
      refine (ih (hinv s e t hi ht) (ht ▸ hnext)).mp fun pre hpre => ?_
      have hall := h (e :: pre) ((List.prefix_cons_inj e).mpr hpre)
      rwa [run_cons, ht] at hall
    · rintro ⟨hok, hrest⟩ pre hpre
      rcases List.prefix_cons_iff.mp hpre with rfl | ⟨short, rfl, hshort⟩
      · exact hs
      · have hnext : Q (step s e) := (hstep s e hi hs).mpr hok
        rw [run_cons]
        cases ht : step s e with
        | next t => exact (ih (hinv s e t hi ht) (ht ▸ hnext)).mpr (hrest t ht) short hshort
        | halt r t =>
          rw [ht] at hnext
          exact hnext

/-- Where an invariant and a property hold, a step keeps the property exactly if the step meets the
condition, and what halts meets it. Then the property holds along a run exactly if the run meets the
condition. -/
theorem forall_prefix_iff_meets (Inv P : σ → Prop)
    (hinv : ∀ s e t, Inv s → step s e = .next t → Inv t)
    (hstep : ∀ s e t, Inv s → P s → step s e = .next t → (P t ↔ ok s e))
    (hhalt : ∀ s e r t, Inv s → P s → step s e = .halt r t → ok s e)
    {s : σ} (hi : Inv s) (hs : P s) (es : List ε) :
    (∀ pre, pre <+: es → ∀ t, run step s pre = .next t → P t) ↔ Meets step ok s es := by
  refine forall_prefix_outcome_iff_meets Inv (fun o => ∀ t, o = .next t → P t) hinv
    (fun s e hi hp => ?_) hi (fun t ht => Outcome.next.inj ht ▸ hs) es
  cases hres : step s e with
  | next t =>
    rw [← hstep s e t hi (hp s rfl) hres]
    exact ⟨fun h => h t rfl, fun h u hu => Outcome.next.inj hu ▸ h⟩
  | halt r t => exact iff_of_true (fun u hu => by cases hu) (hhalt s e r t hi (hp s rfl) hres)

variable (step) in
/-- The sum of what the steps of a run weigh, up to where it halts. -/
def total (weight : σ → ε → ℕ) : σ → List ε → ℕ
  | _, [] => 0
  | s, e :: es => weight s e +
    match step s e with
    | .next t => total weight t es
    | .halt _ _ => 0

/-- Where steps that end in `P` begin in `P` and add their weight to a value, the value has, after a
run that ends in `P`, the total added. -/
theorem run_total {M : Type*} [Add M] {P : σ → Prop} (value : σ → M) (cast : ℕ → M)
    (weight : σ → ε → ℕ) (hzero : ∀ m, m + cast 0 = m)
    (hadd : ∀ m a b, m + cast a + cast b = m + cast (a + b))
    (hstep : ∀ s e t, step s e = .next t → P t → P s ∧ value t = value s + cast (weight s e))
    {s t : σ} {es : List ε} (hr : run step s es = .next t) (ht : P t) :
    P s ∧ value t = value s + cast (total step weight s es) := by
  induction es generalizing s with
  | nil =>
    cases hr
    exact ⟨ht, (hzero _).symm⟩
  | cons e es ih =>
    obtain ⟨u, hu, hrun⟩ := Outcome.bind_eq_next.mp hr
    obtain ⟨hpu, hvalue⟩ := ih hrun
    obtain ⟨hps, hadds⟩ := hstep s e u hu hpu
    exact ⟨hps, by rw [hvalue, hadds, hadd, total, hu]⟩

end WiotaDev.HaltingRuns
