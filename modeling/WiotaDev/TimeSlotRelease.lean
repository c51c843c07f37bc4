import WiotaDev.CountingSemaphore
import WiotaDev.HaltingRuns
import Mathlib.Data.BitVec
import Mathlib.Data.List.Nodup
import Mathlib.Data.List.Perm.Subperm

/-! # Waiting for the time slot (`uc_wiota_gateway_api.c`)

Calls of `uc_wiota_gateway_wait_send_time_slot` from any threads in time-slot mode, interleaved
with the `UC_RECV_FN_CHANGE` branch of `uc_wiota_gateway_recv_data_callback`. They share the flag
`is_waiting_ts` and the semaphore `fn_refresh_sem`. -/

namespace WiotaDev.TimeSlotRelease
open HaltingRuns CountingSemaphore

universe u
variable {τ : Type u} [DecidableEq τ]

def RT_SEM_VALUE_MAX : ℕ := 65535

/-- A frame number whose slot is the expected one, with its position among the frame numbers. -/
structure SlotEvent where
  id : ℕ
  fn : BitVec 32
  pof : BitVec 32
  tsFn : BitVec 16
  matching : fn % pof = tsFn.setWidth 32

/-- Where a thread is in a call that waits. `began` counts the frame numbers before the call. -/
inductive Phase where
  | idle
  | entering (began : ℕ)
  | taking (began : ℕ)
  | suspended (began : ℕ)
  | leaving (res : ℕ)
  deriving DecidableEq, Repr

/-- A call that `rt_sem_take` lets go on, with the frame number that released it. -/
structure Grant where
  began : ℕ
  event : Option SlotEvent

/-- The stack's and the gateway's values that the callback compares, the shared flag and semaphore,
and a history: `events` counts the frame numbers, `tokens` are those behind the semaphore's value,
`callback` is the one that the callback is about to release for, `grants` the calls released. -/
structure State (τ : Type u) where
  normal : Bool
  pof : BitVec 32
  tsFn : BitVec 16
  authTsFn : BitVec 16
  isWaitingTs : Bool
  fnRefreshSem : Semaphore τ
  phase : τ → Phase
  callback : Option SlotEvent
  events : ℕ
  tokens : List SlotEvent
  grants : List Grant

/-- `config`: authentication and broadcasts change what the callback compares. -/
inductive Event (τ : Type u) where
  | fnChange (fn : BitVec 32)
  | release
  | call (t : τ)
  | setFlag (t : τ)
  | take (t : τ) (place : ℕ)
  | timeout (t : τ)
  | leave (t : τ)
  | config (normal : Bool) (pof : BitVec 32) (tsFn authTsFn : BitVec 16)

/-- The slot that the callback compares with. -/
def State.expected (s : State τ) : BitVec 16 := if s.normal then s.tsFn else s.authTsFn

def State.setPhase (t : τ) (p : Phase) (s : State τ) : State τ :=
  { s with phase := Function.update s.phase t p }

@[simp] theorem setPhase_self (t : τ) (p : Phase) (s : State τ) : (s.setPhase t p).phase t = p := by
  simp [State.setPhase]

theorem setPhase_of_ne {t t' : τ} (h : t' ≠ t) (p : Phase) (s : State τ) :
    (s.setPhase t p).phase t' = s.phase t' := by
  simp [State.setPhase, h]

/-- The callback up to `rt_sem_release`. -/
def fnChange (fn : BitVec 32) (s : State τ) : State τ :=
  if h : fn % s.pof = s.expected.setWidth 32 then
    { s with
      events := s.events + 1
      callback := if s.isWaitingTs then some ⟨s.events, fn, s.pof, s.expected, h⟩ else none }
  else { s with events := s.events + 1 }

/-- A call is released: it leaves with result 0. -/
def State.grant (t : τ) (began : ℕ) (e : Option SlotEvent) (s : State τ) : State τ :=
  { s.setPhase t (.leaving 0) with grants := ⟨began, e⟩ :: s.grants }

/-- `rt_sem_release(gateway_mode.fn_refresh_sem)`. -/
def releaseFnSem (e : SlotEvent) (s : State τ) : State τ :=
  let s' := { s with callback := none, fnRefreshSem := (s.fnRefreshSem.release RT_SEM_VALUE_MAX).2 }
  match (s.fnRefreshSem.release RT_SEM_VALUE_MAX).1 with
  | some t =>
    match s.phase t with
    | .suspended began => s'.grant t began (some e)
    | _ => s'
  | none =>
    if s'.fnRefreshSem.value = s.fnRefreshSem.value then s' else { s' with tokens := s.tokens ++ [e] }

/-- `rt_sem_take(gateway_mode.fn_refresh_sem, wait_timeout)`, up to its end or the suspension. -/
def takeFnSem (t : τ) (place began : ℕ) (s : State τ) : State τ :=
  let s' := { s with fnRefreshSem := (s.fnRefreshSem.take t place).2 }
  if (s.fnRefreshSem.take t place).1 then
    { s'.grant t began s.tokens.head? with tokens := s.tokens.tail }
  else s'.setPhase t (.suspended began)

def step (s : State τ) : Event τ → Outcome Empty (State τ)
  | .fnChange fn => .next (if s.callback.isNone then fnChange fn s else s)
  | .release =>
    match s.callback with
    | some e => .next (releaseFnSem e s)
    | none => .next s
  | .call t =>
    match s.phase t with
    | .idle => .next (s.setPhase t (.entering s.events))
    | _ => .next s
  | .setFlag t =>
    match s.phase t with
    | .entering began => .next { s.setPhase t (.taking began) with isWaitingTs := true }
    | _ => .next s
  | .take t place =>
    match s.phase t with
    | .taking began => .next (takeFnSem t place began s)
    | _ => .next s
  | .timeout t =>
    match s.phase t with
    | .suspended _ =>
      .next { s.setPhase t (.leaving 1) with fnRefreshSem := s.fnRefreshSem.withdraw t }
    | _ => .next s
  | .leave t =>
    match s.phase t with
    | .leaving _ => .next { s.setPhase t .idle with isWaitingTs := false }
    | _ => .next s
  | .config normal pof tsFn authTsFn =>
    .next { s with normal := normal, pof := pof, tsFn := tsFn, authTsFn := authTsFn }

/-- The session after `rt_sem_create("fn_sem", 0, RT_IPC_FLAG_PRIO)`. -/
def State.boot : State τ where
  normal := false
  pof := 0
  tsFn := 0
  authTsFn := 0
  isWaitingTs := false
  fnRefreshSem := .empty
  phase _ := .idle
  callback := none
  events := 0
  tokens := []
  grants := []

/-- The call was released by a frame number of its slot, after it began. -/
def Grant.Fresh (g : Grant) : Prop := ∃ e, g.event = some e ∧ g.began ≤ e.id

/-- Every released call is released by a frame number behind its begin, and no frame number
releases two calls. -/
structure NeverStale (s : State τ) : Prop where
  fresh : ∀ g ∈ s.grants, g.Fresh
  single : ((s.grants.filterMap Grant.event).map SlotEvent.id).Nodup

/-- No call begins while the semaphore holds a token or the callback is about to release it. -/
def Careful (s : State τ) : Event τ → Prop
  | .call _ => s.fnRefreshSem.value = 0 ∧ s.callback = none
  | _ => True

/-- The begin of a call that is not released yet. -/
def Phase.began : Phase → Option ℕ
  | .entering b | .taking b | .suspended b => some b
  | .idle | .leaving _ => none

/-- The frame numbers that can still release a call. -/
def State.live (s : State τ) : List SlotEvent := s.callback.toList ++ s.tokens

/-- The frame numbers that can still release a call, or have done so. -/
def State.issued (s : State τ) : List SlotEvent := s.live ++ s.grants.filterMap Grant.event

/-- What holds in every careful run. -/
structure Inv (s : State τ) : Prop where
  tokens_length : s.tokens.length = s.fnRefreshSem.value
  waiting : ∀ t ∈ s.fnRefreshSem.waiting, ∃ b, s.phase t = .suspended b
  waiting_nodup : s.fnRefreshSem.waiting.Nodup
  issued_lt : ∀ e ∈ s.issued, e.id < s.events
  issued_nodup : (s.issued.map SlotEvent.id).Nodup
  began_le : ∀ t b, (s.phase t).began = some b → b ≤ s.events
  began_le_live : ∀ t b, (s.phase t).began = some b → ∀ e ∈ s.live, b ≤ e.id
  grants_fresh : ∀ g ∈ s.grants, g.Fresh

omit [DecidableEq τ] in
theorem boot_inv : Inv (State.boot : State τ) where
  tokens_length := rfl
  waiting t ht := by cases ht
  waiting_nodup := List.nodup_nil
  issued_lt e he := by cases he
  issued_nodup := List.nodup_nil
  began_le t b hb := by cases hb
  began_le_live t b hb := by cases hb
  grants_fresh g hg := by cases hg

omit [DecidableEq τ] in
theorem Inv.neverStale {s : State τ} (h : Inv s) : NeverStale s where
  fresh := h.grants_fresh
  single := by
    have hsub : (s.grants.filterMap Grant.event).Sublist s.issued := List.sublist_append_right _ _
    exact h.issued_nodup.sublist (hsub.map SlotEvent.id)

section Steps

variable {s : State τ} {t : τ}

/-- A thread that does not wait in the semaphore enters a phase. -/
theorem Inv.setPhase (h : Inv s) (p : Phase) (ht : t ∉ s.fnRefreshSem.waiting)
    (hp : ∀ b, p.began = some b → b ≤ s.events ∧ ∀ e ∈ s.live, b ≤ e.id) :
    Inv (s.setPhase t p) where
  tokens_length := h.tokens_length
  waiting t' ht' := by
    have hne : t' ≠ t := fun heq => ht (heq ▸ ht')
    rw [setPhase_of_ne hne]
    exact h.waiting t' ht'
  waiting_nodup := h.waiting_nodup
  issued_lt := h.issued_lt
  issued_nodup := h.issued_nodup
  began_le t' b hb := by
    by_cases heq : t' = t
    · subst heq
      rw [setPhase_self] at hb
      exact (hp b hb).1
    · rw [setPhase_of_ne heq] at hb
      exact h.began_le t' b hb
  began_le_live t' b hb := by
    by_cases heq : t' = t
    · subst heq
      rw [setPhase_self] at hb
      exact (hp b hb).2
    · rw [setPhase_of_ne heq] at hb
      exact h.began_le_live t' b hb
  grants_fresh := h.grants_fresh

omit [DecidableEq τ] in
/-- A thread whose phase is not that of a suspended call does not wait. -/
theorem Inv.not_waiting (h : Inv s) (hp : ∀ b, s.phase t ≠ .suspended b) :
    t ∉ s.fnRefreshSem.waiting := by
  intro ht
  obtain ⟨b, hb⟩ := h.waiting t ht
  exact hp b hb

omit [DecidableEq τ] in
theorem Inv.fnChange (h : Inv s) (hc : s.callback = none) (fn : BitVec 32) :
    Inv (fnChange fn s) := by
  have hmore : Inv { s with events := s.events + 1 } := {
    h with
    issued_lt := fun e he => Nat.lt_succ_of_lt (h.issued_lt e he)
    began_le := fun t b hb => (h.began_le t b hb).trans (Nat.le_succ _) }
  rw [TimeSlotRelease.fnChange]
  split
  · rename_i hmatch
    by_cases hflag : s.isWaitingTs
    · rw [if_pos hflag]
      have hissued : s.issued = s.tokens ++ s.grants.filterMap Grant.event := by
        rw [State.issued, State.live, hc]
        rfl
      have hlive : s.live = s.tokens := by
        rw [State.live, hc]
        rfl
      exact {
        hmore with
        issued_lt := fun e he => by
          rcases List.mem_cons.mp he with rfl | he
          · exact Nat.lt_succ_self _
          · exact Nat.lt_succ_of_lt (h.issued_lt e (hissued ▸ he))
        issued_nodup := by
          have hnodup := h.issued_nodup
          rw [hissued] at hnodup
          refine List.nodup_cons.mpr ⟨fun hmem => ?_, hnodup⟩
          obtain ⟨e, he, hid⟩ := List.mem_map.mp hmem
          exact absurd (h.issued_lt e (hissued ▸ he)) (by rw [hid]; exact lt_irrefl _)
        began_le_live := fun t b hb e he => by
          rcases List.mem_cons.mp he with rfl | he
          · exact h.began_le t b hb
          · exact h.began_le_live t b hb e (hlive ▸ he) }
    · rw [if_neg hflag, ← hc]
      exact hmore
  · exact hmore

omit [DecidableEq τ] in
/-- The semaphore changes, and the frame numbers that can release a call get fewer. -/
theorem Inv.withSem (h : Inv s) (sem : Semaphore τ) (callback : Option SlotEvent)
    (tokens : List SlotEvent) (hlive : (callback.toList ++ tokens).Subperm s.live)
    (hlen : tokens.length = sem.value) (hwait : ∀ t ∈ sem.waiting, ∃ b, s.phase t = .suspended b)
    (hnodup : sem.waiting.Nodup) :
    Inv { s with callback := callback, fnRefreshSem := sem, tokens := tokens } where
  tokens_length := hlen
  waiting := hwait
  waiting_nodup := hnodup
  issued_lt e he := by
    rcases List.mem_append.mp he with he | he
    · exact h.issued_lt e (List.mem_append_left _ (hlive.subset he))
    · exact h.issued_lt e (List.mem_append_right _ he)
  issued_nodup := by
    obtain ⟨l, hperm, hsub⟩ := hlive
    have hsub' : (l ++ s.grants.filterMap Grant.event).Sublist s.issued := hsub.append_right _
    have hperm' : (l ++ s.grants.filterMap Grant.event).Perm
        ((callback.toList ++ tokens) ++ s.grants.filterMap Grant.event) := hperm.append_right _
    exact (hperm'.map SlotEvent.id).nodup_iff.mp (h.issued_nodup.sublist (hsub'.map SlotEvent.id))
  began_le := h.began_le
  began_le_live t b hb e he := h.began_le_live t b hb e (hlive.subset he)
  grants_fresh := h.grants_fresh

/-- A thread that does not wait is released by a frame number that could do so. -/
theorem Inv.grant (h : Inv s) (ht : t ∉ s.fnRefreshSem.waiting) {began : ℕ} {e : SlotEvent}
    (hbegan : began ≤ e.id) (hlt : e.id < s.events) (hnew : e.id ∉ s.issued.map SlotEvent.id) :
    Inv (s.grant t began (some e)) := by
  have hp := h.setPhase (.leaving 0) ht fun b hb => by cases hb
  have hissued : (s.grant t began (some e)).issued.Perm (e :: s.issued) := List.perm_middle
  exact {
    hp with
    issued_lt := fun e' he' => by
      rcases List.mem_cons.mp (hissued.mem_iff.mp he') with rfl | he'
      · exact hlt
      · exact h.issued_lt e' he'
    issued_nodup := by
      rw [(hissued.map SlotEvent.id).nodup_iff]
      exact List.nodup_cons.mpr ⟨hnew, h.issued_nodup⟩
    grants_fresh := fun g hg => by
      rcases List.mem_cons.mp hg with rfl | hg
      · exact ⟨e, rfl, hbegan⟩
      · exact h.grants_fresh g hg }

omit [DecidableEq τ] in
/-- A frame number that leaves the live ones is none of the others. -/
theorem Inv.issued_split (h : Inv s) {e : SlotEvent} (sem : Semaphore τ)
    (callback : Option SlotEvent) (tokens : List SlotEvent)
    (hlive : s.live.Perm (e :: (callback.toList ++ tokens))) :
    e.id < s.events ∧ e.id ∉ (State.issued { s with
      callback := callback, fnRefreshSem := sem, tokens := tokens }).map SlotEvent.id := by
  have hissued : s.issued.Perm (e :: State.issued { s with
      callback := callback, fnRefreshSem := sem, tokens := tokens }) := hlive.append_right _
  have hnodup := (hissued.map SlotEvent.id).nodup_iff.mp h.issued_nodup
  exact ⟨h.issued_lt e (hissued.mem_iff.mpr List.mem_cons_self), (List.nodup_cons.mp hnodup).1⟩

theorem Inv.release (h : Inv s) {e : SlotEvent} (he : s.callback = some e) :
    Inv (releaseFnSem e s) := by
  have hlive : s.live = e :: s.tokens := by
    rw [State.live, he]
    rfl
  have hfewer : ((none : Option SlotEvent).toList ++ s.tokens).Subperm s.live := by
    rw [hlive]
    exact (List.sublist_cons_self e _).subperm
  rw [releaseFnSem]
  dsimp only
  split
  · rename_i t hrel
    obtain ⟨hwaiting, hzero, hzero'⟩ := Semaphore.release_some hrel
    have hnodup := h.waiting_nodup
    rw [hwaiting] at hnodup
    obtain ⟨hnot, hnodup'⟩ := List.nodup_cons.mp hnodup
    obtain ⟨b, hb⟩ := h.waiting t (by rw [hwaiting]; exact List.mem_cons_self)
    have hsem := h.withSem (s.fnRefreshSem.release RT_SEM_VALUE_MAX).2 none s.tokens hfewer
      (by rw [h.tokens_length, hzero, hzero'])
      (fun t' ht' => h.waiting t' (by rw [hwaiting]; exact List.mem_cons_of_mem t ht')) hnodup'
    obtain ⟨hlt, hnew⟩ := h.issued_split (s.fnRefreshSem.release RT_SEM_VALUE_MAX).2 none s.tokens
      (List.Perm.of_eq hlive)
    have hbegan := h.began_le_live t b (by rw [hb]; rfl) e (by rw [hlive]; exact List.mem_cons_self)
    rw [hb]
    exact hsem.grant hnot hbegan hlt hnew
  · rename_i hrel
    obtain ⟨-, hnil, hvalue⟩ := Semaphore.release_none hrel
    have hwait : ∀ t ∈ (s.fnRefreshSem.release RT_SEM_VALUE_MAX).2.waiting,
        ∃ b, s.phase t = .suspended b := by
      rw [hnil]
      intro t ht
      cases ht
    have hnodup : (s.fnRefreshSem.release RT_SEM_VALUE_MAX).2.waiting.Nodup := by
      rw [hnil]
      exact List.nodup_nil
    split
    · rename_i hsame
      exact h.withSem _ none _ hfewer (h.tokens_length.trans hsame.symm) hwait hnodup
    · rename_i hmore
      refine h.withSem _ none _ ?_ ?_ hwait hnodup
      · rw [hlive]
        exact (List.perm_append_singleton e s.tokens).subperm
      · rw [List.length_append, h.tokens_length]
        exact (hvalue.resolve_right hmore).symm

theorem Inv.take (h : Inv s) {began : ℕ} (hphase : s.phase t = .taking began) (place : ℕ) :
    Inv (takeFnSem t place began s) := by
  have hbegan : (s.phase t).began = some began := by
    rw [hphase]
    rfl
  have hnot : t ∉ s.fnRefreshSem.waiting := h.not_waiting fun b hb => by
    rw [hphase] at hb
    cases hb
  rw [takeFnSem]
  dsimp only
  split
  · rename_i hgranted
    obtain ⟨hvalue, hnil⟩ := Semaphore.take_granted hgranted
    obtain ⟨e, tokens, htokens⟩ := List.exists_cons_of_length_eq_add_one (h.tokens_length.trans hvalue)
    have hlive : s.live.Perm (e :: (s.callback.toList ++ tokens)) := by
      rw [State.live, htokens]
      exact List.perm_middle
    have hsem := h.withSem (s.fnRefreshSem.take t place).2 s.callback tokens
      (hlive.symm.subperm_left.mp (List.sublist_cons_self e _).subperm)
      (by
        have hlen := h.tokens_length
        rw [htokens, List.length_cons, hvalue] at hlen
        exact Nat.succ_injective hlen)
      (fun t' ht' => by
        rw [hnil] at ht'
        cases ht')
      (by
        rw [hnil]
        exact List.nodup_nil)
    obtain ⟨hlt, hnew⟩ := h.issued_split (s.fnRefreshSem.take t place).2 s.callback tokens hlive
    have hle := h.began_le_live t began hbegan e (hlive.mem_iff.mpr List.mem_cons_self)
    have hgrant := hsem.grant (t := t) (by
      rw [hnil]
      exact List.not_mem_nil) hle hlt hnew
    rw [htokens]
    exact hgrant
  · rename_i hrefused
    rw [Bool.not_eq_true] at hrefused
    obtain ⟨hzero, hzero', hperm⟩ := Semaphore.take_refused hrefused
    have hp := h.setPhase (.suspended began) hnot fun b hb => by
      cases hb
      exact ⟨h.began_le t began hbegan, h.began_le_live t began hbegan⟩
    refine hp.withSem _ s.callback s.tokens (List.Subperm.refl _) ?_ (fun t' ht' => ?_) ?_
    · rw [h.tokens_length, hzero, hzero']
    · rcases List.mem_cons.mp (hperm.mem_iff.mp ht') with rfl | hmem
      · exact ⟨began, setPhase_self _ _ _⟩
      · exact hp.waiting t' hmem
    · exact hperm.nodup_iff.mpr (List.nodup_cons.mpr ⟨hnot, h.waiting_nodup⟩)

theorem Inv.timeout (h : Inv s) : Inv { s.setPhase t (.leaving 1) with
    fnRefreshSem := s.fnRefreshSem.withdraw t } := by
  have hsub : (s.fnRefreshSem.withdraw t).waiting.Sublist s.fnRefreshSem.waiting :=
    List.erase_sublist
  have hnot : t ∉ (s.fnRefreshSem.withdraw t).waiting := h.waiting_nodup.not_mem_erase
  have hsem := h.withSem (s.fnRefreshSem.withdraw t) s.callback s.tokens (List.Subperm.refl _)
    h.tokens_length (fun t' ht' => h.waiting t' (hsub.subset ht')) (h.waiting_nodup.sublist hsub)
  exact hsem.setPhase (.leaving 1) hnot fun b hb => by cases hb

/-- A call that begins while nothing is left over. -/
theorem Inv.call (h : Inv s) (hphase : s.phase t = .idle) (hvalue : s.fnRefreshSem.value = 0)
    (hcallback : s.callback = none) : Inv (s.setPhase t (.entering s.events)) := by
  have hlive : s.live = [] := by
    rw [State.live, hcallback, List.eq_nil_of_length_eq_zero (h.tokens_length.trans hvalue)]
    rfl
  refine h.setPhase _ (h.not_waiting fun b hb => ?_) fun b hb => ?_
  · rw [hphase] at hb
    cases hb
  · cases hb
    refine ⟨le_refl _, fun e he => ?_⟩
    rw [hlive] at he
    cases he

theorem Inv.setFlag {began : ℕ} (h : Inv s) (hphase : s.phase t = .entering began) :
    Inv { s.setPhase t (.taking began) with isWaitingTs := true } := by
  have hbegan : (s.phase t).began = some began := by
    rw [hphase]
    rfl
  have hp := h.setPhase (.taking began)
    (h.not_waiting fun b hb => by
      rw [hphase] at hb
      cases hb)
    (fun b hb => by
      cases hb
      exact ⟨h.began_le t began hbegan, h.began_le_live t began hbegan⟩)
  exact { hp with }

theorem Inv.leave {res : ℕ} (h : Inv s) (hphase : s.phase t = .leaving res) :
    Inv { s.setPhase t .idle with isWaitingTs := false } := by
  have hp := h.setPhase .idle
    (h.not_waiting fun b hb => by
      rw [hphase] at hb
      cases hb)
    (fun b hb => by cases hb)
  exact { hp with }

end Steps

/-- The step lemma: a careful step keeps the invariant. -/
theorem step_inv (s : State τ) (e : Event τ) (s' : State τ) (h : Inv s) (hok : Careful s e)
    (hs : step s e = .next s') : Inv s' := by
  cases e with
  | fnChange fn =>
    simp only [step] at hs
    cases hs
    split
    · rename_i hnone
      exact h.fnChange (Option.isNone_iff_eq_none.mp hnone) fn
    · exact h
  | release =>
    simp only [step] at hs
    split at hs
    · rename_i e he
      cases hs
      exact h.release he
    · cases hs
      exact h
  | call t =>
    simp only [step] at hs
    split at hs
    · rename_i hphase
      cases hs
      exact h.call hphase hok.1 hok.2
    · cases hs
      exact h
  | setFlag t =>
    simp only [step] at hs
    split at hs
    · rename_i began hphase
      cases hs
      exact h.setFlag hphase
    · cases hs
      exact h
  | take t place =>
    simp only [step] at hs
    split at hs
    · rename_i began hphase
      cases hs
      exact h.take hphase place
    · cases hs
      exact h
  | timeout t =>
    simp only [step] at hs
    split at hs
    · cases hs
      exact h.timeout
    · cases hs
      exact h
  | leave t =>
    simp only [step] at hs
    split at hs
    · rename_i res hphase
      cases hs
      exact h.leave hphase
    · cases hs
      exact h
  | config normal pof tsFn authTsFn =>
    cases hs
    exact { h with }

/-- A call that waits for slot 2 of 8 until frame number 10 comes. -/
def waitingRun : List (Event Unit) :=
  [.config true 8 2 0, .call (), .setFlag (), .take () 0, .fnChange 10]

end WiotaDev.TimeSlotRelease
