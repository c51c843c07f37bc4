import Mathlib.Data.Finset.Basic

/-! # A ledger of created and freed resources

Every resource gets a fresh handle when it is created. A handle is live until it is freed;
what is used or freed while it is not live is noted down. -/

namespace WiotaDev.ResourceLedger

structure Ledger where
  next : ℕ
  live : Finset ℕ
  misused : List ℕ
  live_lt : ∀ h ∈ live, h < next

namespace Ledger

def empty : Ledger := ⟨0, ∅, [], by simp⟩

variable (l : Ledger) (h : ℕ) (p : Option ℕ)

/-- A new resource under the handle `l.next`. -/
def create : Ledger where
  next := l.next + 1
  live := insert l.next l.live
  misused := l.misused
  live_lt := by
    intro h hh
    rcases Finset.mem_insert.mp hh with rfl | hh
    · exact Nat.lt_succ_self _
    · exact Nat.lt_succ_of_lt (l.live_lt h hh)

def misuse : Ledger := { l with misused := h :: l.misused }

def use : Ledger := if h ∈ l.live then l else l.misuse h

def free : Ledger :=
  if h ∈ l.live then
    { l with
      live := l.live.erase h
      live_lt := fun g hg => l.live_lt g (Finset.mem_of_mem_erase hg) }
  else l.misuse h

/-- The use of what a pointer refers to; nothing happens to a null pointer. -/
def usePtr : Ledger := p.elim l l.use

def freePtr : Ledger := p.elim l l.free

/-- What a pointer refers to is live. -/
def Holds : Prop := ∀ h ∈ p, h ∈ l.live

instance : Decidable (l.Holds p) :=
  match p with
  | none => .isTrue (by simp [Holds])
  | some h => decidable_of_iff (h ∈ l.live) (by simp [Holds])

variable {l h p}

@[simp] theorem holds_none : l.Holds none := by simp [Holds]
@[simp] theorem holds_some : l.Holds (some h) ↔ h ∈ l.live := by simp [Holds]

theorem use_of_mem (hh : h ∈ l.live) : l.use h = l := if_pos hh

@[simp] theorem free_next : (l.free h).next = l.next := by
  rw [free]
  split <;> rfl

theorem usePtr_of_holds (hp : l.Holds p) : l.usePtr p = l := by
  cases p with
  | none => rfl
  | some h => exact use_of_mem (hp h rfl)

theorem next_notMem : l.next ∉ l.live := fun hmem => Nat.lt_irrefl _ (l.live_lt _ hmem)

theorem Holds.create (hp : l.Holds p) : l.create.Holds p :=
  fun h hh => Finset.mem_insert_of_mem (hp h hh)

/-- Freeing what is live is no misuse. -/
theorem freePtr_misused (hp : l.Holds p) : (l.freePtr p).misused = l.misused := by
  cases p with
  | none => rfl
  | some h =>
    show (l.free h).misused = _
    rw [free, if_pos (hp h rfl)]

theorem mem_freePtr_live {g : ℕ} (hp : l.Holds p) :
    g ∈ (l.freePtr p).live ↔ g ∈ l.live ∧ p ≠ some g := by
  cases p with
  | none => simp [freePtr]
  | some h =>
    show g ∈ (l.free h).live ↔ _
    rw [free, if_pos (hp h rfl)]
    simp only [Finset.mem_erase, Option.some.injEq, ne_eq]
    exact ⟨fun ⟨hne, hg⟩ => ⟨hg, fun heq => hne heq.symm⟩, fun ⟨hg, hne⟩ =>
      ⟨fun heq => hne heq.symm, hg⟩⟩

/-- A pointer to something else still holds after a free. -/
theorem Holds.freePtr {q : Option ℕ} (hq : l.Holds q) (hp : l.Holds p)
    (hne : ∀ h ∈ p, q ≠ some h) : (l.freePtr p).Holds q := by
  intro h hh
  refine (mem_freePtr_live hp).mpr ⟨hq h hh, fun heq => ?_⟩
  exact hne h heq hh

/-- Frees one resource after the other. -/
def freeAll (hs : List ℕ) (l : Ledger) : Ledger := hs.foldl free l

/-- The listed resources are what is live, each listed once, and nothing has been misused. -/
structure Owns (l : Ledger) (hs : List ℕ) : Prop where
  clean : l.misused = []
  nodup : hs.Nodup
  mem : ∀ h, h ∈ l.live ↔ h ∈ hs

section Owns

variable {l : Ledger} {g : ℕ} {hs hs' : List ℕ}

theorem empty_owns : empty.Owns [] := ⟨rfl, List.nodup_nil, by simp [empty]⟩

theorem Owns.perm (ho : l.Owns hs) (hp : hs.Perm hs') : l.Owns hs' :=
  ⟨ho.clean, hp.nodup_iff.mp ho.nodup, fun h => (ho.mem h).trans hp.mem_iff⟩

theorem Owns.create (ho : l.Owns hs) : l.create.Owns (l.next :: hs) := by
  refine ⟨ho.clean, List.nodup_cons.mpr ⟨fun hmem => next_notMem ((ho.mem _).mpr hmem), ho.nodup⟩, ?_⟩
  intro h
  rw [List.mem_cons, ← ho.mem h]
  exact Finset.mem_insert

theorem Owns.free (ho : l.Owns (g :: hs)) : (l.free g).Owns hs := by
  have hlive : g ∈ l.live := (ho.mem g).mpr List.mem_cons_self
  obtain ⟨hnot, hnodup⟩ := List.nodup_cons.mp ho.nodup
  rw [Ledger.free, if_pos hlive]
  refine ⟨ho.clean, hnodup, fun h => ?_⟩
  rw [Finset.mem_erase, ho.mem h, List.mem_cons]
  constructor
  · rintro ⟨hne, rfl | hmem⟩
    · exact absurd rfl hne
    · exact hmem
  · intro hmem
    exact ⟨fun heq => hnot (heq ▸ hmem), .inr hmem⟩

theorem Owns.freeAll (ho : l.Owns (hs ++ hs')) : (l.freeAll hs).Owns hs' := by
  induction hs generalizing l with
  | nil => exact ho
  | cons h hs ih => exact ih ho.free

/-- Where nothing is listed everything has been freed. -/
theorem Owns.settled (ho : l.Owns []) : l.live = ∅ :=
  Finset.eq_empty_of_forall_notMem fun h hmem => by
    cases (ho.mem h).mp hmem

end Owns

end Ledger

end WiotaDev.ResourceLedger
