import Mathlib.Data.List.InsertIdx
import Mathlib.Data.List.Nodup

/-! # Counting semaphores with direct handoff

A release resumes the first thread of the waiting list and raises the value only when nobody
waits, up to a greatest value. A thread that finds the value at zero enters the list at a place
that its priority gives, and may give up. Nothing here depends on a particular program. -/

namespace WiotaDev.CountingSemaphore

universe u
variable {τ : Type u}

structure Semaphore (τ : Type u) where
  value : ℕ
  waiting : List τ
  settled : value = 0 ∨ waiting = []

namespace Semaphore

def empty : Semaphore τ := ⟨0, [], .inl rfl⟩

/-- A thread takes a token, or begins to wait behind `place` others. -/
def take (t : τ) (place : ℕ) (s : Semaphore τ) : Bool × Semaphore τ :=
  match s.value with
  | 0 => (false, ⟨0, s.waiting.insertIdx (min place s.waiting.length) t, .inl rfl⟩)
  | n + 1 => (true, ⟨n, [], .inr rfl⟩)

/-- The thread that a release resumes, if one waits. -/
def release (greatest : ℕ) (s : Semaphore τ) : Option τ × Semaphore τ :=
  match s.waiting with
  | [] => (none, ⟨if s.value < greatest then s.value + 1 else s.value, [], .inr rfl⟩)
  | t :: rest => (some t, ⟨0, rest, .inl rfl⟩)

/-- A thread gives up its wait. -/
def withdraw [DecidableEq τ] (t : τ) (s : Semaphore τ) : Semaphore τ :=
  ⟨s.value, s.waiting.erase t, s.settled.imp_right fun h => by rw [h]; rfl⟩

theorem value_of_waiting {s : Semaphore τ} {t : τ} {rest : List τ} (h : s.waiting = t :: rest) :
    s.value = 0 :=
  s.settled.resolve_right fun hnil => by
    rw [hnil] at h
    cases h

/-- A granted take uses up a token. -/
theorem take_granted {t : τ} {place : ℕ} {s : Semaphore τ} (h : (s.take t place).1 = true) :
    s.value = (s.take t place).2.value + 1 ∧ (s.take t place).2.waiting = [] := by
  revert h
  rw [take]
  split
  · intro h
    cases h
  · exact fun _ => ⟨‹_›, rfl⟩

/-- A refused take leaves the value at zero and makes the thread wait. -/
theorem take_refused {t : τ} {place : ℕ} {s : Semaphore τ} (h : (s.take t place).1 = false) :
    s.value = 0 ∧ (s.take t place).2.value = 0 ∧
      (s.take t place).2.waiting.Perm (t :: s.waiting) := by
  revert h
  rw [take]
  split
  · exact fun _ => ⟨‹_›, rfl, List.perm_insertIdx t s.waiting (Nat.min_le_right _ _)⟩
  · intro h
    cases h

/-- A release that resumes a thread takes it from the list and leaves the value at zero. -/
theorem release_some {greatest : ℕ} {s : Semaphore τ} {t : τ} (h : (s.release greatest).1 = some t) :
    s.waiting = t :: (s.release greatest).2.waiting ∧ s.value = 0 ∧
      (s.release greatest).2.value = 0 := by
  revert h
  rw [release]
  split
  · intro h
    cases h
  · rename_i t' rest hw
    intro h
    cases h
    exact ⟨hw, value_of_waiting hw, rfl⟩

/-- A release that resumes no thread finds none and adds at most one token. -/
theorem release_none {greatest : ℕ} {s : Semaphore τ} (h : (s.release greatest).1 = none) :
    s.waiting = [] ∧ (s.release greatest).2.waiting = [] ∧
      ((s.release greatest).2.value = s.value + 1 ∨ (s.release greatest).2.value = s.value) := by
  revert h
  rw [release]
  split
  · rename_i hw
    intro _
    refine ⟨hw, rfl, ?_⟩
    split
    · exact .inl rfl
    · exact .inr rfl
  · intro h
    cases h

/-- The first thread that waits is resumed. -/
theorem release_waiting {greatest : ℕ} {s : Semaphore τ} {t : τ} {rest : List τ}
    (h : s.waiting = t :: rest) :
    (s.release greatest).1 = some t ∧ (s.release greatest).2.waiting = rest := by
  rw [release]
  rw [h]
  exact ⟨rfl, rfl⟩

/-- Where nobody waits, nobody is resumed. -/
theorem release_unused {greatest : ℕ} {s : Semaphore τ} (h : s.waiting = []) :
    (s.release greatest).1 = none ∧ (s.release greatest).2.waiting = [] := by
  rw [release]
  rw [h]
  exact ⟨rfl, rfl⟩

/-- Nobody waits, and the value is below the greatest one. -/
theorem release_idle {greatest : ℕ} {s : Semaphore τ} (h : s.waiting = []) (hlt : s.value < greatest) :
    (s.release greatest).1 = none ∧ (s.release greatest).2.value = s.value + 1 ∧
      (s.release greatest).2.waiting = [] := by
  obtain ⟨hnone, hnil⟩ := release_unused h
  refine ⟨hnone, ?_, hnil⟩
  rw [release]
  rw [h]
  exact if_pos hlt

end Semaphore

end WiotaDev.CountingSemaphore
