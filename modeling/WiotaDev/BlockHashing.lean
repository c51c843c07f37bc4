import Mathlib.Data.List.Basic
import Mathlib.Tactic.Common

/-! # Hashing a message block by block

A state absorbs the whole blocks of a message, and the bytes behind the last whole block wait.
Feeding a message in pieces is feeding it at once. Nothing here depends on a particular hash. -/

namespace WiotaDev.BlockHashing
variable {σ α : Type} (compress : σ → List α → σ) (size : ℕ)

/-- The state behind the first `n` blocks. -/
def absorb : ℕ → σ → List α → σ
  | 0, s, _ => s
  | n + 1, s, l => absorb n (compress s (l.take size)) (l.drop size)

/-- The state behind all whole blocks. -/
def chain (s : σ) (l : List α) : σ := absorb compress size (l.length / size) s l

/-- What stands behind the last whole block. -/
def rest (l : List α) : List α := l.drop (l.length / size * size)

theorem rest_length (l : List α) : (rest size l).length = l.length % size := by
  rw [rest, List.length_drop, Nat.mod_eq_sub_div_mul]

theorem absorb_add (n m : ℕ) (s : σ) (l : List α) :
    absorb compress size (n + m) s l =
      absorb compress size m (absorb compress size n s l) (l.drop (n * size)) := by
  induction n generalizing s l with
  | zero => rw [Nat.zero_add, Nat.zero_mul, List.drop_zero, absorb]
  | succ n ih =>
    rw [Nat.succ_add, absorb, ih, absorb, List.drop_drop, Nat.succ_mul, Nat.add_comm size]

/-- Blocks that are there are not affected by what stands behind them. -/
theorem absorb_append {n : ℕ} (s : σ) {l : List α} (m : List α) (h : n * size ≤ l.length) :
    absorb compress size n s (l ++ m) = absorb compress size n s l := by
  induction n generalizing s l with
  | zero => rfl
  | succ n ih =>
    have hfirst : size ≤ l.length := Nat.le_trans (Nat.le_mul_of_pos_left size n.succ_pos) h
    rw [absorb, absorb, List.take_append_of_le_length hfirst, List.drop_append_of_le_length hfirst,
      ih]
    rw [List.length_drop]
    rw [Nat.succ_mul] at h
    omega

theorem chain_short {s : σ} {l : List α} (h : l.length < size) : chain compress size s l = s := by
  rw [chain, Nat.div_eq_of_lt h, absorb]

theorem rest_short {l : List α} (h : l.length < size) : rest size l = l := by
  rw [rest, Nat.div_eq_of_lt h, Nat.zero_mul, List.drop_zero]

variable {size}

private theorem rest_append_length (hsize : 0 < size) (l m : List α) :
    (l ++ m).length / size = l.length / size + (rest size l ++ m).length / size := by
  have hmod := Nat.div_add_mod l.length size
  have hsplit : l.length + m.length = l.length % size + m.length + size * (l.length / size) := by
    omega
  rw [List.length_append, List.length_append, rest_length, hsplit, Nat.add_mul_div_left _ _ hsize,
    Nat.add_comm]

private theorem drop_whole (l m : List α) :
    (l ++ m).drop (l.length / size * size) = rest size l ++ m :=
  List.drop_append_of_le_length (Nat.div_mul_le_self ..)

/-- A message may be cut anywhere, where what waits is put in front of what follows. -/
theorem chain_append (hsize : 0 < size) (s : σ) (l m : List α) :
    chain compress size s (l ++ m) =
      chain compress size (chain compress size s l) (rest size l ++ m) := by
  rw [chain, rest_append_length hsize, absorb_add, drop_whole, absorb_append _ _ _ _
    (Nat.div_mul_le_self ..)]
  rfl

theorem rest_append (hsize : 0 < size) (l m : List α) :
    rest size (l ++ m) = rest size (rest size l ++ m) := by
  rw [rest, rest_append_length hsize, Nat.add_mul, ← List.drop_drop, drop_whole]
  rfl

/-- One whole block, and what follows it. -/
theorem chain_block (hsize : 0 < size) (s : σ) {l : List α} (h : size ≤ l.length) :
    chain compress size s l = chain compress size (compress s (l.take size)) (l.drop size) := by
  have hdiv : l.length / size = (l.length - size) / size + 1 := by
    rw [← Nat.add_div_right _ hsize, Nat.sub_add_cancel h]
  rw [chain, hdiv, absorb, chain, List.length_drop]

theorem rest_block (hsize : 0 < size) {l : List α} (h : size ≤ l.length) :
    rest size l = rest size (l.drop size) := by
  have hdiv : l.length / size = (l.length - size) / size + 1 := by
    rw [← Nat.add_div_right _ hsize, Nat.sub_add_cancel h]
  rw [rest, hdiv, rest, List.length_drop, List.drop_drop, Nat.succ_mul, Nat.add_comm size]

/-- A state and the bytes that wait for their block. -/
structure Buffered (σ α : Type) where
  state : σ
  waiting : List α

/-- More of the message. -/
def Buffered.feed (size : ℕ) (b : Buffered σ α) (l : List α) : Buffered σ α :=
  ⟨chain compress size b.state (b.waiting ++ l), rest size (b.waiting ++ l)⟩

/-- Feeding two pieces is feeding the one made of both. -/
theorem Buffered.feed_feed (hsize : 0 < size) (b : Buffered σ α) (l m : List α) :
    (b.feed compress size l).feed compress size m = b.feed compress size (l ++ m) := by
  simp only [Buffered.feed, ← chain_append compress hsize, ← rest_append hsize, List.append_assoc]

theorem Buffered.feed_nil {b : Buffered σ α} (h : b.waiting.length < size) :
    b.feed compress size [] = b := by
  simp only [Buffered.feed, List.append_nil, chain_short compress size h, rest_short size h]

end WiotaDev.BlockHashing
