import WiotaDev.ResourceLedger
import WiotaDev.ScanList

/-! # The scan command of the AT module

`at_scan_freq_setup` allocates a buffer for the frequency list, prompts for it, and stores what arrives
until a line ends or nothing more comes. -/

namespace WiotaDev.ScanCommand
open ResourceLedger ScanList WordBytes

inductive AtResult where
  | ok | null | parseFaile | repetitiveFaile | refused
  deriving DecidableEq

/-- What `get_char_timeout` brings. -/
inductive Event
  | char (c : Byte)
  | timeout

/-- The numbers of the command that are used. -/
structure Args where
  timeout : Word
  mode : Word
  freqNum : Word

inductive ScanResult where
  | succ | timeout | other
  deriving DecidableEq

/-- What the command meets: the state of the module, whether its buffers can be allocated and those of
the conversion, what the memory at the first buffer holds and how far it can be read, and the result of
the scan. -/
structure Env where
  autoConnect : Bool
  wiotaRun : Bool
  alloc : ℕ → Bool
  numbers : ℕ → Bool
  fresh : Word → Byte
  readable : ℕ
  scanResult : ScanResult

/-- What the command returns, unless it waits, the ledger of its buffers, and where it has stored in the
first one. -/
structure Run where
  result : Option AtResult
  ledger : Ledger
  stores : List Word

/-- The memory at `freqString` and the variables of the receiving loop; `tempFreq` is an offset. -/
structure Buffer where
  memory : Word → Byte
  tempFreq : Word
  strLen : Word
  stores : List Word

def Buffer.store (b : Buffer) (i : Word) (c : Byte) : Buffer :=
  { b with memory := Function.update b.memory i c, stores := b.stores ++ [i] }

/-- A character is stored where `tempFreq` points to, and counted. -/
def Buffer.receive (b : Buffer) (c : Byte) : Buffer :=
  { b.store b.tempFreq c with strLen := b.strLen + 1 }

def Buffer.advance (b : Buffer) : Buffer := { b with tempFreq := b.tempFreq + 1 }

def CR : Byte := 0x0D
def LF : Byte := 0x0A

/-- The test for the end of the line. -/
def Buffer.endsLine (b : Buffer) : Prop :=
  b.strLen > 1 ∧ b.memory b.tempFreq = LF ∧ b.memory (b.tempFreq - 1) = CR

instance (b : Buffer) : Decidable b.endsLine := inferInstanceAs (Decidable (_ ∧ _))

/-- The string that the pointer `freqString` names. -/
def Buffer.freqString (b : Buffer) (readable : ℕ) : List Byte :=
  (List.range readable).map fun i => b.memory (BitVec.ofNat 32 i)

/-- There is no memory of size 0. -/
def rtMalloc (available : Bool) (size : Word) (l : Ledger) : Option (ℕ × Ledger) :=
  if available = true ∧ size ≠ 0 then some (l.next, l.create) else none

/-- Behind the scan, which has allocated `result.data` if it has a result. -/
def showResult (env : Env) (l : Ledger) (stores : List Word) : Run :=
  match env.scanResult with
  | .succ => ⟨some .ok, l.create.free l.next, stores⟩
  | .timeout | .other => ⟨some .null, l, stores⟩

/-- Behind the conversion. -/
def scanConverted (env : Env) (args : Args) (l : Ledger) (freqScanReq : ℕ) (stores : List Word) : Run :=
  if args.mode = SCAN_MODE_NORMAL.setWidth 32 ∨ args.mode = SCAN_MODE_ONLY_FAST.setWidth 32 then
    match rtMalloc (env.alloc 2) args.freqNum l with
    | none => ⟨some .null, l.free freqScanReq, stores⟩
    | some (freqArry, l) => showResult env (((l.free freqScanReq).use freqArry).free freqArry) stores
  else showResult env ((l.use freqScanReq).free freqScanReq) stores

/-- Behind the receiving loop. -/
def convertReceived (env : Env) (args : Args) (l : Ledger) (freqString : ℕ) (b : Buffer) : Run :=
  match rtMalloc (env.alloc 1) (args.freqNum * 8) l with
  | none => ⟨some .null, l.free freqString, b.stores⟩
  | some (freqScanReq, l) =>
    let b := b.store (b.strLen - 2) 0
    match convertStringToFreqArray env.numbers args.freqNum.toNat (b.freqString env.readable)
      (fun _ => ⟨0, 0⟩) (args.mode.setWidth 8) with
    | none => ⟨none, l, b.stores⟩
    | some (false, _) => ⟨some .null, (l.free freqString).free freqScanReq, b.stores⟩
    | some (true, _) => scanConverted env args (l.free freqString) freqScanReq b.stores

/-- The receiving loop. -/
def receiveLoop (env : Env) (args : Args) (l : Ledger) (freqString : ℕ) : List Event → Buffer → Run
  | [], b => ⟨none, l, b.stores⟩
  | .timeout :: _, b => ⟨some .null, l.free freqString, b.stores⟩
  | .char c :: events, b =>
    let b := b.receive c
    if b.endsLine then convertReceived env args l freqString b
    else receiveLoop env args l freqString events b.advance

def bufferSize (args : Args) : Word := args.freqNum * 13 + 1

/-- `at_scan_freq_setup`, on the numbers that `parse` finds and on what arrives behind the prompt. -/
def atScanFreqSetup (env : Env) (parsed : Option Args) (events : List Event) : Run :=
  if env.autoConnect then ⟨some .refused, .empty, []⟩
  else if env.wiotaRun = false then ⟨some .repetitiveFaile, .empty, []⟩
  else
    match parsed with
    | none => ⟨some .parseFaile, .empty, []⟩
    | some args =>
      if args.mode < SCAN_MODE_NORMAL.setWidth 32 ∧ args.mode > SCAN_MODE_ONLY_FAST.setWidth 32 then
        ⟨some .parseFaile, .empty, []⟩
      else if args.freqNum > 0 then
        match rtMalloc (env.alloc 0) (bufferSize args) .empty with
        | none => ⟨some .null, .empty, []⟩
        | some (freqString, l) => receiveLoop env args l freqString events ⟨env.fresh, 0, 0, []⟩
      else showResult env .empty []

/-- The stores stay in the buffer, and on every exit each buffer has been released once. -/
structure Bounded (env : Env) (args : Args) (events : List Event) : Prop where
  stores : ∀ i ∈ (atScanFreqSetup env (some args) events).stores, i < bufferSize args
  released : (atScanFreqSetup env (some args) events).result ≠ none →
    (atScanFreqSetup env (some args) events).ledger.Owns []

/-- The command gets to its prompt. -/
structure Prompts (env : Env) (args : Args) : Prop where
  noAutoConnect : env.autoConnect = false
  wiotaRun : env.wiotaRun = true
  asks : args.freqNum > 0
  allocates : env.alloc 0 = true ∧ bufferSize args ≠ 0

/-- What arrives behind `prev`, up to the first `LF` directly behind a `CR` or the first silence. -/
def received (prev : Option Byte) : List Event → List Byte
  | [] => []
  | .timeout :: _ => []
  | .char c :: events => if prev = some CR ∧ c = LF then [c] else c :: received (some c) events

section Ledger
variable {env : Env} {args : Args} {l : Ledger}

theorem showResult_owns (stores : List Word) (h : l.Owns []) :
    (showResult env l stores).ledger.Owns [] := by
  rw [showResult]
  split
  · exact h.create.free
  · exact h
  · exact h

theorem rtMalloc_eq (available : Bool) (size : Word) (l : Ledger) :
    rtMalloc available size l = none ∨ rtMalloc available size l = some (l.next, l.create) := by
  rw [rtMalloc]
  split
  · exact Or.inr rfl
  · exact Or.inl rfl

theorem scanConverted_owns {freqScanReq : ℕ} (stores : List Word) (h : l.Owns [freqScanReq]) :
    (scanConverted env args l freqScanReq stores).ledger.Owns [] := by
  rw [scanConverted]
  split
  · rcases rtMalloc_eq (env.alloc 2) args.freqNum l with hnone | hsome
    · rw [hnone]
      exact h.free
    · rw [hsome]
      have hboth := h.create.perm (List.Perm.swap freqScanReq l.next [])
      have hlast : (l.create.free freqScanReq).Owns [l.next] := hboth.free
      refine showResult_owns stores ?_
      rw [Ledger.use_of_mem ((hlast.mem _).mpr List.mem_cons_self)]
      exact hlast.free
  · refine showResult_owns stores ?_
    rw [Ledger.use_of_mem ((h.mem _).mpr List.mem_cons_self)]
    exact h.free

theorem convertReceived_owns {freqString : ℕ} {b : Buffer} (h : l.Owns [freqString])
    (hexit : (convertReceived env args l freqString b).result ≠ none) :
    (convertReceived env args l freqString b).ledger.Owns [] := by
  rw [convertReceived] at hexit ⊢
  rcases rtMalloc_eq (env.alloc 1) (args.freqNum * 8) l with hnone | hsome
  · rw [hnone]
    exact h.free
  · rw [hsome] at hexit ⊢
    have hlast : (l.create.free freqString).Owns [l.next] :=
      (h.create.perm (List.Perm.swap freqString l.next [])).free
    simp only at hexit ⊢
    split at hexit
    · exact absurd rfl hexit
    · exact hlast.free
    · exact scanConverted_owns _ hlast

theorem receiveLoop_owns {freqString : ℕ} (events : List Event) (b : Buffer) (h : l.Owns [freqString])
    (hexit : (receiveLoop env args l freqString events b).result ≠ none) :
    (receiveLoop env args l freqString events b).ledger.Owns [] := by
  induction events generalizing b with
  | nil => exact absurd rfl hexit
  | cons e events ih =>
    cases e with
    | timeout => exact h.free
    | char c =>
      rw [receiveLoop] at hexit ⊢
      split_ifs at hexit ⊢
      · exact convertReceived_owns h hexit
      · exact ih _ hexit

/-- On every exit each buffer has been released once. -/
theorem atScanFreqSetup_owns (events : List Event)
    (hexit : (atScanFreqSetup env (some args) events).result ≠ none) :
    (atScanFreqSetup env (some args) events).ledger.Owns [] := by
  have hempty := Ledger.empty_owns
  rw [atScanFreqSetup] at hexit ⊢
  split_ifs at hexit ⊢ with hauto hrun hmode hnum
  · exact hempty
  · exact hempty
  · exact hempty
  · rcases rtMalloc_eq (env.alloc 0) (bufferSize args) .empty with hnone | hsome
    · rw [hnone]
      exact hempty
    · rw [hsome] at hexit ⊢
      exact receiveLoop_owns events _ hempty.create hexit
  · exact showResult_owns [] hempty

end Ledger

section Stores
variable {env : Env} {args : Args} {l : Ledger} {freqString : ℕ}

theorem showResult_stores (stores : List Word) : (showResult env l stores).stores = stores := by
  rw [showResult]
  split <;> rfl

theorem scanConverted_stores (freqScanReq : ℕ) (stores : List Word) :
    (scanConverted env args l freqScanReq stores).stores = stores := by
  rw [scanConverted]
  split
  · rcases rtMalloc_eq (env.alloc 2) args.freqNum l with hnone | hsome
    · rw [hnone]
    · rw [hsome]
      exact showResult_stores stores
  · exact showResult_stores stores

/-- Behind the line there is at most the store of the terminator. -/
theorem convertReceived_stores (b : Buffer) :
    (convertReceived env args l freqString b).stores = b.stores ∨
      (convertReceived env args l freqString b).stores = b.stores ++ [b.strLen - 2] := by
  rw [convertReceived]
  rcases rtMalloc_eq (env.alloc 1) (args.freqNum * 8) l with hnone | hsome
  · rw [hnone]
    exact Or.inl rfl
  · rw [hsome]
    refine Or.inr ?_
    simp only
    split
    · rfl
    · rfl
    · exact scanConverted_stores _ _

theorem subset_convertReceived_stores (b : Buffer) :
    b.stores ⊆ (convertReceived env args l freqString b).stores := by
  rcases convertReceived_stores b with h | h
  · rw [h]
    exact List.Subset.refl _
  · rw [h]
    exact List.subset_append_left _ _

/-- What has been stored remains so. -/
theorem subset_receiveLoop_stores (events : List Event) (b : Buffer) :
    b.stores ⊆ (receiveLoop env args l freqString events b).stores := by
  induction events generalizing b with
  | nil => exact List.Subset.refl _
  | cons e events ih =>
    cases e with
    | timeout => exact List.Subset.refl _
    | char c =>
      refine List.Subset.trans (List.subset_append_left b.stores [b.tempFreq]) ?_
      rw [receiveLoop]
      split_ifs
      · exact subset_convertReceived_stores (b.receive c)
      · exact ih (b.receive c).advance

/-- The buffer after `n` characters that have been stored in it. -/
structure Holds (size : Word) (b : Buffer) (n : ℕ) : Prop where
  tempFreq : b.tempFreq.toNat = n
  strLen : b.strLen.toNat = n
  stores : ∀ i ∈ b.stores, i < size

/-- The character before the one that is waited for. -/
def Buffer.prev (b : Buffer) : Option Byte :=
  if b.strLen = 0 then none else some (b.memory (b.tempFreq - 1))

theorem toNat_succ {w size : Word} {n : ℕ} (hw : w.toNat = n) (hn : n < size.toNat) :
    (w + 1).toNat = n + 1 := by
  have hlt := size.isLt
  rw [BitVec.toNat_add, hw]
  exact Nat.mod_eq_of_lt (by simp; omega)

theorem Holds.receive_inside {size : Word} {b : Buffer} {n : ℕ} (hb : Holds size b n)
    (hn : n < size.toNat) (c : Byte) : ∀ i ∈ (b.receive c).stores, i < size := by
  intro i hi
  rcases List.mem_append.mp hi with hi | hi
  · exact hb.stores i hi
  · rw [List.mem_singleton.mp hi, BitVec.lt_def, hb.tempFreq]
    exact hn

theorem Holds.receive {size : Word} {b : Buffer} {n : ℕ} (hb : Holds size b n)
    (hn : n < size.toNat) (c : Byte) : Holds size (b.receive c).advance (n + 1) :=
  ⟨toNat_succ hb.tempFreq hn, toNat_succ hb.strLen hn, hb.receive_inside hn c⟩

theorem Holds.prev_receive {size : Word} {b : Buffer} {n : ℕ} (hb : Holds size b n)
    (hn : n < size.toNat) (c : Byte) : (b.receive c).advance.prev = some c := by
  have hstrLen : (b.receive c).advance.strLen ≠ 0 := by
    intro hzero
    have hlen := (hb.receive hn c).strLen
    rw [hzero] at hlen
    exact absurd hlen (by simp)
  rw [Buffer.prev, if_neg hstrLen]
  show some (Function.update b.memory b.tempFreq c (b.tempFreq + 1 - 1)) = some c
  rw [BitVec.add_sub_cancel, Function.update_self]

/-- The line ends where `received` ends. -/
theorem Holds.endsLine_receive_iff {size : Word} {b : Buffer} {n : ℕ} (hb : Holds size b n)
    (hn : n < size.toNat) (c : Byte) : (b.receive c).endsLine ↔ b.prev = some CR ∧ c = LF := by
  have hcount : (b.receive c).strLen > 1 ↔ b.strLen ≠ 0 := by
    have hlen := toNat_succ hb.strLen hn
    rw [gt_iff_lt, BitVec.lt_def, ne_eq, ← BitVec.toNat_inj]
    show 1 < (b.strLen + 1).toNat ↔ ¬ b.strLen.toNat = 0
    rw [hlen, hb.strLen]
    omega
  have hchar : (b.receive c).memory (b.receive c).tempFreq = c := Function.update_self ..
  have hbefore : (b.receive c).memory ((b.receive c).tempFreq - 1) = b.memory (b.tempFreq - 1) := by
    refine Function.update_of_ne ?_ ..
    show b.tempFreq - 1 ≠ b.tempFreq
    intro heq
    bv_omega
  rw [Buffer.endsLine, hcount, hchar, hbefore, Buffer.prev]
  split_ifs with hzero
  · exact iff_of_false (fun h => h.1 hzero) (fun h => absurd h.1 (by simp))
  · rw [Option.some.injEq]
    exact ⟨fun h => ⟨h.2.2, h.2.1⟩, fun h => ⟨hzero, h.2, h.1⟩⟩

/-- The terminator is stored in the line. -/
theorem Holds.terminator_inside {size : Word} {b : Buffer} {n : ℕ} (hb : Holds size b n)
    (hn : n < size.toNat) {c : Byte} (hline : (b.receive c).endsLine) :
    (b.receive c).strLen - 2 < size := by
  have hlen : (b.receive c).strLen.toNat = n + 1 := toNat_succ hb.strLen hn
  have hcount := hline.1
  bv_omega

/-- The loop stays in the buffer exactly if what arrives has room in it. -/
theorem receiveLoop_inside_iff {size : Word} {b : Buffer} {n : ℕ} (hb : Holds size b n)
    (hn : n ≤ size.toNat) (events : List Event) :
    (∀ i ∈ (receiveLoop env args l freqString events b).stores, i < size) ↔
      n + (received b.prev events).length ≤ size.toNat := by
  induction events generalizing b n with
  | nil => exact iff_of_true hb.stores hn
  | cons e events ih =>
    cases e with
    | timeout => exact iff_of_true hb.stores hn
    | char c =>
      rcases Nat.lt_or_eq_of_le hn with hlt | heq
      · have hinside := hb.receive_inside hlt c
        rw [receiveLoop, received]
        simp only [hb.endsLine_receive_iff hlt]
        split_ifs with hline
        · refine iff_of_true (fun i hi => ?_) hlt
          rcases convertReceived_stores (b.receive c) with hstores | hstores
          · rw [hstores] at hi
            exact hinside i hi
          · rw [hstores] at hi
            rcases List.mem_append.mp hi with hi | hi
            · exact hinside i hi
            · rw [List.mem_singleton.mp hi]
              exact hb.terminator_inside hlt ((hb.endsLine_receive_iff hlt c).mpr hline)
        · rw [ih (hb.receive hlt c) hlt, hb.prev_receive hlt c, List.length_cons]
          omega
      · -- there is no room, and the character is stored all the same
        have hpos : 0 < (received b.prev (.char c :: events)).length := by
          rw [received]
          split_ifs
          · exact Nat.zero_lt_one
          · exact Nat.succ_pos _
        have hmem : b.tempFreq ∈ (b.receive c).stores :=
          List.mem_append_right _ (List.mem_singleton_self _)
        have hfinal : b.tempFreq ∈ (receiveLoop env args l freqString (.char c :: events) b).stores := by
          rw [receiveLoop]
          split_ifs
          · exact subset_convertReceived_stores _ hmem
          · exact subset_receiveLoop_stores events (b.receive c).advance hmem
        refine iff_of_false (fun h => ?_) (by omega)
        have hbad := h _ hfinal
        rw [BitVec.lt_def, hb.tempFreq] at hbad
        omega

end Stores

section Command
variable {env : Env} {args : Args}

theorem atScanFreqSetup_of_prompts (h : Prompts env args) (events : List Event) :
    atScanFreqSetup env (some args) events =
      receiveLoop env args Ledger.empty.create Ledger.empty.next events ⟨env.fresh, 0, 0, []⟩ := by
  obtain ⟨hauto, hrun, hnum, halloc⟩ := h
  have hmode : ¬ (args.mode < SCAN_MODE_NORMAL.setWidth 32 ∧
      args.mode > SCAN_MODE_ONLY_FAST.setWidth 32) := fun hmode => BitVec.not_lt_zero hmode.1
  rw [atScanFreqSetup, hauto, if_neg (by decide), hrun, if_neg (by decide)]
  simp only [if_neg hmode, if_pos hnum]
  rw [rtMalloc, if_pos halloc]

theorem stores_of_not_prompts (h : ¬ Prompts env args) (events : List Event) :
    (atScanFreqSetup env (some args) events).stores = [] := by
  rw [atScanFreqSetup]
  split_ifs with hauto hrun hmode hnum
  · rfl
  · rfl
  · rfl
  · rw [rtMalloc, if_neg]
    intro halloc
    exact h ⟨eq_false_of_ne_true hauto, by simpa using hrun, hnum, halloc⟩
  · exact showResult_stores []

/-- The command keeps to its buffers exactly if what arrives, up to the end of the line or the first
silence, is no longer than the first one. -/
theorem bounded_iff_received_le (env : Env) (args : Args) (events : List Event) :
    Bounded env args events ↔
      (Prompts env args → (received none events).length ≤ (bufferSize args).toNat) := by
  have hstores : (∀ i ∈ (atScanFreqSetup env (some args) events).stores, i < bufferSize args) ↔
      (Prompts env args → (received none events).length ≤ (bufferSize args).toNat) := by
    by_cases hprompts : Prompts env args
    · have hstart : Holds (bufferSize args) ⟨env.fresh, 0, 0, []⟩ 0 :=
        ⟨rfl, rfl, fun i hi => absurd hi List.not_mem_nil⟩
      have hprev : Buffer.prev ⟨env.fresh, 0, 0, []⟩ = none := rfl
      rw [atScanFreqSetup_of_prompts hprompts, receiveLoop_inside_iff hstart (Nat.zero_le _), hprev,
        Nat.zero_add]
      exact ⟨fun h _ => h, fun h => h hprompts⟩
    · rw [stores_of_not_prompts hprompts]
      exact iff_of_true (fun i hi => absurd hi List.not_mem_nil) (fun h => absurd h hprompts)
  rw [← hstores]
  exact ⟨fun h => h.stores, fun h => ⟨h, fun hexit => atScanFreqSetup_owns events hexit⟩⟩

/-- The module runs, and has memory. -/
def running : Env := ⟨false, true, fun _ => true, fun _ => true, fun _ => 0, 0, .other⟩

/-- For one frequency the buffer has 14 bytes. -/
theorem not_bounded_fifteen_characters : ¬ ∀ (env : Env) (args : Args) (events : List Event),
    args.freqNum > 0 → Bounded env args events := by
  intro h
  have hinside := (h running ⟨0, 0, 1⟩ (List.replicate 15 (.char 0x31)) (by decide)).stores
  exact absurd (hinside 14 (by decide)) (by decide)

end Command

end WiotaDev.ScanCommand
