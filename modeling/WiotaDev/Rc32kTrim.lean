import WiotaDev.BitSearch
import WiotaDev.RegisterFields
import Mathlib.Tactic.IntervalCases

/-! # Trimming the 32K oscillator: bias and frequency codes -/

namespace WiotaDev.Rc32kTrim
open BitSearch RegisterFields

def RC32K_REFERENCE_VALUE : BitVec 32 := 131000000
def RC32K_DEVIATION_VALUE : BitVec 32 := 655000
def RC32K_UPPER_LIMIT_VALUE : BitVec 32 := RC32K_REFERENCE_VALUE + RC32K_DEVIATION_VALUE
def RC32K_LOWER_LIMIT_VALUE : BitVec 32 := RC32K_REFERENCE_VALUE - RC32K_DEVIATION_VALUE

def BIT (x : ℕ) : BitVec 32 := 1#32 <<< x

abbrev Code := BitVec 32

/-- A bias code and a frequency code. -/
abbrev Pair := Code × Code

/-- The trim register, and the pairs that were measured in their order. -/
structure Rc32k where
  reg : BitVec 32
  measured : List Pair

def rc32kSetClockFreq (freqCode : Code) (d : Rc32k) : Rc32k :=
  { d with reg := setField (d.reg ||| BIT 14) 22 15 freqCode }

def rc32kSetBiasCurrent (currentCode : Code) (d : Rc32k) : Rc32k :=
  { d with reg := setField (d.reg ||| BIT 14) 12 10 currentCode }

/-- The hardware clears bit 0 when it is done. -/
def rc32kCalibrate (d : Rc32k) : Rc32k :=
  { d with reg := (d.reg ||| (BIT 0 ||| BIT 1)) &&& ~~~BIT 0 }

def rc32kGetTrim (d : Rc32k) : Pair := (field d.reg 12 10, field d.reg 22 15)

section Search
variable (response : Pair → BitVec 32)

/-- The same codes always measure the same. -/
def rc32kMeasure (d : Rc32k) : BitVec 32 × Rc32k :=
  (response (rc32kGetTrim d), { d with measured := d.measured ++ [rc32kGetTrim d] })

def rc32kAbsDiff (value : BitVec 32) : BitVec 32 :=
  if value ≤ RC32K_REFERENCE_VALUE then RC32K_REFERENCE_VALUE - value
  else value - RC32K_REFERENCE_VALUE

structure Best (β : Type) where
  diff : BitVec 32
  code : β
  count : BitVec 32

def Best.distance {β : Type} (b : Best β) : ℕ := b.diff.toNat

structure Search (β : Type) where
  best : Best β
  count : BitVec 32
  device : Rc32k

variable {β : Type}

/-- Trying one code: `probe` programs and measures it, `note` is what is kept of a better one. -/
def attempt (probe : Code → Rc32k → BitVec 32 × Rc32k) (note : Code → Rc32k → β) (cur : Code)
    (s : Search β) : Search β :=
  let result := probe cur s.device
  let diff := rc32kAbsDiff result.1
  { best := if diff < s.best.diff then ⟨diff, note cur result.2, result.1⟩ else s.best
    count := result.1
    device := result.2 }

/-- The `for` loop that all the searches share, with `n` tries to go: the code it ends on. -/
def trimLoop (probe : Code → Rc32k → BitVec 32 × Rc32k) (note : Code → Rc32k → β) :
    ℕ → Code → Code → Search β → Code × Search β
  | 0, cur, _, s => (cur, s)
  | n + 1, cur, delta, s =>
    let s := attempt probe note cur s
    if s.count ≥ RC32K_UPPER_LIMIT_VALUE then
      let cur := cur &&& ~~~delta
      let s := if n = 0 then attempt probe note cur s else s
      trimLoop probe note n (cur ||| delta >>> 1) (delta >>> 1) s
    else if s.count ≤ RC32K_LOWER_LIMIT_VALUE then
      trimLoop probe note n (cur ||| delta >>> 1) (delta >>> 1) s
    else
      (cur, s)

/-- A search over the codes of one field. -/
def autosetField (set : Code → Rc32k → Rc32k) (bits : ℕ) (d : Rc32k) : BitVec 32 × Rc32k :=
  let delta := BIT (bits - 1)
  let (cur, s) := trimLoop (fun cur d => rc32kMeasure response (rc32kCalibrate (set cur d)))
    (fun cur _ => cur) bits delta delta ⟨⟨0xffffffff, delta, 0⟩, 0, d⟩
  if cur ≠ s.best.code then
    (s.best.count, rc32kCalibrate (set s.best.code s.device))
  else
    (s.count, s.device)

def rc32kAutosetBias : Rc32k → BitVec 32 × Rc32k := autosetField response rc32kSetBiasCurrent 3

def rc32kAutosetFreq : Rc32k → BitVec 32 × Rc32k := autosetField response rc32kSetClockFreq 8

inductive Rc32kMode | freqFirst | biasFirst

/-- The search over one field with a search over the other one for each of its codes. The best
pair is `start` until a code was tried, and `part` is its code in the outer field. -/
def autosetNested (inner : Rc32k → BitVec 32 × Rc32k) (set : Code → Rc32k → Rc32k) (bits : ℕ)
    (part : Pair → Code) (start : Pair) (d : Rc32k) : Rc32k :=
  let delta := BIT (bits - 1)
  let (cur, s) := trimLoop (fun cur d => inner (rc32kCalibrate (set cur d)))
    (fun _ d => rc32kGetTrim d) bits delta delta ⟨⟨0xffffffff, start, 0⟩, 0, d⟩
  if cur ≠ part s.best.code then
    rc32kCalibrate (rc32kSetClockFreq s.best.code.2 (rc32kSetBiasCurrent s.best.code.1 s.device))
  else
    s.device

/-- The best pair is not initialized when the frequency comes first. -/
def rc32kAutoset (uninitialized : Pair) (mode : Rc32kMode) (d : Rc32k) : Rc32k :=
  match mode with
  | .freqFirst =>
    autosetNested (rc32kAutosetBias response) rc32kSetClockFreq 8 Prod.snd uninitialized d
  | .biasFirst =>
    autosetNested (rc32kAutosetFreq response) rc32kSetBiasCurrent 3 Prod.fst (rc32kGetTrim d) d

end Search

theorem rc32kGetTrim_calibrate (d : Rc32k) : rc32kGetTrim (rc32kCalibrate d) = rc32kGetTrim d := by
  have hset : ∀ i, 2 ≤ i → i ≤ 31 → (BIT 0 ||| BIT 1).getLsbD i = false := by
    intro i hlow hhigh
    interval_cases i <;> rfl
  have hkept : ∀ i, 1 ≤ i → i ≤ 31 → (~~~BIT 0).getLsbD i = true := by
    intro i hlow hhigh
    interval_cases i <;> rfl
  simp only [rc32kGetTrim, rc32kCalibrate]
  rw [field_and_of_covering _ _ fun i hlow hhigh => hkept i (by omega) (by omega),
    field_and_of_covering _ _ fun i hlow hhigh => hkept i (by omega) (by omega),
    field_or_of_disjoint _ _ fun i hlow hhigh => hset i (by omega) (by omega),
    field_or_of_disjoint _ _ fun i hlow hhigh => hset i (by omega) (by omega)]

private theorem mode_bit {i : ℕ} (hi : i ≠ 14) (hlt : i < 32) : (BIT 14).getLsbD i = false := by
  interval_cases i <;> first | rfl | exact absurd rfl hi

theorem rc32kGetTrim_setClockFreq {freqCode : Code} (h : freqCode.toNat < 2 ^ 8) (d : Rc32k) :
    rc32kGetTrim (rc32kSetClockFreq freqCode d) = ((rc32kGetTrim d).1, freqCode) := by
  simp only [rc32kGetTrim, rc32kSetClockFreq]
  rw [field_setField _ (by omega) (by omega) h, field_setField_of_disjoint _ (by omega),
    field_or_of_disjoint _ _ fun i hlow hhigh => mode_bit (by omega) (by omega)]

theorem rc32kGetTrim_setBiasCurrent {currentCode : Code} (h : currentCode.toNat < 2 ^ 3)
    (d : Rc32k) :
    rc32kGetTrim (rc32kSetBiasCurrent currentCode d) = (currentCode, (rc32kGetTrim d).2) := by
  simp only [rc32kGetTrim, rc32kSetBiasCurrent]
  rw [field_setField _ (by omega) (by omega) h, field_setField_of_disjoint _ (by omega),
    field_or_of_disjoint _ _ fun i hlow hhigh => mode_bit (by omega) (by omega)]

/-- How the loops judge a count. -/
def judge (count : BitVec 32) : Verdict :=
  if count ≥ RC32K_UPPER_LIMIT_VALUE then .high
  else if count ≤ RC32K_LOWER_LIMIT_VALUE then .low
  else .inside

/-- Nothing is as far from the reference as the best difference starts out. -/
theorem rc32kAbsDiff_lt (value : BitVec 32) : (rc32kAbsDiff value).toNat < 0xffffffff := by
  have href : RC32K_REFERENCE_VALUE.toNat = 131000000 := rfl
  have hlt := value.isLt
  rw [rc32kAbsDiff]
  by_cases h : value ≤ RC32K_REFERENCE_VALUE
  · have hle : value.toNat ≤ 131000000 := h
    rw [if_pos h, BitVec.toNat_sub_of_le h, href]
    omega
  · have hle : ¬value.toNat ≤ 131000000 := h
    rw [if_neg h, BitVec.toNat_sub_of_le (show RC32K_REFERENCE_VALUE.toNat ≤ value.toNat by omega),
      href]
    omega

theorem BIT_eq (n : ℕ) : BIT n = BitVec.ofNat 32 (2 ^ n) := by
  apply BitVec.eq_of_toNat_eq
  simp [BIT, Nat.shiftLeft_eq]

section Loop
variable {β : Type} (response : Pair → BitVec 32) (pairOf : ℕ → Pair) (logOf : ℕ → List Pair)
  (noteOf : ℕ → β)

/-- The distance of the pair that a code stands for. -/
def cost (c : ℕ) : ℕ := (rc32kAbsDiff (response (pairOf c))).toNat

def recordOf (c : ℕ) : Best β :=
  ⟨rc32kAbsDiff (response (pairOf c)), noteOf c, response (pairOf c)⟩

/-- Probing code `c` ends with the pair `pairOf c` programmed and its count as the result, and the
pairs measured on the way are `logOf c`, whatever was programmed before among the pairs with `ok`. -/
structure Probes (probe : Code → Rc32k → BitVec 32 × Rc32k) (note : Code → Rc32k → β)
    (ok : Pair → Prop) (bits : ℕ) : Prop where
  count : ∀ c < 2 ^ bits, ∀ d, ok (rc32kGetTrim d) →
    (probe (BitVec.ofNat 32 c) d).1 = response (pairOf c)
  trim : ∀ c < 2 ^ bits, ∀ d, ok (rc32kGetTrim d) →
    rc32kGetTrim (probe (BitVec.ofNat 32 c) d).2 = pairOf c
  measured : ∀ c < 2 ^ bits, ∀ d, ok (rc32kGetTrim d) →
    (probe (BitVec.ofNat 32 c) d).2.measured = d.measured ++ logOf c
  note : ∀ c d, rc32kGetTrim d = pairOf c → note (BitVec.ofNat 32 c) d = noteOf c
  ok : ∀ c < 2 ^ bits, ok (pairOf c)

/-- The state `s'` after the codes `cs` were tried from `s`, the last of them `last`. -/
structure Tried (cs : List ℕ) (last : ℕ) (s s' : Search β) : Prop where
  ends : cs.getLast? = some last
  count : s'.count = response (pairOf last)
  trim : rc32kGetTrim s'.device = pairOf last
  measured : s'.device.measured = s.device.measured ++ cs.flatMap logOf
  best : s'.best = cs.foldl
    (keep (cost response pairOf) (recordOf response pairOf noteOf) Best.distance) s.best

variable {response pairOf logOf noteOf} {probe : Code → Rc32k → BitVec 32 × Rc32k}
  {note : Code → Rc32k → β} {ok : Pair → Prop} {bits : ℕ}

theorem attempt_tried (h : Probes response pairOf logOf noteOf probe note ok bits) {c : ℕ}
    (hc : c < 2 ^ bits) {s : Search β} (hs : ok (rc32kGetTrim s.device)) :
    Tried response pairOf logOf noteOf [c] c s (attempt probe note (BitVec.ofNat 32 c) s) := by
  have hcount := h.count c hc s.device hs
  have htrim := h.trim c hc s.device hs
  have hmeasured := h.measured c hc s.device hs
  refine ⟨rfl, hcount, htrim, ?_, ?_⟩
  · rw [List.flatMap_cons, List.flatMap_nil, List.append_nil]
    exact hmeasured
  · simp only [attempt, hcount, h.note c _ htrim]
    rfl

theorem Tried.append {cs ds : List ℕ} {c last : ℕ} {s s' s'' : Search β}
    (h : Tried response pairOf logOf noteOf cs c s s')
    (h' : Tried response pairOf logOf noteOf ds last s' s'') :
    Tried response pairOf logOf noteOf (cs ++ ds) last s s'' where
  ends := by rw [List.getLast?_append, h'.ends]; rfl
  count := h'.count
  trim := h'.trim
  measured := by rw [h'.measured, h.measured, List.flatMap_append, List.append_assoc]
  best := by rw [h'.best, h.best, List.foldl_append]

theorem trimLoop_high {n : ℕ} {cur delta : Code} {s : Search β}
    (h : judge (attempt probe note cur s).count = .high) :
    trimLoop probe note (n + 1) cur delta s =
      trimLoop probe note n ((cur &&& ~~~delta) ||| delta >>> 1) (delta >>> 1)
        (if n = 0 then attempt probe note (cur &&& ~~~delta) (attempt probe note cur s)
          else attempt probe note cur s) := by
  rw [judge] at h
  split_ifs at h with hupper
  simp only [trimLoop, if_pos hupper]

theorem trimLoop_low {n : ℕ} {cur delta : Code} {s : Search β}
    (h : judge (attempt probe note cur s).count = .low) :
    trimLoop probe note (n + 1) cur delta s =
      trimLoop probe note n (cur ||| delta >>> 1) (delta >>> 1) (attempt probe note cur s) := by
  rw [judge] at h
  split_ifs at h with hupper hlower
  simp only [trimLoop, if_neg hupper, if_pos hlower]

theorem trimLoop_inside {n : ℕ} {cur delta : Code} {s : Search β}
    (h : judge (attempt probe note cur s).count = .inside) :
    trimLoop probe note (n + 1) cur delta s = (cur, attempt probe note cur s) := by
  rw [judge] at h
  split_ifs at h with hupper hlower
  simp only [trimLoop, if_neg hupper, if_neg hlower]

/-- The loop tries the codes of the bit by bit search. -/
theorem trimLoop_tried (h : Probes response pairOf logOf noteOf probe note ok bits)
    (hbits : bits ≤ 31) {n p : ℕ} (hp : p % 2 ^ (n + 1) = 0) (hfits : p + 2 ^ (n + 1) ≤ 2 ^ bits)
    {s : Search β} (hs : ok (rc32kGetTrim s.device)) :
    ∃ last, (trimLoop probe note (n + 1) (BitVec.ofNat 32 (p + 2 ^ n)) (BitVec.ofNat 32 (2 ^ n)) s).1 =
        BitVec.ofNat 32 last ∧
      Tried response pairOf logOf noteOf
        (tried (fun c => judge (response (pairOf c))) (n + 1) p) last s
        (trimLoop probe note (n + 1) (BitVec.ofNat 32 (p + 2 ^ n)) (BitVec.ofNat 32 (2 ^ n)) s).2 := by
  induction n generalizing p s with
  | zero =>
    have hc : p + 2 ^ 0 < 2 ^ bits := by omega
    have hfirst := attempt_tried h hc hs
    have hshift : BitVec.ofNat 32 (2 ^ 0) >>> 1 = 0#32 := by decide
    cases hjudge : judge (response (pairOf (p + 2 ^ 0))) with
    | high =>
      have hsecond := attempt_tried h (show p < 2 ^ bits by omega) (hfirst.trim ▸ h.ok _ hc)
      rw [trimLoop_high (hfirst.count ▸ hjudge), ofNat_and_not_two_pow hp, if_pos rfl, hshift,
        BitVec.or_zero, tried_high hjudge, if_pos rfl]
      exact ⟨p, rfl, hfirst.append hsecond⟩
    | low =>
      rw [trimLoop_low (hfirst.count ▸ hjudge), hshift, BitVec.or_zero, tried_low hjudge]
      exact ⟨p + 2 ^ 0, rfl, hfirst⟩
    | inside =>
      rw [trimLoop_inside (hfirst.count ▸ hjudge), tried_inside hjudge]
      exact ⟨p + 2 ^ 0, rfl, hfirst⟩
  | succ n ih =>
    have hpow : 2 ^ (n + 1 + 1) = 2 ^ (n + 1) + 2 ^ (n + 1) := by rw [Nat.pow_succ]; omega
    have hpos : 0 < 2 ^ (n + 1) := Nat.two_pow_pos (n + 1)
    have hc : p + 2 ^ (n + 1) < 2 ^ bits := by omega
    have hn : n + 1 < 32 := by
      have hlt : 2 ^ (n + 1) < 2 ^ bits := by omega
      have hexp := (Nat.pow_lt_pow_iff_right (by omega)).mp hlt
      omega
    have hdvd : p % 2 ^ (n + 1) = 0 := by
      rw [← Nat.mod_mod_of_dvd p (Nat.pow_dvd_pow 2 (Nat.le_succ (n + 1))), hp, Nat.zero_mod]
    have hfirst := attempt_tried h hc hs
    have hok := h.ok _ hc
    rw [← hfirst.trim] at hok
    cases hjudge : judge (response (pairOf (p + 2 ^ (n + 1)))) with
    | high =>
      rw [trimLoop_high (hfirst.count ▸ hjudge), ofNat_and_not_two_pow hp, if_neg (by omega),
        ofNat_two_pow_shift hn, ofNat_or_two_pow hdvd, tried_high hjudge, if_neg (by omega)]
      obtain ⟨last, hlast, hrest⟩ := ih hdvd (by omega) hok
      exact ⟨last, hlast, hfirst.append hrest⟩
    | low =>
      have hnext : (p + 2 ^ (n + 1)) % 2 ^ (n + 1) = 0 := by
        rw [Nat.add_mod_right, hdvd]
      rw [trimLoop_low (hfirst.count ▸ hjudge), ofNat_two_pow_shift hn, ofNat_or_two_pow hnext,
        tried_low hjudge]
      obtain ⟨last, hlast, hrest⟩ := ih hnext (by omega) hok
      exact ⟨last, hlast, hfirst.append hrest⟩
    | inside =>
      rw [trimLoop_inside (hfirst.count ▸ hjudge), tried_inside hjudge]
      exact ⟨p + 2 ^ (n + 1), rfl, hfirst⟩

/-- The best of the codes tried from the first bit on is the first one of least distance. -/
theorem Tried.best_record {cs : List ℕ} {last : ℕ} {s s' : Search β}
    (h : Tried response pairOf logOf noteOf cs last s s') (hs : s.best.diff = 0xffffffff) :
    ∃ c, cs.argmin (cost response pairOf) = some c ∧ s'.best = recordOf response pairOf noteOf c := by
  have hrecord : ∀ c, (recordOf response pairOf noteOf c).distance = cost response pairOf c :=
    fun c => rfl
  have hinit : ∀ c, cost response pairOf c < s.best.distance := by
    intro c
    rw [Best.distance, hs]
    exact rc32kAbsDiff_lt _
  have hbest := h.best
  rw [foldl_keep hrecord hinit] at hbest
  cases hmin : cs.argmin (cost response pairOf) with
  | none =>
    have hends := h.ends
    rw [List.argmin_eq_none.mp hmin] at hends
    exact absurd hends (by simp)
  | some c =>
    rw [hmin] at hbest
    exact ⟨c, rfl, hbest⟩

/-- A search from the highest bit of a field on ends at a code `last`, with `c` as the best. -/
theorem trimLoop_best {n : ℕ} (h : Probes response pairOf logOf noteOf probe note ok (n + 1))
    (hbits : n + 1 ≤ 31) (start : β) {d : Rc32k} (hd : ok (rc32kGetTrim d)) :
    ∃ last < 2 ^ (n + 1), ∃ c < 2 ^ (n + 1),
      (tried (fun c => judge (response (pairOf c))) (n + 1) 0).argmin (cost response pairOf) =
        some c ∧
      (trimLoop probe note (n + 1) (BIT n) (BIT n) ⟨⟨0xffffffff, start, 0⟩, 0, d⟩).1 =
        BitVec.ofNat 32 last ∧
      (trimLoop probe note (n + 1) (BIT n) (BIT n) ⟨⟨0xffffffff, start, 0⟩, 0, d⟩).2.best =
        recordOf response pairOf noteOf c ∧
      Tried response pairOf logOf noteOf (tried (fun c => judge (response (pairOf c))) (n + 1) 0)
        last ⟨⟨0xffffffff, start, 0⟩, 0, d⟩
        (trimLoop probe note (n + 1) (BIT n) (BIT n) ⟨⟨0xffffffff, start, 0⟩, 0, d⟩).2 := by
  obtain ⟨last, hlast, htried⟩ := trimLoop_tried h hbits (Nat.zero_mod _)
    (le_of_eq (Nat.zero_add _)) (s := ⟨⟨0xffffffff, start, 0⟩, 0, d⟩) hd
  obtain ⟨c, hmin, hbest⟩ := htried.best_record rfl
  have hlastRange := (tried_range (List.mem_of_getLast? htried.ends)).2
  have hc := (tried_range (List.argmin_mem hmin)).2
  rw [Nat.zero_add] at hlastRange hc
  rw [Nat.zero_add, ← BIT_eq] at hlast htried hbest
  exact ⟨last, hlastRange, c, hc, hmin, hlast, hbest, htried⟩

end Loop

private theorem ofNat_inj {bits c c' : ℕ} (hbits : bits ≤ 31) (hc : c < 2 ^ bits)
    (hc' : c' < 2 ^ bits) (h : BitVec.ofNat 32 c = BitVec.ofNat 32 c') : c = c' := by
  have htop : 2 ^ bits ≤ 2 ^ 31 := Nat.pow_le_pow_right (by omega) hbits
  have hnat := congrArg BitVec.toNat h
  rw [BitVec.toNat_ofNat, BitVec.toNat_ofNat] at hnat
  omega

private theorem toNat_ofNat_lt {bits c : ℕ} (hbits : bits ≤ 31) (hc : c < 2 ^ bits) :
    (BitVec.ofNat 32 c).toNat < 2 ^ bits := by
  have htop : 2 ^ bits ≤ 2 ^ 31 := Nat.pow_le_pow_right (by omega) hbits
  rw [BitVec.toNat_ofNat]
  omega

section Found
variable (response : Pair → BitVec 32)

/-- The pairs that a search over `bits` bits measures, and the one it ends on. -/
def searched (pairOf : ℕ → Pair) (bits : ℕ) : List Pair :=
  (tried (fun c => judge (response (pairOf c))) bits 0).map pairOf

def bestOf (pairOf : ℕ → Pair) (bits : ℕ) : Pair :=
  ((tried (fun c => judge (response (pairOf c))) bits 0).argmin (cost response pairOf)).elim
    (pairOf 0) pairOf

theorem exists_bestOf (pairOf : ℕ → Pair) {bits : ℕ} (hbits : bits ≠ 0) :
    ∃ c < 2 ^ bits, bestOf response pairOf bits = pairOf c ∧
      bestOf response pairOf bits ∈ searched response pairOf bits ∧
      ∀ q ∈ searched response pairOf bits,
        rc32kAbsDiff (response (bestOf response pairOf bits)) ≤ rc32kAbsDiff (response q) := by
  cases hmin : (tried (fun c => judge (response (pairOf c))) bits 0).argmin
      (cost response pairOf) with
  | none => exact absurd (List.argmin_eq_none.mp hmin) (tried_ne_nil hbits 0)
  | some c =>
    have hbest : bestOf response pairOf bits = pairOf c := by
      rw [bestOf, hmin]
      rfl
    have hmem := List.argmin_mem hmin
    have hc := (tried_range hmem).2
    rw [Nat.zero_add] at hc
    rw [hbest]
    refine ⟨c, hc, rfl, List.mem_map_of_mem hmem, fun q hq => ?_⟩
    obtain ⟨c', hc', rfl⟩ := List.mem_map.mp hq
    exact List.le_of_mem_argmin hc' hmin

/-- What a search over `bits` bits ends with, where `log` was measured before. -/
structure Finds (pairOf : ℕ → Pair) (bits : ℕ) (log : List Pair) (result : BitVec 32 × Rc32k) :
    Prop where
  count : result.1 = response (bestOf response pairOf bits)
  trim : rc32kGetTrim result.2 = bestOf response pairOf bits
  measured : result.2.measured = log ++ searched response pairOf bits

end Found

section Fields
variable (response : Pair → BitVec 32) (pairOf : ℕ → Pair) (set : Code → Rc32k → Rc32k) {n : ℕ}

/-- A search over one field programs the first of the codes tried that is closest to the
reference. -/
theorem autosetField_spec (ok : Pair → Prop) (hbits : n + 1 ≤ 31)
    (hset : ∀ c < 2 ^ (n + 1), ∀ d, ok (rc32kGetTrim d) →
      rc32kGetTrim (set (BitVec.ofNat 32 c) d) = pairOf c)
    (hkeeps : ∀ c d, (set c d).measured = d.measured) (hok : ∀ c < 2 ^ (n + 1), ok (pairOf c))
    {d : Rc32k} (hd : ok (rc32kGetTrim d)) :
    Finds response pairOf (n + 1) d.measured (autosetField response set (n + 1) d) := by
  have hprogram : ∀ c < 2 ^ (n + 1), ∀ d, ok (rc32kGetTrim d) →
      rc32kGetTrim (rc32kCalibrate (set (BitVec.ofNat 32 c) d)) = pairOf c := by
    intro c hc d hd
    rw [rc32kGetTrim_calibrate, hset c hc d hd]
  have hprobes : Probes response pairOf (fun c => [pairOf c]) (BitVec.ofNat 32)
      (fun cur d => rc32kMeasure response (rc32kCalibrate (set cur d))) (fun cur _ => cur) ok
      (n + 1) := by
    refine ⟨fun c hc d hd => ?_, fun c hc d hd => ?_, fun c hc d hd => ?_, fun c d h => rfl, hok⟩
    · simp only [rc32kMeasure, hprogram c hc d hd]
    · exact hprogram c hc d hd
    · simp only [rc32kMeasure, hprogram c hc d hd]
      exact congrArg (· ++ [pairOf c]) (hkeeps _ d)
  obtain ⟨last, hlastRange, c, hc, hmin, hlast, hbest, htried⟩ :=
    trimLoop_best hprobes hbits (BIT n) hd
  have hlog := htried.measured
  rw [← List.map_eq_flatMap] at hlog
  have hcode : (recordOf response pairOf (BitVec.ofNat 32) c).code = BitVec.ofNat 32 c := rfl
  have hcount : (recordOf response pairOf (BitVec.ofNat 32) c).count = response (pairOf c) := rfl
  have hfound : bestOf response pairOf (n + 1) = pairOf c := by
    rw [bestOf, hmin]
    rfl
  suffices h : (autosetField response set (n + 1) d).1 = response (pairOf c) ∧
      rc32kGetTrim (autosetField response set (n + 1) d).2 = pairOf c ∧
      (autosetField response set (n + 1) d).2.measured =
        d.measured ++ searched response pairOf (n + 1) by
    rw [← hfound] at h
    exact ⟨h.1, h.2.1, h.2.2⟩
  simp only [autosetField, Nat.add_sub_cancel, hlast, hbest, hcode, hcount]
  by_cases hsame : BitVec.ofNat 32 last = BitVec.ofNat 32 c
  · rw [if_neg (not_not.mpr hsame)]
    obtain rfl := ofNat_inj hbits hlastRange hc hsame
    exact ⟨htried.count, htried.trim, hlog⟩
  · rw [if_pos hsame]
    refine ⟨rfl, hprogram c hc _ ?_, ?_⟩
    · rw [htried.trim]
      exact hok last hlastRange
    · exact (hkeeps _ _).trans hlog

/-- Both fields written and calibrated. -/
theorem rc32kGetTrim_setBoth {q : Pair} (hbias : q.1.toNat < 2 ^ 3) (hfreq : q.2.toNat < 2 ^ 8)
    (d : Rc32k) :
    rc32kGetTrim (rc32kCalibrate (rc32kSetClockFreq q.2 (rc32kSetBiasCurrent q.1 d))) = q := by
  rw [rc32kGetTrim_calibrate, rc32kGetTrim_setClockFreq hfreq, rc32kGetTrim_setBiasCurrent hbias]

/-- A search over one field whose probes search the other one programs a pair that is closest to
the reference among all pairs measured. The probe of `b` searches the pairs `line b`. -/
theorem autosetNested_spec (line : ℕ → ℕ → Pair) {bits : ℕ} {inner : Rc32k → BitVec 32 × Rc32k}
    {part : Pair → Code} (hbits : n + 1 ≤ 31) (hinner : bits ≠ 0)
    (h : ∀ b < 2 ^ (n + 1), ∀ d, Finds response (line b) bits d.measured
      (inner (rc32kCalibrate (set (BitVec.ofNat 32 b) d))))
    (hpart : ∀ b c, part (line b c) = BitVec.ofNat 32 b)
    (hrange : ∀ b < 2 ^ (n + 1), ∀ c < 2 ^ bits,
      (line b c).1.toNat < 2 ^ 3 ∧ (line b c).2.toNat < 2 ^ 8)
    (start : Pair) {d : Rc32k} (hd : d.measured = []) :
    rc32kGetTrim (autosetNested inner set (n + 1) part start d) ∈
        (autosetNested inner set (n + 1) part start d).measured ∧
      ∀ q ∈ (autosetNested inner set (n + 1) part start d).measured,
        rc32kAbsDiff (response (rc32kGetTrim (autosetNested inner set (n + 1) part start d))) ≤
          rc32kAbsDiff (response q) := by
  have hprobes : Probes response (fun b => bestOf response (line b) bits)
      (fun b => searched response (line b) bits) (fun b => bestOf response (line b) bits)
      (fun cur d => inner (rc32kCalibrate (set cur d))) (fun _ d => rc32kGetTrim d)
      (fun _ => True) (n + 1) :=
    ⟨fun b hb d _ => (h b hb d).count, fun b hb d _ => (h b hb d).trim,
      fun b hb d _ => (h b hb d).measured, fun b d h => h, fun b hb => trivial⟩
  obtain ⟨last, hlastRange, b, hb, hargmin, hlast, hbest, htried⟩ :=
    trimLoop_best hprobes hbits start trivial
  have hlog := htried.measured
  rw [hd, List.nil_append] at hlog
  obtain ⟨c, hc, hcode, hfound, -⟩ := exists_bestOf response (line b) hinner
  have hends : rc32kGetTrim (autosetNested inner set (n + 1) part start d) =
        bestOf response (line b) bits ∧
      (autosetNested inner set (n + 1) part start d).measured =
        (tried (fun b => judge (response (bestOf response (line b) bits))) (n + 1) 0).flatMap
          fun b => searched response (line b) bits := by
    simp only [autosetNested, Nat.add_sub_cancel, hlast, hbest, recordOf, hcode, hpart]
    by_cases hsame : BitVec.ofNat 32 last = BitVec.ofNat 32 b
    · rw [if_neg (not_not.mpr hsame), ← hcode]
      obtain rfl := ofNat_inj hbits hlastRange hb hsame
      exact ⟨htried.trim, hlog⟩
    · rw [if_pos hsame]
      exact ⟨rc32kGetTrim_setBoth (hrange b hb c hc).1 (hrange b hb c hc).2 _, hlog⟩
  rw [hends.1, hends.2]
  refine ⟨List.mem_flatMap.mpr ⟨b, List.argmin_mem hargmin, hfound⟩, fun q hq => ?_⟩
  obtain ⟨b', hb', hq⟩ := List.mem_flatMap.mp hq
  obtain ⟨-, -, -, -, hmin⟩ := exists_bestOf response (line b') hinner
  have houter : rc32kAbsDiff (response (bestOf response (line b) bits)) ≤
      rc32kAbsDiff (response (bestOf response (line b') bits)) :=
    List.le_of_mem_argmin hb' hargmin
  exact BitVec.le_trans houter (hmin q hq)

end Fields

section Autoset
variable (response : Pair → BitVec 32)

/-- The pairs with one of the two codes fixed. -/
def withBias (b c : ℕ) : Pair := (BitVec.ofNat 32 b, BitVec.ofNat 32 c)

def withFreq (f c : ℕ) : Pair := (BitVec.ofNat 32 c, BitVec.ofNat 32 f)

theorem rc32kAutosetFreq_spec {b : ℕ} {d : Rc32k} (hd : (rc32kGetTrim d).1 = BitVec.ofNat 32 b) :
    Finds response (withBias b) 8 d.measured (rc32kAutosetFreq response d) := by
  refine autosetField_spec response (withBias b) rc32kSetClockFreq
    (fun q => q.1 = BitVec.ofNat 32 b) (n := 7) (by omega) (fun c hc d hd => ?_) (fun c d => rfl)
    (fun c hc => rfl) hd
  rw [rc32kGetTrim_setClockFreq (toNat_ofNat_lt (by omega) hc), hd]
  rfl

theorem rc32kAutosetBias_spec {f : ℕ} {d : Rc32k} (hd : (rc32kGetTrim d).2 = BitVec.ofNat 32 f) :
    Finds response (withFreq f) 3 d.measured (rc32kAutosetBias response d) := by
  refine autosetField_spec response (withFreq f) rc32kSetBiasCurrent
    (fun q => q.2 = BitVec.ofNat 32 f) (n := 2) (by omega) (fun c hc d hd => ?_) (fun c d => rfl)
    (fun c hc => rfl) hd
  rw [rc32kGetTrim_setBiasCurrent (toNat_ofNat_lt (by omega) hc), hd]
  rfl

/-- Whichever field comes first, the pair programmed in the end is closest to the reference among
all pairs measured. -/
theorem rc32kAutoset_best (uninitialized : Pair) (mode : Rc32kMode) {d : Rc32k}
    (hd : d.measured = []) :
    rc32kGetTrim (rc32kAutoset response uninitialized mode d) ∈
        (rc32kAutoset response uninitialized mode d).measured ∧
      ∀ q ∈ (rc32kAutoset response uninitialized mode d).measured,
        rc32kAbsDiff (response (rc32kGetTrim (rc32kAutoset response uninitialized mode d))) ≤
          rc32kAbsDiff (response q) := by
  cases mode with
  | biasFirst =>
    have hprogram : ∀ b < 2 ^ 3, ∀ d, (rc32kGetTrim (rc32kCalibrate
        (rc32kSetBiasCurrent (BitVec.ofNat 32 b) d))).1 = BitVec.ofNat 32 b := by
      intro b hb d
      rw [rc32kGetTrim_calibrate, rc32kGetTrim_setBiasCurrent (toNat_ofNat_lt (by omega) hb)]
    exact autosetNested_spec response rc32kSetBiasCurrent withBias (n := 2) (by omega)
      (show 8 ≠ 0 by omega) (fun b hb d => rc32kAutosetFreq_spec response (hprogram b hb d))
      (fun b c => rfl)
      (fun b hb c hc => ⟨toNat_ofNat_lt (by omega) hb, toNat_ofNat_lt (by omega) hc⟩) _ hd
  | freqFirst =>
    have hprogram : ∀ f < 2 ^ 8, ∀ d, (rc32kGetTrim (rc32kCalibrate
        (rc32kSetClockFreq (BitVec.ofNat 32 f) d))).2 = BitVec.ofNat 32 f := by
      intro f hf d
      rw [rc32kGetTrim_calibrate, rc32kGetTrim_setClockFreq (toNat_ofNat_lt (by omega) hf)]
    exact autosetNested_spec response rc32kSetClockFreq withFreq (n := 7) (by omega)
      (show 3 ≠ 0 by omega) (fun f hf d => rc32kAutosetBias_spec response (hprogram f hf d))
      (fun f c => rfl)
      (fun f hf c hc => ⟨toNat_ofNat_lt (by omega) hc, toNat_ofNat_lt (by omega) hf⟩) _ hd

/-- A count is between the limits exactly when it is closer than the deviation. -/
theorem inside_iff (count : BitVec 32) :
    RC32K_LOWER_LIMIT_VALUE < count ∧ count < RC32K_UPPER_LIMIT_VALUE ↔
      rc32kAbsDiff count < RC32K_DEVIATION_VALUE := by
  have href : RC32K_REFERENCE_VALUE.toNat = 131000000 := rfl
  have hlower : RC32K_LOWER_LIMIT_VALUE.toNat = 130345000 := rfl
  have hupper : RC32K_UPPER_LIMIT_VALUE.toNat = 131655000 := rfl
  have hdev : RC32K_DEVIATION_VALUE.toNat = 655000 := rfl
  have hdiff : (rc32kAbsDiff count).toNat =
      if count.toNat ≤ 131000000 then 131000000 - count.toNat else count.toNat - 131000000 := by
    rw [rc32kAbsDiff]
    by_cases h : count ≤ RC32K_REFERENCE_VALUE
    · have hle : count.toNat ≤ 131000000 := h
      rw [if_pos h, if_pos hle, BitVec.toNat_sub_of_le h, href]
    · have hle : ¬count.toNat ≤ 131000000 := h
      rw [if_neg h, if_neg hle,
        BitVec.toNat_sub_of_le (show RC32K_REFERENCE_VALUE.toNat ≤ count.toNat by omega), href]
  rw [BitVec.lt_def, BitVec.lt_def, BitVec.lt_def, hlower, hupper, hdev, hdiff]
  split_ifs <;> omega

theorem judge_eq_inside_iff (count : BitVec 32) :
    judge count = .inside ↔
      RC32K_LOWER_LIMIT_VALUE < count ∧ count < RC32K_UPPER_LIMIT_VALUE := by
  rw [judge]
  split_ifs with hupper hlower
  · exact iff_of_false (by simp) fun h => BitVec.not_lt.mpr hupper h.2
  · exact iff_of_false (by simp) fun h => BitVec.not_lt.mpr hlower h.1
  · exact iff_of_true rfl ⟨BitVec.not_le.mp hlower, BitVec.not_le.mp hupper⟩

theorem judge_eq_high_iff (count : BitVec 32) :
    judge count = .high ↔ RC32K_UPPER_LIMIT_VALUE ≤ count := by
  rw [judge]
  split_ifs with hupper hlower
  · exact iff_of_true rfl hupper
  · exact iff_of_false (by simp) hupper
  · exact iff_of_false (by simp) hupper

theorem judge_eq_low_iff (count : BitVec 32) :
    judge count = .low ↔ count ≤ RC32K_LOWER_LIMIT_VALUE := by
  have hlimits : RC32K_LOWER_LIMIT_VALUE < RC32K_UPPER_LIMIT_VALUE := by decide
  rw [judge]
  split_ifs with hupper hlower
  · refine iff_of_false (by simp) fun h => ?_
    exact BitVec.not_lt.mpr (BitVec.le_trans hupper h) hlimits
  · exact iff_of_true rfl hlower
  · exact iff_of_false (by simp) hlower

/-- With counts that do not decrease with the frequency code the search over the frequencies ends
between the limits if any code is. -/
theorem rc32kAutosetFreq_inside {d : Rc32k}
    (hmono : ∀ c c' : Code, c ≤ c' → c'.toNat < 2 ^ 8 →
      response ((rc32kGetTrim d).1, c) ≤ response ((rc32kGetTrim d).1, c'))
    (h : ∃ c : Code, c.toNat < 2 ^ 8 ∧ RC32K_LOWER_LIMIT_VALUE < response ((rc32kGetTrim d).1, c) ∧
      response ((rc32kGetTrim d).1, c) < RC32K_UPPER_LIMIT_VALUE) :
    RC32K_LOWER_LIMIT_VALUE < response (rc32kGetTrim (rc32kAutosetFreq response d).2) ∧
      response (rc32kGetTrim (rc32kAutosetFreq response d).2) < RC32K_UPPER_LIMIT_VALUE := by
  have hbias : (rc32kGetTrim d).1 = BitVec.ofNat 32 (rc32kGetTrim d).1.toNat :=
    BitVec.eq_of_toNat_eq (by simp)
  have htrim := (rc32kAutosetFreq_spec response hbias).trim
  obtain ⟨c₀, hc₀, hbest, hmem, hmin⟩ :=
    exists_bestOf response (withBias (rc32kGetTrim d).1.toNat) (show 8 ≠ 0 by omega)
  have hle : ∀ c c', c ≤ c' → c' < 2 ^ 8 →
      response (withBias (rc32kGetTrim d).1.toNat c) ≤
        response (withBias (rc32kGetTrim d).1.toNat c') := by
    intro c c' hcc hc'
    rw [withBias, withBias, ← hbias]
    refine hmono _ _ ?_ (toNat_ofNat_lt (by omega) hc')
    rw [BitVec.le_def, BitVec.toNat_ofNat, BitVec.toNat_ofNat]
    omega
  obtain ⟨k, hk, hin⟩ := exists_inside
    (fun c => judge (response (withBias (rc32kGetTrim d).1.toNat c))) (2 ^ 8) (n := 7) (p := 0)
    (fun c c' hcc hc' hv => (judge_eq_high_iff _).mpr
      (BitVec.le_trans ((judge_eq_high_iff _).mp hv) (hle c c' hcc hc')))
    (fun c c' hcc hc' hv => (judge_eq_low_iff _).mpr
      (BitVec.le_trans (hle c c' hcc hc') ((judge_eq_low_iff _).mp hv)))
    (by omega) (by
      obtain ⟨c, hc, hlow, hhigh⟩ := h
      have hcode : BitVec.ofNat 32 c.toNat = c := BitVec.eq_of_toNat_eq (by simp)
      refine ⟨c.toNat, by omega, by omega, (judge_eq_inside_iff _).mpr ?_⟩
      rw [withBias, ← hbias, hcode]
      exact ⟨hlow, hhigh⟩)
  rw [htrim, inside_iff]
  have hclose := (inside_iff _).mp ((judge_eq_inside_iff _).mp hin)
  exact Nat.lt_of_le_of_lt (hmin _ (List.mem_map_of_mem hk)) hclose

end Autoset

/-- The pair programmed by a whole run is closest to the reference among all pairs it measured,
and with counts that do not decrease with the frequency code the search over the frequencies ends
between the limits if any code is. -/
theorem rc32k_trimming (response : Pair → BitVec 32) (uninitialized : Pair) (d : Rc32k) :
    (d.measured = [] →
      rc32kGetTrim (rc32kAutoset response uninitialized .biasFirst d) ∈
          (rc32kAutoset response uninitialized .biasFirst d).measured ∧
        ∀ q ∈ (rc32kAutoset response uninitialized .biasFirst d).measured,
          rc32kAbsDiff (response (rc32kGetTrim (rc32kAutoset response uninitialized .biasFirst d))) ≤
            rc32kAbsDiff (response q)) ∧
      ((∀ c c' : Code, c ≤ c' → c'.toNat < 2 ^ 8 →
          response ((rc32kGetTrim d).1, c) ≤ response ((rc32kGetTrim d).1, c')) →
        (∃ c : Code, c.toNat < 2 ^ 8 ∧
          RC32K_LOWER_LIMIT_VALUE < response ((rc32kGetTrim d).1, c) ∧
          response ((rc32kGetTrim d).1, c) < RC32K_UPPER_LIMIT_VALUE) →
        RC32K_LOWER_LIMIT_VALUE < response (rc32kGetTrim (rc32kAutosetFreq response d).2) ∧
          response (rc32kGetTrim (rc32kAutosetFreq response d).2) < RC32K_UPPER_LIMIT_VALUE) :=
  ⟨rc32kAutoset_best response uninitialized .biasFirst, rc32kAutosetFreq_inside response⟩

/-- A response that is too fast below code 100 and right from there on. -/
theorem rc32k_trimming_of_step :
    let response : Pair → BitVec 32 := fun q => if q.2.toNat < 100 then 0 else 131000000
    rc32kGetTrim (rc32kAutoset response (0, 0) .biasFirst ⟨0, []⟩) ∈
        (rc32kAutoset response (0, 0) .biasFirst ⟨0, []⟩).measured ∧
      RC32K_LOWER_LIMIT_VALUE < response (rc32kGetTrim (rc32kAutosetFreq response ⟨0, []⟩).2) ∧
      response (rc32kGetTrim (rc32kAutosetFreq response ⟨0, []⟩).2) < RC32K_UPPER_LIMIT_VALUE := by
  intro response
  obtain ⟨hbest, hinside⟩ := rc32k_trimming response (0, 0) ⟨0, []⟩
  refine ⟨(hbest rfl).1, hinside (fun c c' hle hc' => ?_) ⟨100, by decide, by decide, by decide⟩⟩
  have hnat : c.toNat ≤ c'.toNat := hle
  simp only [response]
  split_ifs with h h'
  · exact BitVec.le_refl _
  · decide
  · omega
  · exact BitVec.le_refl _

end WiotaDev.Rc32kTrim
