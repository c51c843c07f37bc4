import WiotaDev.FastLzCompressor

/-! # Compressing and decompressing

What the compressor has written is the coded form of instructions that reproduce the input
before the literals that have not been counted; so the decompressor gives the input back. -/

namespace WiotaDev.FastLzBlocks
open WordBytes LempelZiv

section Matching
variable {mem : ℕ → Byte}

/-- From `start` up to `stop` the memory repeats itself at a distance. -/
def Repeats (mem : ℕ → Byte) (distance start stop : ℕ) : Prop :=
  ∀ i, start ≤ i → i < stop → mem i = mem (i - distance)

theorem Repeats.append {distance start mid stop : ℕ} (h₁ : Repeats mem distance start mid)
    (h₂ : Repeats mem distance mid stop) : Repeats mem distance start stop := by
  intro i hi hlt
  rcases Nat.lt_or_ge i mid with hmid | hmid
  · exact h₁ i hi hmid
  · exact h₂ i hmid hlt

theorem Repeats.mono {distance start start' stop stop' : ℕ} (h : Repeats mem distance start stop)
    (h₁ : start ≤ start') (h₂ : stop' ≤ stop) : Repeats mem distance start' stop' :=
  fun i hi hlt => h i (h₁.trans hi) (Nat.lt_of_lt_of_le hlt h₂)

theorem readU16_eq (p : ℕ) : readU16 mem p = (mem p).toNat + 256 * (mem (p + 1)).toNat := by
  have hor := Nat.two_pow_add_eq_or_of_lt (mem p).isLt (mem (p + 1)).toNat
  rw [readU16, Nat.shiftLeft_eq, Nat.or_comm, Nat.mul_comm, ← hor]
  omega

/-- Equal half words are equal bytes. -/
theorem eq_of_readU16_eq {p q : ℕ} (h : readU16 mem p = readU16 mem q) :
    mem p = mem q ∧ mem (p + 1) = mem (q + 1) := by
  rw [readU16_eq, readU16_eq] at h
  have h₁ := (mem p).isLt
  have h₂ := (mem q).isLt
  constructor
  · apply BitVec.eq_of_toNat_eq
    omega
  · apply BitVec.eq_of_toNat_eq
    omega

private theorem IsRun.repeats {lvl : Level} {ip : ℕ} (h : IsRun mem lvl ip) (hip : 1 ≤ ip) :
    Repeats mem 1 ip (ip + 3) := by
  obtain ⟨-, h₀, h⟩ := h
  obtain ⟨h₁, h₂⟩ := eq_of_readU16_eq h
  rw [Nat.sub_add_cancel hip] at h₂
  intro i hi hlt
  obtain rfl | rfl | rfl : i = ip ∨ i = ip + 1 ∨ i = ip + 2 := by omega
  · exact h₀
  · rw [Nat.add_sub_cancel, ← h₁, h₀]
  · rw [show ip + 2 - 1 = ip + 1 by omega, ← h₁, ← h₀, h₂]

/-- What a match found at `anchor` is good for. -/
structure Level.Matches (lvl : Level) (mem : ℕ → Byte) (anchor distance len : ℕ) : Prop where
  pos : 1 ≤ distance
  le_anchor : distance ≤ anchor
  lt_limit : distance < lvl.limit
  three_le : 3 ≤ len
  le_five : len ≤ 5
  far : lvl = .two → Level.two.MAX_DISTANCE ≤ distance → len = 5
  repeats : Repeats mem distance anchor (anchor + len)

theorem findMatch_htab (mem : ℕ → Byte) (lvl : Level) {htab : ℕ → ℕ} {anchor : ℕ} (h : ∀ x, htab x < anchor)
    (x : ℕ) : (findMatch mem lvl htab anchor).2 x < anchor + 1 := by
  have hupdate (x : ℕ) : Function.update htab (hashFunction mem anchor) anchor x < anchor + 1 := by
    rw [Function.update_apply]
    split
    · exact Nat.lt_succ_self anchor
    · exact Nat.lt_succ_of_lt (h x)
  rw [findMatch]
  split
  · exact Nat.lt_succ_of_lt (h x)
  · dsimp only
    split
    · exact hupdate x
    split
    · split
      · exact hupdate x
      · exact hupdate x
    · exact hupdate x

theorem findMatch_matches (mem : ℕ → Byte) (lvl : Level) {htab : ℕ → ℕ} {anchor distance len : ℕ}
    (h : ∀ x, htab x < anchor) (hanchor : 1 ≤ anchor)
    (hfound : (findMatch mem lvl htab anchor).1 = some (distance, len)) :
    lvl.Matches mem anchor distance len := by
  rw [findMatch] at hfound
  split at hfound
  · rename_i hrun
    cases hfound
    have hlvl := hrun.1
    subst hlvl
    exact ⟨Nat.le_refl 1, hanchor, by decide, Nat.le_refl 3, by decide,
      fun _ hfar => absurd hfar (by decide), hrun.repeats hanchor⟩
  dsimp only at hfound
  have href := h (hashFunction mem anchor)
  generalize htab (hashFunction mem anchor) = ref at hfound href
  split at hfound
  · cases hfound
  rename_i hsame
  simp only [not_or, not_le, ne_eq, not_not] at hsame
  obtain ⟨hpos, hlimit, h₀, h₁, h₂⟩ := hsame
  have hthree : Repeats mem (anchor - ref) anchor (anchor + 3) := by
    intro i hi hlt
    obtain rfl | rfl | rfl : i = anchor ∨ i = anchor + 1 ∨ i = anchor + 2 := by omega
    · rw [← h₀, Nat.sub_sub_self (Nat.le_of_lt href)]
    · rw [← h₁]
      congr 1
      omega
    · rw [← h₂]
      congr 1
      omega
  split at hfound
  · rename_i hfar
    split at hfound
    · cases hfound
    rename_i htwo
    simp only [not_or, ne_eq, not_not] at htwo
    cases hfound
    refine ⟨Nat.pos_of_ne_zero hpos, Nat.sub_le .., hlimit, by decide, Nat.le_refl 5, fun _ _ => rfl,
      ?_⟩
    apply hthree.append
    intro i hi hlt
    obtain rfl | rfl : i = anchor + 3 ∨ i = anchor + 4 := by omega
    · rw [htwo.1]
      congr 1
      omega
    · rw [htwo.2]
      congr 1
      omega
  · rename_i hnear
    cases hfound
    exact ⟨Nat.pos_of_ne_zero hpos, Nat.sub_le .., hlimit, Nat.le_refl 3, by decide,
      fun hlvl hfar => absurd ⟨hlvl, by rw [hlvl]; exact hfar⟩ hnear, hthree⟩

theorem extendRun_le (mem : ℕ → Byte) (x : Byte) (n ref ip : ℕ) : ip ≤ extendRun mem x n ref ip ∧
    extendRun mem x n ref ip ≤ ip + n := by
  induction n generalizing ref ip with
  | zero => exact ⟨Nat.le_refl ip, Nat.le_refl ip⟩
  | succ n ih =>
    rw [extendRun]
    split
    · exact ⟨Nat.le_refl ip, Nat.le_add_right ..⟩
    · have hrest := ih (ref + 1) (ip + 1)
      omega

theorem lt_extendRun {x : Byte} {n ref ip : ℕ} (hfirst : mem ref = x) (hn : 1 ≤ n) :
    ip < extendRun mem x n ref ip := by
  obtain ⟨n, rfl⟩ := Nat.exists_eq_add_of_lt hn
  rw [extendRun, if_neg (not_not_intro hfirst)]
  exact (extendRun_le ..).1

/-- The bytes the run has been followed over are all the same. -/
theorem extendRun_eq {x : Byte} {n ref ip i : ℕ} (h₁ : ref ≤ i)
    (h₂ : i < ref + (extendRun mem x n ref ip - ip)) : mem i = x := by
  induction n generalizing ref ip with
  | zero =>
    rw [extendRun, Nat.sub_self] at h₂
    omega
  | succ n ih =>
    rw [extendRun] at h₂
    split at h₂
    · omega
    · rename_i hsame
      rcases Nat.eq_or_lt_of_le h₁ with rfl | hlt
      · exact Decidable.not_not.mp hsame
      · have hle := (extendRun_le mem x n (ref + 1) (ip + 1)).1
        have hrest : i < ref + 1 + (extendRun mem x n (ref + 1) (ip + 1) - (ip + 1)) := by omega
        exact ih hlt hrest

/-- How far the comparison goes, and what it says. -/
theorem compareBytes_spec (mem : ℕ → Byte) {distance : ℕ} (n : ℕ) {ref ip : ℕ} (href : ip = ref + distance) :
    ip ≤ (compareBytes mem n ref ip).1 ∧ (compareBytes mem n ref ip).1 ≤ ip + n ∧
      (1 ≤ n → ip < (compareBytes mem n ref ip).1) ∧
      ((compareBytes mem n ref ip).2 = false →
        (compareBytes mem n ref ip).1 = ip + n ∧ Repeats mem distance ip (ip + n)) ∧
      Repeats mem distance ip ((compareBytes mem n ref ip).1 - 1) := by
  induction n generalizing ref ip with
  | zero =>
    refine ⟨Nat.le_refl ip, Nat.le_refl ip, fun h => absurd h (by decide), fun _ => ⟨rfl, ?_⟩, ?_⟩
    · intro i hi hlt
      omega
    · intro i hi hlt
      change i < ip - 1 at hlt
      omega
  | succ n ih =>
    rw [compareBytes]
    split
    · refine ⟨Nat.le_succ ip, by omega, fun _ => Nat.lt_succ_self ip, fun h => absurd h (by simp), ?_⟩
      intro i hi hlt
      change i < ip + 1 - 1 at hlt
      omega
    · rename_i hsame
      have hnext : ip + 1 = ref + 1 + distance := by omega
      obtain ⟨hle, hmax, -, hall, hrepeats⟩ := ih hnext
      have hfirst : Repeats mem distance ip (ip + 1) := by
        intro i hi hlt
        obtain rfl : i = ip := by omega
        rw [href, Nat.add_sub_cancel, ← href]
        exact (Decidable.not_not.mp hsame).symm
      refine ⟨by omega, by omega, fun _ => hle, fun h => ?_, hfirst.append hrepeats⟩
      obtain ⟨hend, hrest⟩ := hall h
      exact ⟨by omega, hfirst.append (hrest.mono (Nat.le_refl _) (by omega))⟩

/-- The match has been followed to just behind `matchEnd`. -/
theorem matchEnd_spec {lvl : Level} {length anchor distance len : ℕ}
    (h : lvl.Matches mem anchor distance len) (hlimit : anchor + 12 < length) :
    anchor + len + 1 ≤ matchEnd mem length anchor distance len ∧
      matchEnd mem length anchor distance len ≤ length ∧
      Repeats mem distance anchor (matchEnd mem length anchor distance len - 1) := by
  have hpos := h.pos
  have hanchor := h.le_anchor
  have hthree := h.three_le
  have hfive := h.le_five
  rw [matchEnd]
  split
  · rename_i hone
    obtain rfl : distance = 1 := by omega
    generalize hip : anchor + len = ip
    obtain ⟨-, hmax⟩ := extendRun_le mem (mem (ip - 1)) (length - 2 - ip) (ip - 1) ip
    have hnext : ip < extendRun mem (mem (ip - 1)) (length - 2 - ip) (ip - 1) ip :=
      lt_extendRun rfl (by omega)
    refine ⟨hnext, hmax.trans (by omega), h.repeats.append ?_⟩
    rw [hip]
    intro i hi hlt
    have hrun (j : ℕ) (h₁ : ip - 1 ≤ j) (h₂ : j < ip - 1 + (extendRun mem (mem (ip - 1))
        (length - 2 - ip) (ip - 1) ip - ip)) : mem j = mem (ip - 1) := extendRun_eq h₁ h₂
    rw [hrun i (by omega) (by omega), hrun (i - 1) (by omega) (by omega)]
  · have href : anchor + len = anchor + len - distance + distance := by omega
    have hfirst := compareBytes_spec mem 8 href
    split
    · rename_i ip hbroken
      rw [hbroken] at hfirst
      obtain ⟨-, hmax, hnext, -, hrepeats⟩ := hfirst
      exact ⟨hnext (by decide), hmax.trans (by omega), h.repeats.append hrepeats⟩
    · rename_i ip hwhole
      rw [hwhole] at hfirst
      obtain ⟨hend, hrepeats⟩ := hfirst.2.2.2.1 rfl
      have href' : ip = anchor + len - distance + 8 + distance := by
        change ip = _ at hend
        omega
      obtain ⟨hle, hmax, -, -, hrest⟩ :=
        compareBytes_spec mem (length - 2 - ip) href'
      refine ⟨by omega, by omega, ?_⟩
      rw [← hend] at hrepeats
      exact (h.repeats.append hrepeats).append hrest

end Matching

section Coding
variable {mem : ℕ → Byte}

theorem serial_append (lvl : Level) (is js : List (Instr Byte)) :
    serial lvl (is ++ js) = serial lvl is ++ serial lvl js := List.flatMap_append

theorem serial_nil (lvl : Level) : serial lvl [] = [] := rfl

theorem serial_singleton (lvl : Level) (i : Instr Byte) : serial lvl [i] = encode lvl i :=
  List.flatMap_singleton ..

theorem putLength_eq {fuel len : ℕ} (h : len ≤ fuel) : putLength fuel len = lengthBytes .two len := by
  induction fuel generalizing len with
  | zero =>
    obtain rfl : len = 0 := Nat.le_zero.mp h
    rfl
  | succ fuel ih =>
    rw [putLength]
    split
    · rename_i hlong
      have hdiv : len / 255 = (len - 255) / 255 + 1 := by omega
      have hmod : (len - 255) % 255 = len % 255 := by omega
      rw [ih (by omega), lengthBytes, lengthBytes, hdiv, List.replicate_succ, hmod]
      rfl
    · rw [lengthBytes, Nat.div_eq_of_lt (by omega), Nat.mod_eq_of_lt (by omega)]
      rfl

/-- What stands for a stretch of `len` bytes behind the first `n` of the input, at a cost that
leaves room for one more byte. -/
structure Stands (lvl : Level) (mem : ℕ → Byte) (n len : ℕ) (js is : List (Instr Byte)) : Prop where
  encodable : ∀ i ∈ is, Encodable lvl i
  reproduces : Reproduces mem (n + len) (js ++ is)
  size_le : 32 * (serial lvl is).length + 32 ≤ 33 * len

private theorem distanceBytes_near (lvl : Level) (distance : ℕ) (h : ¬ Far lvl distance) :
    distanceBytes lvl distance = [BitVec.ofNat 8 (distance % 256)] ∧
      distanceCode lvl distance = distance / 256 := by
  rw [distanceBytes, distanceCode, if_neg h, if_neg h]
  exact ⟨rfl, rfl⟩

private theorem distanceBytes_length (lvl : Level) (distance : ℕ) :
    (distanceBytes lvl distance).length = if Far lvl distance then 3 else 1 := by
  rw [distanceBytes]
  split
  · rfl
  · rfl

private theorem encode_copy (lvl : Level) (distance len : ℕ) :
    encode lvl (.copy distance (len + 2)) =
      if len < 7 then
        BitVec.ofNat 8 (len * 32 + distanceCode lvl (distance - 1)) :: distanceBytes lvl (distance - 1)
      else BitVec.ofNat 8 (7 * 32 + distanceCode lvl (distance - 1)) ::
        (lengthBytes lvl (len - 7) ++ distanceBytes lvl (distance - 1)) := by
  rw [encode, codeOf, operandsOf, Nat.add_sub_cancel]
  split
  · rw [Nat.min_eq_left (by omega), List.nil_append]
  · rw [Nat.min_eq_right (by omega)]

private theorem putMatch_two {len distance : ℕ} :
    Level.two.putMatch len (distance - 1) = encode .two (.copy distance (len + 2)) := by
  rw [encode_copy, Level.putMatch]
  by_cases hnear : distance - 1 < Level.two.MAX_DISTANCE
  · obtain ⟨hbytes, hcode⟩ := distanceBytes_near .two (distance - 1)
      fun hfar => absurd hfar.2 (by omega)
    rw [if_pos hnear, hbytes, hcode, putLength_eq (Nat.le_refl _)]
  · have hfar : Far .two (distance - 1) := ⟨rfl, Nat.le_of_not_lt hnear⟩
    rw [if_neg hnear, distanceBytes, distanceCode, if_pos hfar, if_pos hfar,
      putLength_eq (Nat.le_refl _)]

/-- The matches split off a long one, and what is left of it. -/
private theorem splitMatch_spec {n fuel len distance : ℕ} {js : List (Instr Byte)}
    (hjs : Reproduces mem n js) (h₁ : 1 ≤ distance) (h₂ : distance ≤ n)
    (hdistance : distance ≤ 8192) (hlen : 1 ≤ len) (hfuel : len ≤ fuel)
    (hrepeats : Repeats mem distance n (n + len)) :
    1 ≤ (splitMatch (distance - 1) fuel len).2 ∧ (splitMatch (distance - 1) fuel len).2 ≤ 262 ∧
      ∃ (k : ℕ) (is : List (Instr Byte)), k + (splitMatch (distance - 1) fuel len).2 = len ∧
        (splitMatch (distance - 1) fuel len).1 = serial .one is ∧
        (∀ i ∈ is, Encodable .one i) ∧ Reproduces mem (n + k) (js ++ is) ∧
        32 * (serial .one is).length ≤ 33 * k := by
  induction fuel generalizing len n js with
  | zero => omega
  | succ fuel ih =>
    rw [splitMatch]
    split
    · rename_i hlong
      change 262 < len at hlong
      have hchunk := hjs.copy 262 h₁ h₂ (hrepeats.mono (Nat.le_refl n) (by omega))
      have hrest : Repeats mem distance (n + 262) (n + 262 + (len - 262)) :=
        hrepeats.mono (by omega) (by omega)
      obtain ⟨hmin, hmax, k, is, hk, hserial, henc, hrep, hsize⟩ := ih hchunk (by omega) (by omega)
        (by omega) hrest
      refine ⟨hmin, hmax, 262 + k, .copy distance 262 :: is, ?_, ?_, ?_, ?_, ?_⟩
      · change 262 + k + (splitMatch (distance - 1) fuel (len - 262)).2 = len
        omega
      · change BitVec.ofNat 8 _ :: BitVec.ofNat 8 _ :: BitVec.ofNat 8 _ ::
          (splitMatch (distance - 1) fuel (len - 262)).1 = _
        rw [hserial]
        rfl
      · intro i hi
        rcases List.mem_cons.mp hi with rfl | hi
        · exact ⟨by decide, by decide, hdistance⟩
        · exact henc i hi
      · rw [List.append_cons, ← Nat.add_assoc]
        exact hrep
      · have hcons : (serial .one (.copy distance 262 :: is)).length =
            (serial .one is).length + 3 := rfl
        omega
    · rename_i hshort
      exact ⟨hlen, Nat.le_of_not_lt hshort, 0, [], Nat.zero_add len, rfl,
        fun i hi => absurd hi List.not_mem_nil, by rwa [List.append_nil], Nat.zero_le _⟩

private theorem encode_length_le {lvl : Level} {distance len : ℕ} (hone : lvl = .one → len ≤ 262)
    (hlen : 1 ≤ len) (hfar : Far lvl (distance - 1) → 3 ≤ len) :
    32 * (encode lvl (.copy distance (len + 2))).length + 32 ≤ 33 * (len + 2) := by
  have hdistance := distanceBytes_length lvl (distance - 1)
  rw [encode_copy]
  split
  · rw [List.length_cons, hdistance]
    split
    · have hmin := hfar ‹_›
      omega
    · omega
  · rw [List.length_cons, List.length_append, hdistance]
    cases lvl with
    | one =>
      rw [lengthBytes, List.length_singleton, if_neg fun h => Level.noConfusion h.1]
      omega
    | two =>
      rw [lengthBytes, List.length_append, List.length_replicate, List.length_singleton]
      split
      · omega
      · omega

private theorem putMatch_one_left (distance left : ℕ) :
    (if left < 7 then [BitVec.ofNat 8 (left * 32 + (distance - 1) / 256),
        BitVec.ofNat 8 ((distance - 1) % 256)]
      else [BitVec.ofNat 8 (7 * 32 + (distance - 1) / 256), BitVec.ofNat 8 (left - 7),
        BitVec.ofNat 8 ((distance - 1) % 256)]) = encode .one (.copy distance (left + 2)) := by
  obtain ⟨hbytes, hcode⟩ := distanceBytes_near .one (distance - 1)
    fun hfar => nomatch hfar.1
  rw [encode_copy, hbytes, hcode]
  rfl

/-- The code of a match stands for the bytes it has been followed over. -/
theorem putMatch_stands {lvl : Level} {n len distance : ℕ} {js : List (Instr Byte)}
    (hjs : Reproduces mem n js) (h₁ : 1 ≤ distance) (h₂ : distance ≤ n)
    (hlimit : distance < lvl.limit) (hlen : 1 ≤ len)
    (hfar : lvl = .two → Level.two.MAX_DISTANCE ≤ distance → 3 ≤ len)
    (hrepeats : Repeats mem distance n (n + (len + 2))) :
    ∃ is, lvl.putMatch len (distance - 1) = serial lvl is ∧ Stands lvl mem n (len + 2) js is := by
  cases lvl with
  | one =>
    have hdistance : distance < 8192 := hlimit
    obtain ⟨hmin, hmax, k, is, hk, hserial, henc, hrep, hsize⟩ := splitMatch_spec hjs h₁ h₂
      (by omega) hlen (Nat.le_refl len) (hrepeats.mono (Nat.le_refl n) (by omega))
    generalize hsplit : splitMatch (distance - 1) len len = split at hmin hmax hk hserial
    obtain ⟨chunks, left⟩ := split
    dsimp only at hmin hmax hk hserial
    have hlast := hrep.copy (left + 2) h₁ (by omega) (hrepeats.mono (by omega) (by omega))
    have hcost : 32 * (encode .one (.copy distance (left + 2))).length + 32 ≤ 33 * (left + 2) :=
      encode_length_le (fun _ => hmax) hmin fun hfar => nomatch hfar.1
    refine ⟨is ++ [.copy distance (left + 2)], ?_, ?_, ?_, ?_⟩
    · rw [Level.putMatch, hsplit, serial_append, serial_singleton, hserial,
        ← putMatch_one_left distance left]
    · intro i hi
      rcases List.mem_append.mp hi with hi | hi
      · exact henc i hi
      · rw [List.mem_singleton.mp hi]
        exact ⟨by omega, Nat.succ_le_succ (Nat.succ_le_succ hmax), Nat.le_of_lt hdistance⟩
    · rw [← List.append_assoc, ← hk, Nat.add_assoc k, ← Nat.add_assoc n]
      exact hlast
    · rw [serial_append, serial_singleton, List.length_append]
      omega
  | two =>
    have hdistance : distance < 65535 + 8191 - 1 := hlimit
    refine ⟨[.copy distance (len + 2)], ?_, ?_, ?_, ?_⟩
    · rw [serial_singleton, putMatch_two]
    · intro i hi
      rw [List.mem_singleton.mp hi]
      refine ⟨by omega, ?_⟩
      change distance ≤ 8191 + 65536
      omega
    · exact hjs.copy (len + 2) h₁ h₂ hrepeats
    · rw [serial_singleton]
      exact encode_length_le (fun h => nomatch h) hlen
        fun h => hfar rfl (h.2.trans (Nat.sub_le ..))

end Coding

/-! ## What holds in the loops of the compressor -/

section Loops
variable {mem : ℕ → Byte} {lvl : Level} {length : ℕ}

/-- The literals that have not been counted, as an instruction. -/
def Compressor.pending (mem : ℕ → Byte) (c : Compressor) : List (Instr Byte) :=
  if c.copy ≠ 0 then [.literals (values mem (c.ip - c.copy) c.copy)] else []

/-- What has been written: the coded form of `is`, the place of a code, and the literals that
have not been counted. -/
structure Compressor.Inv (lvl : Level) (mem : ℕ → Byte) (c : Compressor) (is : List (Instr Byte)) :
    Prop where
  copy_le : c.copy ≤ c.ip
  copy_lt : c.copy < 32
  out_eq : c.out = serial lvl is ++ BitVec.ofNat 8 (MAX_COPY - 1) ::
    values mem (c.ip - c.copy) c.copy
  encodable : ∀ i ∈ is, Encodable lvl i
  reproduces : Reproduces mem (c.ip - c.copy) is
  htab : ∀ x, c.htab x < c.ip
  size_le : 32 * (serial lvl is).length ≤ 33 * (c.ip - c.copy)
  starts : is = [] ∧ 1 ≤ c.copy ∨ ∃ run js, is = .literals run :: js

theorem literal_ip (c : Compressor) : (c.literal mem).ip = c.ip + 1 := by
  rw [Compressor.literal]
  split
  · rfl
  · rfl

namespace Compressor.Inv
variable {c : Compressor} {is : List (Instr Byte)}

theorem out_length (h : c.Inv lvl mem is) : c.out.length = (serial lvl is).length + 1 + c.copy := by
  rw [h.out_eq, List.length_append, List.length_cons, values_length]
  omega

theorem start : (Compressor.start mem).Inv lvl mem [] where
  copy_le := Nat.le_refl 2
  copy_lt := show 2 < 32 by decide
  out_eq := rfl
  encodable := fun i hi => absurd hi List.not_mem_nil
  reproduces := .nil mem
  htab := fun _ => show 0 < 2 by decide
  size_le := Nat.le_refl 0
  starts := .inl ⟨rfl, show 1 ≤ 2 by decide⟩

/-- Counting the literals makes an instruction of them. -/
theorem closeRun_eq (h : c.Inv lvl mem is) :
    closeRun c.out c.copy = serial lvl (is ++ c.pending mem) := by
  rw [closeRun, Compressor.pending, serial_append]
  split
  · have hplace : c.out.length - c.copy - 1 = (serial lvl is).length := by
      rw [h.out_length]
      omega
    rw [hplace, h.out_eq, List.set_append_right _ _ (Nat.le_refl _), Nat.sub_self, List.set_cons_zero,
      serial_singleton, encode, codeOf, operandsOf, values_length]
  · rename_i hzero
    rw [h.out_eq, Decidable.not_not.mp hzero, values_zero, List.dropLast_concat]
    exact (List.append_nil _).symm

theorem pending_encodable (h : c.Inv lvl mem is) : ∀ i ∈ is ++ c.pending mem, Encodable lvl i := by
  intro i hi
  rcases List.mem_append.mp hi with hi | hi
  · exact h.encodable i hi
  · rw [Compressor.pending] at hi
    split at hi
    · rename_i hpos
      rw [List.mem_singleton.mp hi]
      have hrun : 1 ≤ (values mem (c.ip - c.copy) c.copy).length ∧
          (values mem (c.ip - c.copy) c.copy).length ≤ MAX_COPY := by
        rw [values_length]
        exact ⟨Nat.one_le_iff_ne_zero.mpr hpos, Nat.le_of_lt h.copy_lt⟩
      cases lvl with
      | one | two => exact hrun
    · exact absurd hi List.not_mem_nil

theorem pending_reproduces (h : c.Inv lvl mem is) : Reproduces mem c.ip (is ++ c.pending mem) := by
  have hcopy := h.copy_le
  rw [Compressor.pending]
  split
  · have hrep := h.reproduces.literals c.copy
    rwa [Nat.sub_add_cancel hcopy] at hrep
  · rename_i hzero
    have hrep := h.reproduces
    rwa [Decidable.not_not.mp hzero, Nat.sub_zero, ← List.append_nil is] at hrep

theorem pending_length (h : c.Inv lvl mem is) :
    32 * (serial lvl (is ++ c.pending mem)).length ≤ 33 * c.ip + 32 - c.copy := by
  have hsize := h.size_le
  have hcopy := h.copy_le
  have hlt := h.copy_lt
  rw [Compressor.pending, serial_append, List.length_append]
  split
  · rw [serial_singleton, encode, List.length_cons, operandsOf, values_length]
    omega
  · rw [serial_nil, List.length_nil]
    omega

theorem pending_starts (h : c.Inv lvl mem is) : ∃ run js, is ++ c.pending mem = .literals run :: js := by
  rcases h.starts with ⟨rfl, hpos⟩ | ⟨run, js, rfl⟩
  · rw [Compressor.pending, if_pos (Nat.ne_of_gt hpos)]
    exact ⟨_, [], rfl⟩
  · exact ⟨run, js ++ c.pending mem, rfl⟩

/-- A literal is one more byte of the run, or the last of a full one. -/
theorem literal (h : c.Inv lvl mem is) {htab : ℕ → ℕ} (hhtab : ∀ x, htab x < c.ip + 1) :
    ∃ js, (({ c with htab := htab } : Compressor).literal mem).Inv lvl mem js := by
  have hcopy := h.copy_le
  have hlt := h.copy_lt
  have hrun : values mem (c.ip - c.copy) (c.copy + 1) =
      values mem (c.ip - c.copy) c.copy ++ [mem c.ip] := by
    rw [values_succ, Nat.sub_add_cancel hcopy]
  have hstart : c.ip + 1 - (c.copy + 1) = c.ip - c.copy := by omega
  rw [Compressor.literal]
  split
  · rename_i hfull
    change c.copy + 1 = MAX_COPY at hfull
    rw [hfull] at hrun
    have hrep := h.reproduces.literals MAX_COPY
    have hend : c.ip - c.copy + MAX_COPY = c.ip + 1 := by omega
    rw [hend] at hrep
    have henc : Encodable lvl (.literals (values mem (c.ip - c.copy) MAX_COPY)) := by
      cases lvl with
      | one | two => exact ⟨by rw [values_length]; decide, by rw [values_length]⟩
    refine ⟨is ++ [.literals (values mem (c.ip - c.copy) MAX_COPY)], Nat.zero_le _,
      show 0 < 32 by decide, ?_, ?_, hrep, hhtab, ?_, ?_⟩
    · dsimp only
      rw [h.out_eq, serial_append, serial_singleton, encode, codeOf, operandsOf, values_length, hrun]
      simp
    · intro i hi
      rcases List.mem_append.mp hi with hi | hi
      · exact h.encodable i hi
      · rw [List.mem_singleton.mp hi]
        exact henc
    · have hsize := h.size_le
      change 32 * _ ≤ 33 * (c.ip + 1 - 0)
      rw [serial_append, serial_singleton, encode, operandsOf, List.length_append, List.length_cons,
        values_length]
      change c.copy + 1 = 32 at hfull
      change 32 * ((serial lvl is).length + (32 + 1)) ≤ _
      omega
    · rcases h.starts with ⟨rfl, -⟩ | ⟨run, js, rfl⟩
      · exact .inr ⟨_, [], rfl⟩
      · exact .inr ⟨run, js ++ _, rfl⟩
  · rename_i hroom
    change ¬ c.copy + 1 = 32 at hroom
    refine ⟨is, ?_, ?_, ?_, h.encodable, ?_, hhtab, ?_, ?_⟩
    · exact Nat.succ_le_succ hcopy
    · change c.copy + 1 < 32
      omega
    · dsimp only
      rw [h.out_eq, hstart, hrun, List.append_assoc, List.cons_append]
    · dsimp only
      rw [hstart]
      exact h.reproduces
    · dsimp only
      rw [hstart]
      exact h.size_le
    · rcases h.starts with ⟨hnil, hpos⟩ | hliterals
      · exact .inl ⟨hnil, Nat.le_succ_of_le hpos⟩
      · exact .inr hliterals

/-- One round of the main loop: a literal, or a match for what it has been followed over. -/
theorem step (h : c.Inv lvl mem is) (hip : 1 ≤ c.ip) (hlimit : c.ip + 12 < length) :
    (∃ js, (compressStep mem lvl length c).Inv lvl mem js) ∧
      c.ip < (compressStep mem lvl length c).ip ∧ (compressStep mem lvl length c).ip < length := by
  have hhtab := findMatch_htab mem lvl h.htab
  have hmatches (distance len : ℕ) (hfound : _ = some (distance, len)) :=
    findMatch_matches mem lvl h.htab hip hfound
  rw [compressStep]
  generalize findMatch mem lvl c.htab c.ip = found at hhtab hmatches
  obtain ⟨_ | ⟨distance, len⟩, htab⟩ := found
  · dsimp only at hhtab ⊢
    refine ⟨h.literal hhtab, ?_⟩
    rw [literal_ip]
    change c.ip < c.ip + 1 ∧ c.ip + 1 < length
    omega
  · have hmatch := hmatches distance len rfl
    obtain ⟨hmin, hmax, hrepeats⟩ := matchEnd_spec hmatch hlimit
    have hthree := hmatch.three_le
    dsimp only at hhtab ⊢
    generalize matchEnd mem length c.ip distance len = stop at hmin hmax hrepeats ⊢
    have hstop : stop - 1 = c.ip + (stop - 3 - c.ip + 2) := by omega
    rw [hstop] at hrepeats
    have hfar (hlvl : lvl = .two) (hdistance : Level.two.MAX_DISTANCE ≤ distance) :
        3 ≤ stop - 3 - c.ip := by
      have hfive := hmatch.far hlvl hdistance
      omega
    obtain ⟨js, hput, hjs⟩ := putMatch_stands h.pending_reproduces hmatch.pos hmatch.le_anchor
      hmatch.lt_limit (by omega) hfar hrepeats
    have hnext : stop - 3 + 2 = c.ip + (stop - 3 - c.ip + 2) := by omega
    refine ⟨⟨is ++ c.pending mem ++ js, Nat.zero_le _, show 0 < 32 by decide, ?_, ?_, ?_, ?_, ?_, ?_⟩,
      by omega, by omega⟩
    · dsimp only
      rw [h.closeRun_eq, hput, serial_append lvl (is ++ c.pending mem) js, values_zero]
    · intro i hi
      rcases List.mem_append.mp hi with hi | hi
      · exact h.pending_encodable i hi
      · exact hjs.encodable i hi
    · change Reproduces mem (stop - 3 + 2) _
      rw [hnext]
      exact hjs.reproduces
    · intro x
      dsimp only
      have hold := hhtab x
      rw [Function.update_apply, Function.update_apply]
      split
      · omega
      · split
        · omega
        · omega
    · have hsize := h.pending_length
      have hcost := hjs.size_le
      change 32 * _ ≤ 33 * (stop - 3 + 2)
      rw [serial_append, List.length_append]
      omega
    · obtain ⟨run, js', hstarts⟩ := h.pending_starts
      exact .inr ⟨run, js' ++ js, by rw [hstarts, List.cons_append]⟩

end Compressor.Inv

/-- The compressor somewhere in its loops. -/
def Compressor.Reached (lvl : Level) (mem : ℕ → Byte) (length : ℕ) (c : Compressor) : Prop :=
  (∃ is, c.Inv lvl mem is) ∧ 2 ≤ c.ip ∧ c.ip ≤ length

theorem mainLoop_reached (n : ℕ) {c : Compressor} (h : c.Reached lvl mem length) :
    (mainLoop mem lvl length n c).Reached lvl mem length := by
  induction n generalizing c with
  | zero => exact h
  | succ n ih =>
    rw [mainLoop]
    split
    · rename_i hlimit
      obtain ⟨⟨is, hinv⟩, hmin, -⟩ := h
      obtain ⟨hnext, hlt, hle⟩ := hinv.step (Nat.le_of_succ_le hmin) hlimit
      exact ih ⟨hnext, hmin.trans (Nat.le_of_lt hlt), Nat.le_of_lt hle⟩
    · exact h

theorem leftOver_reached (n : ℕ) {c : Compressor} (h : c.Reached lvl mem length) :
    (leftOver mem length n c).Reached lvl mem length := by
  induction n generalizing c with
  | zero => exact h
  | succ n ih =>
    rw [leftOver]
    split
    · rename_i hlt
      obtain ⟨⟨is, hinv⟩, hmin, -⟩ := h
      have hnext := hinv.literal fun x => Nat.lt_succ_of_lt (hinv.htab x)
      refine ih ⟨hnext, ?_, ?_⟩
      · rw [literal_ip]
        exact Nat.le_succ_of_le hmin
      · rw [literal_ip]
        exact hlt
    · exact h

/-- A round of the main loop consumes input, so the rounds suffice. -/
theorem mainLoop_ends {n : ℕ} {c : Compressor} (h : c.Reached lvl mem length)
    (hn : length - c.ip ≤ n) : ¬ (mainLoop mem lvl length n c).ip + 12 < length := by
  induction n generalizing c with
  | zero =>
    rw [mainLoop]
    omega
  | succ n ih =>
    rw [mainLoop]
    split
    · rename_i hlimit
      obtain ⟨⟨is, hinv⟩, hmin, -⟩ := h
      obtain ⟨hnext, hlt, hle⟩ := hinv.step (Nat.le_of_succ_le hmin) hlimit
      exact ih ⟨hnext, hmin.trans (Nat.le_of_lt hlt), Nat.le_of_lt hle⟩ (by omega)
    · assumption

theorem leftOver_ends {n : ℕ} {c : Compressor} (hle : c.ip ≤ length) (hn : length - c.ip ≤ n) :
    (leftOver mem length n c).ip = length := by
  induction n generalizing c with
  | zero =>
    rw [leftOver]
    omega
  | succ n ih =>
    rw [leftOver]
    split
    · rename_i hlt
      apply ih
      · rw [literal_ip]
        exact hlt
      · rw [literal_ip]
        omega
    · omega

theorem start_reached (mem : ℕ → Byte) (lvl : Level) (hlength : 4 ≤ length) :
    (Compressor.start mem).Reached lvl mem length :=
  ⟨⟨[], .start⟩, Nat.le_refl 2, (by decide : 2 ≤ 4).trans hlength⟩

/-- The rounds the model grants the two loops are enough for them to end by themselves. -/
theorem loops_end (mem : ℕ → Byte) (lvl : Level) {length : ℕ} (hlength : 4 ≤ length) :
    ¬ (mainLoop mem lvl length length (Compressor.start mem)).ip + 12 < length ∧
      (leftOver mem length length
        (mainLoop mem lvl length length (Compressor.start mem))).ip = length :=
  ⟨mainLoop_ends (start_reached mem lvl hlength) (Nat.sub_le ..),
    leftOver_ends (mainLoop_reached length (start_reached mem lvl hlength)).2.2 (Nat.sub_le ..)⟩

/-- The coded form with the level in its first byte. -/
def marked : Level → List Byte → List Byte
  | .one, out => out
  | .two, out => out.modifyHead (· ||| 32)

/-- What the compressor makes of four bytes or more. -/
theorem compress_serial (mem : ℕ → Byte) (lvl : Level) {length : ℕ} (hlength : 4 ≤ length) :
    ∃ run js, lvl.compress mem length = marked lvl (serial lvl (.literals run :: js)) ∧
      (∀ i ∈ Instr.literals run :: js, Encodable lvl i) ∧
      Reproduces mem length (.literals run :: js) ∧
      32 * (serial lvl (.literals run :: js)).length ≤ 33 * length + 32 := by
  have hreached := leftOver_reached length
    (mainLoop_reached length (start_reached mem lvl hlength))
  have hend := (loops_end mem lvl hlength).2
  obtain ⟨⟨is, hinv⟩, -, -⟩ := hreached
  obtain ⟨run, js, hstarts⟩ := hinv.pending_starts
  have hclose := hinv.closeRun_eq
  have henc := hinv.pending_encodable
  have hrep := hinv.pending_reproduces
  have hsize := hinv.pending_length
  rw [hend] at hrep hsize
  rw [hstarts] at hclose henc hrep hsize
  refine ⟨run, js, ?_, henc, hrep, by omega⟩
  rw [Level.compress, if_neg (Nat.not_lt.mpr hlength)]
  cases lvl with
  | one => exact hclose
  | two => exact congrArg (marked .two) hclose

end Loops

/-! ## The round trip -/

section RoundTrip
variable {mem mem' : ℕ → Byte} {lvl : Level} {length maxout fuel : ℕ}

theorem marked_length (lvl : Level) (out : List Byte) : (marked lvl out).length = out.length := by
  cases lvl with
  | one => rfl
  | two => exact List.length_modifyHead

/-- The first byte of a marked list is the code of a run and the level. -/
private theorem marked_code {run : List Byte} {js : List (Instr Byte)} (hrun : run.length ≤ 32)
    (hmem : Holds mem 0 (marked lvl (serial lvl (.literals run :: js)))) :
    (mem 0).toNat % 32 = run.length - 1 ∧ (mem 0).toNat / 32 = (if lvl = .one then 0 else 1) ∧
      Holds mem 1 (run ++ serial lvl js) := by
  cases lvl with
  | one =>
    obtain ⟨hcode, hrest⟩ := holds_cons.mp hmem
    have hnat : (mem 0).toNat = run.length - 1 := by
      rw [hcode, codeOf, BitVec.toNat_ofNat]
      omega
    rw [if_pos rfl]
    exact ⟨by omega, by omega, hrest⟩
  | two =>
    rw [marked, serial_cons, List.modifyHead_cons] at hmem
    obtain ⟨hcode, hrest⟩ := holds_cons.mp hmem
    have hor : 2 ^ 5 * 1 + (run.length - 1) = 2 ^ 5 * 1 ||| (run.length - 1) :=
      Nat.two_pow_add_eq_or_of_lt (by omega) 1
    have hnat : (mem 0).toNat = 32 + (run.length - 1) := by
      rw [hcode, codeOf, BitVec.toNat_or, BitVec.toNat_ofNat, Nat.mod_eq_of_lt (by omega), Nat.or_comm]
      exact hor.symm
    rw [if_neg (by decide)]
    exact ⟨by omega, by omega, hrest⟩

/-- The decompressor takes the level from the first byte, and expands the rest. -/
theorem fastlzDecompress_marked (lvl : Level) {run : List Byte} {js : List (Instr Byte)}
    (henc : ∀ i ∈ Instr.literals run :: js, Encodable lvl i)
    (hrep : Reproduces mem length (.literals run :: js))
    (hmem : Holds mem' 0 (marked lvl (serial lvl (.literals run :: js)))) (hword : length < 2 ^ 32)
    (hroom : length ≤ maxout) (hfuel : (serial lvl (.literals run :: js)).length ≤ fuel) :
    fastlzDecompress mem' (serial lvl (.literals run :: js)).length maxout fuel =
      some (values mem 0 length) := by
  obtain ⟨hcode, hlevel, hrest⟩ :=
    marked_code (henc _ List.mem_cons_self).run.2 hmem
  have hexpand : lvl.decompress mem' (serial lvl (.literals run :: js)).length maxout fuel =
      some (values mem 0 length) := by
    rw [← hrep.expands]
    apply Level.decompress_encoded hcode henc hrep.valid
    · rwa [hrep.totalSize_eq]
    · rwa [hrep.totalSize_eq]
    · exact hrest
    · rfl
    · exact hfuel
  rw [fastlzDecompress, hlevel]
  cases lvl with
  | one | two => exact hexpand

/-- Short input is one run of literals at either level. -/
theorem compress_short (mem : ℕ → Byte) (lvl : Level) (hmin : 1 ≤ length) (hmax : length < 4) :
    lvl.compress mem length = serial .one [.literals (values mem 0 length)] := by
  rw [Level.compress, if_pos hmax, if_pos (Nat.ne_of_gt hmin), serial_singleton, encode, codeOf,
    operandsOf, values_length]

/-- What either level has compressed is given back by the one decompressor. -/
theorem decompress_compress (mem : ℕ → Byte) (lvl : Level) (hmin : 1 ≤ length)
    (hword : length < 2 ^ 32) (hmem : Holds mem' 0 (lvl.compress mem length)) (hroom : length ≤ maxout)
    (hfuel : (lvl.compress mem length).length ≤ fuel) :
    fastlzDecompress mem' (lvl.compress mem length).length maxout fuel =
      some (values mem 0 length) := by
  rcases Nat.lt_or_ge length 4 with hshort | hlong
  · rw [compress_short mem lvl hmin hshort] at hmem hfuel ⊢
    apply fastlzDecompress_marked .one _ _ hmem hword hroom hfuel
    · intro i hi
      rw [List.mem_singleton.mp hi]
      have hrun : 1 ≤ (values mem 0 length).length ∧ (values mem 0 length).length ≤ MAX_COPY := by
        rw [values_length]
        exact ⟨hmin, (Nat.le_of_lt hshort).trans (by decide)⟩
      exact hrun
    · have hrep := (Reproduces.nil mem).literals length
      rwa [Nat.zero_add] at hrep
  · obtain ⟨run, js, hcompress, henc, hrep, -⟩ := compress_serial mem lvl hlong
    rw [hcompress, marked_length] at hfuel ⊢
    rw [hcompress] at hmem
    exact fastlzDecompress_marked lvl henc hrep hmem hword hroom hfuel

/-- A buffer as a memory begins with its bytes. -/
theorem values_byte (x : List Byte) (behind : ℕ → Byte) :
    values (Buffer.byte ⟨x, behind⟩) 0 x.length = x := by
  apply List.ext_getElem
  · exact values_length ..
  · intro i hi hi'
    simp [values, Buffer.byte, hi']

/-- A run of 40 bytes at level 2. -/
theorem run_decompress_compress :
    fastlzDecompress (Buffer.byte ⟨Level.two.compress (fun _ => 7) 40, fun _ => 0⟩)
      (Level.two.compress (fun _ => 7) 40).length 40 (Level.two.compress (fun _ => 7) 40).length =
      some (values (fun _ => 7) 0 40) :=
  decompress_compress (fun _ => 7) .two (by decide) (by decide) (values_byte _ _) (Nat.le_refl _) (Nat.le_refl _)

/-- A thirty-second more than the input, and one byte. -/
theorem compress_length_le (mem : ℕ → Byte) (lvl : Level) (length : ℕ) :
    (lvl.compress mem length).length ≤ length + length / 32 + 1 := by
  rcases Nat.lt_or_ge length 4 with hshort | hlong
  · rw [Level.compress, if_pos hshort]
    split
    · rw [List.length_cons, values_length]
      omega
    · exact Nat.zero_le _
  · obtain ⟨run, js, hcompress, -, -, hsize⟩ := compress_serial mem lvl hlong
    rw [hcompress, marked_length]
    omega

/-- The bytes written so far, the place of the next code included. -/
theorem loops_length_le (mem : ℕ → Byte) (lvl : Level) {length : ℕ} (hlength : 4 ≤ length)
    (n m : ℕ) :
    32 * (leftOver mem length m (mainLoop mem lvl length n (Compressor.start mem))).out.length ≤
      33 * length + 32 := by
  obtain ⟨⟨is, hinv⟩, -, hle⟩ := leftOver_reached m
    (mainLoop_reached n (start_reached mem lvl hlength))
  have hlen := hinv.out_length
  have hsize := hinv.size_le
  have hcopy := hinv.copy_le
  omega

/-- At no time has more been written than the documented size of the output buffer, at least 66
bytes and 5% more than the input. -/
theorem loops_fit (mem : ℕ → Byte) (lvl : Level) {length : ℕ} (hlength : 4 ≤ length) (n m : ℕ) :
    100 * (leftOver mem length m (mainLoop mem lvl length n (Compressor.start mem))).out.length ≤
      max 6600 (105 * length) := by
  have hle := loops_length_le mem lvl hlength n m
  omega

/-- On 64 bytes that never repeat. -/
theorem sixtyFour_loops_fit :
    100 * (leftOver (fun i => BitVec.ofNat 8 i) 64 64
      (mainLoop (fun i => BitVec.ofNat 8 i) .one 64 64
        (Compressor.start fun i => BitVec.ofNat 8 i))).out.length ≤ max 6600 (105 * 64) :=
  loops_fit _ .one (by decide) 64 64

end RoundTrip

end WiotaDev.FastLzBlocks
