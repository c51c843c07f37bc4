import WiotaDev.Md5
import WiotaDev.BlockHashing
import WiotaDev.HeapBlocks
import WiotaDev.OtaFlashTransfers

/-! # The contexts of `tiny_md5.c`

A context holds the state, the bytes that wait for their block and the length so far, whatever
its buffer held before. In any division of a message into pieces it gives the message's digest. -/

namespace WiotaDev.Md5
open WordBytes BlockHashing HeapBlocks

/-! ## The code -/

/-- `tiny_md5_context`. -/
structure Context where
  total0 : Word
  total1 : Word
  state : State
  buffer : List Byte
  ipad : List Byte
  opad : List Byte

def initial : State := ⟨0x67452301, 0xEFCDAB89, 0x98BADCFE, 0x10325476⟩

def tinyMd5Starts (ctx : Context) : Context := { ctx with total0 := 0, total1 := 0, state := initial }

/-- What `tiny_md5_update` goes on with once a block that had been begun is filled. -/
structure Filled where
  state : State
  buffer : List Byte
  left : ℕ
  input : List Byte

def fillBlock (ctx : Context) (input : List Byte) : Filled :=
  let left := (ctx.total0 &&& 0x3F).toNat
  let fill := 64 - left
  if left ≠ 0 ∧ fill ≤ input.length then
    let buffer := overwrite ctx.buffer left (input.take fill)
    ⟨md5Process ctx.state buffer, buffer, 0, input.drop fill⟩
  else ⟨ctx.state, ctx.buffer, left, input⟩

/-- `while (ilen >= 64)`, in at most `n` rounds. -/
def processLoop : ℕ → State → List Byte → State × List Byte
  | 0, s, input => (s, input)
  | n + 1, s, input =>
    if 64 ≤ input.length then processLoop n (md5Process s (input.take 64)) (input.drop 64)
    else (s, input)

def tinyMd5Update (ctx : Context) (input : List Byte) : Context :=
  if input.length = 0 then ctx
  else
    let ilen := BitVec.ofNat 32 input.length
    let total0 := ctx.total0 + ilen
    let filled := fillBlock ctx input
    let processed := processLoop input.length filled.state filled.input
    { ctx with
      total0 := total0
      total1 := if total0 < ilen then ctx.total1 + 1 else ctx.total1
      state := processed.1
      buffer :=
        if 0 < processed.2.length then overwrite filled.buffer filled.left processed.2
        else filled.buffer }

def md5Padding : List Byte := 0x80 :: List.replicate 63 0

/-- The digest, and the context as it is left. -/
def tinyMd5Finish (ctx : Context) : List Byte × Context :=
  let high := ctx.total0 >>> 29 ||| ctx.total1 <<< 3
  let low := ctx.total0 <<< 3
  let last := (ctx.total0 &&& 0x3F).toNat
  let padn := if last < 56 then 56 - last else 120 - last
  let ctx := tinyMd5Update ctx (md5Padding.take padn)
  let ctx := tinyMd5Update ctx (bytesOf low ++ bytesOf high)
  (bytesOf ctx.state.a ++ bytesOf ctx.state.b ++ bytesOf ctx.state.c ++ bytesOf ctx.state.d, ctx)

/-- `tiny_md5`, on a stack whose content is arbitrary. -/
def tinyMd5 (stack : Context) (input : List Byte) : List Byte :=
  (tinyMd5Finish (tinyMd5Update (tinyMd5Starts stack) input)).1

/-- `for (i = 0; i < keylen; i++) pad[i] ^= key[i];` -/
def xorInto : List Byte → List Byte → List Byte
  | pad, [] => pad
  | [], _ => []
  | p :: pad, k :: key => (p ^^^ k) :: xorInto pad key

def tinyMd5HmacStarts (stack ctx : Context) (key : List Byte) : Context :=
  let key := if 64 < key.length then tinyMd5 stack key else key
  let ctx := { ctx with
    ipad := xorInto (List.replicate 64 0x36) key
    opad := xorInto (List.replicate 64 0x5C) key }
  tinyMd5Update (tinyMd5Starts ctx) ctx.ipad

def tinyMd5HmacUpdate (ctx : Context) (input : List Byte) : Context := tinyMd5Update ctx input

def tinyMd5HmacFinish (ctx : Context) : List Byte :=
  let (tmpbuf, ctx) := tinyMd5Finish ctx
  let ctx := tinyMd5Update (tinyMd5Starts ctx) ctx.opad
  (tinyMd5Finish (tinyMd5Update ctx tmpbuf)).1

/-- `tiny_md5_hmac`. -/
def tinyMd5Hmac (stack ctx : Context) (key input : List Byte) : List Byte :=
  tinyMd5HmacFinish (tinyMd5HmacUpdate (tinyMd5HmacStarts stack ctx key) input)

/-! ## The algorithm -/

/-- A one bit, and zeros up to the place of the length. -/
def padding (length : ℕ) : List Byte := 0x80 :: List.replicate ((119 - length % 64) % 64) 0

/-- The number of bits, the lower word first. -/
def lengthField (length : ℕ) : List Byte :=
  bytesOf (BitVec.ofNat 32 (8 * length)) ++ bytesOf (BitVec.ofNat 32 (8 * length / 2 ^ 32))

def digestOf (s : State) : List Byte := bytesOf s.a ++ bytesOf s.b ++ bytesOf s.c ++ bytesOf s.d

def md5 (message : List Byte) : List Byte :=
  digestOf (chain compress 64 initial
    (message ++ padding message.length ++ lengthField message.length))

/-- The key as HMAC uses it: a long one is replaced by its digest, a short one filled with zeros. -/
def hmacKey (key : List Byte) : List Byte :=
  let key := if 64 < key.length then md5 key else key
  key ++ List.replicate (64 - key.length) 0

def hmac (key text : List Byte) : List Byte :=
  md5 ((hmacKey key).map (· ^^^ 0x5C) ++ md5 ((hmacKey key).map (· ^^^ 0x36) ++ text))

/-! ## A context is a buffered hash -/

/-- The state of a context and the bytes that wait in it. -/
def Context.buffered (ctx : Context) : Buffered State Byte :=
  ⟨ctx.state, ctx.buffer.take (ctx.total0.toNat % 64)⟩

theorem left_eq (w : Word) : (w &&& 0x3F).toNat = w.toNat % 64 := by
  rw [BitVec.toNat_and]
  exact Nat.and_two_pow_sub_one_eq_mod w.toNat 6

theorem processLoop_eq {n : ℕ} (s : State) {input : List Byte} (hn : input.length ≤ n) :
    processLoop n s input = (chain md5Process 64 s input, rest 64 input) := by
  induction n generalizing s input with
  | zero =>
    obtain rfl := List.length_eq_zero_iff.mp (Nat.le_zero.mp hn)
    rfl
  | succ n ih =>
    rw [processLoop]
    split
    · rename_i hblock
      have hle : (input.drop 64).length ≤ n := by
        rw [List.length_drop]
        omega
      rw [ih _ hle, chain_block _ (by decide) s hblock, rest_block (by decide) hblock]
    · rename_i hshort
      rw [chain_short _ _ (Nat.lt_of_not_le hshort), rest_short _ (Nat.lt_of_not_le hshort)]

theorem overwrite_length (buf : List Byte) (offset : ℕ) (bytes : List Byte) :
    (overwrite buf offset bytes).length = buf.length := by
  rw [overwrite, List.length_take, List.length_append, List.length_append, List.length_take,
    List.length_drop]
  omega

/-- Once the begun block is filled, what is to be absorbed and what will wait are the same, and
either nothing waits or no block will be filled. -/
theorem fillBlock_spec {ctx : Context} (hbuffer : ctx.buffer.length = 64) (input : List Byte) :
    (fillBlock ctx input).buffer.length = 64 ∧
      ((fillBlock ctx input).left = 0 ∨
        (fillBlock ctx input).left + (fillBlock ctx input).input.length < 64) ∧
      (fillBlock ctx input).input.length ≤ input.length ∧
      ctx.buffered.feed md5Process 64 input =
        Buffered.feed md5Process 64 ⟨(fillBlock ctx input).state,
          (fillBlock ctx input).buffer.take (fillBlock ctx input).left⟩ (fillBlock ctx input).input := by
  have hleft := left_eq ctx.total0
  have hlt := Nat.mod_lt ctx.total0.toNat (by decide : 0 < 64)
  rw [Context.buffered, fillBlock]
  dsimp only
  rw [hleft]
  generalize ctx.total0.toNat % 64 = left at hlt
  split
  · rename_i hfill
    obtain ⟨hpos, hfull⟩ := hfill
    have hwaiting : (ctx.buffer.take left).length = left := by
      rw [List.length_take]
      omega
    have htaken : (input.take (64 - left)).length = 64 - left := by
      rw [List.length_take]
      omega
    have hblock : overwrite ctx.buffer left (input.take (64 - left)) =
        (ctx.buffer.take left ++ input).take 64 := by
      have hroom : left + (input.take (64 - left)).length ≤ ctx.buffer.length := by omega
      have hwhole : (ctx.buffer.take left).length ≤ 64 := by omega
      have htake := take_overwrite hroom
      rw [htaken, Nat.add_sub_cancel' (Nat.le_of_lt hlt), List.take_of_length_le] at htake
      · rw [htake, List.take_append, hwaiting, List.take_of_length_le hwhole]
      · rw [overwrite_length, hbuffer]
    have hdrop : (ctx.buffer.take left ++ input).drop 64 = input.drop (64 - left) := by
      rw [List.drop_append, hwaiting, List.drop_eq_nil_of_le (by omega), List.nil_append]
    have hlong : 64 ≤ (ctx.buffer.take left ++ input).length := by
      rw [List.length_append]
      omega
    refine ⟨by rw [overwrite_length, hbuffer], .inl rfl, by rw [List.length_drop]; omega, ?_⟩
    rw [Buffered.feed, Buffered.feed, chain_block _ (by decide) _ hlong, rest_block (by decide) hlong,
      hblock, hdrop, List.take_zero, List.nil_append]
  · rename_i hshort
    exact ⟨hbuffer, by dsimp only; omega, Nat.le_refl _, rfl⟩

theorem total0_toNat (w : Word) (n : ℕ) :
    (w + BitVec.ofNat 32 n).toNat % 64 = (w.toNat % 64 + n) % 64 := by
  rw [BitVec.toNat_add, BitVec.toNat_ofNat]
  omega

/-- The bytes left over are put behind those that waited. -/
private theorem take_store {buf w : List Byte} {left : ℕ} (h : left + w.length ≤ buf.length) :
    (if 0 < w.length then overwrite buf left w else buf).take (left + w.length) =
      buf.take left ++ w := by
  split
  · exact take_overwrite h
  · rename_i hnil
    obtain rfl := List.length_eq_zero_iff.mp (Nat.eq_zero_of_not_pos hnil)
    rw [List.length_nil, Nat.add_zero, List.append_nil]

/-- `tiny_md5_update` feeds the buffered hash. -/
theorem tinyMd5Update_buffered {ctx : Context} (hbuffer : ctx.buffer.length = 64)
    {input : List Byte} (hlen : input.length < 2 ^ 31) :
    (tinyMd5Update ctx input).buffer.length = 64 ∧
      (tinyMd5Update ctx input).buffered = ctx.buffered.feed md5Process 64 input := by
  have hwaiting : ctx.buffered.waiting.length = ctx.total0.toNat % 64 := by
    rw [Context.buffered, List.length_take]
    omega
  rw [tinyMd5Update]
  split
  · rename_i hnil
    obtain rfl := List.length_eq_zero_iff.mp hnil
    refine ⟨hbuffer, (Buffered.feed_nil md5Process ?_).symm⟩
    rw [hwaiting]
    exact Nat.mod_lt _ (by decide)
  obtain ⟨hsize, hroom, hle, hfeed⟩ := fillBlock_spec hbuffer input
  have hnext : (ctx.buffered.feed md5Process 64 input).waiting.length =
      (ctx.total0 + BitVec.ofNat 32 input.length).toNat % 64 := by
    rw [Buffered.feed, rest_length, List.length_append, hwaiting, total0_toNat]
  rw [hfeed, Buffered.feed] at hnext ⊢
  dsimp only at hnext ⊢
  rw [processLoop_eq _ hle, Context.buffered]
  dsimp only
  rw [← hnext]
  generalize fillBlock ctx input = filled at *
  have hrest := rest_length 64 filled.input
  constructor
  · split
    · rw [overwrite_length, hsize]
    · exact hsize
  rcases hroom with hzero | hshort
  · rw [hzero, List.take_zero, List.nil_append]
    have hstored := take_store (show 0 + (rest 64 filled.input).length ≤ filled.buffer.length by omega)
    rw [Nat.zero_add, List.take_zero, List.nil_append] at hstored
    rw [hstored]
  · have hfit : (filled.buffer.take filled.left ++ filled.input).length < 64 := by
      rw [List.length_append, List.length_take]
      omega
    have hwhole : (filled.buffer.take filled.left ++ filled.input).length =
        filled.left + filled.input.length := by
      rw [List.length_append, List.length_take]
      omega
    have hstored := take_store (show filled.left + filled.input.length ≤ filled.buffer.length by omega)
    rw [chain_short _ _ hfit, rest_short _ hfit, chain_short _ _ (by omega), rest_short _ (by omega),
      hwhole, hstored]

/-! ## Digests -/

/-- The context has been fed a message. -/
structure Fed (ctx : Context) (message : List Byte) : Prop where
  buffer : ctx.buffer.length = 64
  total0 : ctx.total0 = BitVec.ofNat 32 message.length
  total1 : ctx.total1 = BitVec.ofNat 32 (message.length / 2 ^ 32)
  buffered : ctx.buffered = Buffered.feed md5Process 64 ⟨initial, []⟩ message

theorem Fed.starts {ctx : Context} (hbuffer : ctx.buffer.length = 64) : Fed (tinyMd5Starts ctx) [] :=
  ⟨hbuffer, rfl, rfl, rfl⟩

/-- The carry of the count. -/
private theorem total_add (length n : ℕ) (hn : n < 2 ^ 31) :
    (if BitVec.ofNat 32 length + BitVec.ofNat 32 n < BitVec.ofNat 32 n then
      BitVec.ofNat 32 (length / 2 ^ 32) + 1 else BitVec.ofNat 32 (length / 2 ^ 32)) =
      BitVec.ofNat 32 ((length + n) / 2 ^ 32) := by
  have hcarry : BitVec.ofNat 32 length + BitVec.ofNat 32 n < BitVec.ofNat 32 n ↔
      2 ^ 32 ≤ length % 2 ^ 32 + n := by
    rw [BitVec.lt_def, BitVec.toNat_add, BitVec.toNat_ofNat, BitVec.toNat_ofNat]
    omega
  split
  · rename_i hlt
    have hover := hcarry.mp hlt
    have hone : (1 : Word) = BitVec.ofNat 32 1 := rfl
    rw [hone, ← BitVec.ofNat_add]
    congr 1
    omega
  · rename_i hge
    have hunder := mt hcarry.mpr hge
    congr 1
    omega

theorem Fed.update {ctx : Context} {message input : List Byte} (h : Fed ctx message)
    (hlen : input.length < 2 ^ 31) : Fed (tinyMd5Update ctx input) (message ++ input) := by
  obtain ⟨hbuffer, hfeed⟩ := tinyMd5Update_buffered h.buffer hlen
  rw [h.buffered, Buffered.feed_feed md5Process (by decide)] at hfeed
  refine ⟨hbuffer, ?_, ?_, hfeed⟩
  · rw [tinyMd5Update]
    split
    · rename_i hnil
      rw [List.length_append, hnil, Nat.add_zero]
      exact h.total0
    · rw [List.length_append, BitVec.ofNat_add, ← h.total0]
  · rw [tinyMd5Update]
    split
    · rename_i hnil
      rw [List.length_append, hnil, Nat.add_zero]
      exact h.total1
    · dsimp only
      rw [h.total0, h.total1, List.length_append]
      exact total_add _ _ hlen

/-- A context is fed what it is fed piece by piece. -/
theorem Fed.foldl {ctx : Context} {message : List Byte} {pieces : List (List Byte)}
    (h : Fed ctx message) (hlen : ∀ p ∈ pieces, p.length < 2 ^ 31) :
    Fed (pieces.foldl tinyMd5Update ctx) (message ++ pieces.flatten) := by
  induction pieces generalizing ctx message with
  | nil => rwa [List.flatten_nil, List.append_nil]
  | cons p pieces ih =>
    rw [List.foldl_cons, List.flatten_cons, ← List.append_assoc]
    exact ih (h.update (hlen p List.mem_cons_self)) fun q hq => hlen q (List.mem_cons_of_mem p hq)

private theorem low_eq (n : ℕ) : BitVec.ofNat 32 n <<< 3 = BitVec.ofNat 32 (8 * n) := by
  apply BitVec.eq_of_toNat_eq
  rw [BitVec.toNat_shiftLeft, BitVec.toNat_ofNat, BitVec.toNat_ofNat, Nat.shiftLeft_eq]
  omega

private theorem high_eq (n : ℕ) :
    BitVec.ofNat 32 n >>> 29 ||| BitVec.ofNat 32 (n / 2 ^ 32) <<< 3 =
      BitVec.ofNat 32 (8 * n / 2 ^ 32) := by
  have hlow : (n % 2 ^ 32) / 2 ^ 29 < 2 ^ 3 := by omega
  have hshift : n / 2 ^ 32 % 2 ^ 32 * 2 ^ 3 % 2 ^ 32 = 2 ^ 3 * (n / 2 ^ 32 % 2 ^ 29) := by omega
  have hor := Nat.two_pow_add_eq_or_of_lt hlow (n / 2 ^ 32 % 2 ^ 29)
  apply BitVec.eq_of_toNat_eq
  rw [BitVec.toNat_or, BitVec.toNat_ushiftRight, BitVec.toNat_shiftLeft, BitVec.toNat_ofNat,
    BitVec.toNat_ofNat, BitVec.toNat_ofNat, Nat.shiftRight_eq_div_pow, Nat.shiftLeft_eq, hshift,
    Nat.or_comm, ← hor]
  omega

private theorem padding_eq (n : ℕ) :
    md5Padding.take (if n % 64 < 56 then 56 - n % 64 else 120 - n % 64) = padding n := by
  have hpadn : (if n % 64 < 56 then 56 - n % 64 else 120 - n % 64) =
      (119 - n % 64) % 64 + 1 := by
    split
    · omega
    · omega
  rw [hpadn, md5Padding, padding, List.take_succ_cons, List.take_replicate,
    Nat.min_eq_left (Nat.le_of_lt_succ (Nat.mod_lt _ (by decide)))]

theorem padding_length_lt (n : ℕ) : (padding n).length < 2 ^ 31 := by
  rw [padding, List.length_cons, List.length_replicate]
  omega

theorem md5Process_eq_compress : md5Process = compress := by
  funext state data
  exact md5Process_eq state data

/-- What has been fed is digested. -/
theorem Fed.finish {ctx : Context} {message : List Byte} (h : Fed ctx message) :
    (tinyMd5Finish ctx).1 = md5 message ∧ (tinyMd5Finish ctx).2.buffer.length = 64 := by
  have hlast : (ctx.total0 &&& 0x3F).toNat = message.length % 64 := by
    rw [left_eq, h.total0, BitVec.toNat_ofNat]
    omega
  have hpadded := h.update (padding_length_lt message.length)
  have hlength : (lengthField message.length).length < 2 ^ 31 := by
    rw [lengthField, List.length_append, bytesOf_length, bytesOf_length]
    decide
  have hwhole := hpadded.update hlength
  have hstate := congrArg Buffered.state hwhole.buffered
  rw [Buffered.feed, md5Process_eq_compress] at hstate
  have hfield : bytesOf (ctx.total0 <<< 3) ++ bytesOf (ctx.total0 >>> 29 ||| ctx.total1 <<< 3) =
      lengthField message.length := by
    rw [h.total0, h.total1, low_eq, high_eq, lengthField]
  simp only [tinyMd5Finish, hlast, padding_eq, hfield]
  refine ⟨?_, hwhole.buffer⟩
  rw [md5, digestOf]
  dsimp only [Context.buffered, List.nil_append] at hstate
  rw [hstate]

/-- In any division into pieces, and whatever the context held before, the message is digested. -/
theorem pieces_digest (ctx : Context) (hbuffer : ctx.buffer.length = 64) (pieces : List (List Byte))
    (hlen : ∀ p ∈ pieces, p.length < 2 ^ 31) :
    (tinyMd5Finish (pieces.foldl tinyMd5Update (tinyMd5Starts ctx))).1 = md5 pieces.flatten :=
  ((Fed.starts hbuffer).foldl hlen).finish.1

theorem tinyMd5_eq {stack : Context} (hbuffer : stack.buffer.length = 64) {input : List Byte}
    (hlen : input.length < 2 ^ 31) : tinyMd5 stack input = md5 input :=
  ((Fed.starts hbuffer).update hlen).finish.1

example : tinyMd5 ⟨7, 7, ⟨0, 0, 0, 0⟩, List.replicate 64 7, [], []⟩ [0x61] = OtaFlash.md5OfA [0x61] := by
  decide +kernel

/-- A message of three bytes in two pieces. -/
theorem abc_pieces_digest :
    (tinyMd5Finish ([[0x61], [0x62, 0x63]].foldl tinyMd5Update
      (tinyMd5Starts ⟨0, 0, initial, List.replicate 64 0, [], []⟩))).1 = md5 [0x61, 0x62, 0x63] :=
  pieces_digest ⟨0, 0, initial, List.replicate 64 0, [], []⟩ rfl [[0x61], [0x62, 0x63]] (by decide)

theorem md5_length (message : List Byte) : (md5 message).length = 16 := rfl

/-! ## Keyed digests -/

theorem tinyMd5Update_opad (ctx : Context) (input : List Byte) :
    (tinyMd5Update ctx input).opad = ctx.opad := by
  rw [tinyMd5Update]
  split
  · rfl
  · rfl

theorem tinyMd5Finish_opad (ctx : Context) : (tinyMd5Finish ctx).2.opad = ctx.opad := by
  simp only [tinyMd5Finish, tinyMd5Update_opad]

/-- The pad with the key in it is the key, filled with zeros, with the pad in it. -/
theorem xorInto_eq (b : Byte) {n : ℕ} {key : List Byte} (hkey : key.length ≤ n) :
    xorInto (List.replicate n b) key =
      (key ++ List.replicate (n - key.length) 0).map (· ^^^ b) := by
  induction key generalizing n with
  | nil =>
    have hzero : (0 : Byte) ^^^ b = b := BitVec.zero_xor
    cases n with
    | zero => rfl
    | succ n => rw [List.nil_append, List.map_replicate, hzero]; rfl
  | cons k key ih =>
    obtain ⟨n, rfl⟩ := Nat.exists_eq_add_of_lt hkey
    have hrest : key.length ≤ key.length + n := Nat.le_add_right ..
    rw [List.replicate_succ, xorInto, ih hrest, List.cons_append, List.map_cons, List.length_cons,
      Nat.add_sub_add_right, BitVec.xor_comm]

/-- The key that goes into the pads. -/
private theorem key_length_le (key : List Byte) :
    (if 64 < key.length then md5 key else key).length ≤ 64 := by
  split
  · rw [md5_length]
    decide
  · omega

theorem hmacKey_length (key : List Byte) : (hmacKey key).length = 64 := by
  have hle := key_length_le key
  rw [hmacKey, List.length_append, List.length_replicate]
  omega

variable {stack ctx : Context} {key input : List Byte}

/-- The context has been fed the inner pad, and keeps the outer one. -/
theorem tinyMd5HmacStarts_fed (hstack : stack.buffer.length = 64) (hctx : ctx.buffer.length = 64)
    (hkey : key.length < 2 ^ 31) :
    Fed (tinyMd5HmacStarts stack ctx key) ((hmacKey key).map (· ^^^ 0x36)) ∧
      (tinyMd5HmacStarts stack ctx key).opad = (hmacKey key).map (· ^^^ 0x5C) := by
  have hle := key_length_le key
  have hpad : ((hmacKey key).map (· ^^^ 0x36)).length < 2 ^ 31 := by
    rw [List.length_map, hmacKey_length]
    decide
  have hfed (c : Context) (hc : c.buffer.length = 64) :
      Fed (tinyMd5Update (tinyMd5Starts c) ((hmacKey key).map (· ^^^ 0x36)))
        ((hmacKey key).map (· ^^^ 0x36)) := (Fed.starts hc).update hpad
  rw [tinyMd5HmacStarts, tinyMd5_eq hstack hkey]
  dsimp only
  constructor
  · rw [xorInto_eq _ hle]
    exact hfed _ hctx
  · rw [tinyMd5Update_opad]
    exact xorInto_eq _ hle

/-- `tiny_md5_hmac` is the keyed digest, whatever its contexts held before. -/
theorem tinyMd5Hmac_eq (hstack : stack.buffer.length = 64) (hctx : ctx.buffer.length = 64)
    (hkey : key.length < 2 ^ 31) (hinput : input.length < 2 ^ 31) :
    tinyMd5Hmac stack ctx key input = hmac key input := by
  obtain ⟨hstarts, hopad⟩ := tinyMd5HmacStarts_fed hstack hctx hkey
  obtain ⟨hinner, hbuffer⟩ := (hstarts.update hinput).finish
  have hpad : ((hmacKey key).map (· ^^^ 0x5C)).length < 2 ^ 31 := by
    rw [List.length_map, hmacKey_length]
    decide
  have hdigest : (md5 ((hmacKey key).map (· ^^^ 0x36) ++ input)).length < 2 ^ 31 := by
    rw [md5_length]
    decide
  have houter := ((Fed.starts hbuffer).update hpad).update hdigest
  rw [tinyMd5Hmac, tinyMd5HmacFinish, tinyMd5HmacUpdate]
  dsimp only
  rw [hinner, tinyMd5Finish_opad, tinyMd5Update_opad, hopad]
  exact houter.finish.1

theorem shortKey_tinyMd5Hmac_eq :
    tinyMd5Hmac ⟨0, 0, initial, List.replicate 64 0, [], []⟩ ⟨0, 0, initial, List.replicate 64 0, [], []⟩
      [0x4a, 0x65, 0x66, 0x65] [0x3f] = hmac [0x4a, 0x65, 0x66, 0x65] [0x3f] :=
  tinyMd5Hmac_eq rfl rfl (by decide) (by decide)

/-! ## The check of an image in flash -/

section Image
open OtaFlash

/-- `tiny_md5.c` as the check uses it, on a stack whose content is arbitrary. -/
def interface (stack : Context) : OtaFlash.TinyMd5 where
  Ctx := Context
  starts := tinyMd5Starts stack
  update := tinyMd5Update
  finish ctx := (tinyMd5Finish ctx).1

/-- The loop over the image feeds the context with what the abstract hash collects. -/
private theorem checkFlashLoop_fed (stack : Context) (fl : Flash) (flashAddr : ℕ) {flashSize : ℕ}
    (hsize : flashSize < 2 ^ 31) (fuel : ℕ) {dataOffset : ℕ} {ctx : Context}
    {message whole : List Byte} (h : Fed ctx message)
    (hloop : checkFlashLoop (.ofDigest md5) fl flashAddr flashSize fuel dataOffset message =
      some whole) :
    ∃ ctx', checkFlashLoop (interface stack) fl flashAddr flashSize fuel dataOffset ctx =
      some ctx' ∧ Fed ctx' whole := by
  induction fuel generalizing dataOffset ctx message with
  | zero => exact nomatch hloop
  | succ fuel ih =>
    simp only [checkFlashLoop] at hloop ⊢
    split
    · rename_i hlt
      rw [if_pos hlt] at hloop
      refine ih (h.update ?_) hloop
      rw [ucWiotaOtaFlashRead_eq, List.length_map, List.length_range]
      split
      · omega
      · decide
    · rename_i hend
      rw [if_neg hend] at hloop
      cases hloop
      exact ⟨ctx, rfl, h⟩

theorem ofDigest_md5_documented : (TinyMd5.ofDigest md5).Documented where
  streaming := TinyMd5.ofDigest_streaming md5
  update_nil := List.append_nil
  finish_length := md5_length

end Image

end WiotaDev.Md5
