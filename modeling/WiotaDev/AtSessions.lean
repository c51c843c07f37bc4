import WiotaDev.AtServer

/-! # What the AT server hears

The buffer holds the characters of a line that has not ended. With any input and any handlers it
stays within its bounds and what is dispatched are whole lines; what a host sends as lines, each
followed by what its handler reads, is dispatched line by line. -/

namespace WiotaDev.AtServer
open WordBytes LineFraming

/-! ## Listening for a line -/

/-- What a character makes of the characters that have been heard. -/
inductive Listened
  | stop
  | wait (pending : List Byte)
  | line (l : List Byte)

/-- A line ends with its end mark, an erasing key takes back a character where there is an echo,
and 255 characters without an end mark are dropped. -/
def listen (echo : Bool) (pending : List Byte) (ch : Byte) : Listened :=
  if ch = 0 then .wait pending
  else if ch = ESC_KEY then .stop
  else if echo = true ∧ (ch = BACKSPACE_KEY ∨ ch = DELECT_KEY) then .wait pending.dropLast
  else if Completes CR LF pending ch then .line (pending ++ [ch])
  else if pending.length + 2 = AT_SERVER_RECV_BUFF_LEN then .wait []
  else .wait (pending ++ [ch])

/-- The buffer holds these characters and zeros behind them. -/
structure Server.Holds (s : Server) (pending : List Byte) : Prop where
  buffer : s.recvBuffer = pending ++ List.replicate (AT_SERVER_RECV_BUFF_LEN - pending.length) 0
  len : s.curRecvLen = pending.length
  le : pending.length ≤ 254
  heard : ∀ c ∈ pending, c ≠ 0 ∧ c ≠ ESC_KEY
  noPair : ¬ [CR, LF] <:+: pending

theorem Server.Holds.clear (s : Server) : s.clear.Holds [] where
  buffer := rfl
  len := rfl
  le := Nat.zero_le _
  heard := fun _ h => absurd h List.not_mem_nil
  noPair := fun h => absurd (List.infix_nil.mp h) (List.cons_ne_nil _ _)

theorem Server.init_holds : Server.init.Holds [] := Server.Holds.clear Server.init

theorem cString_zeros {p : List Byte} (h : ∀ c ∈ p, c ≠ 0) (n : ℕ) :
    cString (p ++ List.replicate n 0) = p := by
  rw [cString, List.takeWhile_append_of_pos fun c hc => decide_eq_true (h c hc)]
  cases n with
  | zero => simp
  | succ n => simp [List.replicate_succ]

/-- Storing a character behind the others. -/
theorem Server.Holds.store {s : Server} {p : List Byte} (h : s.Holds p) (ch : Byte) :
    s.recvBuffer.set s.curRecvLen ch =
      p ++ [ch] ++ List.replicate (AT_SERVER_RECV_BUFF_LEN - (p ++ [ch]).length) 0 := by
  have hle := h.le
  have hroom : AT_SERVER_RECV_BUFF_LEN - p.length =
      AT_SERVER_RECV_BUFF_LEN - (p ++ [ch]).length + 1 := by
    change 256 - p.length = 256 - (p ++ [ch]).length + 1
    rw [List.length_append, List.length_singleton]
    omega
  rw [h.buffer, h.len, List.set_append_right _ _ (Nat.le_refl _), Nat.sub_self, hroom,
    List.replicate_succ, List.set_cons_zero, List.append_assoc, List.singleton_append]

/-- Taking back the last character. -/
theorem Server.Holds.erase {s : Server} {p : List Byte} {c : Byte} (h : s.Holds (p ++ [c])) :
    Server.Holds { s with
      recvBuffer := s.recvBuffer.set (s.curRecvLen - 1) 0
      curRecvLen := s.curRecvLen - 1 } p := by
  have hle := h.le
  have hlen := h.len
  rw [List.length_append, List.length_singleton] at hle hlen
  have hroom : AT_SERVER_RECV_BUFF_LEN - p.length =
      AT_SERVER_RECV_BUFF_LEN - (p ++ [c]).length + 1 := by
    change 256 - p.length = 256 - (p ++ [c]).length + 1
    rw [List.length_append, List.length_singleton]
    omega
  have hplace : s.curRecvLen - 1 = p.length := by omega
  refine ⟨?_, hplace, by omega, fun d hd => h.heard d (List.mem_append_left _ hd),
    fun hpair => h.noPair (hpair.trans (List.prefix_append p [c]).isInfix)⟩
  dsimp only
  rw [hplace, h.buffer, List.append_assoc, List.set_append_right _ _ (Nat.le_refl _), Nat.sub_self,
    List.singleton_append, List.set_cons_zero, hroom, List.replicate_succ]

/-- The code hears what is to be heard. -/
theorem hear_refines {s : Server} {p : List Byte} (h : s.Holds p) (ch : Byte) :
    match hear s ch, listen s.echoMode p ch with
    | .stop, .stop => True
    | .wait s' _, .wait p' => s'.Holds p' ∧ s'.echoMode = s.echoMode
    | .line s' _, .line l => cString s'.recvBuffer = l ∧ s'.echoMode = s.echoMode
    | _, _ => False := by
  rw [hear, listen]
  by_cases hnul : ch = 0
  · rw [if_pos hnul, if_pos hnul]
    exact ⟨h, rfl⟩
  rw [if_neg hnul, if_neg hnul]
  by_cases hesc : ch = ESC_KEY
  · rw [if_pos hesc, if_pos hesc]
    trivial
  rw [if_neg hesc, if_neg hesc]
  by_cases herase : s.echoMode = true ∧ (ch = BACKSPACE_KEY ∨ ch = DELECT_KEY)
  · rw [if_pos herase, if_pos herase]
    rcases List.eq_nil_or_concat p with rfl | ⟨q, c, rfl⟩
    · have hlen : ¬ s.curRecvLen ≠ 0 := not_not.mpr h.len
      rw [if_neg hlen]
      exact ⟨h, rfl⟩
    · rw [List.concat_eq_append] at h ⊢
      have hlen : s.curRecvLen ≠ 0 := by
        rw [h.len, List.length_append, List.length_singleton]
        exact Nat.succ_ne_zero _
      rw [if_pos hlen, List.dropLast_concat]
      exact ⟨h.erase, rfl⟩
  rw [if_neg herase, if_neg herase]
  -- the character is stored, and the string in the buffer is what has been heard
  have hheard : ∀ c ∈ p ++ [ch], c ≠ 0 ∧ c ≠ ESC_KEY := fun c hc =>
    (List.mem_append.mp hc).elim (h.heard c) fun hlast => List.mem_singleton.mp hlast ▸ ⟨hnul, hesc⟩
  have hstore := h.store ch
  rw [h.len] at hstore
  have hstring : cString (s.recvBuffer.set p.length ch) = p ++ [ch] := by
    rw [hstore]
    exact cString_zeros (fun c hc => (hheard c hc).1) _
  have hpair : [CR, LF] <:+: p ++ [ch] ↔ Completes CR LF p ch := by
    rw [pair_infix_concat_iff]
    exact or_iff_left h.noPair
  have hle := h.le
  simp only [h.len, hstring, hpair]
  by_cases hline : Completes CR LF p ch
  · rw [if_pos hline, if_pos hline]
    exact ⟨hstring, rfl⟩
  rw [if_neg hline, if_neg hline]
  by_cases hfull : p.length + 2 = AT_SERVER_RECV_BUFF_LEN
  · rw [if_pos hfull, if_pos hfull]
    exact ⟨Server.Holds.clear _, rfl⟩
  · rw [if_neg hfull, if_neg hfull]
    change p.length + 2 ≠ 256 at hfull
    refine ⟨⟨hstore, ?_, ?_, hheard, fun hin => hline (hpair.mp hin)⟩, rfl⟩
    · rw [List.length_append, List.length_singleton]
    · rw [List.length_append, List.length_singleton]
      omega

/-! ## Whole lines -/

/-- A line as it is dispatched: its end mark is its end and stands nowhere before, and it fits into
the buffer with a zero behind it. -/
structure IsLine (l : List Byte) : Prop where
  le : l.length < AT_SERVER_RECV_BUFF_LEN
  heard : ∀ c ∈ l, c ≠ 0 ∧ c ≠ ESC_KEY
  marked : [CR, LF] <:+ l
  noPair : ¬ [CR, LF] <:+: l.dropLast

/-- A handled line with its data, as the characters came in. -/
def Event.consumed (e : Event) : List Byte := e.line ++ e.data

theorem isLine_concat {s : Server} {p : List Byte} (h : s.Holds p) {ch : Byte}
    (hch : ch ≠ 0 ∧ ch ≠ ESC_KEY) (hc : Completes CR LF p ch) : IsLine (p ++ [ch]) where
  le := by
    have hle := h.le
    rw [List.length_append, List.length_singleton]
    exact Nat.lt_of_le_of_lt (Nat.succ_le_succ hle) (by decide)
  heard c hcmem := (List.mem_append.mp hcmem).elim (h.heard c) fun hlast =>
    List.mem_singleton.mp hlast ▸ hch
  marked := by
    have heq := hc.eq_concat
    rw [heq, hc.1, List.append_assoc]
    exact List.suffix_append _ _
  noPair := by
    rw [List.dropLast_concat]
    exact h.noPair

/-- What a line that is heard is made of. -/
theorem listen_line {echo : Bool} {p l : List Byte} {ch : Byte} (h : listen echo p ch = .line l) :
    (ch ≠ 0 ∧ ch ≠ ESC_KEY) ∧ Completes CR LF p ch ∧ l = p ++ [ch] := by
  rw [listen] at h
  split_ifs at h with hnul hesc herase hline hfull
  · cases h
    exact ⟨⟨hnul, hesc⟩, hline, rfl⟩

/-- What is pending has been heard in this order. -/
theorem listen_wait {echo : Bool} {p q : List Byte} {ch : Byte} (h : listen echo p ch = .wait q) :
    q.Sublist (p ++ [ch]) := by
  rw [listen] at h
  split_ifs at h with hnul hesc herase hline hfull
  · cases h
    exact List.sublist_append_left p [ch]
  · cases h
    exact (List.dropLast_sublist p).trans (List.sublist_append_left p [ch])
  · cases h
    exact List.nil_sublist _
  · cases h
    exact List.Sublist.refl _

/-- With a server that holds `p`: every line is whole, and handled lines, their data and what is
pending at the end have come in in this order. -/
structure Orderly (env : Env) (p input : List Byte) (r : List Event × Option Server) : Prop where
  lines : ∀ e ∈ r.1, IsLine e.line ∧ e.dispatch = dispatch env.table e.line
  handled : (r.1.flatMap Event.consumed).Sublist (p ++ input)
  rest : ∀ s ∈ r.2, ∃ q, s.Holds q ∧ (r.1.flatMap Event.consumed ++ q).Sublist (p ++ input)

private theorem orderly_idle (env : Env) {s : Server} {p : List Byte} (h : s.Holds p)
    (input : List Byte) : Orderly env p input ([], some s) where
  lines _ he := absurd he List.not_mem_nil
  handled := List.nil_sublist _
  rest s' hs' := by
    cases hs'
    exact ⟨p, h, List.sublist_append_left p input⟩

/-- A run of the server on any input is orderly. -/
theorem serverParser_orderly (env : Env) (n : ℕ) {s : Server} {p : List Byte} (h : s.Holds p)
    (input : List Byte) : Orderly env p input (serverParser env n s input) := by
  induction n generalizing s p input with
  | zero => exact orderly_idle env h input
  | succ n ih =>
    cases input with
    | nil => exact orderly_idle env h []
    | cons ch rest =>
      have href := hear_refines h ch
      rw [serverParser]
      generalize hear s ch = heard at href ⊢
      generalize hl : listen s.echoMode p ch = listened at href
      cases heard with
      | stop =>
        refine ⟨fun _ he => absurd he List.not_mem_nil, List.nil_sublist _, ?_⟩
        intro s' hs'
        cases hs'
      | wait s' echo =>
        cases listened with
        | stop => exact href.elim
        | line l => exact href.elim
        | wait q =>
          have hrun := ih href.1 rest
          have hsub : (q ++ rest).Sublist (p ++ ch :: rest) := by
            rw [← List.singleton_append, ← List.append_assoc]
            exact (listen_wait hl).append (List.Sublist.refl rest)
          refine ⟨hrun.lines, hrun.handled.trans hsub, fun t ht => ?_⟩
          obtain ⟨r, hr, hrest⟩ := hrun.rest t ht
          exact ⟨r, hr, hrest.trans hsub⟩
      | line s' echo =>
        cases listened with
        | stop => exact href.elim
        | wait q => exact href.elim
        | line l =>
          obtain ⟨hch, hc, rfl⟩ := listen_line hl
          dsimp only
          rw [href.1]
          set k := env.reads rest (dispatch env.table (p ++ [ch]))
          have hrun := ih (Server.Holds.clear s') (rest.drop k)
          have hsplit : p ++ ch :: rest = (p ++ [ch]) ++ rest.take k ++ rest.drop k := by
            rw [List.append_assoc, List.take_append_drop, List.append_assoc, List.singleton_append]
          have hfront : ∀ t : List Byte, t.Sublist (rest.drop k) →
              ((p ++ [ch]) ++ rest.take k ++ t).Sublist (p ++ ch :: rest) := by
            intro t ht
            rw [hsplit]
            exact (List.Sublist.refl _).append ht
          refine ⟨?_, ?_, ?_⟩
          · intro e he
            rcases List.mem_cons.mp he with rfl | he
            · exact ⟨isLine_concat h hch hc, rfl⟩
            · exact hrun.lines e he
          · rw [List.flatMap_cons]
            exact hfront _ hrun.handled
          · intro t ht
            obtain ⟨q, hq, hrest⟩ := hrun.rest t ht
            refine ⟨q, hq, ?_⟩
            rw [List.flatMap_cons, List.append_assoc]
            exact hfront _ hrest

/-- From its start the server, whatever comes in and whatever its handlers read, writes only into its
buffer, dispatches whole lines only, and handles nothing that has not come in, nothing twice and
nothing out of order. -/
theorem serverParser_init_orderly (env : Env) (echo : Bool) (n : ℕ) (input : List Byte) :
    Orderly env [] input (serverParser env n { Server.init with echoMode := echo } input) :=
  serverParser_orderly env n (Server.Holds.clear { Server.init with echoMode := echo }) input

/-! ## Sessions -/

/-- A character that is part of a line wherever it stands. -/
def Plain (echo : Bool) (c : Byte) : Prop :=
  c ≠ 0 ∧ c ≠ ESC_KEY ∧ ¬ (echo = true ∧ (c = BACKSPACE_KEY ∨ c = DELECT_KEY))

/-- What a host sends: a line, and the data that the handler of the line reads. -/
structure Sent where
  line : List Byte
  data : List Byte

def Sent.bytes (x : Sent) : List Byte := x.line ++ x.data

def Sent.event (env : Env) (x : Sent) : Event := ⟨x.line, dispatch env.table x.line, x.data⟩

/-- The handler of the line takes its data and no more, whatever follows. -/
def Sent.Fits (env : Env) (x : Sent) : Prop :=
  ∀ rest, env.reads (x.data ++ rest) (dispatch env.table x.line) = x.data.length

theorem listen_plain {echo : Bool} {p : List Byte} {c : Byte} (hc : Plain echo c)
    (hroom : p.length ≤ 253) (hpair : ¬ Completes CR LF p c) :
    listen echo p c = .wait (p ++ [c]) := by
  obtain ⟨hnul, hesc, herase⟩ := hc
  have hfull : ¬ p.length + 2 = AT_SERVER_RECV_BUFF_LEN := by
    change ¬ p.length + 2 = 256
    omega
  rw [listen, if_neg hnul, if_neg hesc, if_neg herase, if_neg hpair, if_neg hfull]

theorem listen_completes {echo : Bool} {p : List Byte} {c : Byte} (hc : Plain echo c)
    (hpair : Completes CR LF p c) : listen echo p c = .line (p ++ [c]) := by
  obtain ⟨hnul, hesc, herase⟩ := hc
  rw [listen, if_neg hnul, if_neg hesc, if_neg herase, if_pos hpair]

/-- The server comes to the end of a line and hands it on. -/
theorem serverParser_line (env : Env) {l p ahead : List Byte} (hl : IsLine l)
    (hsplit : l = p ++ ahead) (hahead : ahead ≠ []) {s : Server} (h : s.Holds p)
    (hplain : ∀ c ∈ l, Plain s.echoMode c) (rest : List Byte) (n : ℕ) :
    ∃ s' : Server, s'.Holds [] ∧ s'.echoMode = s.echoMode ∧
      serverParser env (n + ahead.length) s (ahead ++ rest) =
        (let d := dispatch env.table l
         let k := env.reads rest d
         let r := serverParser env n s' (rest.drop k)
         (⟨l, d, rest.take k⟩ :: r.1, r.2)) := by
  induction ahead generalizing p s with
  | nil => exact absurd rfl hahead
  | cons c ahead ih =>
    have hplainc : Plain s.echoMode c := hplain c (by rw [hsplit]; simp)
    have href := hear_refines h c
    rw [List.cons_append, List.length_cons, ← Nat.add_assoc, serverParser]
    rcases List.eq_nil_or_concat ahead with rfl | ⟨body, last, rfl⟩
    · -- the last character completes the pair
      have hpair : Completes CR LF p c := by
        have hin : [CR, LF] <:+: p ++ [c] := by
          rw [← hsplit]
          exact hl.marked.isInfix
        exact ((pair_infix_concat_iff p c).mp hin).resolve_right h.noPair
      rw [listen_completes hplainc hpair] at href
      generalize hear s c = heard at href ⊢
      cases heard with
      | stop => exact href.elim
      | wait s' echo => exact href.elim
      | line s' echo =>
        dsimp only
        rw [href.1, ← hsplit]
        exact ⟨s'.clear, Server.Holds.clear s', href.2, rfl⟩
    · rw [List.concat_eq_append] at ih hsplit ⊢
      have hinit : l.dropLast = p ++ c :: body := by
        rw [hsplit, ← List.cons_append, ← List.append_assoc, List.dropLast_concat]
      have hpair : ¬ Completes CR LF p c := by
        intro hc
        apply hl.noPair
        rw [hinit]
        have hin := (pair_infix_concat_iff p c).mpr (Or.inl hc)
        exact hin.trans ⟨[], body, by simp⟩
      have hroom : p.length ≤ 253 := by
        have hle : l.length < 256 := hl.le
        rw [hsplit] at hle
        simp only [List.length_append, List.length_cons, List.length_nil] at hle
        omega
      rw [listen_plain hplainc hroom hpair] at href
      generalize hear s c = heard at href ⊢
      cases heard with
      | stop => exact href.elim
      | line s' echo => exact href.elim
      | wait s' echo =>
        have hsplit' : l = p ++ [c] ++ (body ++ [last]) := by
          rw [hsplit, List.append_assoc, List.singleton_append]
        obtain ⟨t, ht, hecho, hrun⟩ := ih hsplit' (by simp) href.1
          (by rw [href.2]; exact hplain)
        exact ⟨t, ht, hecho.trans href.2, hrun⟩

theorem serverParser_nil (env : Env) (n : ℕ) (s : Server) : serverParser env n s [] = ([], some s) := by
  cases n with
  | zero => rfl
  | succ n => rfl

/-- Lines sent one after the other, each with the data that its handler reads, are dispatched line by
line, each with its own data, and nothing is left over. -/
theorem session_dispatched (env : Env) (xs : List Sent) (s : Server) (hs : s.Holds [])
    (hlines : ∀ x ∈ xs, IsLine x.line ∧ ∀ c ∈ x.line, Plain s.echoMode c)
    (hfits : ∀ x ∈ xs, x.Fits env) (n : ℕ) (hn : (xs.flatMap Sent.bytes).length ≤ n) :
    ∃ s' : Server, s'.Holds [] ∧
      serverParser env n s (xs.flatMap Sent.bytes) = (xs.map (Sent.event env), some s') := by
  induction xs generalizing s n with
  | nil => exact ⟨s, hs, serverParser_nil env n s⟩
  | cons x xs ih =>
    obtain ⟨hline, hplain⟩ := hlines x List.mem_cons_self
    have hne : x.line ≠ [] := by
      intro hnil
      have hmarked := hline.marked
      rw [hnil] at hmarked
      exact List.cons_ne_nil _ _ (List.suffix_nil.mp hmarked)
    rw [List.flatMap_cons, Sent.bytes, List.length_append, List.length_append] at hn
    obtain ⟨m, rfl⟩ : ∃ m, n = m + x.line.length := ⟨n - x.line.length, by omega⟩
    set rest := xs.flatMap Sent.bytes with hrest
    obtain ⟨s₁, hs₁, hecho, hrun⟩ :=
      serverParser_line env hline (List.nil_append _).symm hne hs hplain (x.data ++ rest) m
    rw [List.flatMap_cons, Sent.bytes, List.append_assoc, ← hrest, hrun]
    dsimp only
    rw [hfits x List.mem_cons_self rest, List.drop_left, List.take_left]
    obtain ⟨s₂, hs₂, hrun₂⟩ := ih s₁ hs₁
      (fun y hy => hecho ▸ hlines y (List.mem_cons_of_mem x hy))
      (fun y hy => hfits y (List.mem_cons_of_mem x hy)) m (by omega)
    rw [hrun₂]
    exact ⟨s₂, hs₂, rfl⟩

/-- `AT+SEND` with a handler that reads two characters, and `AT`. -/
def sendEnv : Env where
  table := [⟨[0x41, 0x54, 0x2B, 0x53, 0x45, 0x4E, 0x44], false, false,
    some [0x3D, 0x3C, 0x6C, 0x65, 0x6E, 0x3E], false⟩, ⟨[0x41, 0x54], false, false, none, true⟩]
  takes _ form _ _ := if form = .setup then 2 else 0

/-- `at+send=2` with `hi`, and `AT`. -/
def sendSession : List Sent :=
  [⟨[0x61, 0x74, 0x2B, 0x73, 0x65, 0x6E, 0x64, 0x3D, 0x32, 0x0D, 0x0A], [0x68, 0x69]⟩,
    ⟨[0x41, 0x54, 0x0D, 0x0A], []⟩]

theorem send_session_dispatched : ∃ s : Server, s.Holds [] ∧
    serverParser sendEnv 17 Server.init (sendSession.flatMap Sent.bytes) =
      (sendSession.map (Sent.event sendEnv), some s) := by
  apply session_dispatched sendEnv sendSession Server.init Server.init_holds
  · intro x hx
    rcases List.mem_cons.mp hx with rfl | hx
    · exact ⟨⟨by decide, by decide, by decide, by decide⟩, by unfold Plain; decide⟩
    · rw [List.mem_singleton.mp hx]
      exact ⟨⟨by decide, by decide, by decide, by decide⟩, by unfold Plain; decide⟩
  · intro x hx
    rcases List.mem_cons.mp hx with rfl | hx
    · exact fun rest => rfl
    · rw [List.mem_singleton.mp hx]
      exact fun rest => rfl
  · decide

end WiotaDev.AtServer
