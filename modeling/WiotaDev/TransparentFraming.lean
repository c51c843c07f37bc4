import WiotaDev.PrefixRuns
import WiotaDev.TransparentMode

/-! # The lines that the transparent mode sends

What a turn of the main loop does to the line that is being received, and when the messages of a whole
run are the lines: a line break that nothing stands before is not found, and stays in the buffer. -/

namespace WiotaDev.TransparentMode
open LineFraming PrefixRuns WordBytes

section Steps
variable {endString : EndString} {s : Session} {c : Byte}

theorem messages_append (strEnd : List Byte) (lines : List (List Byte)) (line : List Byte) :
    messages strEnd (lines ++ [line]) = messages strEnd lines ++ messages strEnd [line] := by
  rw [messages, List.map_append, List.filter_append]
  rfl

/-- Every message fits, and it has no pair, as the lines have none. -/
theorem messages_bounds (strEnd : List Byte) (items : List (Item Byte)) :
    ∀ m ∈ messages strEnd (LineFraming.read CR LF items).lines,
      (1 ≤ m.length ∧ m.length ≤ WIOTA_TRANS_MAX_LEN) ∧ ¬ [CR, LF] <:+: m := by
  intro m hm
  obtain ⟨hmem, hlen⟩ := List.mem_filter.mp hm
  obtain ⟨line, hline, rfl⟩ := List.mem_map.mp hmem
  refine ⟨of_decide_eq_true hlen, fun hpair => ?_⟩
  exact (read_noPair items).2 line hline (hpair.trans (prefix_content strEnd line).isInfix)

theorem ends_append (strEnd : List Byte) (lines : List (List Byte)) (line : List Byte) :
    Ends strEnd (lines ++ [line]) ↔ Ends strEnd lines ∨ Ends strEnd [line] := by
  simp only [Ends, List.mem_append, or_and_right, exists_or]

theorem ends_singleton (strEnd line : List Byte) :
    Ends strEnd [line] ↔ strEnd <:+ line ∧ (content strEnd line).length ≤ WIOTA_TRANS_MAX_LEN := by
  simp only [Ends, List.mem_singleton, exists_eq_left]

theorem justified_byte (strEnd : List Byte) (items : List (Item Byte)) (c : Byte) :
    Justified strEnd (items ++ [.byte c]) ↔ Justified strEnd items := by
  constructor
  · exact fun h pre hpre => h pre (hpre.trans (List.prefix_append items _))
  · intro h pre hpre
    rcases List.prefix_concat_iff.mp hpre with hpre | hpre
    · exact absurd (List.append_inj_right' hpre rfl) (by simp)
    · exact h pre hpre

theorem justified_cut (strEnd : List Byte) (items : List (Item Byte)) :
    Justified strEnd (items ++ [.cut]) ↔
      Justified strEnd items ∧ OverLong strEnd (LineFraming.read CR LF items) := by
  constructor
  · exact fun h => ⟨fun pre hpre => h pre (hpre.trans (List.prefix_append items _)),
      h items (List.prefix_refl _)⟩
  · rintro ⟨h, hlong⟩ pre hpre
    rcases List.prefix_concat_iff.mp hpre with hpre | hpre
    · rwa [List.append_inj_left' hpre rfl]
    · exact h pre hpre

variable (endString) in
theorem writeIndex_lt (h : s.trans.mode = .receiving →
    s.trans.nSeekRx ≤ WIOTA_TRANS_MAX_LEN + endString.chars.length + 2) :
    s.trans.writeIndex < WIOTA_TRANS_BUFF := by
  have hle := endString.le
  rw [Trans.writeIndex]
  split_ifs with hmode
  · have hroom := h hmode
    simp only [WIOTA_TRANS_BUFF, WIOTA_TRANS_MAX_LEN, WIOTA_TRANS_END_STRING_MAX, CRC16_LEN] at *
    omega
  · decide

/-- What is to be shown of a step once the messages are the lines'. -/
theorem framed_of_sent (hmirrors : Mirrors endString.chars s)
    (hsent : s.trans.sent = messages endString.chars s.read.lines)
    (hreports : Justified endString.chars s.items)
    (hleaves : s.trans.mode = .leaving ∨ s.trans.mode = .left ↔ Ends endString.chars s.read.lines) :
    Framed endString.chars s :=
  ⟨writeIndex_lt endString hmirrors.room, hsent, hsent ▸ messages_bounds endString.chars s.items,
    hreports, hleaves⟩

theorem next_receiving (strEnd : List Byte) (hmode : s.trans.mode = .receiving) :
    s.next strEnd (.char c) = ⟨received strEnd s.trans c, s.items ++
      if (received strEnd s.trans c).mode = .discarding then [.byte c, .cut] else [.byte c]⟩ := by
  rw [Session.next, itemsOf, Trans.next, hmode]
  rfl

/-- What the discarding loops and a silence leave of the state. -/
theorem next_idle (strEnd : List Byte) (e : Event) (h : s.trans.mode ≠ .receiving ∨ e = .silence) :
    let s' := s.next strEnd e
    s'.items = s.items ∧ s'.trans.sent = s.trans.sent ∧
      (s'.trans.mode = .leaving ∨ s'.trans.mode = .left ↔
        s.trans.mode = .leaving ∨ s.trans.mode = .left) ∧
      (s'.trans.mode = .discarding → s.trans.mode = .discarding) ∧
      (s'.trans.mode = .receiving → s'.trans = s.trans ∨
        s.trans.mode = .discarding ∧ s'.trans.nSeekRx = 0) := by
  obtain ⟨⟨pBuff, nSeekRx, mode, sent⟩, items⟩ := s
  cases e with
  | char c =>
    have hmode : mode ≠ .receiving := h.resolve_right (by simp)
    cases mode <;> simp_all [Session.next, Trans.next, itemsOf]
  | silence => cases mode <;> simp [Session.next, Trans.next, itemsOf]

/-- Nothing is received then. -/
theorem framed_idle (hmirrors : Mirrors endString.chars s) (hframed : Framed endString.chars s)
    (e : Event) (h : s.trans.mode ≠ .receiving ∨ e = .silence) :
    Mirrors endString.chars (s.next endString.chars e) ∧
      Framed endString.chars (s.next endString.chars e) := by
  obtain ⟨hitems, hsent, hleaves, hdiscarding, hreceiving⟩ := next_idle endString.chars e h
  have hread : (s.next endString.chars e).read = s.read := by rw [Session.read, hitems, Session.read]
  have hmirrors' : Mirrors endString.chars (s.next endString.chars e) := by
    refine ⟨fun hmode => ?_, fun hmode => ?_, fun hmode => ?_⟩
    · rw [hread]
      rcases hreceiving hmode with htrans | ⟨hcut, hzero⟩
      · rw [htrans] at hmode ⊢
        exact hmirrors.held hmode
      · obtain ⟨hcur, hempty⟩ := hmirrors.cut hcut
        rw [hcur, hempty, Trans.held, hzero]
        rfl
    · rcases hreceiving hmode with htrans | ⟨-, hzero⟩
      · rw [htrans] at hmode ⊢
        exact hmirrors.room hmode
      · rw [hzero]
        exact Nat.zero_le _
    · rw [hread]
      exact hmirrors.cut (hdiscarding hmode)
  refine ⟨hmirrors', framed_of_sent hmirrors' ?_ ?_ ?_⟩
  · rw [hsent, hread]
    exact hframed.sent
  · rw [hitems]
    exact hframed.reports
  · rw [hleaves, hread]
    exact hframed.leaves

theorem completes_held (hmirrors : Mirrors endString.chars s) (hmode : s.trans.mode = .receiving) :
    Completes CR LF s.trans.held c ↔ Completes CR LF s.read.cur c := by
  rw [hmirrors.held hmode, Completes, Completes, List.getLast?_append]
  cases s.read.behindEmpty with
  | false => rw [show (leftover false).getLast? = none from rfl, Option.or_none]
  | true =>
    cases s.read.cur.getLast? with
    | none => exact and_congr_right fun _ => iff_of_false (by decide) (by decide)
    | some last => rfl

theorem length_leftover_le (b : Bool) : (leftover b).length ≤ 2 := by
  cases b <;> decide

/-- A turn with a report: what has been received of the line does not fit. -/
theorem framed_reported (hframed : Framed endString.chars s) (hmode : s.trans.mode = .receiving)
    (hmode' : (received endString.chars s.trans c).mode = .discarding)
    (hsent' : (received endString.chars s.trans c).sent = s.trans.sent)
    (hlong : OverLong endString.chars (LineFraming.read CR LF (s.items ++ [.byte c])))
    (hmessages : messages endString.chars (LineFraming.read CR LF (s.items ++ [.byte c])).lines =
      messages endString.chars s.read.lines)
    (hends : Ends endString.chars (LineFraming.read CR LF (s.items ++ [.byte c])).lines ↔
      Ends endString.chars s.read.lines) :
    Mirrors endString.chars (s.next endString.chars (.char c)) ∧
      Framed endString.chars (s.next endString.chars (.char c)) := by
  have hnext : s.next endString.chars (.char c) =
      ⟨received endString.chars s.trans c, (s.items ++ [.byte c]) ++ [.cut]⟩ := by
    rw [next_receiving _ hmode, if_pos hmode', List.append_assoc]
    rfl
  have hnot : ∀ m, m ≠ Mode.discarding → (received endString.chars s.trans c).mode ≠ m :=
    fun m hm h => hm (h.symm.trans hmode')
  have hmirrors' : Mirrors endString.chars (s.next endString.chars (.char c)) := by
    rw [hnext]
    refine ⟨fun h => absurd h (hnot _ (by decide)), fun h => absurd h (hnot _ (by decide)), fun _ => ?_⟩
    rw [Session.read, read_cut]
    exact ⟨rfl, rfl⟩
  refine ⟨hmirrors', framed_of_sent hmirrors' ?_ ?_ ?_⟩
  · rw [hnext, Session.read, read_cut, hmessages]
    exact hsent'.trans hframed.sent
  · rw [hnext, justified_cut, justified_byte]
    exact ⟨hframed.reports, hlong⟩
  · rw [hnext, Session.read, read_cut, hends, ← hframed.leaves, hmode]
    exact iff_of_false (fun h => h.elim (hnot _ (by decide)) (hnot _ (by decide))) (by decide)

/-- A turn without a report. -/
theorem framed_kept (hframed : Framed endString.chars s) (hmode : s.trans.mode = .receiving)
    (hmode' : (received endString.chars s.trans c).mode = .leaving ∨
      (received endString.chars s.trans c).mode = .receiving)
    (hheld : (received endString.chars s.trans c).held =
      leftover (LineFraming.read CR LF (s.items ++ [.byte c])).behindEmpty ++
        (LineFraming.read CR LF (s.items ++ [.byte c])).cur)
    (hroom : (received endString.chars s.trans c).nSeekRx ≤
      WIOTA_TRANS_MAX_LEN + endString.chars.length + 2)
    (hsent' : (received endString.chars s.trans c).sent =
      messages endString.chars (LineFraming.read CR LF (s.items ++ [.byte c])).lines)
    (hleaves : (received endString.chars s.trans c).mode = .leaving ↔
      Ends endString.chars (LineFraming.read CR LF (s.items ++ [.byte c])).lines) :
    Mirrors endString.chars (s.next endString.chars (.char c)) ∧
      Framed endString.chars (s.next endString.chars (.char c)) := by
  have hnot : ∀ m, m ≠ Mode.leaving → m ≠ Mode.receiving →
      (received endString.chars s.trans c).mode ≠ m := by
    rintro m hleaving hreceiving rfl
    exact hmode'.elim hleaving hreceiving
  have hnext : s.next endString.chars (.char c) =
      ⟨received endString.chars s.trans c, s.items ++ [.byte c]⟩ := by
    rw [next_receiving _ hmode, if_neg (hnot _ (by decide) (by decide))]
  have hmirrors' : Mirrors endString.chars (s.next endString.chars (.char c)) := by
    rw [hnext]
    exact ⟨fun _ => hheld, fun _ => hroom, fun h => absurd h (hnot _ (by decide) (by decide))⟩
  refine ⟨hmirrors', framed_of_sent hmirrors' ?_ ?_ ?_⟩
  · rw [hnext]
    exact hsent'
  · rw [hnext, justified_byte]
    exact hframed.reports
  · rw [hnext, Session.read, ← hleaves]
    exact or_iff_left (hnot _ (by decide) (by decide))

/-- The main loop runs as long as no line has ended it. -/
theorem Framed.not_ends (hframed : Framed endString.chars s) (hmode : s.trans.mode = .receiving) :
    ¬ Ends endString.chars s.read.lines := by
  rw [← hframed.leaves, hmode]
  decide

/-- A turn without a line break: the line goes on, or it is so long that it is reported. -/
theorem framed_goes_on (hmirrors : Mirrors endString.chars s) (hframed : Framed endString.chars s)
    (hmode : s.trans.mode = .receiving) (h : ¬ Completes CR LF s.read.cur c) :
    Mirrors endString.chars (s.next endString.chars (.char c)) ∧
      Framed endString.chars (s.next endString.chars (.char c)) := by
  have hcompletes : ¬ (2 ≤ s.trans.nSeekRx ∧ Completes CR LF s.trans.held c) :=
    fun hbreak => h ((completes_held hmirrors hmode).mp hbreak.2)
  obtain ⟨hsent, hheld, hseek, hmode'⟩ := received_goes_on endString.chars hcompletes
  have hread : LineFraming.read CR LF (s.items ++ [.byte c]) =
      { s.read with cur := s.read.cur ++ [c] } := read_goes_on h
  have hlength := congrArg List.length (hmirrors.held hmode)
  rw [length_held, List.length_append] at hlength
  have hleftover := length_leftover_le s.read.behindEmpty
  by_cases hlong : s.trans.nSeekRx + 1 > WIOTA_TRANS_MAX_LEN + endString.chars.length + 2
  · rw [if_pos hlong] at hmode'
    refine framed_reported hframed hmode hmode' hsent ?_ (by rw [hread]) (by rw [hread])
    rw [hread]
    refine Or.inl ?_
    have hpos := endString.pos
    rw [List.length_append, List.length_singleton]
    omega
  · rw [if_neg hlong, hmode] at hmode'
    refine framed_kept hframed hmode (Or.inr hmode') ?_ (by omega) ?_ ?_
    · rw [hheld, hread, hmirrors.held hmode, List.append_assoc]
    · rw [hsent, hread]
      exact hframed.sent
    · rw [hread, hmode']
      exact iff_of_false (by decide) (hframed.not_ends hmode)

theorem read_break (h : Completes CR LF s.read.cur c) :
    LineFraming.read CR LF (s.items ++ [.byte c]) =
      ⟨[], s.read.lines ++ [s.read.cur.dropLast], s.read.cur.dropLast = []⟩ := read_completes h

/-- A line that fits in no message is none, and does not end the mode. -/
theorem messages_append_long {strEnd line : List Byte} (lines : List (List Byte))
    (h : WIOTA_TRANS_MAX_LEN < (content strEnd line).length) :
    messages strEnd (lines ++ [line]) = messages strEnd lines ∧
      (Ends strEnd (lines ++ [line]) ↔ Ends strEnd lines) := by
  rw [messages_append, ends_append, ends_singleton]
  constructor
  · have hnone : messages strEnd [line] = [] :=
      List.filter_eq_nil_iff.mpr fun m hm hfits => by
        rw [List.mem_singleton.mp hm] at hfits
        exact absurd (of_decide_eq_true hfits).2 (by omega)
    rw [hnone, List.append_nil]
  · exact or_iff_left fun hends => absurd hends.2 (by omega)

theorem messages_singleton {strEnd line : List Byte}
    (h : (content strEnd line).length ≤ WIOTA_TRANS_MAX_LEN) :
    messages strEnd [line] = if 0 < (content strEnd line).length then [content strEnd line] else [] := by
  rw [messages, List.map_singleton, List.filter_singleton]
  simp only [h, and_true, Nat.succ_le_iff, Bool.cond_decide]

/-- A line break behind no character is not found: it stays in the buffer. -/
theorem framed_finds_empty (hmirrors : Mirrors endString.chars s) (hframed : Framed endString.chars s)
    (hmode : s.trans.mode = .receiving) (h : Completes CR LF s.read.cur c)
    (hshort : s.trans.nSeekRx < 2) :
    Mirrors endString.chars (s.next endString.chars (.char c)) ∧
      Framed endString.chars (s.next endString.chars (.char c)) := by
  have hcompletes : ¬ (2 ≤ s.trans.nSeekRx ∧ Completes CR LF s.trans.held c) := by
    rintro ⟨hle, -⟩
    omega
  obtain ⟨hsent, hheld, hseek, hmode'⟩ := received_goes_on endString.chars hcompletes
  have hlength := congrArg List.length (hmirrors.held hmode)
  rw [length_held, List.length_append, h.eq_concat, List.length_append, List.length_singleton] at hlength
  have hnil : s.read.cur.dropLast = [] := List.length_eq_zero_iff.mp (by omega)
  have hempty : s.read.behindEmpty = false := by
    cases hb : s.read.behindEmpty with
    | false => rfl
    | true =>
      rw [hb, show (leftover true).length = 2 from rfl] at hlength
      omega
  have hread := read_break h
  simp only [hnil, decide_true] at hread
  have hnotEnd : ¬ endString.chars <:+ [] := by
    intro hsuf
    have hpos := endString.pos
    rw [List.suffix_nil.mp hsuf] at hpos
    exact absurd hpos (by decide)
  rw [if_neg (by omega), hmode] at hmode'
  refine framed_kept hframed hmode (Or.inr hmode') ?_ (by omega) ?_ ?_
  · rw [hheld, hread, hmirrors.held hmode, hempty, h.dropLast_eq_nil_iff.mp hnil, h.1]
    rfl
  · rw [hsent, hread, messages_append, hframed.sent, messages, messages, List.map_singleton,
      content, if_neg hnotEnd]
    exact (List.append_nil _).symm
  · rw [hread, ends_append, ends_singleton, hmode']
    refine iff_of_false (by decide) ?_
    rintro (hends | ⟨hsuf, -⟩)
    · exact hframed.not_ends hmode hends
    · exact hnotEnd hsuf

/-- What the code takes for the line: what is left over stands before it. -/
theorem content_held (hmirrors : Mirrors endString.chars s) (hmode : s.trans.mode = .receiving)
    (h : Completes CR LF s.read.cur c) :
    content endString.chars s.trans.held.dropLast =
      leftover s.read.behindEmpty ++ content endString.chars s.read.cur.dropLast := by
  have hne : s.read.cur ≠ [] := by
    rw [h.eq_concat]
    exact List.concat_ne_nil _ _
  rw [hmirrors.held hmode, List.dropLast_append_of_ne_nil hne, content_leftover]

/-- A line break that is found behind a line which does not fit. -/
theorem framed_too_long (hmirrors : Mirrors endString.chars s) (hframed : Framed endString.chars s)
    (hmode : s.trans.mode = .receiving) (h : Completes CR LF s.read.cur c)
    (hlong : WIOTA_TRANS_MAX_LEN < (content endString.chars s.read.cur.dropLast).length) :
    Mirrors endString.chars (s.next endString.chars (.char c)) ∧
      Framed endString.chars (s.next endString.chars (.char c)) := by
  have hcontent := congrArg List.length (content_held hmirrors hmode h)
  rw [List.length_append] at hcontent
  have hle := length_content_le endString.chars s.trans.held.dropLast
  rw [List.length_dropLast, length_held] at hle
  have hbreak : 2 ≤ s.trans.nSeekRx ∧ Completes CR LF s.trans.held c :=
    ⟨by omega, (completes_held hmirrors hmode).mpr h⟩
  have hreceived := received_breaks endString.pos hbreak
  rw [if_pos (by omega)] at hreceived
  obtain ⟨hmessages, hends⟩ := messages_append_long s.read.lines hlong
  have hread := read_break h
  refine framed_reported hframed hmode hreceived.1 hreceived.2 ?_ ?_ ?_
  · rw [hread]
    refine Or.inr ⟨rfl, s.read.cur.dropLast, ?_, hlong⟩
    rw [List.getLast?_concat]
    rfl
  · rw [hread]
    exact hmessages
  · rw [hread]
    exact hends

/-- A line break that is found behind a line which fits, with nothing left over before it. -/
theorem framed_fits (hmirrors : Mirrors endString.chars s) (hframed : Framed endString.chars s)
    (hmode : s.trans.mode = .receiving) (h : Completes CR LF s.read.cur c)
    (hempty : s.read.behindEmpty = false) (hle : 2 ≤ s.trans.nSeekRx)
    (hfits : (content endString.chars s.read.cur.dropLast).length ≤ WIOTA_TRANS_MAX_LEN) :
    Mirrors endString.chars (s.next endString.chars (.char c)) ∧
      Framed endString.chars (s.next endString.chars (.char c)) := by
  have hheld : s.trans.held = s.read.cur := by
    rw [hmirrors.held hmode, hempty]
    rfl
  have hbreak : 2 ≤ s.trans.nSeekRx ∧ Completes CR LF s.trans.held c :=
    ⟨hle, (completes_held hmirrors hmode).mpr h⟩
  have hreceived := received_breaks endString.pos hbreak
  rw [hheld, if_neg (by omega)] at hreceived
  obtain ⟨hzero, hmode', hsent⟩ := hreceived
  have hne : s.read.cur.dropLast ≠ [] := by
    intro hnil
    have hlen := congrArg List.length hheld
    rw [length_held, h.dropLast_eq_nil_iff.mp hnil, List.length_singleton] at hlen
    omega
  have hread := read_break h
  have hcases : (received endString.chars s.trans c).mode = .leaving ∨
      (received endString.chars s.trans c).mode = .receiving := by
    rw [hmode']
    split_ifs
    · exact Or.inl rfl
    · exact Or.inr rfl
  refine framed_kept hframed hmode hcases ?_ ?_ ?_ ?_
  · rw [hread, decide_eq_false hne, Trans.held, hzero]
    rfl
  · rw [hzero]
    exact Nat.zero_le _
  · rw [hsent, hread, messages_append, messages_singleton hfits, hframed.sent]
    split_ifs
    · rfl
    · exact (List.append_nil _).symm
  · rw [hread, ends_append, ends_singleton, or_iff_right (hframed.not_ends hmode),
      and_iff_left hfits, hmode']
    split_ifs with hsuf
    · exact iff_of_true rfl hsuf
    · exact iff_of_false (by decide) hsuf

/-- A line that fits, behind what is left over, is sent with it or reported. -/
theorem not_framed_behind_empty (hmirrors : Mirrors endString.chars s)
    (hmode : s.trans.mode = .receiving)
    (h : Completes CR LF s.read.cur c) (hempty : s.read.behindEmpty = true)
    (hfits : (content endString.chars s.read.cur.dropLast).length ≤ WIOTA_TRANS_MAX_LEN) :
    ¬ Framed endString.chars (s.next endString.chars (.char c)) := by
  intro hframed'
  have hcontent := content_held hmirrors hmode h
  rw [hempty] at hcontent
  have hlength := congrArg List.length hcontent
  rw [List.length_append, show (leftover true).length = 2 from rfl] at hlength
  have hle := length_content_le endString.chars s.trans.held.dropLast
  rw [List.length_dropLast, length_held] at hle
  have hbreak : 2 ≤ s.trans.nSeekRx ∧ Completes CR LF s.trans.held c :=
    ⟨by omega, (completes_held hmirrors hmode).mpr h⟩
  have hreceived := received_breaks endString.pos hbreak
  by_cases hlong : WIOTA_TRANS_MAX_LEN < (content endString.chars s.trans.held.dropLast).length
  · rw [if_pos hlong] at hreceived
    have hreports := hframed'.reports
    rw [next_receiving _ hmode, if_pos hreceived.1,
      show s.items ++ [.byte c, .cut] = (s.items ++ [.byte c]) ++ [.cut] by rw [List.append_assoc]; rfl,
      justified_cut, read_break h] at hreports
    rcases hreports.2 with hover | ⟨-, line, hline, hover⟩
    · exact absurd hover (Nat.not_lt_zero _)
    · rw [List.getLast?_concat, Option.mem_some_iff] at hline
      rw [← hline] at hover
      omega
  · have hpos : 0 < (content endString.chars s.trans.held.dropLast).length := by omega
    rw [if_neg hlong, if_pos hpos] at hreceived
    have hsent : s.trans.sent ++ [content endString.chars s.trans.held.dropLast] =
        (s.next endString.chars (.char c)).trans.sent := by
      rw [next_receiving _ hmode]
      exact hreceived.2.2.symm
    have hmem : content endString.chars s.trans.held.dropLast ∈
        (s.next endString.chars (.char c)).trans.sent := by
      rw [← hsent]
      exact List.mem_append_right _ (List.mem_singleton_self _)
    refine (hframed'.bounds _ hmem).2 ?_
    rw [hcontent]
    exact (List.prefix_append _ _).isInfix

/-- Every step that completes no line that fits behind an empty one keeps the framing. -/
theorem framed_next (h : Mirrors endString.chars s ∧ Framed endString.chars s) (e : Event)
    (hok : NotBehindEmpty endString.chars s e) :
    Mirrors endString.chars (s.next endString.chars e) ∧
      Framed endString.chars (s.next endString.chars e) := by
  obtain ⟨hmirrors, hframed⟩ := h
  cases e with
  | silence => exact framed_idle hmirrors hframed _ (Or.inr rfl)
  | char c =>
    by_cases hmode : s.trans.mode = .receiving
    · by_cases hcompletes : Completes CR LF s.read.cur c
      · by_cases hlong : WIOTA_TRANS_MAX_LEN < (content endString.chars s.read.cur.dropLast).length
        · exact framed_too_long hmirrors hframed hmode hcompletes hlong
        · have hempty : s.read.behindEmpty = false :=
            eq_false_of_ne_true fun hempty => hlong (hok hmode hempty hcompletes)
          rcases Nat.lt_or_ge s.trans.nSeekRx 2 with hshort | hle
          · exact framed_finds_empty hmirrors hframed hmode hcompletes hshort
          · exact framed_fits hmirrors hframed hmode hcompletes hempty hle (Nat.le_of_not_lt hlong)
      · exact framed_goes_on hmirrors hframed hmode hcompletes
    · exact framed_idle hmirrors hframed _ (Or.inl hmode)

/-- A step keeps the framing exactly if it completes no line that fits behind an empty one. -/
theorem framed_next_iff (h : Mirrors endString.chars s ∧ Framed endString.chars s) (e : Event) :
    Framed endString.chars (s.next endString.chars e) ↔ NotBehindEmpty endString.chars s e := by
  refine ⟨fun hframed' => ?_, fun hok => (framed_next h e hok).2⟩
  cases e with
  | silence => trivial
  | char c =>
    intro hmode hempty hcompletes
    by_contra hfits
    exact not_framed_behind_empty h.1 hmode hcompletes hempty (Nat.le_of_not_lt hfits) hframed'

theorem framed_start (endString : EndString) :
    Mirrors endString.chars Session.start ∧ Framed endString.chars Session.start := by
  have hmirrors : Mirrors endString.chars Session.start :=
    ⟨fun _ => rfl, fun _ => Nat.zero_le _, fun h => absurd h (by decide)⟩
  refine ⟨hmirrors, framed_of_sent hmirrors rfl (fun pre hpre => ?_) ?_⟩
  · exact absurd (List.prefix_nil.mp hpre) (List.concat_ne_nil _ _)
  · refine iff_of_false (by decide) ?_
    rintro ⟨line, hline, -⟩
    exact absurd hline List.not_mem_nil

end Steps

end WiotaDev.TransparentMode
