import WiotaDev.AtSessions

/-! # The commands an AT line reaches

A line is a name, a form and arguments. The name ends at the first digit, mark or carriage return,
so a command whose own name holds one of these is never called. -/

namespace WiotaDev.AtServer
open WordBytes LineFraming

/-! ## Names -/

/-- A name that a line can spell out. -/
structure Spelt (name : List Byte) : Prop where
  lt : name.length < AT_CMD_NAME_LEN
  noStop : ∀ c ∈ name, ¬ IsStop c

theorem atCmdGetName_append {name : List Byte} (h : Spelt name) {c : Byte} (hc : IsStop c)
    (rest : List Byte) : atCmdGetName (name ++ c :: rest) = some name := by
  have hnone : name.findIdx? (fun c => IsStop c) = none := by
    rw [List.findIdx?_eq_none_iff]
    intro x hx
    exact decide_eq_false (h.noStop x hx)
  have hfind : (name ++ c :: rest).findIdx? (fun c => IsStop c) = some name.length := by
    rw [List.findIdx?_append, hnone, List.findIdx?_cons, if_pos (decide_eq_true hc),
      Option.none_or, Option.map_some, Nat.zero_add]
  rw [atCmdGetName, hfind]
  dsimp only
  rw [if_neg (Nat.not_le.mpr h.lt), List.take_left]

/-- A name that has been taken from a line. -/
theorem atCmdGetName_spelt {line name : List Byte} (h : atCmdGetName line = some name) :
    Spelt name ∧ name <+: line := by
  rw [atCmdGetName] at h
  cases hfind : line.findIdx? fun c => IsStop c with
  | none =>
    rw [hfind] at h
    cases h
  | some i =>
    rw [hfind] at h
    dsimp only at h
    obtain ⟨hlt, -, hbefore⟩ := List.findIdx?_eq_some_iff_getElem.mp hfind
    by_cases hlong : AT_CMD_NAME_LEN ≤ i
    · rw [if_pos hlong] at h
      cases h
    · rw [if_neg hlong] at h
      cases h
      refine ⟨⟨?_, ?_⟩, List.take_prefix i line⟩
      · rw [List.length_take_of_le (Nat.le_of_lt hlt)]
        exact Nat.lt_of_not_le hlong
      · intro c hc
        obtain ⟨j, hj, rfl⟩ := List.mem_iff_getElem.mp hc
        rw [List.length_take_of_le (Nat.le_of_lt hlt)] at hj
        rw [List.getElem_take]
        exact fun hstop => hbefore j hj (decide_eq_true hstop)

/-- Letters are no stops, in either case. -/
theorem isStop_of_lower_eq {c d : Byte} (h : lower c = lower d) : IsStop c ↔ IsStop d := by
  have hkeep : ∀ c : Byte, IsStop (lower c) ↔ IsStop c := by decide
  rw [← hkeep c, h, hkeep d]

theorem eq_esc_of_lower_eq {c d : Byte} (h : lower c = lower d) : c = ESC_KEY ↔ d = ESC_KEY := by
  have hkeep : ∀ c : Byte, lower c = ESC_KEY ↔ c = ESC_KEY := by decide
  rw [← hkeep c, h, hkeep d]

/-- What holds of the characters of a name in either case holds of those of the other. -/
theorem forall_mem_of_map_lower {P : Byte → Prop} (hP : ∀ {c d}, lower c = lower d → (P c ↔ P d))
    {xs ys : List Byte} (h : xs.map lower = ys.map lower) (hxs : ∀ c ∈ xs, P c) : ∀ c ∈ ys, P c := by
  intro d hd
  have hmem : lower d ∈ xs.map lower := by
    rw [h]
    exact List.mem_map_of_mem hd
  obtain ⟨c, hc, hcd⟩ := List.mem_map.mp hmem
  exact (hP hcd).mp (hxs c hc)

/-- Only the command itself is called. -/
theorem atCmdProcess_called {found cmd : Cmd} {form : Form} {given args : List Byte}
    (h : atCmdProcess found given = .called cmd form args) : found = cmd := by
  rw [atCmdProcess] at h
  cases hexpr : found.setup with
  | none =>
    rw [hexpr] at h
    dsimp only at h
    split_ifs at h
    · cases h
      rfl
    · cases h
      rfl
    · cases h
      rfl
  | some argsExpr =>
    rw [hexpr] at h
    dsimp only at h
    split_ifs at h
    · cases h
      rfl
    · cases h
      rfl
    · cases h
      rfl
    · cases h
      rfl
    · cases h
      rfl

/-- What a call says about the line. -/
theorem dispatch_called {table : List Cmd} {line : List Byte} {cmd : Cmd} {form : Form}
    {args : List Byte} (h : dispatch table line = .called cmd form args) :
    ∃ name, atCmdGetName line = some name ∧ atFindCmd table name = some cmd := by
  rw [dispatch] at h
  cases hname : atCmdGetName line with
  | none =>
    rw [hname] at h
    cases h
  | some name =>
    rw [hname] at h
    dsimp only at h
    cases hcmd : atFindCmd table name with
    | none =>
      rw [hcmd] at h
      cases h
    | some found =>
      rw [hcmd] at h
      dsimp only at h
      exact ⟨name, rfl, by rw [hcmd, atCmdProcess_called h]⟩

theorem dispatch_spelt {table : List Cmd} {name : List Byte} {cmd : Cmd} (h : Spelt name)
    (hcmd : atFindCmd table name = some cmd) {c : Byte} (hc : IsStop c) (rest : List Byte) :
    dispatch table (name ++ c :: rest) = atCmdProcess cmd (c :: rest) := by
  rw [dispatch, atCmdGetName_append h hc]
  dsimp only
  rw [hcmd]
  dsimp only
  rw [List.drop_left]

/-- No two commands of the table differ in the case of their letters only. -/
def Distinct (table : List Cmd) : Prop :=
  table.Pairwise fun a b => a.name.map lower ≠ b.name.map lower

instance (table : List Cmd) : Decidable (Distinct table) := inferInstanceAs (Decidable (List.Pairwise _ _))

theorem atFindCmd_some {table : List Cmd} {name : List Byte} {cmd : Cmd}
    (h : atFindCmd table name = some cmd) : name.map lower = cmd.name.map lower := by
  rw [atFindCmd] at h
  have hfound := List.find?_some h
  exact of_decide_eq_true hfound

/-- In such a table a command is found under its own name, in either case. -/
theorem atFindCmd_distinct {table : List Cmd} (h : Distinct table) {cmd : Cmd} (hmem : cmd ∈ table)
    {name : List Byte} (hname : name.map lower = cmd.name.map lower) :
    atFindCmd table name = some cmd := by
  induction table with
  | nil => exact absurd hmem List.not_mem_nil
  | cons a table ih =>
    obtain ⟨hhead, htail⟩ := List.pairwise_cons.mp h
    rw [atFindCmd, List.find?_cons]
    rcases List.mem_cons.mp hmem with rfl | hmem
    · rw [decide_eq_true hname]
    · have hne : ¬ name.map lower = a.name.map lower := by
        rw [hname]
        exact (hhead cmd hmem).symm
      rw [decide_eq_false hne]
      exact ih htail hmem

/-! ## What a stream can call -/

/-- A line without arguments is dispatched to the command. -/
theorem isLine_exec {name : List Byte} (h : Spelt name) (hheard : ∀ c ∈ name, c ≠ 0 ∧ c ≠ ESC_KEY) :
    IsLine (name ++ [CR, LF]) where
  le := by
    have hlt : name.length < 24 := h.lt
    change (name ++ [CR, LF]).length < 256
    rw [List.length_append]
    exact Nat.lt_of_lt_of_le (Nat.add_lt_add_right hlt _) (by decide)
  heard c hc := (List.mem_append.mp hc).elim (hheard c) fun hmark => by
    have hmarks : ∀ c ∈ [CR, LF], c ≠ 0 ∧ c ≠ ESC_KEY := by decide
    exact hmarks c hmark
  marked := List.suffix_append name [CR, LF]
  noPair := by
    have hdrop : (name ++ [CR, LF]).dropLast = name ++ [CR] := by
      rw [List.append_cons, List.dropLast_concat]
    rw [hdrop, pair_infix_concat_iff]
    rintro (⟨hmark, -⟩ | hin)
    · exact absurd hmark (by decide)
    · exact h.noStop CR (hin.subset List.mem_cons_self) (by decide)

/-- A command with an action is called by some stream if and only if its name is short enough, has no
digit, no mark and no carriage return, and nothing that leaves the loop. -/
theorem callable_iff (env : Env) (hdistinct : Distinct env.table) {cmd : Cmd} (hmem : cmd ∈ env.table)
    (hexec : cmd.exec = true) (hstring : ∀ c ∈ cmd.name, c ≠ 0) :
    (∃ n input, ∃ e ∈ (serverParser env n Server.init input).1,
      ∃ form args, e.dispatch = .called cmd form args) ↔
    Spelt cmd.name ∧ ESC_KEY ∉ cmd.name := by
  constructor
  · rintro ⟨n, input, e, he, form, args, hcalled⟩
    obtain ⟨hline, hdispatch⟩ := (serverParser_orderly env n Server.init_holds input).lines e he
    obtain ⟨name, hname, hfound⟩ := dispatch_called (hdispatch ▸ hcalled)
    obtain ⟨hspelt, hlead⟩ := atCmdGetName_spelt hname
    have hlower := atFindCmd_some hfound
    refine ⟨⟨?_, ?_⟩, ?_⟩
    · rw [← List.length_map lower, ← hlower, List.length_map]
      exact hspelt.lt
    · exact forall_mem_of_map_lower (fun h => not_congr (isStop_of_lower_eq h)) hlower hspelt.noStop
    · have hnoEsc : ∀ c ∈ name, ¬ c = ESC_KEY := fun c hc => (hline.heard c (hlead.subset hc)).2
      intro hesc
      exact forall_mem_of_map_lower (fun h => not_congr (eq_esc_of_lower_eq h)) hlower hnoEsc ESC_KEY
        hesc rfl
  · rintro ⟨hspelt, hesc⟩
    have hheard : ∀ c ∈ cmd.name, c ≠ 0 ∧ c ≠ ESC_KEY := fun c hc =>
      ⟨hstring c hc, fun h => hesc (h ▸ hc)⟩
    have hline := isLine_exec hspelt hheard
    have hplain : ∀ c ∈ cmd.name ++ [CR, LF], Plain Server.init.echoMode c := fun c hc =>
      ⟨(hline.heard c hc).1, (hline.heard c hc).2, fun h => Bool.false_ne_true h.1⟩
    obtain ⟨s, -, -, hrun⟩ := serverParser_line env hline (List.nil_append _).symm (by simp)
      Server.init_holds hplain [] 0
    have hdispatch : dispatch env.table (cmd.name ++ [CR, LF]) = .called cmd .exec [CR, LF] := by
      rw [dispatch_spelt hspelt (atFindCmd_distinct hdistinct hmem rfl) (by decide) [LF], atCmdProcess]
      rw [if_neg (by decide), if_neg (by decide), if_neg (by decide), if_pos (by decide),
        if_pos hexec]
    refine ⟨0 + (cmd.name ++ [CR, LF]).length, cmd.name ++ [CR, LF] ++ [],
      ⟨cmd.name ++ [CR, LF], dispatch env.table (cmd.name ++ [CR, LF]),
        List.take (env.reads [] (dispatch env.table (cmd.name ++ [CR, LF]))) []⟩, ?_,
      .exec, [CR, LF], hdispatch⟩
    rw [hrun]
    exact List.mem_cons_self

/-- `AT` is called. -/
theorem at_callable :
    (∃ n input, ∃ e ∈ (serverParser sendEnv n Server.init input).1,
      ∃ form args, e.dispatch = .called ⟨[0x41, 0x54], false, false, none, true⟩ form args) ↔
    Spelt [0x41, 0x54] ∧ ESC_KEY ∉ ([0x41, 0x54] : List Byte) :=
  callable_iff sendEnv (by decide) (by decide) rfl (by decide)

/-! ## Arguments -/

/-- `<name>`. -/
def angle (name : List Byte) : List Byte := L_ANGLE_BRACKET :: name ++ [R_ANGLE_BRACKET]

/-- An expression `=<a>,<b>[,<c>]` with its required and its optional parameters. -/
def argsExpr (first : List Byte) (required optional : List (List Byte)) : List Byte :=
  EQUAL_MARK :: angle first ++ required.flatMap (fun name => COMMA_MARK :: angle name) ++
    optional.flatMap (fun name => L_SQ_BRACKET :: COMMA_MARK :: angle name ++ [R_SQ_BRACKET])

/-- The arguments `=a,b,c` of a line. -/
def fields (first : List Byte) (rest : List (List Byte)) : List Byte :=
  EQUAL_MARK :: first ++ rest.flatMap (fun field => COMMA_MARK :: field) ++ [CR, LF]

/-- The name of a parameter. -/
def Named (name : List Byte) : Prop :=
  ∀ c ∈ name, c ≠ L_SQ_BRACKET ∧ c ≠ R_SQ_BRACKET ∧ c ≠ L_ANGLE_BRACKET ∧ c ≠ R_ANGLE_BRACKET

theorem Named.count {name : List Byte} (h : Named name) :
    name.count L_SQ_BRACKET = 0 ∧ name.count R_SQ_BRACKET = 0 ∧
      name.count L_ANGLE_BRACKET = 0 ∧ name.count R_ANGLE_BRACKET = 0 := by
  simp only [List.count_eq_zero]
  exact ⟨fun hm => (h _ hm).1 rfl, fun hm => (h _ hm).2.1 rfl, fun hm => (h _ hm).2.2.1 rfl,
    fun hm => (h _ hm).2.2.2 rfl⟩

/-- Pieces that hold a symbol equally often hold it so many times in all. -/
theorem count_flatMap_const {f : List Byte → List Byte} {c : Byte} {n : ℕ} {xs : List (List Byte)}
    (h : ∀ x ∈ xs, (f x).count c = n) : (xs.flatMap f).count c = xs.length * n := by
  induction xs with
  | nil => simp
  | cons x xs ih =>
    rw [List.flatMap_cons, List.count_append, h x List.mem_cons_self,
      ih fun y hy => h y (List.mem_cons_of_mem x hy), List.length_cons, Nat.succ_mul, Nat.add_comm]

theorem angle_count {name : List Byte} (h : Named name) :
    (angle name).count L_SQ_BRACKET = 0 ∧ (angle name).count R_SQ_BRACKET = 0 ∧
      (angle name).count L_ANGLE_BRACKET = 1 ∧ (angle name).count R_ANGLE_BRACKET = 1 := by
  obtain ⟨hlsq, hrsq, hlangle, hrangle⟩ := h.count
  rw [angle]
  simp only [List.cons_append, List.count_cons, List.count_append, hlsq, hrsq, hlangle, hrangle]
  decide

/-- How often a symbol stands in an expression, when it stands so often in each of its parts. -/
theorem argsExpr_count {first : List Byte} {required optional : List (List Byte)} {c : Byte} {n m : ℕ}
    (hc : c ≠ EQUAL_MARK ∧ c ≠ COMMA_MARK) (hfirst : (angle first).count c = n)
    (hrequired : ∀ name ∈ required, (angle name).count c = n)
    (hoptional : ∀ name ∈ optional, (angle name).count c = n)
    (hsq : [L_SQ_BRACKET, R_SQ_BRACKET].count c = m) :
    (argsExpr first required optional).count c =
      n + required.length * n + optional.length * (n + m) := by
  have hpieces : (required.flatMap fun name => COMMA_MARK :: angle name).count c =
      required.length * n := count_flatMap_const fun name hname => by
    rw [List.count_cons_of_ne hc.2.symm]
    exact hrequired name hname
  have hbracketed : (optional.flatMap fun name =>
      L_SQ_BRACKET :: COMMA_MARK :: angle name ++ [R_SQ_BRACKET]).count c =
        optional.length * (n + m) := count_flatMap_const fun name hname => by
    rw [← hsq, ← hoptional name hname]
    simp only [List.cons_append, List.count_cons, List.count_append, List.count_nil]
    rw [beq_false_of_ne hc.2.symm]
    simp only [Bool.false_eq_true, if_false]
    omega
  rw [argsExpr, List.count_append, hbracketed, List.count_append, hpieces,
    List.count_cons_of_ne hc.1.symm, hfirst]

/-- The arguments are as many as the expression has parameters, but for optional ones. -/
theorem atCheckArgs_fields {first : List Byte} {required optional : List (List Byte)}
    (hfirst : Named first) (hrequired : ∀ name ∈ required, Named name)
    (hoptional : ∀ name ∈ optional, Named name) {a : List Byte} {as : List (List Byte)}
    (ha : COMMA_MARK ∉ a) (has : ∀ field ∈ as, COMMA_MARK ∉ field) :
    atCheckArgs (fields a as) (argsExpr first required optional) = true ↔
      required.length ≤ as.length ∧ as.length ≤ required.length + optional.length := by
  have hlsq := argsExpr_count (c := L_SQ_BRACKET) (n := 0) (m := 1) (by decide)
    (angle_count hfirst).1 (fun name h => (angle_count (hrequired name h)).1)
    (fun name h => (angle_count (hoptional name h)).1) (by decide)
  have hrsq := argsExpr_count (c := R_SQ_BRACKET) (n := 0) (m := 1) (by decide)
    (angle_count hfirst).2.1 (fun name h => (angle_count (hrequired name h)).2.1)
    (fun name h => (angle_count (hoptional name h)).2.1) (by decide)
  have hlangle := argsExpr_count (c := L_ANGLE_BRACKET) (n := 1) (m := 0) (by decide)
    (angle_count hfirst).2.2.1 (fun name h => (angle_count (hrequired name h)).2.2.1)
    (fun name h => (angle_count (hoptional name h)).2.2.1) (by decide)
  have hrangle := argsExpr_count (c := R_ANGLE_BRACKET) (n := 1) (m := 0) (by decide)
    (angle_count hfirst).2.2.2 (fun name h => (angle_count (hrequired name h)).2.2.2)
    (fun name h => (angle_count (hoptional name h)).2.2.2) (by decide)
  have hcomma : (fields a as).count COMMA_MARK = as.length := by
    have hrest : (as.flatMap fun field => COMMA_MARK :: field).count COMMA_MARK = as.length * 1 :=
      count_flatMap_const fun field h => by
        rw [List.count_cons_self, List.count_eq_zero_of_not_mem (has field h)]
    rw [fields, List.count_append, List.count_append, hrest, List.count_cons_of_ne (by decide),
      List.count_eq_zero_of_not_mem ha]
    simp only [Nat.mul_one, Nat.zero_add]
    rfl
  rw [atCheckArgs, hlsq, hrsq, hlangle, hrangle, hcomma]
  simp only [Nat.mul_zero, Nat.mul_one, Nat.zero_add, Nat.add_zero]
  rw [if_neg (by omega)]
  by_cases hcount : required.length ≤ as.length ∧ as.length ≤ required.length + optional.length
  · rw [if_neg (by omega)]
    exact iff_of_true rfl hcount
  · rw [if_pos (by omega)]
    exact iff_of_false Bool.false_ne_true hcount

/-- No test form: the arguments are not a single question mark. -/
theorem fields_not_test {a : List Byte} {as : List (List Byte)} (hcr : CR ∉ a)
    (hlone : a :: as ≠ [[QUESTION_MARK]]) :
    ¬ ((fields a as).getD 0 0 = EQUAL_MARK ∧ (fields a as).getD 1 0 = QUESTION_MARK ∧
      (fields a as).getD 2 0 = CR) := by
  rintro ⟨-, hmark, hend⟩
  cases a with
  | nil =>
    cases as with
    | nil => exact absurd hmark (by decide)
    | cons b as =>
      have hcomma : COMMA_MARK = QUESTION_MARK := hmark
      exact absurd hcomma (by decide)
  | cons x a =>
    cases a with
    | nil =>
      cases as with
      | nil =>
        have hx : x = QUESTION_MARK := hmark
        rw [hx] at hlone
        exact hlone rfl
      | cons b as =>
        have hcomma : COMMA_MARK = CR := hend
        exact absurd hcomma (by decide)
    | cons y a =>
      have hy : y = CR := hend
      rw [hy] at hcr
      exact hcr (List.mem_cons_of_mem x List.mem_cons_self)

end WiotaDev.AtServer
