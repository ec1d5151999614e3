import StackScript.Proofs.Rereading

/-!
# Reading statements that were printed

Every statement that can be printed is read from its tokens (`Stmt.told`).  A condition without a second
branch must not stand in front of an `else` that is not its own; `Stmt.isOpen` tells which statements end with
such a condition.
-/

namespace StackScript.Syntax

open Parse

/-! ### Types, levels and the ends of statements -/

section Parts

variable {α : Type} {bound : Nat} {ts rest : List TokenKind}

theorem annotation_leads {typeName : String} {f : String → Parse α} (h : Leads (f typeName) ts q rest) :
    Leads ( annotation >>= f) (typeTokens typeName ++ ts) q rest := by
  have hannotation : Reads annotation (typeTokens typeName) typeName (ts ++ rest) := by
    unfold annotation typeTokens
    by_cases hnull : typeName = "null"
    · subst hnull
      exact .accept (.kind (.advance (.refl _)))
    · rw [if_neg hnull]
      exact .accept (.kind (.advance (.refl _)))
  exact hannotation.bind h

/-- Parameters behind the first. -/
theorem paramsBehind_reads {params : List Param} {count : Nat} (hcount : params.length ≤ count)
    (hrest : nextKind rest ≠ .mark .comma) :
    Reads (paramsBehind count) (if params.isEmpty then [] else .mark .comma :: paramTokens params) params
      rest := by
  induction params generalizing count with
  | nil =>
    cases count with
    | zero => exact .refl _
    | succ count =>
      rw [paramsBehind]
      exact .accept_other hrest (.refl _)
  | cons p params ih =>
    rw [List.length_cons] at hcount
    obtain ⟨count, rfl⟩ := Nat.exists_eq_add_one_of_ne_zero (by omega : count ≠ 0)
    rw [paramsBehind]
    refine .accept (.identifier (annotation_leads ?_))
    exact .bind_last (ih (Nat.le_of_succ_le_succ hcount)) (.refl _)

theorem length_le_paramTokens (params : List Param) : params.length ≤ (paramTokens params).length := by
  induction params with
  | nil => exact Nat.le_refl _
  | cons p params ih =>
    have hseparated : params = [] → paramTokens params = [] := by rintro rfl; rfl
    have hlength := length_le_separated hseparated
    rw [paramTokens, List.length_cons, List.length_cons, List.length_append]
    omega

theorem params_reads (params : List Param) :
    Reads Parse.params (paramTokens params) params (.mark .rightParen :: rest) := by
  unfold Parse.params
  refine .sees ?_
  cases params with
  | nil => exact .refl _
  | cons p params =>
    rw [paramTokens]
    refine .identifier (annotation_leads (.get fun s hs => .bind_last (paramsBehind_reads ?_ nofun) (.refl _)))
    have hseparated : params = [] → paramTokens params = [] := by rintro rfl; rfl
    have hlength := length_le_separated hseparated
    have hparams := length_le_paramTokens params
    have hrest : s.rest.length = s.kinds.length := (List.length_map _).symm
    rw [hrest, hs, List.length_append]
    omega

theorem map_reads {β : Type} {p : Parse α} {a : α} (f : α → β) (h : Reads p ts a rest) :
    Reads (f <$> p) ts (f a) rest := by
  rw [map_eq_pure_bind]
  exact .bind_last h (.refl _)

theorem breakLevel_reads {level : Nat} (hlevel : 0 < level ∧ level < 0x80000000) :
    Reads breakLevel [.int (Int32.ofNat level)] level rest := by
  have hvalue : (Int32.ofNat level).toInt = level := Int32.toInt_ofNat_of_lt hlevel.2
  unfold breakLevel
  refine .kind ?_
  have hpos : 0 < Int32.ofNat level := by
    rw [Int32.lt_iff_toInt_lt, hvalue]
    exact Int.natCast_pos.2 hlevel.1
  rw [List.singleton_append, nextKind_cons]
  dsimp only
  rw [if_pos hpos, hvalue]
  exact .advance (.refl _)

/-- The tokens that stand behind the statements of a list, and the one that belongs to a condition. -/
def TokenKind.endsStmts : TokenKind → Bool
  | .keyword .elseWord | .mark .rightBrace | .endOfInput => true
  | _ => false

theorem TokenKind.endsStmts_of_startsExpr {k : TokenKind} (h : k.startsExpr = true) : k.endsStmts = false := by
  cases k with
  | keyword k => cases k <;> first | rfl | cases h
  | mark m => cases m <;> first | rfl | cases h
  | endOfInput => cases h
  | _ => rfl

theorem TokenKind.beq_of_endsStmts {k k' : TokenKind} (h : k.endsStmts = false) (h' : k'.endsStmts = true) :
    (k == k') = false := by
  rw [beq_eq_false_iff_ne]
  rintro rfl
  cases h.symm.trans h'

theorem length_pos_of_starts (h : ∀ rest, (nextKind (ts ++ rest)).endsStmts = false) : 0 < ts.length := by
  cases ts with
  | nil => cases h []
  | cons t ts => exact Nat.succ_pos _

end Parts

variable [Text.IdentifierChars]

/-! ### What statements can be printed -/

mutual

/-- Would an `else` behind the statement belong to it? -/
def Stmt.isOpen : Stmt → Bool
  | .cond _ _ none => true
  | .cond _ _ (some no) => no.isOpen
  | .loop _ _ _ body => isOpen? body
  | _ => false

def isOpen? : Option Stmt → Bool
  | none => false
  | some s => s.isOpen

end

def isTypeName (s : String) : Bool := s == "null" || isName s

/-- A declaration as the reader makes it: a constant has a value. -/
def Declaration.parsed (d : Declaration) : Bool :=
  isName d.name && isTypeName d.typeName && (!d.constant || d.initial.isSome)

def Param.parsed (p : Param) : Bool := isName p.name && isTypeName p.typeName

/-- What may stand in front of the first semicolon of a loop. -/
def isInitial : Option Stmt → Bool
  | none | some (.declare _) | some (.expr _) => true
  | _ => false

mutual

/-- A statement as the reader makes it. -/
def Stmt.parsed : Stmt → Bool
  | .declare d => d.parsed
  | .function name params returns body =>
    isName name && params.all Param.parsed && isTypeName returns && parsedAll body
  | .block body => parsedAll body
  | .cond _ yes no => yes.parsed && parsed? no && (no.isNone || !yes.isOpen)
  | .loop initial _ _ body => isInitial initial && parsed? initial && body.isSome && parsed? body
  | .brk level => decide (0 < level ∧ level < 0x80000000)
  | .expr _ | .ret _ | .empty => true

def parsedAll : List Stmt → Bool
  | [] => true
  | s :: rest => s.parsed && parsedAll rest

def parsed? : Option Stmt → Bool
  | none => true
  | some s => s.parsed

end

/-! ### Parts of statements -/

section Parts

variable {α : Type} {bound depth : Nat} {q : Parse α} {ts rest : List TokenKind} {e : Expr}

theorem told_of_every? {e : Option Expr} (h : every? Expr.printable e = true) :
    ∀ e', e = some e' → Told e' := by
  rintro e' rfl
  exact e'.told h

theorem declaration_reads {d : Declaration} (hd : d.parsed = true)
    (hinitial : ∀ e, d.initial = some e → Told e) :
    ReadsFrom (30 * (declarationTokens d).length) declaration (declarationTokens d) d rest := by
  obtain ⟨name, initial, constant, typeName⟩ := d
  intro depth hdepth
  unfold declaration declarationTokens
  refine .kind (.advance (.identifier (annotation_leads ?_)))
  cases initial with
  | none =>
    obtain rfl : constant = false := by
      simp only [Declaration.parsed, Bool.and_eq_true, Option.isSome_none, Bool.or_false, Bool.not_eq_true'] at hd
      exact hd.2
    exact .accept_other nofun (.bind_nil (.refl _) (.expect (.refl _)))
  | some e =>
    have hstops : Stops 0 (.mark .semicolon :: rest) := .of_close rfl _
    have hlength : 30 * (exprTokens e).length + 13 ≤ depth := by
      simp only [declarationTokens, List.length_cons, List.length_append] at hdepth
      omega
    refine .accept (.bind (map_reads some ((hinitial e rfl).free _ hstops depth hlength)) (.expect ?_))
    cases constant <;> exact .refl _

theorem expressionStatement_reads (h : Placed (30 * ts.length) ts e 0) :
    ReadsFrom (30 * ts.length + 13) expressionStatement (ts ++ [.mark .semicolon]) (.expr e) rest := by
  intro depth hdepth
  unfold expressionStatement
  exact .bind (h _ (.of_close rfl _) depth (by omega)) (.expect (.refl _))

theorem expressionUnless_leads {e : Option Expr} {close : Mark} {f : Option Expr → Parse α}
    (hclose : close.binds? = none) (hexpr : TokenKind.startsExpr (.mark close) = false)
    (he : ∀ e', e = some e' → Told e')
    (hdepth : 30 * (exprTokens? e).length + 13 ≤ depth) (h : Leads (f e) (.mark close :: ts) q rest) :
    Leads (expressionUnless depth close >>= f) (exprTokens? e ++ .mark close :: ts) q rest := by
  have hunless : Reads (expressionUnless depth close) (exprTokens? e) e (.mark close :: ts ++ rest) := by
    unfold expressionUnless
    refine .sees ?_
    cases e with
    | none =>
      rw [exprTokens?, List.nil_append, List.cons_append, nextKind_cons, if_pos (beq_self_eq_true _)]
      exact .refl _
    | some e =>
      have htold := (he e rfl).free
      have hstops : Stops 0 (.mark close :: ts ++ rest) := .of_close hclose _
      rw [exprTokens?, TokenKind.beq_of_startsExpr (htold.starts hstops) hexpr, if_neg Bool.false_ne_true]
      exact map_reads some (htold _ hstops depth hdepth)
  exact hunless.bind h

/-- The expression of a statement is read from its tokens, which do not start like a block. -/
theorem exprStmtTokens_placed (h : Told e) : ∃ ts, exprStmtTokens e = ts ++ [.mark .semicolon] ∧
    Placed (30 * ts.length) ts e 0 ∧ ∀ rest, nextKind (ts ++ rest) ≠ .mark .leftBrace := by
  by_cases hhead : (exprTokens e).head? = some (.mark .leftBrace)
  · refine ⟨.mark .leftParen :: (exprTokens e ++ [.mark .rightParen]), ?_, ?_, nofun⟩
    · rw [exprStmtTokens, if_pos hhead, inPlace, if_pos (Nat.lt_succ_of_le e.level_le)]
    · have hparens := (parens_placed h.free).lower (Nat.zero_le _) (Nat.le_refl _)
      refine hparens.mono ?_ (Nat.zero_le _)
      simp only [List.length_cons, List.length_append]
      omega
  · refine ⟨exprTokens e, by rw [exprStmtTokens, if_neg hhead], h.free, fun rest heq => hhead ?_⟩
    have hpos := h.length_pos
    cases hts : exprTokens e with
    | nil => rw [hts] at hpos; cases hpos
    | cons t ts =>
      rw [hts] at heq
      exact congrArg some heq

theorem statement_of_expr {s : Stmt} (hstarts : (nextKind (ts ++ rest)).startsExpr = true)
    (hbrace : nextKind (ts ++ rest) ≠ .mark .leftBrace) (h : Reads (expressionStatement depth) ts s rest) :
    Reads (statement (depth + 1)) ts s rest := by
  rw [statement]
  refine .kind ?_
  split
  all_goals first
    | exact h
    | next hk => exact absurd hk hbrace
    | next hk =>
      rw [hk] at hstarts
      cases hstarts

theorem expr_reads (h : Told e) :
    ReadsFrom (30 * (exprStmtTokens e).length) statement (exprStmtTokens e) (.expr e) rest := by
  obtain ⟨ts, hts, hplaced, hbrace⟩ := exprStmtTokens_placed h
  rw [hts]
  refine .of_succ ?_ fun depth hdepth => ?_
  · simp
  · rw [List.length_append, List.length_singleton] at hdepth
    have hstops : Stops 0 (.mark .semicolon :: rest) := .of_close rfl _
    have hstarts := hplaced.starts hstops
    refine statement_of_expr ?_ ?_ (expressionStatement_reads hplaced depth (by omega))
    · rwa [List.append_assoc]
    · rw [List.append_assoc]
      exact hbrace _

theorem loopInitial_reads {initial : Option Stmt} (hinitial : isInitial initial = true)
    (hparsed : parsed? initial = true) (htold : everyStmt? Expr.printable initial = true) :
    ReadsFrom (30 * (initialTokens initial).length + 13) loopInitial (initialTokens initial) initial rest := by
  intro depth hdepth
  unfold loopInitial
  cases initial with
  | none => exact .kind (.advance (.refl _))
  | some s =>
    cases s with
    | declare d =>
      have hlength : 30 * (declarationTokens d).length ≤ depth := (Nat.le_add_right _ _).trans hdepth
      have hd : Reads (declaration depth) (declarationTokens d) d rest :=
        declaration_reads hparsed (told_of_every? htold) depth hlength
      obtain ⟨name, initial, constant, typeName⟩ := d
      cases constant <;> exact .kind (.bind_last hd (.refl _))
    | expr e =>
      obtain ⟨ts, hts, hplaced, hbrace⟩ := exprStmtTokens_placed (e.told htold)
      have hstops : Stops 0 ([.mark .semicolon] ++ rest) := .of_close rfl _
      have hstarts := hplaced.starts hstops
      have htokens : initialTokens (some (.expr e)) = ts ++ [.mark .semicolon] := hts
      rw [htokens, List.length_append] at hdepth
      have he : Reads (expressionStatement depth) (ts ++ [.mark .semicolon]) (.expr e) rest :=
        expressionStatement_reads hplaced depth (by omega)
      rw [htokens]
      refine .kind ?_
      rw [List.append_assoc]
      split
      -- no expression starts like a declaration or a semicolon
      all_goals first
        | exact map_reads some he
        | next hk =>
          rw [hk] at hstarts
          cases hstarts
    | _ => cases hinitial

/-- No statement starts with one of these. -/
theorem stmtTokens_starts (s : Stmt) (h : s.every Expr.printable = true) (rest : List TokenKind) :
    (nextKind (stmtTokens s ++ rest)).endsStmts = false := by
  cases s with
  | expr e =>
    obtain ⟨ts, hts, hplaced, -⟩ := exprStmtTokens_placed (e.told h)
    rw [stmtTokens, hts, List.append_assoc]
    exact TokenKind.endsStmts_of_startsExpr (hplaced.starts (.of_close rfl _))
  | declare d =>
    obtain ⟨name, initial, constant, typeName⟩ := d
    cases constant <;> rfl
  | _ => rfl

/-- No `else` stands behind a statement of a list. -/
theorem nextKind_stmtsTokens (body : List Stmt) (h : everyAll Expr.printable body = true)
    (hrest : nextKind rest ≠ .keyword .elseWord) :
    nextKind (stmtsTokens body ++ rest) ≠ .keyword .elseWord := by
  cases body with
  | nil => exact hrest
  | cons s body =>
    simp only [everyAll, Bool.and_eq_true] at h
    rw [stmtsTokens, List.append_assoc]
    have hstarts := stmtTokens_starts s h.1 (stmtsTokens body ++ rest)
    intro heq
    rw [heq] at hstarts
    cases hstarts

theorem declare_reads {d : Declaration} (h : Reads (declaration depth) ts d rest)
    (hts : ∃ us, ts = .keyword (if d.constant then .constWord else .letWord) :: us) :
    Reads (statement (depth + 1)) ts (.declare d) rest := by
  obtain ⟨us, rfl⟩ := hts
  obtain ⟨name, initial, constant, typeName⟩ := d
  rw [statement]
  cases constant <;> exact .kind (.bind_last h (.refl _))

end Parts

mutual

/-- Every statement is read from its tokens. -/
theorem Stmt.told : (s : Stmt) → s.every Expr.printable = true → s.parsed = true →
    (rest : List TokenKind) → (s.isOpen = true → nextKind rest ≠ .keyword .elseWord) →
      ReadsFrom (30 * (stmtTokens s).length + 14) statement (stmtTokens s) s rest
  | .declare d, he, hp, rest, _ => by
    refine .of_succ (by omega) fun depth hdepth => ?_
    have hlength : 30 * (declarationTokens d).length ≤ depth := by
      rw [stmtTokens] at hdepth
      omega
    exact declare_reads (declaration_reads hp (told_of_every? he) depth hlength) ⟨_, rfl⟩
  | .function name params returns body, he, hp, rest, _ => by
    simp only [Stmt.parsed, Bool.and_eq_true] at hp
    refine .of_succ (by omega) fun depth hdepth => ?_
    rw [stmtTokens] at hdepth ⊢
    simp only [List.length_append, List.length_cons] at hdepth
    rw [statement]
    refine .kind (.advance (.identifier (.expect ?_)))
    refine .bind (params_reads params) (.expect (annotation_leads (.expect ?_)))
    exact .bind_last (stmts_told body he hp.2 rest depth (by omega)) (.refl _)
  | .expr e, he, _, rest, _ => (expr_reads (e.told he)).mono (Nat.le_add_right _ _)
  | .block body, he, hp, rest, _ => by
    refine .of_succ (by omega) fun depth hdepth => ?_
    rw [stmtTokens] at hdepth ⊢
    simp only [List.length_append, List.length_cons] at hdepth
    rw [statement]
    refine .kind (.advance ?_)
    exact .bind_last (stmts_told body he hp rest depth (by omega)) (.refl _)
  | .cond test yes none, he, hp, rest, hopen => by
    simp only [Stmt.every, Bool.and_eq_true] at he
    simp only [Stmt.parsed, Bool.and_eq_true] at hp
    refine .of_succ (by omega) fun depth hdepth => ?_
    rw [stmtTokens, elseTokens, List.append_nil] at hdepth ⊢
    simp only [List.length_append, List.length_cons] at hdepth
    -- without an else of its own, the statement must not be followed by one
    have helse := hopen rfl
    rw [statement]
    refine .kind (.advance (.expect ?_))
    refine .bind ((test.told he.1.1).free _ (.of_close rfl _) depth (by omega)) (.expect ?_)
    refine .bind_last (yes.told he.1.2 hp.1.1 rest (fun _ => helse) depth (by omega)) (.kind ?_)
    rw [List.nil_append, beq_false_of_ne helse, if_neg Bool.false_ne_true]
    exact .refl _
  | .cond test yes (some no), he, hp, rest, hopen => by
    simp only [Stmt.every, everyStmt?, Bool.and_eq_true] at he
    simp only [Stmt.parsed, parsed?, Option.isNone_some, Bool.false_or, Bool.and_eq_true, Bool.not_eq_true'] at hp
    refine .of_succ (by omega) fun depth hdepth => ?_
    rw [stmtTokens, elseTokens] at hdepth ⊢
    simp only [List.length_append, List.length_cons] at hdepth
    rw [statement]
    refine .kind (.advance (.expect ?_))
    refine .bind ((test.told he.1.1).free _ (.of_close rfl _) depth (by omega)) (.expect ?_)
    refine .bind (yes.told he.1.2 hp.1.1 _ (fun h => ?_) depth (by omega)) (.kind ?_)
    · -- the first arm would take the else, if it could
      cases hp.2.symm.trans h
    · refine .advance (.bind_last (no.told he.2 hp.1.2 rest ?_ depth (by omega)) (.refl _))
      exact fun h => hopen (by rwa [Stmt.isOpen])
  | .loop initial test step (some body), he, hp, rest, hopen => by
    simp only [Stmt.every, everyStmt?, Bool.and_eq_true] at he
    simp only [Stmt.parsed, parsed?, Bool.and_eq_true] at hp
    refine .of_succ (by omega) fun depth hdepth => ?_
    rw [stmtTokens, bodyTokens] at hdepth ⊢
    simp only [List.length_append, List.length_cons] at hdepth
    rw [statement]
    refine .kind (.advance (.expect ?_))
    refine .bind (loopInitial_reads hp.1.1.1 hp.1.1.2 he.1.1.1 depth (by omega)) ?_
    refine expressionUnless_leads rfl rfl (told_of_every? he.1.1.2) (by omega) (.expect ?_)
    refine expressionUnless_leads rfl rfl (told_of_every? he.1.2) (by omega) (.expect ?_)
    refine .bind_last (body.told he.2 hp.2 rest ?_ depth (by omega)) (.refl _)
    exact fun h => hopen (by rwa [Stmt.isOpen, isOpen?])
  | .loop _ _ _ none, _, hp, _, _ => by simp [Stmt.parsed] at hp
  | .brk level, _, hp, rest, _ => by
    refine .of_succ (by omega) fun depth hdepth => ?_
    rw [statement, stmtTokens]
    exact .kind (.advance (.bind (breakLevel_reads (of_decide_eq_true hp)) (.expect (.refl _))))
  | .ret e, he, _, rest, _ => by
    refine .of_succ (by omega) fun depth hdepth => ?_
    rw [stmtTokens] at hdepth ⊢
    simp only [List.length_append, List.length_cons] at hdepth
    rw [statement]
    refine .kind (.advance ?_)
    exact expressionUnless_leads rfl rfl (told_of_every? he) (by omega) (.expect (.refl _))
  | .empty, _, _, rest, _ => by
    refine .of_succ (by omega) fun depth hdepth => ?_
    rw [statement]
    exact .kind (.advance (.refl _))

/-- Statements are read up to the brace behind them. -/
theorem stmts_told : (body : List Stmt) → everyAll Expr.printable body = true → parsedAll body = true →
    (rest : List TokenKind) → ReadsFrom (30 * (stmtsTokens body).length + 15) statementsUntilBrace
      (stmtsTokens body ++ [.mark .rightBrace]) body rest
  | [], _, _, rest => by
    refine .of_succ (by omega) fun depth hdepth => ?_
    rw [statementsUntilBrace]
    exact .sees (.atEnd (.expect (.refl _)))
  | s :: body, he, hp, rest => by
    simp only [everyAll, Bool.and_eq_true] at he
    simp only [parsedAll, Bool.and_eq_true] at hp
    refine .of_succ (by omega) fun depth hdepth => ?_
    have hstarts := stmtTokens_starts s he.1
    have hpos := length_pos_of_starts hstarts
    rw [stmtsTokens, List.append_assoc]
    rw [stmtsTokens, List.length_append] at hdepth
    rw [statementsUntilBrace]
    refine .sees (.atEnd ?_)
    rw [List.append_assoc, TokenKind.beq_of_endsStmts (hstarts _) rfl, TokenKind.beq_of_endsStmts (hstarts _) rfl,
      Bool.or_false, if_neg Bool.false_ne_true]
    refine .bind (s.told he.1 hp.1 _ (fun _ => ?_) depth (by omega)) ?_
    · rw [List.append_assoc]
      exact nextKind_stmtsTokens body he.2 nofun
    · exact .bind_last (stmts_told body he.2 hp.2 rest depth (by omega)) (.refl _)

end

/-- The statements of a program are read up to the end. -/
theorem program_told {body : List Stmt} (he : everyAll Expr.printable body = true) (hp : parsedAll body = true) :
    ReadsFrom (30 * (stmtsTokens body).length + 15) statementsToEnd (stmtsTokens body) body [] := by
  induction body with
  | nil =>
    refine .of_succ (by omega) fun depth _ => ?_
    rw [statementsToEnd]
    exact .atEnd (.refl _)
  | cons s body ih =>
    simp only [everyAll, Bool.and_eq_true] at he
    simp only [parsedAll, Bool.and_eq_true] at hp
    refine .of_succ (by omega) fun depth hdepth => ?_
    have hstarts := stmtTokens_starts s he.1
    have hpos := length_pos_of_starts hstarts
    rw [stmtsTokens, List.length_append] at hdepth
    rw [stmtsTokens, statementsToEnd]
    refine .atEnd ?_
    rw [List.append_assoc, TokenKind.beq_of_endsStmts (hstarts _) rfl, if_neg Bool.false_ne_true]
    refine .bind (s.told he.1 hp.1 _ (fun _ => ?_) depth (by omega)) ?_
    · exact nextKind_stmtsTokens body he.2 nofun
    · exact .bind_last (ih he.2 hp.2 depth (by omega)) (.refl _)

end StackScript.Syntax
