import StackScript.Proofs.Grammar
import StackScript.Proofs.Tiling

/-!
# Programs are read as they were printed

`parse_print`: a program that was read from a text, printed and read again, is the same program.  The tokens
of the printed text are the ones that were printed, for they are all legible (`stmtsTokens_legible`), and the
reader turns them back into the program (`program_told`).
-/

namespace StackScript.Syntax

open Decimal

theorem finite_of_unsigned {x : Float} (hsign : isUnsigned x.toModel.unpack = true) (hinf : x.isInf = false) :
    x.isFinite = true := by
  have hinf : x.toModel.unpack.isInf = false := hinf
  show x.toModel.unpack.isFinite = true
  cases hx : x.toModel.unpack with
  | infinity s => rw [hx] at hinf; cases hinf
  | notANumber => rw [hx] at hsign; cases hsign
  | zero s => rfl
  | finite s m e hm => rfl

section Print

variable [Text.IdentifierChars]

/-! ### The tokens of a program are legible -/

/-- All these tokens can be written. -/
def Legible (ts : List TokenKind) : Prop := ts.all TokenKind.legible = true

@[simp] theorem legible_nil : Legible [] := rfl

@[simp] theorem legible_cons {t : TokenKind} {ts : List TokenKind} :
    Legible (t :: ts) ↔ t.legible = true ∧ Legible ts := by
  rw [Legible, List.all_cons, Bool.and_eq_true]
  exact Iff.rfl

@[simp] theorem legible_append {ts us : List TokenKind} : Legible (ts ++ us) ↔ Legible ts ∧ Legible us := by
  rw [Legible, List.all_append, Bool.and_eq_true]
  exact Iff.rfl

@[simp] theorem legible_mark (m : Mark) : (TokenKind.mark m).legible = true := rfl

@[simp] theorem legible_keyword (k : Keyword) : (TokenKind.keyword k).legible = true := rfl

@[simp] theorem legible_string (s : String) : (TokenKind.string s).legible = true := rfl

theorem legible_name {s : String} (h : isName s = true) : (TokenKind.name s).legible = true := h

theorem literal_legible {v : Literal} (h : (Expr.literal v).printable = true) : v.kind.legible = true := by
  simp only [Expr.printable, Expr.parsed, Bool.and_eq_true] at h
  cases v with
  | int n => exact h.1
  | float x =>
    obtain ⟨hsign, hinf⟩ := h
    have hfinite := finite_of_unsigned hsign (by simpa [Expr.writable] using hinf)
    show (isUnsigned x.toModel.unpack && x.isFinite) = true
    rw [hfinite, Bool.and_true]
    exact hsign
  | string s => rfl
  | bool b => cases b <;> rfl
  | null => rfl

theorem inPlace_legible {least : Nat} {e : Expr} {ts : List TokenKind} (h : Legible ts) :
    Legible (inPlace least e ts) := by
  unfold inPlace
  split
  · simp [h]
  · exact h

@[simp] theorem BinaryOp.kind_legible (op : BinaryOp) : op.kind.legible = true := by cases op <;> rfl

@[simp] theorem UnaryOp.kind_legible (op : UnaryOp) : op.kind.legible = true := by cases op <;> rfl

@[simp] theorem AssignOp.kind_legible (op : AssignOp) : op.kind.legible = true := by cases op <;> rfl

mutual

theorem exprTokens_legible : (e : Expr) → e.every Expr.printable = true → Legible (exprTokens e)
  | .literal v, h => by simp [exprTokens, literal_legible h]
  | .name s, h => by
    simp only [Expr.every, Expr.printable, Expr.parsed, Bool.and_eq_true] at h
    simp [exprTokens, legible_name h.1]
  | .template _ _, _ => legible_nil
  | .unary op .before operand, h => by
    simp only [Expr.every, Bool.and_eq_true] at h
    simp [exprTokens, inPlace_legible (exprTokens_legible operand h.2)]
  | .unary op .after operand, h => by
    simp only [Expr.every, Bool.and_eq_true] at h
    simp [exprTokens, inPlace_legible (exprTokens_legible operand h.2)]
  | .binary op left right, h => by
    simp only [Expr.every, Bool.and_eq_true] at h
    simp [exprTokens, inPlace_legible (exprTokens_legible left h.1.2),
      inPlace_legible (exprTokens_legible right h.2)]
  | .member object field, h => by
    simp only [Expr.every, Expr.printable, Expr.parsed, Bool.and_eq_true] at h
    simp [exprTokens, inPlace_legible (exprTokens_legible object h.2), legible_name h.1.1]
  | .index object indices, h => by
    simp only [Expr.every, Bool.and_eq_true] at h
    simp [exprTokens, inPlace_legible (exprTokens_legible object h.1.2), listTokens_legible indices h.2]
  | .call callee arguments, h => by
    simp only [Expr.every, Bool.and_eq_true] at h
    simp [exprTokens, inPlace_legible (exprTokens_legible callee h.1.2), listTokens_legible arguments h.2]
  | .assign op target value, h => by
    simp only [Expr.every, Bool.and_eq_true] at h
    simp [exprTokens, inPlace_legible (exprTokens_legible target h.1.2), exprTokens_legible value h.2]
  | .array items, h => by
    simp only [Expr.every, Bool.and_eq_true] at h
    simp [exprTokens, listTokens_legible items h.2]
  | .set items, h => by
    simp only [Expr.every, Bool.and_eq_true] at h
    simp [exprTokens, listTokens_legible items h.2]
  | .object fields, h => by
    simp only [Expr.every, Bool.and_eq_true] at h
    simp [exprTokens, fieldTokens_legible fields h.2]
  | .ternary test yes no, h => by
    simp only [Expr.every, Bool.and_eq_true] at h
    simp [exprTokens, inPlace_legible (exprTokens_legible test h.1.1.2), exprTokens_legible yes h.1.2,
      exprTokens_legible no h.2]

theorem listTokens_legible : (es : List Expr) → everyIn Expr.printable es = true → Legible (listTokens es)
  | [], _ => legible_nil
  | e :: es, h => by
    simp only [everyIn, Bool.and_eq_true] at h
    rw [listTokens, legible_append]
    refine ⟨exprTokens_legible e h.1, ?_⟩
    split
    · exact legible_nil
    · simp [listTokens_legible es h.2]

theorem fieldTokens_legible : (fields : List (String × Expr)) → everyField Expr.printable fields = true →
    Legible (fieldTokens fields)
  | [], _ => legible_nil
  | (key, e) :: fields, h => by
    simp only [everyField, everyOf, Bool.and_eq_true] at h
    rw [fieldTokens, fieldToken, legible_append]
    refine ⟨by simp [exprTokens_legible e h.1], ?_⟩
    split
    · exact legible_nil
    · simp [fieldTokens_legible fields h.2]

end

theorem typeTokens_legible {typeName : String} (h : isTypeName typeName = true) :
    Legible (typeTokens typeName) := by
  unfold typeTokens
  by_cases hnull : typeName = "null"
  · simp [hnull]
  · have hname : isName typeName = true := by simpa [isTypeName, hnull] using h
    simp [hnull, legible_name hname]

theorem exprTokens?_legible {e : Option Expr} (h : every? Expr.printable e = true) : Legible (exprTokens? e) := by
  cases e with
  | none => exact legible_nil
  | some e => exact exprTokens_legible e h

theorem declarationTokens_legible {d : Declaration} (he : every? Expr.printable d.initial = true)
    (hd : d.parsed = true) : Legible (declarationTokens d) := by
  obtain ⟨name, initial, constant, typeName⟩ := d
  simp only [Declaration.parsed, Bool.and_eq_true] at hd
  cases initial with
  | none => simp [declarationTokens, legible_name hd.1.1, typeTokens_legible hd.1.2]
  | some e =>
    simp [declarationTokens, legible_name hd.1.1, typeTokens_legible hd.1.2, exprTokens_legible e he]

theorem paramTokens_legible {params : List Param} (h : params.all Param.parsed = true) :
    Legible (paramTokens params) := by
  induction params with
  | nil => exact legible_nil
  | cons p params ih =>
    simp only [List.all_cons, Param.parsed, Bool.and_eq_true] at h
    rw [paramTokens, legible_cons, legible_append]
    refine ⟨legible_name h.1.1, typeTokens_legible h.1.2, ?_⟩
    split
    · exact legible_nil
    · simp [ih h.2]

theorem exprStmtTokens_legible {e : Expr} (h : e.every Expr.printable = true) : Legible (exprStmtTokens e) := by
  have htokens := exprTokens_legible e h
  unfold exprStmtTokens
  split
  · simp [inPlace_legible htokens]
  · simp [htokens]

theorem initialTokens_legible {initial : Option Stmt} (hinitial : isInitial initial = true)
    (he : everyStmt? Expr.printable initial = true) (hp : parsed? initial = true) :
    Legible (initialTokens initial) := by
  cases initial with
  | none => simp [initialTokens]
  | some s =>
    cases s with
    | declare d => exact declarationTokens_legible he hp
    | expr e => exact exprStmtTokens_legible he
    | _ => cases hinitial

theorem level_legible {level : Nat} (h : level < 0x80000000) :
    (TokenKind.int (Int32.ofNat level)).legible = true := by
  rw [TokenKind.legible, decide_eq_true_eq, Int32.le_iff_toInt_le, Int32.toInt_ofNat_of_lt h]
  exact Int.natCast_nonneg level

mutual

theorem stmtTokens_legible : (s : Stmt) → s.every Expr.printable = true → s.parsed = true →
    Legible (stmtTokens s)
  | .declare d, he, hp => declarationTokens_legible he hp
  | .function name params returns body, he, hp => by
    simp only [Stmt.parsed, Bool.and_eq_true] at hp
    simp [stmtTokens, legible_name hp.1.1.1, paramTokens_legible hp.1.1.2, typeTokens_legible hp.1.2,
      stmtsTokens_legible body he hp.2]
  | .expr e, he, _ => exprStmtTokens_legible he
  | .block body, he, hp => by simp [stmtTokens, stmtsTokens_legible body he hp]
  | .cond test yes none, he, hp => by
    simp only [Stmt.every, Bool.and_eq_true] at he
    simp only [Stmt.parsed, Bool.and_eq_true] at hp
    simp [stmtTokens, elseTokens, exprTokens_legible test he.1.1, stmtTokens_legible yes he.1.2 hp.1.1]
  | .cond test yes (some no), he, hp => by
    simp only [Stmt.every, everyStmt?, Bool.and_eq_true] at he
    simp only [Stmt.parsed, parsed?, Bool.and_eq_true] at hp
    simp [stmtTokens, elseTokens, exprTokens_legible test he.1.1, stmtTokens_legible yes he.1.2 hp.1.1,
      stmtTokens_legible no he.2 hp.1.2]
  | .loop initial test step none, _, hp => by simp [Stmt.parsed] at hp
  | .loop initial test step (some body), he, hp => by
    simp only [Stmt.every, everyStmt?, Bool.and_eq_true] at he
    simp only [Stmt.parsed, parsed?, Bool.and_eq_true] at hp
    simp [stmtTokens, bodyTokens, initialTokens_legible hp.1.1.1 he.1.1.1 hp.1.1.2, exprTokens?_legible he.1.1.2,
      exprTokens?_legible he.1.2, stmtTokens_legible body he.2 hp.2]
  | .brk level, _, hp => by simp [stmtTokens, level_legible (of_decide_eq_true hp).2]
  | .ret e, he, _ => by simp [stmtTokens, exprTokens?_legible he]
  | .empty, _, _ => by simp [stmtTokens]

theorem stmtsTokens_legible : (body : List Stmt) → everyAll Expr.printable body = true →
    parsedAll body = true → Legible (stmtsTokens body)
  | [], _, _ => legible_nil
  | s :: body, he, hp => by
    simp only [everyAll, Bool.and_eq_true] at he
    simp only [parsedAll, Bool.and_eq_true] at hp
    simp [stmtsTokens, stmtTokens_legible s he.1 hp.1, stmtsTokens_legible body he.2 hp.2]

end

/-! ### The round trip -/

/-- A program that can be written is printed to a text that is read as the program. -/
theorem parse_print {source : String} {body : List Stmt} (h : parseProgram source = .ok body)
    (hwritable : everyAll Expr.writable body = true) : parseProgram (print body) = .ok body := by
  obtain ⟨hexprs, hparsed⟩ := parsed_of_parseProgram h
  have hprintable : everyAll Expr.printable body = true := everyAll_and hexprs hwritable
  have hlegible := stmtsTokens_legible body hprintable hparsed
  have hkinds : (TokenStream.ofSource (print body)).kinds = stmtsTokens body ++ [] := by
    rw [List.append_nil]
    exact tokens_layOut hlegible
  have hdepth : 30 * (stmtsTokens body).length + 15 ≤ depthBound (print body) := by
    have hlayOut := length_le_layOut hlegible
    have hbytes : (layOut (stmtsTokens body)).length ≤ (print body).utf8ByteSize := by
      rw [print, utf8ByteSize_ofList]
      exact length_le_byteLength _
    unfold depthBound
    omega
  obtain ⟨s', hrun, -⟩ := program_told hprintable hparsed _ hdepth _ hkinds
  unfold parseProgram Parse.runOn
  rw [hrun]
  rfl

end Print

/-- A text with an object in front of a statement, an `else` behind two conditions, a choice that is assigned
to, powers and a loop without a test. -/
def puzzle : String :=
  "(\x7ba: 1\x7d).a; if (x) if (y) ; else (b ? c : d) = (-2) ** 0.5 ** 2; for (let i = 'q'; ;) break;"

theorem puzzle_parse_print : ∃ body, parseProgram puzzle = .ok body ∧ everyAll Expr.writable body = true ∧
    parseProgram (print body) = .ok body := by
  have hread : ((parseProgram puzzle).toOption.any fun body => everyAll Expr.writable body) = true := by
    decide +kernel
  obtain ⟨body, hbody, hwritable⟩ := (Option.any_eq_true _ _).1 hread
  cases hparse : parseProgram puzzle with
  | ok body' =>
    rw [hparse] at hbody
    obtain rfl := Option.some.inj hbody
    exact ⟨body', rfl, hwritable, parse_print hparse hwritable⟩
  | error err =>
    rw [hparse] at hbody
    cases hbody

end StackScript.Syntax
