import StackScript.Proofs.Refusals

/-!
# Brackets in programs

What a reader takes has its brackets nested: each one is closed by its own kind of bracket, and those that
were open in front are open behind.  A statement ends with a semicolon or a closing brace.

* `nest`: the brackets that tokens leave open.
* `Nests`: what a reader does to the open brackets; `exprs_nest` and `stmts_nest` carry it from each depth to
  the next one.
* `program_nests`, `expression_nests`: a text that is read leaves no bracket open.
* `program_ends`: what the last token of a program is.
-/

namespace StackScript.Syntax

open Parse

/-! ### Open brackets -/

def Mark.closer? : Mark → Option Mark
  | leftParen => some rightParen
  | leftBracket => some rightBracket
  | leftBrace | hashBrace => some rightBrace
  | _ => none

def Mark.isCloser : Mark → Bool
  | rightParen | rightBracket | rightBrace => true
  | _ => false

/-- The brackets that are open behind a token, each one as the mark that closes it, the innermost first.
There is no answer where a mark closes what is not the innermost bracket. -/
def TokenKind.nest (outer : List Mark) : TokenKind → Option (List Mark)
  | mark m =>
    match m.closer? with
    | some close => some (close :: outer)
    | none =>
      if m.isCloser then
        match outer with
        | close :: outer => if close = m then some outer else none
        | [] => none
      else some outer
  | _ => some outer

theorem TokenKind.nest_opener {m close : Mark} (h : m.closer? = some close) (outer : List Mark) :
    (mark m).nest outer = some (close :: outer) := by
  unfold nest
  dsimp only
  rw [h]

def nest : List TokenKind → List Mark → Option (List Mark)
  | [], outer => some outer
  | k :: ks, outer => (k.nest outer).bind (nest ks)

theorem nest_append (ks ls : List TokenKind) (outer : List Mark) :
    nest (ks ++ ls) outer = (nest ks outer).bind (nest ls) := by
  induction ks generalizing outer with
  | nil => rfl
  | cons k ks ih =>
    rw [List.cons_append, nest, nest]
    cases k.nest outer with
    | none => rfl
    | some inner => exact ih inner

/-- A token that is no bracket. -/
def TokenKind.isFlat (k : TokenKind) : Prop := ∀ outer, k.nest outer = some outer

/-! ### What readers do to open brackets -/

/-- Between two streams, tokens close the first brackets and leave the second ones open, whatever else is open. -/
def TokenStream.Nests (before after : List Mark) (s s' : TokenStream) : Prop :=
  ∃ taken, s.rest = taken ++ s'.rest ∧
    ∀ outer, nest (taken.map (·.kind)) (before ++ outer) = some (after ++ outer)

namespace TokenStream.Nests

variable {before between after : List Mark} {s s' s'' : TokenStream}

theorem refl : s.Nests before before s := ⟨[], rfl, fun _ => rfl⟩

theorem trans (h : s.Nests before between s') (h' : s'.Nests between after s'') : s.Nests before after s'' := by
  obtain ⟨taken, hrest, htaken⟩ := h
  obtain ⟨taken', hrest', htaken'⟩ := h'
  refine ⟨taken ++ taken', by rw [hrest, hrest', List.append_assoc], fun outer => ?_⟩
  rw [List.map_append, nest_append, htaken]
  exact htaken' outer

theorem advance (h : ∀ outer, s.current.kind.nest (before ++ outer) = some (after ++ outer)) :
    s.Nests before after s.advance := by
  obtain ⟨rest, stop⟩ := s
  cases rest with
  | nil => exact ⟨[], rfl, h⟩
  | cons t rest =>
    refine ⟨[t], rfl, fun outer => ?_⟩
    rw [List.map_singleton, nest, show t.kind.nest (before ++ outer) = some (after ++ outer) from h outer]
    rfl

/-- What is nested in itself stays so inside of other brackets. -/
theorem within (h : s.Nests [] [] s') : s.Nests before before s' := by
  obtain ⟨taken, hrest, htaken⟩ := h
  exact ⟨taken, hrest, fun outer => htaken (before ++ outer)⟩

end TokenStream.Nests

/-- A reader with a result has closed the first brackets and has left the second ones open. -/
def Nests {α : Type} (before after : List Mark) (s : TokenStream) (p : Parse α) : Prop :=
  ∀ a s', p.run s = .ok a s' → s.Nests before after s'

namespace Nests

variable {α β : Type} {before between after : List Mark} {s : TokenStream} {p q : Parse α} {m close : Mark}

/-- What a reader takes depends on what it does here only. -/
theorem congr (hq : Nests before after s q) (h : p.run s = q.run s) : Nests before after s p :=
  fun a s' hrun => hq a s' (h ▸ hrun)

theorem pure {a : α} : Nests before before s (pure a) := by
  rintro _ _ ⟨⟩
  exact .refl

theorem fail (fault : SyntaxFault) : Nests before after s (Parse.fail (α := α) fault) := by
  rintro _ _ ⟨⟩

theorem refuse (wanted : Wanted) : Nests before after s (Parse.refuse (α := α) wanted) := by
  intro a s' hrun
  obtain ⟨fault, herror⟩ := refuse_run (α := α) wanted s
  cases herror.symm.trans hrun

theorem bind {f : α → Parse β} (hp : Nests before between s p) (hf : ∀ a s', Nests between after s' (f a)) :
    Nests before after s (p >>= f) := by
  intro b s'' hrun
  rw [run_bind] at hrun
  split at hrun
  · next a s' hp' => exact (hp a s' hp').trans (hf a s' b s'' hrun)
  · cases hrun

theorem within (hp : Nests [] [] s p) : Nests before before s p := fun a s' hrun => (hp a s' hrun).within

theorem map {f : α → β} (hp : Nests before after s p) : Nests before after s (f <$> p) := by
  rw [map_eq_pure_bind]
  exact hp.bind fun _ _ => pure

theorem kind {f : TokenKind → Parse β} (h : Nests before after s (f s.current.kind)) :
    Nests before after s (Parse.kind >>= f) := h.congr rfl

theorem get {f : TokenStream → Parse β} (h : Nests before after s (f s)) : Nests before after s (get >>= f) :=
  h.congr rfl

theorem sees {f : Bool → Parse β} (h : Nests before after s (f (s.current.kind == .mark m))) :
    Nests before after s (Parse.sees m >>= f) := h.congr rfl

theorem atEnd {f : Bool → Parse β} (h : Nests before after s (f (s.current.kind == .endOfInput))) :
    Nests before after s (Parse.atEnd >>= f) := h.congr rfl

/-- A token is taken behind a look at it. -/
theorem taking {k : TokenKind} {f : Unit → Parse β} (hkind : s.current.kind = k)
    (hk : ∀ outer, k.nest (before ++ outer) = some (between ++ outer))
    (h : Nests between after s.advance (f ())) : Nests before after s (Parse.advance >>= f) := by
  subst hkind
  exact fun b s' hrun => (TokenStream.Nests.advance hk).trans (h b s' hrun)

theorem opening {f : Unit → Parse β} (hkind : s.current.kind = .mark m) (hm : m.closer? = some close)
    (h : Nests (close :: before) after s.advance (f ())) : Nests before after s (Parse.advance >>= f) :=
  taking hkind (fun outer => TokenKind.nest_opener hm (before ++ outer)) h

theorem flat {k : TokenKind} {f : Unit → Parse β} (hkind : s.current.kind = k) (hk : k.isFlat)
    (h : Nests before after s.advance (f ())) : Nests before after s (Parse.advance >>= f) :=
  taking hkind (fun outer => hk (before ++ outer)) h

theorem advance {k : TokenKind} (hkind : s.current.kind = k)
    (hk : ∀ outer, k.nest (before ++ outer) = some (after ++ outer)) : Nests before after s Parse.advance := by
  subst hkind
  rintro _ _ ⟨⟩
  exact .advance hk

theorem expect (hm : ∀ outer, (TokenKind.mark m).nest (before ++ outer) = some (after ++ outer)) :
    Nests before after s (Parse.expect m) := by
  unfold Parse.expect
  refine sees ?_
  split
  · next hk => exact advance (eq_of_beq hk) hm
  · exact refuse _

theorem accept (hm : (TokenKind.mark m).isFlat) : Nests [] [] s (Parse.accept m) := by
  unfold Parse.accept
  refine sees ?_
  split
  · next hk => exact .flat (eq_of_beq hk) hm pure
  · exact pure

theorem identifier : Nests [] [] s Parse.identifier := by
  unfold Parse.identifier
  refine kind ?_
  split
  · next hk => exact .flat hk (fun _ => rfl) pure
  · exact refuse _

end Nests

/-! ### Tokens that are no brackets -/

theorem AssignOp.flat_of_ofKind? {k : TokenKind} {op : AssignOp} (h : AssignOp.ofKind? k = some op) : k.isFlat := by
  intro outer
  cases k with
  | mark m => cases m <;> first | rfl | cases h
  | _ => rfl

theorem BinaryOp.flat_of_ofKind? {k : TokenKind} {op : BinaryOp} {accepts : BinaryOp → Bool}
    (h : (BinaryOp.ofKind? k).filter accepts = some op) : k.isFlat := by
  intro outer
  cases k with
  | mark m => cases m <;> first | rfl | cases h
  | _ => rfl

theorem UnaryOp.flat_of_beforeOfKind? {k : TokenKind} {op : UnaryOp} (h : UnaryOp.beforeOfKind? k = some op) :
    k.isFlat := by
  intro outer
  cases k with
  | mark m => cases m <;> first | rfl | cases h
  | _ => rfl

theorem UnaryOp.flat_of_afterOfKind? {k : TokenKind} {op : UnaryOp} (h : UnaryOp.afterOfKind? k = some op) :
    k.isFlat := by
  intro outer
  cases k with
  | mark m => cases m <;> first | rfl | cases h
  | _ => rfl

theorem Literal.flat_of_ofKind? {k : TokenKind} {v : Literal} (h : Literal.ofKind? k = some v) : k.isFlat := by
  intro outer
  cases k with
  | mark m => cases h
  | _ => rfl

/-! ### Parts without expressions -/

section Plain

variable {s : TokenStream}

theorem annotation_nests : Nests [] [] s annotation := by
  unfold annotation
  refine (Nests.accept fun _ => rfl).bind fun taken s => ?_
  split
  · refine .kind ?_
    split
    · next hk => exact .flat hk (fun _ => rfl) .pure
    · next hk => exact .flat hk (fun _ => rfl) .pure
    · exact .refuse _
  · exact .pure

theorem paramsBehind_nests (count : Nat) : Nests [] [] s (paramsBehind count) := by
  induction count generalizing s with
  | zero => exact .pure
  | succ count ih =>
    rw [paramsBehind]
    refine (Nests.accept fun _ => rfl).bind fun taken s => ?_
    split
    · refine Nests.identifier.bind fun name s => annotation_nests.bind fun typeName s => ?_
      exact ih.bind fun _ _ => .pure
    · exact .pure

theorem params_nests : Nests [] [] s Parse.params := by
  unfold Parse.params
  refine .sees ?_
  split
  · exact .pure
  · refine Nests.identifier.bind fun name s => annotation_nests.bind fun typeName s => .get ?_
    exact (paramsBehind_nests _).bind fun _ _ => .pure

theorem breakLevel_nests : Nests [] [] s breakLevel := by
  unfold breakLevel
  refine .kind ?_
  split
  · next hk =>
    split
    · exact .flat hk (fun _ => rfl) .pure
    · exact .fail _
  · exact .pure

end Plain

section Nesting

variable [Text.IdentifierChars]

/-! ### Expressions -/

/-- The readers of expressions take nested brackets; those of lists and fields take the bracket that closes them. -/
structure ExprsNest (depth : Nat) : Prop where
  expression (s : TokenStream) : Nests [] [] s (expression depth)
  conditional (s : TokenStream) : Nests [] [] s (conditional depth)
  binaryFrom (level : Nat) (s : TokenStream) : Nests [] [] s (binaryFrom depth level)
  binaryBehind (level : Nat) (left : Expr) (s : TokenStream) : Nests [] [] s (binaryBehind depth level left)
  unaryBefore (s : TokenStream) : Nests [] [] s (unaryBefore depth)
  power (s : TokenStream) : Nests [] [] s (power depth)
  unaryAfter (s : TokenStream) : Nests [] [] s (unaryAfter depth)
  accessBehind (operand : Expr) (s : TokenStream) : Nests [] [] s (accessBehind depth operand)
  listUntil {close : Mark} (hclose : ∀ outer, (TokenKind.mark close).nest (close :: outer) = some outer)
    (s : TokenStream) : Nests [close] [] s (listUntil depth close)
  fieldsUntil (s : TokenStream) : Nests [.rightBrace] [] s (fieldsUntil depth)
  primary (s : TokenStream) : Nests [] [] s (primary depth)
  standalone (s : TokenStream) : Nests [] [] s (standalone depth)

namespace ExprsNest

variable {depth : Nat} (h : ExprsNest depth)
include h

theorem expression_succ (s : TokenStream) : Nests [] [] s (Parse.expression (depth + 1)) := by
  rw [Parse.expression]
  refine (h.conditional s).bind fun target s => .kind ?_
  split
  · exact .pure
  · next hop => exact .flat rfl (AssignOp.flat_of_ofKind? hop) ((h.expression _).bind fun _ _ => .pure)

theorem conditional_succ (s : TokenStream) : Nests [] [] s (Parse.conditional (depth + 1)) := by
  rw [Parse.conditional]
  refine (h.binaryFrom 0 s).bind fun test s => (Nests.accept fun _ => rfl).bind fun taken s => ?_
  split
  · refine (h.expression s).bind fun yes s => (Nests.expect fun _ => rfl).bind fun _ s => ?_
    exact (h.expression s).bind fun _ _ => .pure
  · exact .pure

theorem binaryFrom_succ (level : Nat) (s : TokenStream) : Nests [] [] s (Parse.binaryFrom (depth + 1) level) := by
  rw [Parse.binaryFrom]
  split
  · exact (h.binaryFrom _ s).bind fun left s => h.binaryBehind level left s
  · exact h.unaryBefore s

theorem binaryBehind_succ (level : Nat) (left : Expr) (s : TokenStream) :
    Nests [] [] s (Parse.binaryBehind (depth + 1) level left) := by
  rw [Parse.binaryBehind]
  refine .kind ?_
  split
  · exact .pure
  · next hop =>
    refine .flat rfl (BinaryOp.flat_of_ofKind? hop) ?_
    exact (h.binaryFrom _ _).bind fun right s => h.binaryBehind level _ s

theorem unaryBefore_succ (s : TokenStream) : Nests [] [] s (Parse.unaryBefore (depth + 1)) := by
  rw [Parse.unaryBefore]
  refine .kind ?_
  split
  · next hop =>
    exact .flat rfl (UnaryOp.flat_of_beforeOfKind? hop) ((h.unaryBefore _).bind fun _ _ => .pure)
  · exact h.power s

theorem power_succ (s : TokenStream) : Nests [] [] s (Parse.power (depth + 1)) := by
  rw [Parse.power]
  refine (h.unaryAfter s).bind fun base s => (Nests.accept fun _ => rfl).bind fun taken s => ?_
  split
  · exact (h.unaryBefore s).bind fun _ _ => .pure
  · exact .pure

theorem unaryAfter_succ (s : TokenStream) : Nests [] [] s (Parse.unaryAfter (depth + 1)) := by
  rw [Parse.unaryAfter]
  refine (h.primary s).bind fun first s => (h.accessBehind first s).bind fun operand s => .kind ?_
  split
  · next hop => exact .flat rfl (UnaryOp.flat_of_afterOfKind? hop) .pure
  · exact .pure

theorem accessBehind_succ (operand : Expr) (s : TokenStream) :
    Nests [] [] s (Parse.accessBehind (depth + 1) operand) := by
  rw [Parse.accessBehind]
  refine .kind ?_
  split
  · next hk =>
    refine .opening hk rfl ((h.listUntil (fun _ => rfl) _).bind fun _ s => ?_)
    exact h.accessBehind _ s
  · next hk => exact .flat hk (fun _ => rfl) (Nests.identifier.bind fun _ s => h.accessBehind _ s)
  · next hk =>
    refine .opening hk rfl ((h.listUntil (fun _ => rfl) _).bind fun indices s => ?_)
    split
    · exact .fail _
    · exact h.accessBehind _ s
  · exact .pure

theorem listUntil_succ {close : Mark} (hclose : ∀ outer, (TokenKind.mark close).nest (close :: outer) = some outer)
    (s : TokenStream) : Nests [close] [] s (Parse.listUntil (depth + 1) close) := by
  have hrest (item : Expr) (s : TokenStream) :
      Nests [close] [] s (do return item :: (← Parse.listUntil depth close)) :=
    (h.listUntil hclose s).bind fun _ _ => .pure
  rw [Parse.listUntil]
  refine .sees (.atEnd ?_)
  split
  · exact (Nests.expect hclose).bind fun _ _ => .pure
  · refine (h.expression s).within.bind fun item s => .sees ?_
    split
    · exact (Nests.expect fun _ => rfl).bind fun _ s => hrest item s
    · exact hrest item s

theorem fieldsUntil_succ (s : TokenStream) : Nests [.rightBrace] [] s (Parse.fieldsUntil (depth + 1)) := by
  have hrest (key : String) (value : Expr) (s : TokenStream) :
      Nests [.rightBrace] [] s (do return (key, value) :: (← Parse.fieldsUntil depth)) :=
    (h.fieldsUntil s).bind fun _ _ => .pure
  have hfield (key : String) (s : TokenStream) (hflat : s.current.kind.isFlat) :
      Nests [.rightBrace] [] s (do
        Parse.advance
        Parse.expect .colon
        let value ← Parse.expression depth
        if !(← Parse.sees .rightBrace) then Parse.expect .comma
        let rest ← Parse.fieldsUntil depth
        return (key, value) :: rest) := by
    refine .flat rfl hflat ((Nests.expect fun _ => rfl).bind fun _ s => ?_)
    refine (h.expression s).within.bind fun value s => .sees ?_
    split
    · exact (Nests.expect fun _ => rfl).bind fun _ s => hrest key value s
    · exact hrest key value s
  rw [Parse.fieldsUntil]
  refine .sees (.atEnd ?_)
  split
  · exact (Nests.expect fun _ => rfl).bind fun _ _ => .pure
  · refine .kind ?_
    split
    · next name hk => exact (hfield name s (by rw [hk]; exact fun _ => rfl)).congr rfl
    · next text hk => exact (hfield text s (by rw [hk]; exact fun _ => rfl)).congr rfl
    · intro a s' hrun
      obtain ⟨fault, herror⟩ := refuse_run (α := String) .propertyName s
      rw [run_bind, herror] at hrun
      cases hrun

theorem primary_succ (s : TokenStream) : Nests [] [] s (Parse.primary (depth + 1)) := by
  rw [Parse.primary]
  refine .get ?_
  dsimp only
  split
  · next hk => exact .flat hk (fun _ => rfl) .pure
  · next hk =>
    refine .flat hk (fun _ => rfl) (Nests.bind (fun parts s' hrun => ?_) fun _ _ => .pure)
    -- an interpolation is a text of its own and takes no token of this one
    obtain ⟨rfl, -⟩ := ((exprs_take depth).interpolations _ _ _).result parts s' hrun
    exact .refl
  · next hk =>
    refine .opening hk rfl ((h.expression _).within.bind fun _ _ => ?_)
    exact (Nests.expect fun _ => rfl).bind fun _ _ => .pure
  · next hk => exact .opening hk rfl ((h.listUntil (fun _ => rfl) _).bind fun _ _ => .pure)
  · next hk => exact .opening hk rfl ((h.listUntil (fun _ => rfl) _).bind fun _ _ => .pure)
  · next hk => exact .opening hk rfl ((h.fieldsUntil _).bind fun _ _ => .pure)
  · split
    · next hv => exact .flat rfl (Literal.flat_of_ofKind? hv) .pure
    · exact .refuse _

theorem standalone_succ (s : TokenStream) : Nests [] [] s (Parse.standalone (depth + 1)) := by
  rw [Parse.standalone]
  refine (h.expression s).bind fun value s => .atEnd ?_
  split
  · exact .pure
  · exact .refuse _

end ExprsNest

theorem exprs_nest : ∀ depth, ExprsNest depth
  | 0 =>
    { expression := fun _ => .refuse _
      conditional := fun _ => .refuse _
      binaryFrom := fun _ _ => .refuse _
      binaryBehind := fun _ _ _ => .refuse _
      unaryBefore := fun _ => .refuse _
      power := fun _ => .refuse _
      unaryAfter := fun _ => .refuse _
      accessBehind := fun _ _ => .refuse _
      listUntil := fun _ _ => .refuse _
      fieldsUntil := fun _ => .refuse _
      primary := fun _ => .refuse _
      standalone := fun _ => .refuse _ }
  | depth + 1 =>
    have h := exprs_nest depth
    ⟨h.expression_succ, h.conditional_succ, h.binaryFrom_succ, h.binaryBehind_succ, h.unaryBefore_succ,
      h.power_succ, h.unaryAfter_succ, h.accessBehind_succ, h.listUntil_succ, h.fieldsUntil_succ, h.primary_succ,
      h.standalone_succ⟩

/-! ### Parts of statements -/

section Parts

variable {s : TokenStream} {depth : Nat}

theorem declaration_nests {k : Keyword} (hkind : s.current.kind = .keyword k) :
    Nests [] [] s (declaration depth) := by
  have hend (name typeName : String) (initial : Option Expr) (constant : Bool) (s : TokenStream) :
      Nests [] [] s (do Parse.expect .semicolon; return { name, initial, constant, typeName : Declaration }) :=
    (Nests.expect fun _ => rfl).bind fun _ _ => .pure
  unfold declaration
  refine .kind (.flat hkind (fun _ => rfl) ?_)
  refine Nests.identifier.bind fun name s => annotation_nests.bind fun typeName s => ?_
  refine (Nests.accept fun _ => rfl).bind fun taken s => ?_
  split
  · exact ((exprs_nest depth).expression s).map.bind fun initial s => hend name typeName initial _ s
  · split
    · exact (Nests.fail _).bind fun initial s => hend name typeName initial _ s
    · exact Nests.pure.bind fun initial s => hend name typeName initial _ s

theorem expressionUnless_nests (m : Mark) : Nests [] [] s (expressionUnless depth m) := by
  unfold expressionUnless
  refine .sees ?_
  split
  · exact .pure
  · exact ((exprs_nest depth).expression s).map

theorem expressionStatement_nests : Nests [] [] s (expressionStatement depth) := by
  unfold expressionStatement
  exact ((exprs_nest depth).expression s).bind fun _ _ => (Nests.expect fun _ => rfl).bind fun _ _ => .pure

theorem loopInitial_nests : Nests [] [] s (loopInitial depth) := by
  unfold loopInitial
  refine .kind ?_
  split
  · next hk => exact .flat hk (fun _ => rfl) .pure
  · next hk => exact (declaration_nests hk).bind fun _ _ => .pure
  · next hk => exact (declaration_nests hk).bind fun _ _ => .pure
  · next hk => exact (declaration_nests hk).bind fun _ _ => .pure
  · exact expressionStatement_nests.map

end Parts

/-! ### Statements -/

/-- The readers of statements take nested brackets. -/
structure StmtsNest (depth : Nat) : Prop where
  statement (s : TokenStream) : Nests [] [] s (statement depth)
  statementsUntilBrace (s : TokenStream) : Nests [.rightBrace] [] s (statementsUntilBrace depth)

theorem stmts_nest : ∀ depth, StmtsNest depth
  | 0 =>
    { statement := fun _ => .refuse _
      statementsUntilBrace := fun _ => .refuse _ }
  | depth + 1 =>
    have h := stmts_nest depth
    have hexpression := (exprs_nest depth).expression
    { statement := fun s => by
        have hopen {s : TokenStream} : Nests [] [.rightParen] s (Parse.expect .leftParen) := .expect fun _ => rfl
        have hclose {s : TokenStream} : Nests [.rightParen] [] s (Parse.expect .rightParen) := .expect fun _ => rfl
        rw [Parse.statement]
        refine .kind ?_
        split
        · next hk => exact (declaration_nests hk).bind fun _ _ => .pure
        · next hk => exact (declaration_nests hk).bind fun _ _ => .pure
        · next hk => exact (declaration_nests hk).bind fun _ _ => .pure
        · next hk =>
          refine .flat hk (fun _ => rfl) (Nests.identifier.bind fun name s => hopen.bind fun _ s => ?_)
          refine params_nests.within.bind fun params s => hclose.bind fun _ s => ?_
          have hbrace {s : TokenStream} : Nests [] [.rightBrace] s (Parse.expect .leftBrace) := .expect fun _ => rfl
          refine annotation_nests.bind fun returns s => hbrace.bind fun _ s => ?_
          exact (h.statementsUntilBrace s).bind fun _ _ => .pure
        · next hk =>
          refine .flat hk (fun _ => rfl) (hopen.bind fun _ s => (hexpression s).within.bind fun test s => ?_)
          refine hclose.bind fun _ s => (h.statement s).bind fun yes s => .kind ?_
          split
          · next helse =>
            exact .flat (eq_of_beq helse) (fun _ => rfl) ((h.statement _).bind fun _ _ => .pure)
          · exact .pure
        · next hk =>
          refine .flat hk (fun _ => rfl) (hopen.bind fun _ s => (hexpression s).within.bind fun test s => ?_)
          exact hclose.bind fun _ s => (h.statement s).bind fun _ _ => .pure
        · next hk =>
          refine .flat hk (fun _ => rfl) (hopen.bind fun _ s => loopInitial_nests.within.bind fun initial s => ?_)
          refine (expressionUnless_nests _).within.bind fun test s => (Nests.expect fun _ => rfl).bind fun _ s => ?_
          refine (expressionUnless_nests _).within.bind fun step s => hclose.bind fun _ s => ?_
          exact (h.statement s).bind fun _ _ => .pure
        · next hk =>
          refine .flat hk (fun _ => rfl) ((expressionUnless_nests _).bind fun value s => ?_)
          exact (Nests.expect fun _ => rfl).bind fun _ _ => .pure
        · next hk =>
          refine .flat hk (fun _ => rfl) (breakLevel_nests.bind fun level s => ?_)
          exact (Nests.expect fun _ => rfl).bind fun _ _ => .pure
        · next hk => exact .opening hk rfl ((h.statementsUntilBrace _).bind fun _ _ => .pure)
        · next hk => exact .flat hk (fun _ => rfl) .pure
        · exact expressionStatement_nests
      statementsUntilBrace := fun s => by
        rw [Parse.statementsUntilBrace]
        refine .sees (.atEnd ?_)
        split
        · exact (Nests.expect fun _ => rfl).bind fun _ _ => .pure
        · exact (h.statement s).within.bind fun first s => (h.statementsUntilBrace s).bind fun _ _ => .pure }

theorem statementsToEnd_nests (depth : Nat) (s : TokenStream) : Nests [] [] s (statementsToEnd depth) := by
  induction depth generalizing s with
  | zero => exact .refuse _
  | succ depth ih =>
    rw [statementsToEnd]
    refine .atEnd ?_
    split
    · exact .pure
    · exact ((stmts_nest depth).statement s).bind fun first s => (ih s).bind fun _ _ => .pure

/-! ### Texts -/

/-- A reader that takes all tokens of a text leaves no bracket open. -/
theorem Nests.closes {α : Type} {source : String} {p : Parse α} {a : α} {s' : TokenStream}
    (h : Nests [] [] (.ofSource source) p) (hfinishes : Finishes (.ofSource source) p)
    (hrun : p.run (.ofSource source) = .ok a s') : nest ((tokens source).map (·.kind)) [] = some [] := by
  obtain ⟨taken, hrest, htaken⟩ := h a s' hrun
  rw [hfinishes.rest_eq_nil hrun, List.append_nil] at hrest
  rw [show tokens source = taken from hrest]
  exact htaken []

/-- The brackets of a program are nested. -/
theorem program_nests {source : String} {body : List Stmt} (h : parseProgram source = .ok body) :
    nest ((tokens source).map (·.kind)) [] = some [] := by
  obtain ⟨s, hrun⟩ := run_of_runOn h
  exact (statementsToEnd_nests _ _).closes (statementsToEnd_finishes _ _) hrun

/-- So are those of an expression. -/
theorem expression_nests {source : String} {e : Expr} (h : parseExpression source = .ok e) :
    nest ((tokens source).map (·.kind)) [] = some [] := by
  obtain ⟨s, hrun⟩ := run_of_runOn h
  exact ((exprs_nest _).standalone _).closes ((exprs_take _).standalone _) hrun

end Nesting

/-! ### The ends of statements -/

/-- Is the token one that statements end with? -/
def TokenKind.endsStatement : TokenKind → Bool
  | mark .semicolon | mark .rightBrace => true
  | _ => false

/-- Between two streams stand tokens, and the last of them ends a statement. -/
def TokenStream.Ends (s s' : TokenStream) : Prop :=
  ∃ t : Token, t.kind.endsStatement = true ∧ t :: s'.rest <:+ s.rest

theorem TokenStream.suffix_advance (s : TokenStream) : s.advance.rest <:+ s.rest := List.tail_suffix s.rest

theorem TokenStream.Reaches.suffix {P : Token → Prop} {s s' : TokenStream} (h : s.Reaches P s') :
    s'.rest <:+ s.rest := by
  obtain ⟨-, taken, hrest, -⟩ := h
  exact ⟨taken, hrest.symm⟩

/-- With a result, the last token that a reader has taken ends a statement. -/
def Ends {α : Type} (s : TokenStream) (p : Parse α) : Prop := ∀ a s', p.run s = .ok a s' → s.Ends s'

namespace Ends

variable {α β : Type} {s : TokenStream} {p q : Parse α} {m : Mark}

theorem congr (hq : Ends s q) (h : p.run s = q.run s) : Ends s p := fun a s' hrun => hq a s' (h ▸ hrun)

theorem refuse (wanted : Wanted) : Ends s (Parse.refuse (α := α) wanted) := by
  intro a s' hrun
  obtain ⟨fault, herror⟩ := refuse_run (α := α) wanted s
  cases herror.symm.trans hrun

/-- What stands in front does not matter. -/
theorem behind [Text.IdentifierChars] {f : α → Parse β} (hp : Takes s p) (hf : ∀ a s', Ends s' (f a)) :
    Ends s (p >>= f) := by
  intro b s'' hrun
  rw [run_bind] at hrun
  split at hrun
  · next a s' hp' =>
    obtain ⟨t, ht, hsuffix⟩ := hf a s' b s'' hrun
    exact ⟨t, ht, hsuffix.trans (hp.result a s' hp').suffix⟩
  · cases hrun

/-- Nothing is taken behind the end, or more with an end of its own. -/
theorem andThen {f : α → Parse β} (hp : Ends s p)
    (hf : ∀ a s' b s'', (f a).run s' = .ok b s'' → s'' = s' ∨ s'.Ends s'') : Ends s (p >>= f) := by
  intro b s'' hrun
  rw [run_bind] at hrun
  split at hrun
  · next a s' hp' =>
    obtain ⟨t, ht, hsuffix⟩ := hp a s' hp'
    rcases hf a s' b s'' hrun with rfl | ⟨u, hu, hsuffix'⟩
    · exact ⟨t, ht, hsuffix⟩
    · exact ⟨u, hu, hsuffix'.trans ((List.suffix_cons _ _).trans hsuffix)⟩
  · cases hrun

theorem andPure {f : α → β} (hp : Ends s p) : Ends s (p >>= fun a => pure (f a)) := by
  refine hp.andThen fun a s' b s'' hrun => ?_
  cases hrun
  exact .inl rfl

theorem kind {f : TokenKind → Parse β} (h : Ends s (f s.current.kind)) : Ends s (Parse.kind >>= f) := h.congr rfl

theorem sees {f : Bool → Parse β} (h : Ends s (f (s.current.kind == .mark m))) : Ends s (Parse.sees m >>= f) :=
  h.congr rfl

theorem atEnd {f : Bool → Parse β} (h : Ends s (f (s.current.kind == .endOfInput))) :
    Ends s (Parse.atEnd >>= f) := h.congr rfl

theorem taking {f : Unit → Parse β} (h : Ends s.advance (f ())) : Ends s (Parse.advance >>= f) := by
  intro b s' hrun
  obtain ⟨t, ht, hsuffix⟩ := h b s' hrun
  exact ⟨t, ht, hsuffix.trans s.suffix_advance⟩

theorem advance {k : TokenKind} (hkind : s.current.kind = k) (hk : k.endsStatement = true) :
    Ends s Parse.advance := by
  subst hkind
  rintro _ _ ⟨⟩
  obtain ⟨rest, stop⟩ := s
  cases rest with
  | nil => cases hk
  | cons t rest => exact ⟨t, hk, List.suffix_rfl⟩

theorem expect (hm : (TokenKind.mark m).endsStatement = true) : Ends s (Parse.expect m) := by
  unfold Parse.expect
  refine sees ?_
  split
  · next hk => exact advance (eq_of_beq hk) hm
  · exact refuse _

end Ends

variable [Text.IdentifierChars]

theorem declaration_ends {depth : Nat} {s : TokenStream} : Ends s (declaration depth) := by
  unfold declaration
  refine .kind (.taking ?_)
  refine Ends.behind .identifier fun name s => .behind annotation_takes fun typeName s => ?_
  have hend (initial : Option Expr) (s : TokenStream) (constant : Bool) : Ends s (do
      Parse.expect .semicolon
      return { name, initial, constant, typeName : Declaration }) := (Ends.expect rfl).andPure
  refine Ends.behind .accept fun taken s => ?_
  split
  · exact .behind ((exprs_take depth).expression s).map fun initial s => hend initial s _
  · split
    · exact .behind (.fail _) fun initial s => hend initial s _
    · exact .behind .pure fun initial s => hend initial s _

/-- The readers of statements take one that has an end. -/
structure StmtsEnd (depth : Nat) : Prop where
  statement (s : TokenStream) : Ends s (statement depth)
  statementsUntilBrace (s : TokenStream) : Ends s (statementsUntilBrace depth)

theorem stmts_end : ∀ depth, StmtsEnd depth
  | 0 =>
    { statement := fun _ => .refuse _
      statementsUntilBrace := fun _ => .refuse _ }
  | depth + 1 =>
    have h := stmts_end depth
    have htakes := stmts_take depth
    have hexpression := (exprs_take depth).expression
    { statement := fun s => by
        rw [Parse.statement]
        refine .kind ?_
        split
        · exact declaration_ends.andPure
        · exact declaration_ends.andPure
        · exact declaration_ends.andPure
        · refine .taking (.behind .identifier fun name s => .behind .expect fun _ s => ?_)
          refine .behind params_takes fun params s => .behind .expect fun _ s => ?_
          refine .behind annotation_takes fun returns s => .behind .expect fun _ s => ?_
          exact (h.statementsUntilBrace s).andPure
        · refine .taking (.behind .expect fun _ s => .behind (hexpression s) fun test s => ?_)
          refine .behind .expect fun _ s => (h.statement s).andThen fun yes s b s' hrun => ?_
          -- without an else the statement ends where its first arm does
          replace hrun : (if (s.current.kind == .keyword .elseWord) = true then _ else _ : Parse Stmt).run s =
            .ok b s' := hrun
          split at hrun
          · exact .inr (Ends.taking (h.statement _).andPure b s' hrun)
          · cases hrun
            exact .inl rfl
        · refine .taking (.behind .expect fun _ s => .behind (hexpression s) fun test s => ?_)
          exact .behind .expect fun _ s => (h.statement s).andPure
        · refine .taking (.behind .expect fun _ s => .behind loopInitial_takes fun initial s => ?_)
          refine .behind (expressionUnless_takes _) fun test s => .behind .expect fun _ s => ?_
          refine .behind (expressionUnless_takes _) fun step s => .behind .expect fun _ s => ?_
          exact (h.statement s).andPure
        · refine .taking (.behind (expressionUnless_takes _) fun value s => ?_)
          exact (Ends.expect rfl).andPure
        · exact .taking (.behind breakLevel_takes fun level s => (Ends.expect rfl).andPure)
        · exact .taking (h.statementsUntilBrace _).andPure
        · next hk => exact (Ends.advance hk rfl).andPure
        · unfold expressionStatement
          exact .behind (hexpression s) fun value s => (Ends.expect rfl).andPure
      statementsUntilBrace := fun s => by
        rw [Parse.statementsUntilBrace]
        refine .sees (.atEnd ?_)
        split
        · exact (Ends.expect rfl).andPure
        · exact .behind (htakes.statement s) fun first s => (h.statementsUntilBrace s).andPure }

theorem statementsToEnd_ends (depth : Nat) (s : TokenStream) :
    ∀ body s', (statementsToEnd depth).run s = .ok body s' → s' = s ∨ s.Ends s' := by
  cases depth with
  | zero => exact fun body s' hrun => .inr (Ends.refuse _ body s' hrun)
  | succ depth =>
    rw [statementsToEnd]
    intro body s' hrun
    replace hrun : (if (s.current.kind == .endOfInput) = true then _ else _ : Parse (List Stmt)).run s =
      .ok body s' := hrun
    split at hrun
    · cases hrun
      exact .inl rfl
    · refine .inr (Ends.andThen ((stmts_end depth).statement s) (fun first u rest u' hrun => ?_) body s' hrun)
      rw [run_bind] at hrun
      split at hrun
      · next v hrest =>
        cases hrun
        exact statementsToEnd_ends depth u _ _ hrest
      · cases hrun

/-- The last token of a program ends a statement. -/
theorem program_ends {source : String} {body : List Stmt} (h : parseProgram source = .ok body) :
    tokens source = [] ∨ ∃ front t, tokens source = front ++ [t] ∧ t.kind.endsStatement = true := by
  obtain ⟨s, hrun⟩ := run_of_runOn h
  have hrest := (statementsToEnd_finishes _ _).rest_eq_nil hrun
  rcases statementsToEnd_ends _ _ body s hrun with rfl | ⟨t, ht, front, hfront⟩
  · exact .inl hrest
  · rw [hrest] at hfront
    exact .inr ⟨front, t, hfront.symm, ht⟩

end StackScript.Syntax
