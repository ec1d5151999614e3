import StackScript.Proofs.StmtRereading

/-!
# What the reader makes

A reader of sound tokens makes trees of literals and names that tokens stand for (`Expr.parsed`), and
statements in which no `else` could belong to another condition (`Stmt.parsed`).

* `Yields`: what holds of a result and of the tokens that are left, if there is a result.
* `exprs_yield`: the readers of expressions make parsed trees, from each depth to the next one.
* `stmts_yield`: an `else` behind a statement that could take it has been taken (`Made.closed`).
-/

namespace StackScript.Syntax

open Parse

theorem Literal.kind_of_ofKind? {k : TokenKind} {v : Literal} (h : Literal.ofKind? k = some v) :
    v.kind = k := by
  cases k with
  | int n => exact congrArg Literal.kind (Option.some.inj h).symm
  | float x => exact congrArg Literal.kind (Option.some.inj h).symm
  | string s => exact congrArg Literal.kind (Option.some.inj h).symm
  | keyword k =>
    cases k with
    | trueWord => exact congrArg Literal.kind (Option.some.inj h).symm
    | falseWord => exact congrArg Literal.kind (Option.some.inj h).symm
    | nullWord => exact congrArg Literal.kind (Option.some.inj h).symm
    | _ => cases h
  | _ => cases h

theorem UnaryOp.of_afterOfKind? {k : TokenKind} {op : UnaryOp} (h : UnaryOp.afterOfKind? k = some op) :
    (op == .increment || op == .decrement) = true := by
  unfold UnaryOp.afterOfKind? at h
  split at h
  all_goals first
    | (obtain rfl := Option.some.inj h; rfl)
    | cases h

variable [Text.IdentifierChars]

/-- All tokens that are left are sound. -/
def TokenStream.Sound (s : TokenStream) : Prop := ∀ t ∈ s.rest, t.kind.sound = true

theorem TokenStream.Sound.current {s : TokenStream} (h : s.Sound) : s.current.kind.sound = true := by
  obtain ⟨rest, stop⟩ := s
  cases rest with
  | nil => rfl
  | cons t rest => exact h t List.mem_cons_self

theorem TokenStream.Sound.advance {s : TokenStream} (h : s.Sound) : s.advance.Sound :=
  fun t ht => h t (List.mem_of_mem_tail ht)

theorem TokenStream.sound_ofSource (source : String) : (ofSource source).Sound := sound_of_tokens

/-- From sound tokens, a result satisfies `Q` together with the tokens left, which are sound again. -/
def Yields {α : Type} (s : TokenStream) (p : Parse α) (Q : α → TokenStream → Prop) : Prop :=
  s.Sound → ∀ a s', p.run s = .ok a s' → s'.Sound ∧ Q a s'

namespace Yields

variable {α β : Type} {s : TokenStream} {p : Parse α} {P : α → TokenStream → Prop}
  {Q : β → TokenStream → Prop} {m : Mark}

theorem pure {a : α} (h : P a s) : Yields s (pure a) P := by
  rintro hs _ _ ⟨⟩
  exact ⟨hs, h⟩

theorem bind {f : α → Parse β} (hp : Yields s p P) (hf : ∀ a s', P a s' → Yields s' (f a) Q) :
    Yields s (p >>= f) Q := by
  intro hs b s'' hrun
  have hbind : EStateM.bind p f s = .ok b s'' := hrun
  rw [EStateM.bind] at hbind
  cases hp' : p s with
  | ok a s' =>
    rw [hp'] at hbind
    obtain ⟨hs', ha⟩ := hp hs a s' hp'
    exact hf a s' ha hs' b s'' hbind
  | error e s' =>
    rw [hp'] at hbind
    cases hbind

theorem map {f : α → β} (hp : Yields s p P) (hf : ∀ a s', P a s' → Q (f a) s') : Yields s (f <$> p) Q := by
  rw [map_eq_pure_bind]
  exact hp.bind fun a s' ha => .pure (hf a s' ha)

theorem mono {P' : α → TokenStream → Prop} (hp : Yields s p P) (h : ∀ a s', P a s' → P' a s') :
    Yields s p P' := by
  intro hs a s' hrun
  obtain ⟨hs', ha⟩ := hp hs a s' hrun
  exact ⟨hs', h a s' ha⟩

theorem fail (fault : SyntaxFault) : Yields s (Parse.fail fault) P := by
  rintro - _ _ ⟨⟩

theorem kind {f : TokenKind → Parse β} (h : s.current.kind.sound = true → Yields s (f s.current.kind) Q) :
    Yields s (Parse.kind >>= f) Q := fun hs => h hs.current hs

theorem get {f : TokenStream → Parse β} (h : s.Sound → Yields s (f s) Q) : Yields s (get >>= f) Q :=
  fun hs => h hs hs

theorem advance {f : Unit → Parse β} (h : Yields s.advance (f ()) Q) : Yields s (Parse.advance >>= f) Q :=
  fun hs => h hs.advance

theorem refuse (wanted : Wanted) : Yields s (Parse.refuse wanted) P := by
  unfold Parse.refuse
  refine kind fun _ => ?_
  split <;> exact fail _

theorem sees {f : Bool → Parse β} (h : Yields s (f (s.current.kind == .mark m)) Q) :
    Yields s (Parse.sees m >>= f) Q := h

theorem atEnd {f : Bool → Parse β} (h : Yields s (f (s.current.kind == .endOfInput)) Q) :
    Yields s (Parse.atEnd >>= f) Q := h

theorem expect {f : Unit → Parse β} (h : ∀ s', Yields s' (f ()) Q) : Yields s (Parse.expect m >>= f) Q := by
  refine bind (P := fun _ _ => True) ?_ fun _ s' _ => h s'
  unfold Parse.expect
  refine sees ?_
  split
  · exact fun hs _ _ hrun => by cases hrun; exact ⟨hs.advance, trivial⟩
  · exact refuse _

theorem accept {f : Bool → Parse β} (h : ∀ b s', Yields s' (f b) Q) : Yields s (Parse.accept m >>= f) Q := by
  refine bind (P := fun _ _ => True) ?_ fun b s' _ => h b s'
  unfold Parse.accept
  refine sees ?_
  split
  · exact advance (pure trivial)
  · exact pure trivial

theorem identifier {f : String → Parse β} (h : ∀ name s', isName name = true → Yields s' (f name) Q) :
    Yields s (Parse.identifier >>= f) Q := by
  refine bind (P := fun name _ => isName name = true) ?_ fun name s' hname => h name s' hname
  unfold Parse.identifier
  refine kind fun hsound => ?_
  split
  · next hk =>
    rw [hk] at hsound
    exact advance (pure hsound)
  · exact refuse _

end Yields

/-! ### Expressions -/

/-- The readers of expressions make trees of what tokens stand for. -/
structure Exprs (depth : Nat) : Prop where
  expression (s : TokenStream) : Yields s (expression depth) fun e _ => e.every Expr.parsed = true
  conditional (s : TokenStream) : Yields s (conditional depth) fun e _ => e.every Expr.parsed = true
  binaryFrom (level : Nat) (s : TokenStream) :
    Yields s (binaryFrom depth level) fun e _ => e.every Expr.parsed = true
  binaryBehind (level : Nat) (left : Expr) (s : TokenStream) : left.every Expr.parsed = true →
    Yields s (binaryBehind depth level left) fun e _ => e.every Expr.parsed = true
  unaryBefore (s : TokenStream) : Yields s (unaryBefore depth) fun e _ => e.every Expr.parsed = true
  power (s : TokenStream) : Yields s (power depth) fun e _ => e.every Expr.parsed = true
  unaryAfter (s : TokenStream) : Yields s (unaryAfter depth) fun e _ => e.every Expr.parsed = true
  accessBehind (operand : Expr) (s : TokenStream) : operand.every Expr.parsed = true →
    Yields s (accessBehind depth operand) fun e _ => e.every Expr.parsed = true
  listUntil (close : Mark) (s : TokenStream) :
    Yields s (listUntil depth close) fun es _ => everyIn Expr.parsed es = true
  fieldsUntil (s : TokenStream) : Yields s (fieldsUntil depth) fun fields _ => everyField Expr.parsed fields = true
  primary (s : TokenStream) : Yields s (primary depth) fun e _ => e.every Expr.parsed = true
  interpolations (start : Nat) (sources : List String) (s : TokenStream) :
    Yields s (interpolations depth start sources) fun es _ => everyIn Expr.parsed es = true
  standalone (s : TokenStream) : Yields s (standalone depth) fun e _ => e.every Expr.parsed = true

namespace Exprs

variable {depth : Nat} (h : Exprs depth)
include h

theorem expression_succ (s : TokenStream) :
    Yields s (Parse.expression (depth + 1)) fun e _ => e.every Expr.parsed = true := by
  rw [Parse.expression]
  refine (h.conditional s).bind fun target s' ht => .kind fun _ => ?_
  split
  · exact .pure ht
  · refine .advance ((h.expression _).bind fun value s'' hv => .pure ?_)
    simp only [Expr.every, Expr.parsed, ht, hv, Bool.and_true]

theorem conditional_succ (s : TokenStream) :
    Yields s (Parse.conditional (depth + 1)) fun e _ => e.every Expr.parsed = true := by
  rw [Parse.conditional]
  refine (h.binaryFrom 0 s).bind fun test s' ht => .accept fun b s' => ?_
  split
  · refine (h.expression s').bind fun yes s' hyes => .expect fun s' => ?_
    refine (h.expression s').bind fun no s' hno => .pure ?_
    simp only [Expr.every, Expr.parsed, ht, hyes, hno, Bool.and_true]
  · exact .pure ht

theorem binaryFrom_succ (level : Nat) (s : TokenStream) :
    Yields s (Parse.binaryFrom (depth + 1) level) fun e _ => e.every Expr.parsed = true := by
  rw [Parse.binaryFrom]
  split
  · exact (h.binaryFrom _ s).bind fun left s' hl => h.binaryBehind level left s' hl
  · exact h.unaryBefore s

theorem binaryBehind_succ (level : Nat) (left : Expr) (s : TokenStream) (hl : left.every Expr.parsed = true) :
    Yields s (Parse.binaryBehind (depth + 1) level left) fun e _ => e.every Expr.parsed = true := by
  rw [Parse.binaryBehind]
  refine .kind fun _ => ?_
  split
  · exact .pure hl
  · refine .advance ((h.binaryFrom _ _).bind fun right s' hr => h.binaryBehind level _ s' ?_)
    simp only [Expr.every, Expr.parsed, hl, hr, Bool.and_true]

theorem unaryBefore_succ (s : TokenStream) :
    Yields s (Parse.unaryBefore (depth + 1)) fun e _ => e.every Expr.parsed = true := by
  rw [Parse.unaryBefore]
  refine .kind fun _ => ?_
  split
  · refine .advance ((h.unaryBefore _).bind fun operand s' ho => .pure ?_)
    simp only [Expr.every, Expr.parsed, ho, Bool.and_true]
  · exact h.power s

theorem power_succ (s : TokenStream) : Yields s (Parse.power (depth + 1)) fun e _ => e.every Expr.parsed = true := by
  rw [Parse.power]
  refine (h.unaryAfter s).bind fun base s' hb => .accept fun b s' => ?_
  split
  · refine (h.unaryBefore s').bind fun exponent s' he => .pure ?_
    simp only [Expr.every, Expr.parsed, hb, he, Bool.and_true]
  · exact .pure hb

theorem unaryAfter_succ (s : TokenStream) :
    Yields s (Parse.unaryAfter (depth + 1)) fun e _ => e.every Expr.parsed = true := by
  rw [Parse.unaryAfter]
  refine (h.primary s).bind fun first s' hf => (h.accessBehind first s' hf).bind fun operand s' ho => ?_
  refine .kind fun _ => ?_
  split
  · next hop =>
    refine .advance (.pure ?_)
    simp only [Expr.every, Expr.parsed, UnaryOp.of_afterOfKind? hop, ho, Bool.and_true]
  · exact .pure ho

theorem accessBehind_succ (operand : Expr) (s : TokenStream) (ho : operand.every Expr.parsed = true) :
    Yields s (Parse.accessBehind (depth + 1) operand) fun e _ => e.every Expr.parsed = true := by
  rw [Parse.accessBehind]
  refine .kind fun _ => ?_
  split
  · refine .advance ((h.listUntil _ _).bind fun arguments s' ha => h.accessBehind _ s' ?_)
    simp only [Expr.every, Expr.parsed, ho, ha, Bool.and_true]
  · refine .advance (.identifier fun field s' hf => h.accessBehind _ s' ?_)
    simp only [Expr.every, Expr.parsed, ho, hf, Bool.and_true]
  · refine .advance ((h.listUntil _ _).bind fun indices s' hi => ?_)
    split
    · exact .fail _
    · next hne =>
      refine h.accessBehind _ s' ?_
      simp only [Expr.every, Expr.parsed, ho, hi, hne, Bool.not_false, Bool.and_true]
  · exact .pure ho

theorem listUntil_succ (close : Mark) (s : TokenStream) :
    Yields s (Parse.listUntil (depth + 1) close) fun es _ => everyIn Expr.parsed es = true := by
  rw [Parse.listUntil]
  refine .sees (.atEnd ?_)
  split
  · exact .expect fun _ => .pure rfl
  · refine (h.expression s).bind fun item s' hi => .sees ?_
    have hrest (s' : TokenStream) : Yields s' (do return item :: (← Parse.listUntil depth close))
        fun es _ => everyIn Expr.parsed es = true := by
      refine (h.listUntil close s').bind fun rest s' hr => .pure ?_
      simp only [everyIn, hi, hr, Bool.and_true]
    split
    · exact .expect fun s' => hrest s'
    · exact hrest s'

theorem fieldsUntil_succ (s : TokenStream) :
    Yields s (Parse.fieldsUntil (depth + 1)) fun fields _ => everyField Expr.parsed fields = true := by
  rw [Parse.fieldsUntil]
  refine .sees (.atEnd ?_)
  split
  · exact .expect fun _ => .pure rfl
  · have hfield (key : String) (s' : TokenStream) : Yields s' (do
        Parse.advance
        Parse.expect .colon
        let value ← Parse.expression depth
        if !(← Parse.sees .rightBrace) then Parse.expect .comma
        let rest ← Parse.fieldsUntil depth
        return (key, value) :: rest) fun fields _ => everyField Expr.parsed fields = true := by
      refine .advance (.expect fun s' => (h.expression s').bind fun value s' hv => .sees ?_)
      have hrest (s' : TokenStream) : Yields s' (do return (key, value) :: (← Parse.fieldsUntil depth))
          fun fields _ => everyField Expr.parsed fields = true := by
        refine (h.fieldsUntil s').bind fun rest s' hr => .pure ?_
        simp only [everyField, everyOf, hv, hr, Bool.and_true]
      split
      · exact .expect fun s' => hrest s'
      · exact hrest s'
    refine .kind fun _ => ?_
    split
    · exact .bind (P := fun _ _ => True) (.pure trivial) fun key s' _ => hfield key s'
    · exact .bind (P := fun _ _ => True) (.pure trivial) fun key s' _ => hfield key s'
    · exact .bind (P := fun _ _ => True) (.refuse _) fun key s' _ => hfield key s'

theorem primary_succ (s : TokenStream) :
    Yields s (Parse.primary (depth + 1)) fun e _ => e.every Expr.parsed = true := by
  rw [Parse.primary]
  refine .get fun hs => ?_
  have hsound := hs.current
  dsimp only
  split
  · next hk =>
    rw [hk] at hsound
    exact .advance (.pure hsound)
  · refine .advance ((h.interpolations _ _ _).bind fun parts s' hp => .pure ?_)
    simp only [Expr.every, Expr.parsed, hp, Bool.and_true]
  · exact .advance ((h.expression _).bind fun inner s' hi => .expect fun _ => .pure hi)
  · refine .advance ((h.listUntil _ _).bind fun items s' hi => .pure ?_)
    simp only [Expr.every, Expr.parsed, hi, Bool.and_true]
  · refine .advance ((h.listUntil _ _).bind fun items s' hi => .pure ?_)
    simp only [Expr.every, Expr.parsed, hi, Bool.and_true]
  · refine .advance ((h.fieldsUntil _).bind fun fields s' hf => .pure ?_)
    simp only [Expr.every, Expr.parsed, hf, Bool.and_true]
  · split
    · next hv =>
      rw [← Literal.kind_of_ofKind? hv] at hsound
      exact .advance (.pure hsound)
    · exact .refuse _

theorem interpolations_succ (start : Nat) (sources : List String) (s : TokenStream) :
    Yields s (Parse.interpolations (depth + 1) start sources) fun es _ => everyIn Expr.parsed es = true := by
  cases sources with
  | nil => exact .pure rfl
  | cons source sources =>
    rw [Parse.interpolations]
    split
    · next part _ hrun =>
      have hpart := (h.standalone _ (TokenStream.sound_ofSource source) part _ hrun).2
      refine (h.interpolations start sources s).bind fun parts s' hp => .pure ?_
      simp only [everyIn, hpart, hp, Bool.and_true]
    · rintro - _ _ ⟨⟩

theorem standalone_succ (s : TokenStream) :
    Yields s (Parse.standalone (depth + 1)) fun e _ => e.every Expr.parsed = true := by
  rw [Parse.standalone]
  refine (h.expression s).bind fun value s' hv => .atEnd ?_
  split
  · exact .pure hv
  · exact .refuse _

end Exprs

theorem exprs_yield : ∀ depth, Exprs depth
  | 0 =>
    { expression := fun _ => .refuse _
      conditional := fun _ => .refuse _
      binaryFrom := fun _ _ => .refuse _
      binaryBehind := fun _ _ _ _ => .refuse _
      unaryBefore := fun _ => .refuse _
      power := fun _ => .refuse _
      unaryAfter := fun _ => .refuse _
      accessBehind := fun _ _ _ => .refuse _
      listUntil := fun _ _ => .refuse _
      fieldsUntil := fun _ => .refuse _
      primary := fun _ => .refuse _
      interpolations := fun _ _ _ => .refuse _
      standalone := fun _ => .refuse _ }
  | depth + 1 =>
    have h := exprs_yield depth
    ⟨h.expression_succ, h.conditional_succ, h.binaryFrom_succ, h.binaryBehind_succ, h.unaryBefore_succ,
      h.power_succ, h.unaryAfter_succ, h.accessBehind_succ, h.listUntil_succ, h.fieldsUntil_succ, h.primary_succ,
      h.interpolations_succ, h.standalone_succ⟩

/-! ### Parts of statements -/

section Parts

variable {s : TokenStream} {depth : Nat}

theorem annotation_yields : Yields s annotation fun typeName _ => isTypeName typeName = true := by
  unfold annotation
  refine .accept fun b s' => ?_
  split
  · refine .kind fun hsound => ?_
    split
    · next name hk =>
      rw [hk] at hsound
      exact .advance (.pure (by rw [isTypeName, show isName name = true from hsound, Bool.or_true]))
    · exact .advance (.pure rfl)
    · exact .refuse _
  · exact .pure rfl

theorem paramsBehind_yields (count : Nat) :
    Yields s (paramsBehind count) fun params _ => params.all Param.parsed = true := by
  induction count generalizing s with
  | zero => exact .pure rfl
  | succ count ih =>
    rw [paramsBehind]
    refine .accept fun b s' => ?_
    split
    · refine .identifier fun name s' hname => annotation_yields.bind fun typeName s' htype => ?_
      refine ih.bind fun params s' hparams => .pure ?_
      simp only [List.all_cons, Param.parsed, hname, htype, hparams, Bool.and_true]
    · exact .pure rfl

theorem params_yields : Yields s Parse.params fun params _ => params.all Param.parsed = true := by
  unfold Parse.params
  refine .sees ?_
  split
  · exact .pure rfl
  · refine .identifier fun name s' hname => annotation_yields.bind fun typeName s' htype => .get fun _ => ?_
    refine (paramsBehind_yields _).bind fun params s' hparams => .pure ?_
    simp only [List.all_cons, Param.parsed, hname, htype, hparams, Bool.and_true]

theorem declaration_yields : Yields s (declaration depth) fun d _ =>
    every? Expr.parsed d.initial = true ∧ d.parsed = true := by
  unfold declaration
  refine .kind fun _ => .advance (.identifier fun name s' hname => ?_)
  refine annotation_yields.bind fun typeName s' htype => ?_
  generalize hconstant : (s.current.kind == TokenKind.keyword .constWord) = constant
  have hend (initial : Option Expr) (s' : TokenStream) (he : every? Expr.parsed initial = true)
      (hi : (!constant || initial.isSome) = true) : Yields s' (do
        Parse.expect .semicolon
        return { name, initial, constant, typeName }) fun (d : Declaration) _ =>
          every? Expr.parsed d.initial = true ∧ d.parsed = true :=
    .expect fun _ => .pure ⟨he, by simp only [Declaration.parsed, hname, htype, hi, Bool.and_true]⟩
  refine .accept fun b s' => ?_
  split
  · refine ((exprs_yield depth).expression s').map (P := fun e _ => e.every Expr.parsed = true)
      (Q := fun initial _ => every? Expr.parsed initial = true ∧ initial.isSome = true)
      (fun _ _ he => ⟨he, rfl⟩) |>.bind fun initial s' hi => hend initial s' hi.1 ?_
    rw [hi.2, Bool.or_true]
  · split
    · exact .bind (P := fun _ _ => False) (.fail _) fun _ _ h => h.elim
    · next hc =>
      refine .bind (P := fun initial _ => initial = none) (.pure rfl) fun initial s' hi => ?_
      subst hi
      exact hend none s' rfl (by simpa using hc)

theorem breakLevel_yields : Yields s breakLevel fun level _ => 0 < level ∧ level < 0x80000000 := by
  unfold breakLevel
  refine .kind fun hsound => ?_
  split
  · next level hk =>
    split
    · next hpos =>
      refine .advance (.pure ?_)
      have hvalue : 0 < level.toInt := Int32.lt_iff_toInt_lt.1 hpos
      have hbound := level.toInt_lt
      omega
    · exact .fail _
  · exact .pure (by decide)

theorem expressionUnless_yields (m : Mark) : Yields s (expressionUnless depth m) fun e _ =>
    every? Expr.parsed e = true := by
  unfold expressionUnless
  refine .sees ?_
  split
  · exact .pure rfl
  · exact ((exprs_yield depth).expression s).map fun _ _ he => he

theorem expressionStatement_yields : Yields s (expressionStatement depth) fun st _ =>
    st.every Expr.parsed = true ∧ st.parsed = true ∧ st.isOpen = false ∧ isInitial (some st) = true := by
  unfold expressionStatement
  exact ((exprs_yield depth).expression s).bind fun _ _ he => .expect fun _ => .pure ⟨he, rfl, rfl, rfl⟩

theorem loopInitial_yields : Yields s (loopInitial depth) fun initial _ =>
    everyStmt? Expr.parsed initial = true ∧ parsed? initial = true ∧ isInitial initial = true := by
  unfold loopInitial
  refine .kind fun _ => ?_
  split
  · exact .advance (.pure ⟨rfl, rfl, rfl⟩)
  · exact declaration_yields.bind fun _ _ hd => .pure ⟨hd.1, hd.2, rfl⟩
  · exact declaration_yields.bind fun _ _ hd => .pure ⟨hd.1, hd.2, rfl⟩
  · exact declaration_yields.bind fun _ _ hd => .pure ⟨hd.1, hd.2, rfl⟩
  · exact expressionStatement_yields.map fun _ _ he => ⟨he.1, he.2.1, he.2.2.2⟩

end Parts

/-! ### Statements -/

/-- What holds of a statement that was read, and of the tokens behind it. -/
structure Made (st : Stmt) (s : TokenStream) : Prop where
  exprs : st.every Expr.parsed = true
  parsed : st.parsed = true
  closed : st.isOpen = true → s.current.kind ≠ .keyword .elseWord

/-- A statement that takes no `else`. -/
theorem Made.of_closed {st : Stmt} {s : TokenStream} (hexprs : st.every Expr.parsed = true)
    (hparsed : st.parsed = true) (hclosed : st.isOpen = false) : Made st s :=
  ⟨hexprs, hparsed, fun hopen => by cases hclosed.symm.trans hopen⟩

/-- The readers of statements make them so. -/
structure Stmts (depth : Nat) : Prop where
  statement (s : TokenStream) : Yields s (statement depth) Made
  statementsUntilBrace (s : TokenStream) : Yields s (statementsUntilBrace depth) fun body _ =>
    everyAll Expr.parsed body = true ∧ parsedAll body = true

theorem stmts_yield : ∀ depth, Stmts depth
  | 0 =>
    { statement := fun _ => .refuse _
      statementsUntilBrace := fun _ => .refuse _ }
  | depth + 1 =>
    have h := stmts_yield depth
    have hdeclare (s : TokenStream) : Yields s (do return .declare (← declaration depth)) Made :=
      declaration_yields.bind fun d s' hd => .pure (.of_closed hd.1 hd.2 rfl)
    { statement := fun s => by
        rw [Parse.statement]
        refine .kind fun _ => ?_
        split
        · exact hdeclare s
        · exact hdeclare s
        · exact hdeclare s
        · refine .advance (.identifier fun name s' hname => .expect fun s' => ?_)
          refine params_yields.bind fun params s' hparams => ?_
          refine .expect fun s' => annotation_yields.bind fun returns s' hreturns => .expect fun s' => ?_
          refine (h.statementsUntilBrace s').bind fun body s' hbody => .pure (.of_closed hbody.1 ?_ rfl)
          simp only [Stmt.parsed, hname, hparams, hreturns, hbody.2, Bool.and_true]
        · refine .advance (.expect fun s' => ((exprs_yield depth).expression s').bind fun test s' htest => ?_)
          refine .expect fun s' => (h.statement s').bind fun yes s' hyes => .kind fun _ => ?_
          split
          · next helse =>
            refine .advance ((h.statement _).bind fun no s'' hno => .pure ⟨?_, ?_, ?_⟩)
            · simp only [Stmt.every, everyStmt?, htest, hyes.exprs, hno.exprs, Bool.and_true]
            · -- a statement that could take the else has taken it
              have hclosed : yes.isOpen = false :=
                Bool.eq_false_iff.2 fun hopen => hyes.closed hopen (eq_of_beq helse)
              simp only [Stmt.parsed, parsed?, hyes.parsed, hno.parsed, hclosed, Bool.not_false, Bool.or_true,
                Bool.and_true]
            · exact fun hopen => hno.closed (by rwa [Stmt.isOpen] at hopen)
          · next helse =>
            refine .pure ⟨?_, ?_, fun _ heq => helse (beq_of_eq heq)⟩
            · simp only [Stmt.every, everyStmt?, htest, hyes.exprs, Bool.and_true]
            · simp only [Stmt.parsed, parsed?, hyes.parsed, Option.isNone_none, Bool.true_or, Bool.and_true]
        · refine .advance (.expect fun s' => ((exprs_yield depth).expression s').bind fun test s' htest => ?_)
          refine .expect fun s' => (h.statement s').bind fun body s' hbody => .pure ⟨?_, ?_, ?_⟩
          · simp only [Stmt.every, everyStmt?, every?, htest, hbody.exprs, Bool.and_true]
          · simp only [Stmt.parsed, parsed?, isInitial, hbody.parsed, Option.isSome_some, Bool.and_true]
          · exact fun hopen => hbody.closed (by rwa [Stmt.isOpen, isOpen?] at hopen)
        · refine .advance (.expect fun s' => loopInitial_yields.bind fun initial s' hinitial => ?_)
          refine (expressionUnless_yields _).bind fun test s' htest => .expect fun s' => ?_
          refine (expressionUnless_yields _).bind fun step s' hstep => .expect fun s' => ?_
          refine (h.statement s').bind fun body s' hbody => .pure ⟨?_, ?_, ?_⟩
          · simp only [Stmt.every, everyStmt?, hinitial.1, htest, hstep, hbody.exprs, Bool.and_true]
          · simp only [Stmt.parsed, parsed?, hinitial.2.1, hinitial.2.2, hbody.parsed, Option.isSome_some,
              Bool.and_true]
          · exact fun hopen => hbody.closed (by rwa [Stmt.isOpen, isOpen?] at hopen)
        · refine .advance ((expressionUnless_yields _).bind fun _ _ he => .expect fun _ => ?_)
          exact .pure (.of_closed he rfl rfl)
        · refine .advance (breakLevel_yields.bind fun level _ hlevel => .expect fun _ => ?_)
          exact .pure (.of_closed rfl (decide_eq_true hlevel) rfl)
        · refine .advance ((h.statementsUntilBrace _).bind fun body s' hbody => ?_)
          exact .pure (.of_closed hbody.1 hbody.2 rfl)
        · exact .advance (.pure (.of_closed rfl rfl rfl))
        · exact expressionStatement_yields.mono fun st s' hst => .of_closed hst.1 hst.2.1 hst.2.2.1
      statementsUntilBrace := fun s => by
        rw [Parse.statementsUntilBrace]
        refine .sees (.atEnd ?_)
        split
        · exact .expect fun _ => .pure ⟨rfl, rfl⟩
        · refine (h.statement s).bind fun first s' hfirst => ?_
          refine (h.statementsUntilBrace s').bind fun rest s' hrest => .pure ?_
          simp only [everyAll, parsedAll, hfirst.exprs, hfirst.parsed, hrest, Bool.and_true, and_self] }

theorem statementsToEnd_yields {depth : Nat} (s : TokenStream) : Yields s (statementsToEnd depth) fun body _ =>
    everyAll Expr.parsed body = true ∧ parsedAll body = true := by
  induction depth generalizing s with
  | zero => exact .refuse _
  | succ depth ih =>
    rw [statementsToEnd]
    refine .atEnd ?_
    split
    · exact .pure ⟨rfl, rfl⟩
    · refine ((stmts_yield depth).statement s).bind fun first s' hfirst => ?_
      refine (ih s').bind fun rest s' hrest => .pure ?_
      simp only [everyAll, parsedAll, hfirst.exprs, hfirst.parsed, hrest, Bool.and_true, and_self]

/-- What a program that was read is made of. -/
theorem parsed_of_parseProgram {source : String} {body : List Stmt} (h : parseProgram source = .ok body) :
    everyAll Expr.parsed body = true ∧ parsedAll body = true := by
  unfold parseProgram runOn at h
  split at h
  · next a s' hrun =>
    obtain rfl := Except.ok.inj h
    exact (statementsToEnd_yields _ (TokenStream.sound_ofSource source) a s' hrun).2
  · cases h

end StackScript.Syntax
