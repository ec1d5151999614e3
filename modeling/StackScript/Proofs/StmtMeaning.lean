import StackScript.Proofs.ExprMeaning

/-!
# The code of statements does what they mean

* `StmtCode.grows`: the scopes behind a statement show the names that direct evaluation sees there.
* `stmt_follows`: where the code of a statement is in place, the machine follows the evaluation of the
  statement.
* `rounds_follow`: a loop.  Each round takes an instruction at least, so an evaluation that goes round
  too often lasts as long.
* `top_follows`: the code of a program without functions.
-/

namespace StackScript.Evaluation

open Typing Bytecode Host Syntax Machine Assembly

/-! ### Scopes -/

section Scopes

variable {L : Layout} {r : Room} {c c₁ c' : ScopeChain} {exits : List Nat}

theorem Variables.empty : Variables .empty :=
  ⟨.empty, rfl, fun _ h => (List.not_mem_nil h).elim, List.nodup_nil⟩

theorem Variables.declareLocal {name : String} {k : Bool} {t : Ty} {e : Entity} (hc : Variables c)
    (h : c.declareLocal name k t = (.ok e, c')) :
    Variables c' ∧ c.Grows c' ∧ names c' = (names c).declare name t ∧
      c'.frame = c.frame.push name := by
  have hsound := hc.sound.declareLocal h
  have hgrows := ScopeChain.grows_declareLocal hc.sound.level h
  obtain ⟨htaken, rfl, rfl⟩ := ScopeChain.declareLocal_eq_ok h
  refine ⟨⟨hsound, hc.top, fun e he => ?_, ?_⟩, hgrows, rfl, rfl⟩
  · simp only [ScopeChain.add, ScopeChain.entities, ScopeChain.scopes, List.flatMap_cons,
      List.cons_append, List.mem_cons] at he
    rcases he with rfl | he
    · exact ⟨_, rfl⟩
    · exact hc.slots e (by simpa [ScopeChain.entities, ScopeChain.scopes] using he)
  · have hnew := (ScopeChain.isTaken_false hc.sound.level htaken).2
    show (c.frame.push name).toList.Nodup
    rw [Array.toList_push]
    exact List.nodup_append.2 ⟨hc.nodup, List.pairwise_singleton _ _, by
      rintro a ha b hb rfl
      rw [List.mem_singleton.1 hb] at ha
      exact hnew (Array.mem_toList_iff.1 ha)⟩

theorem Variables.beginScope (hc : Variables c) : Variables c.beginScope := by
  have hentities : c.beginScope.entities = c.entities := by
    simp [ScopeChain.beginScope, ScopeChain.entities, ScopeChain.scopes]
  exact ⟨hc.sound.beginScope, hc.top, hentities ▸ hc.slots, hc.nodup⟩

/-- Behind a block the same names are visible as before it. -/
theorem Variables.endScope (hc : Variables c) (hgrows : c.beginScope.Grows c') (hc' : Variables c') :
    Variables c'.endScope ∧ c.Grows c'.endScope ∧ names c'.endScope = names c ∧
      c'.endScope.frame = c'.frame := by
  have hg := ScopeChain.grows_endScope hgrows
  rw [ScopeChain.endScope_of_grows hgrows] at hg ⊢
  exact ⟨⟨hc.sound.frame_grows hgrows.frame, hc.top, hc.slots, hc'.nodup⟩, hg, rfl, rfl⟩

theorem Starts.of_grows {F : Array String} {c c' : ScopeChain} (h : Starts F c') (hg : c.Grows c') :
    Starts F c := fun i name hi => h i name (hg.frame i name hi)

theorem Starts.of_frame {F : Array String} {c c' : ScopeChain} (h : Starts F c')
    (hf : c.frame = c'.frame) : Starts F c := fun i name hi => h i name (hf ▸ hi)

theorem ne_void_of_value {e : Expr} {p q : Nat} {t : Ty} (h : ValueCode L r c e p q t) :
    t ≠ .void := by
  cases h
  assumption

/-- Statements without functions declare none beforehand. -/
theorem eq_of_hoists {body : List Stmt} (h : Hoists c body c') (hb : bodiesAll body = []) : c' = c := by
  induction h with
  | nil => rfl
  | function => simp [bodiesAll, Stmt.bodies] at hb
  | other _ _ ih =>
    rw [bodiesAll, List.append_eq_nil_iff] at hb
    exact ih hb.2

/-- A conversion gives the variable the type that it has in direct evaluation. -/
theorem declaredType_of_code {d : Declaration} {init : Expr} {m q : Nat} {t found t' : Ty} {Γ : Names}
    (given : d.initial = some init) (typed : Ty.ofText? d.typeName = some t)
    (hfound : typeOf? L.environment Γ init = some found) (converted : InitialCode L t found m q t') :
    declaredType? L.environment Γ d = some t' := by
  cases converted with
  | any => simp [declaredType?, given, typed, hfound]
  | same typed' => simp [declaredType?, given, typed, hfound, typed']
  | convert typed' => simp [declaredType?, given, typed, hfound, typed']

mutual

/-- What a statement does to the scopes. -/
theorem StmtCode.grows : {exits : List Nat} → {c : ScopeChain} → {s : Stmt} → {c' : ScopeChain} →
    {p q : Nat} → StmtCode L r exits c s c' p q → Variables c → s.bodies = [] →
    s.every Expr.plain = true →
    Variables c' ∧ c.Grows c' ∧ names c' = after L.environment (names c) s
  | _, _, _, _, _, _, .expr code, hc, _, _ => ⟨hc, .refl _, by rw [after] <;> exact nofun⟩
  | _, _, _, _, _, _, .declare (t := t) missing typed declared _, hc, _, _ => by
    obtain ⟨hc', hgrows, hnames, -⟩ := hc.declareLocal declared
    refine ⟨hc', hgrows, ?_⟩
    rw [after]
    simp [declaredType?, missing, typed, hnames]
  | _, _, _, _, _, _, .initial given typed code converted declared _ _, hc, _, ht => by
    obtain ⟨hc', hgrows, hnames, -⟩ := hc.declareLocal declared
    refine ⟨hc', hgrows, ?_⟩
    rw [Stmt.every, given] at ht
    rw [after, declaredType_of_code given typed (typeOf_of_value hc code ht) converted]
    exact hnames
  | _, _, _, _, _, _, .function _, _, hb, _ => by
    rw [Stmt.bodies] at hb
    cases hb
  | _, _, _, _, _, _, .block functions code, hc, hb, ht => by
    rw [Stmt.bodies] at hb
    rw [Stmt.every] at ht
    -- nothing is hoisted where no function is declared
    obtain rfl := eq_of_hoists functions hb
    obtain ⟨hc₂, hgrows⟩ := StmtsCode.grows code hc.beginScope hb ht
    obtain ⟨hend, hgrows', hnames, -⟩ := hc.endScope hgrows hc₂
    exact ⟨hend, hgrows', by rw [hnames, after] <;> exact nofun⟩
  | _, _, _, _, _, _, .cond choice first, hc, hb, ht => by
    simp only [Stmt.every, everyStmt?, Bool.and_eq_true] at ht
    rw [Stmt.bodies, List.append_eq_nil_iff] at hb
    rw [after, after?]
    exact StmtCode.grows first hc hb.1 ht.1.2
  | _, _, _, _, _, _, .condElse choice first skip second, hc, hb, ht => by
    simp only [Stmt.every, everyStmt?, Bool.and_eq_true] at ht
    rw [Stmt.bodies, bodies?, List.append_eq_nil_iff] at hb
    obtain ⟨hc₁, hgrows, hnames⟩ := StmtCode.grows first hc hb.1 ht.1.2
    obtain ⟨hc', hgrows', hnames'⟩ := StmtCode.grows second hc₁ hb.2 ht.2
    rw [after, after?, ← hnames]
    exact ⟨hc', hgrows.trans hgrows', hnames'⟩
  | _, _, _, _, _, _, .loop .none _ code _ _, hc, hb, ht => by
    simp only [Stmt.every, everyStmt?, Bool.and_eq_true] at ht
    rw [Stmt.bodies, List.append_eq_nil_iff] at hb
    rw [after, after?]
    exact StmtCode.grows code hc hb.2 ht.2
  | _, _, _, _, _, _, .loop (.some first) _ code _ _, hc, hb, ht => by
    simp only [Stmt.every, everyStmt?, Bool.and_eq_true] at ht
    rw [Stmt.bodies, List.append_eq_nil_iff] at hb
    obtain ⟨hc₁, hgrows, -⟩ := StmtCode.grows first hc.beginScope hb.1 ht.1.1.1
    obtain ⟨hc₂, hgrows', -⟩ := StmtCode.grows code hc₁ hb.2 ht.2
    obtain ⟨hend, hgrows'', hnames, -⟩ := hc.endScope (hgrows.trans hgrows') hc₂
    exact ⟨hend, hgrows'', by rw [after] <;> first | exact hnames | exact nofun⟩
  | _, _, _, _, _, _, .brk _ _ _, hc, _, _ => ⟨hc, .refl _, by rw [after] <;> exact nofun⟩
  | _, _, _, _, _, _, .stopNull _ _ _, hc, _, _ => ⟨hc, .refl _, by rw [after] <;> exact nofun⟩
  | _, _, _, _, _, _, .stop _ _ _, hc, _, _ => ⟨hc, .refl _, by rw [after] <;> exact nofun⟩
  | _, _, _, _, _, _, .leaveNull _ _, hc, _, _ => ⟨hc, .refl _, by rw [after] <;> exact nofun⟩
  | _, _, _, _, _, _, .leave _ _ _, hc, _, _ => ⟨hc, .refl _, by rw [after] <;> exact nofun⟩
  | _, _, _, _, _, _, .empty, hc, _, _ => ⟨hc, .refl _, by rw [after] <;> exact nofun⟩

theorem StmtsCode.grows : {exits : List Nat} → {c : ScopeChain} → {body : List Stmt} →
    {c' : ScopeChain} → {p q : Nat} → StmtsCode L r exits c body c' p q → Variables c →
    bodiesAll body = [] → everyAll Expr.plain body = true → Variables c' ∧ c.Grows c'
  | _, _, _, _, _, _, .nil, hc, _, _ => ⟨hc, .refl _⟩
  | _, _, _, _, _, _, .cons first others, hc, hb, ht => by
    rw [bodiesAll, List.append_eq_nil_iff] at hb
    rw [everyAll, Bool.and_eq_true] at ht
    obtain ⟨hc₁, hgrows, -⟩ := StmtCode.grows first hc hb.1 ht.1
    obtain ⟨hc', hgrows'⟩ := StmtsCode.grows others hc₁ hb.2 ht.2
    exact ⟨hc', hgrows.trans hgrows'⟩

end

end Scopes

/-! ### Statements -/

section Statements

variable {limits : Limits} {L : Layout} {F : Array String} {n : Nat} {exits : List Nat}
  {c c' : ScopeChain} {p m q exit : Nat}

variable (limits L F n exits) in
/-- From one place to another, the machine follows an evaluation that leaves no value. -/
def Does (p q : Nat) (x : Eval Unit) : Prop :=
  ∀ μ, Follows limits L F n exits (fun _ μ => place L F μ #[] q) (place L F μ #[] p) x μ

theorem Does.nothing : Does limits L F n exits p p (return ()) := fun _ => .pure (.here rfl)

theorem Does.bind {x y : Eval Unit} (hx : Does limits L F n exits p m x)
    (hy : Does limits L F n exits m q y) : Does limits L F n exits p q (do x; y) := fun μ =>
  (hx μ).bind fun _ μ' _ => hy μ'

theorem Agrees.of_le {α : Type} {after : α → Memory → State} {s : State} {k : Nat}
    {r : EStateM.Result Exit Memory α} (h : Agrees limits L F n exits after s r) (hk : k ≤ n) :
    Agrees limits L F k exits after s r := by
  rcases r with ⟨a, μ⟩ | ⟨⟨⟩ | ⟨⟩ | ⟨⟩ | _ | _, μ⟩
  case error.unfinished => exact Lasts.of_le h hk
  all_goals exact h

/-- Who leaves the innermost loop is behind it. -/
theorem Does.edge {x : Eval Unit}
    (hx : Does limits L F n (exit :: exits) p exit x) :
    Does limits L F n exits p exit (Evaluation.edge x) := by
  intro μ
  have h := hx μ
  unfold Follows at h ⊢
  unfold Evaluation.edge
  rcases hr : x μ with ⟨a, μ'⟩ | ⟨⟨⟩ | ⟨⟨⟩ | more⟩ | ⟨⟩ | _ | _, μ'⟩
  all_goals rw [hr] at h
  case error.leave.zero =>
    obtain ⟨e, he, hlead⟩ := h
    obtain rfl := Option.some.inj he
    exact hlead
  all_goals exact h

variable (hfuel : limits.fuel = none)
include hfuel

/-- A jump takes an instruction. -/
theorem Agrees.jump {α : Type} {after : α → Memory → State} {k start : Nat} {μ : Memory}
    {r : EStateM.Result Exit Memory α} (back : L.Has q ⟨.jump, .int (start : Nat)⟩)
    (h : Agrees limits L F k exits after (place L F μ #[] start) r) :
    Agrees limits L F (k + 1) exits after (place L F μ #[] q) r := by
  have hjump : Leads limits L (· = place L F μ #[] start) (place L F μ #[] q) := Leads.goto hfuel back
  rcases r with ⟨a, μ'⟩ | ⟨⟨⟩ | ⟨⟩ | ⟨⟩ | _ | _, μ'⟩
  case error.unfinished =>
    exact Lasts.jump hfuel back (bind_ok (countOperand_eq _ _ _)) h
  all_goals exact Agrees.before hjump h

/-- A loop: its rounds go from its start to the jump back, or to its end. -/
theorem rounds_follow {round : Eval Bool} {start : Nat}
    (hround : ∀ μ, Follows limits L F n exits
      (fun again μ => place L F μ #[] (if again then q else exit)) (place L F μ #[] start) round μ)
    (back : L.Has q ⟨.jump, .int (start : Nat)⟩) :
    ∀ {k}, k ≤ n → Does limits L F k exits start exit (rounds round k)
  | 0, _ => fun _ => trivial
  | k + 1, hk => fun μ => by
    rw [rounds]
    refine Follows.bind (Agrees.of_le (hround μ) hk) fun again μ' _ => ?_
    cases again with
    | true => exact Agrees.jump hfuel back (rounds_follow hround back (Nat.le_of_succ_le hk) μ')
    | false => exact .pure (.here rfl)

/-- A loop: its test, its body and its step, and a jump back. -/
theorem loop_does {test : Eval Value} {body step : Eval Unit} {start k : Nat}
    (htest : Chooses limits L F n ((q + 1) :: exits) start m (q + 1) test)
    (hbody : Does limits L F n ((q + 1) :: exits) m k body)
    (hstep : Does limits L F n ((q + 1) :: exits) k q step)
    (back : L.Has q ⟨.jump, .int (start : Nat)⟩) :
    Does limits L F n exits start (q + 1) (loop n test body step) := by
  refine Does.edge (rounds_follow hfuel (fun μ => ?_) back (Nat.le_refl n))
  refine (htest μ #[]).bind fun v μ' _ => ?_
  split
  · exact (hbody μ').bind fun _ μ'' _ => (hstep μ'').bind fun _ _ _ => .pure (.here rfl)
  · exact .pure (.here rfl)

/-- The conversion of an initial value. -/
theorem convert_follows {declared found t : Ty} (code : InitialCode L declared found p q t) (v : Value)
    (μ : Memory) : Follows limits L F n exits (fun v μ => place L F μ (#[].push v) q)
      (place L F μ (#[].push v) p) (convert limits L.environment declared found v) μ := by
  unfold convert
  cases code with
  | any => exact .pure (.here rfl)
  | same _ accepted =>
    rw [accepted, Bool.or_true, if_pos rfl]
    exact .pure (.here rfl)
  | convert typed refused conversion code =>
    rw [refused, Bool.or_false, if_neg (by simpa using typed), conversion]
    have heffect : Effect _ .none [v].length 1 := .unary (Ty.conversion?_unary conversion)
    have hplace : place L F μ (#[].push v) p = place L F μ (#[] ++ [v].toArray) p := rfl
    rw [hplace]
    exact Follows.operate hfuel code heffect

variable (hc : Variables c) (hnodup : F.toList.Nodup)
include hc hnodup

theorem dropped_does {e : Expr} (h : DroppedCode L ⟨0, L.top⟩ c e p q)
    (ht : e.every Expr.plain = true) (hF : Starts F c) :
    Does limits L F n exits p q (discard (expr limits L.environment (names c) e)) := by
  intro μ
  refine Follows.map (f := fun _ => ()) ?_
  cases h with
  | void code last =>
    exact code_computes hfuel hc hnodup hF code ht
      (by rintro m hm; obtain rfl := Nat.succ.inj hm; exact last) μ #[]
  | drop code drop =>
    exact ((value_computes hfuel hc hnodup hF code ht).1.push (ne_void_of_value code) μ #[]).andThen
      fun v μ => Leads.drop hfuel drop

theorem step_does {step : Option Expr} (h : StepCode L ⟨0, L.top⟩ c step p q)
    (ht : every? Expr.plain step = true) (hF : Starts F c) :
    Does limits L F n exits p q (expr? limits L.environment (names c) step) := by
  cases h with
  | none => exact .nothing
  | some code => exact dropped_does hfuel hc hnodup code ht hF

end Statements

section Trees

variable {limits : Limits} {L : Layout} {F : Array String} {n : Nat} (hfuel : limits.fuel = none)
  (hnodup : F.toList.Nodup)
include hfuel hnodup

omit hfuel hnodup

mutual

/-- Where the code of a statement is in place, it does what the statement says. -/
theorem stmt_does (hfuel : limits.fuel = none) (hnodup : F.toList.Nodup) :
    {exits : List Nat} → {c : ScopeChain} → {s : Stmt} → {c' : ScopeChain} →
    {p q : Nat} → StmtCode L ⟨0, L.top⟩ exits c s c' p q → Variables c → s.bodies = [] →
    s.every Expr.plain = true → Starts F c' →
    Does limits L F n exits p q (stmt limits L.environment n (names c) s)
  | _, _, _, _, _, _, .expr code, hc, _, ht, hF => by
    rw [stmt]
    exact dropped_does hfuel hc hnodup code ht hF
  | _, _, _, _, _, _, .declare missing _ _ _, _, _, _, _ => by
    rw [stmt, missing]
    exact .nothing
  | _, _, _, _, _, _, .initial (d := d) given typed code converted declared reached store, hc, _, ht, hF => by
    obtain ⟨-, hgrows, -, hframe⟩ := hc.declareLocal declared
    have hslot : F[_]? = some d.name := hF _ _ (by rw [hframe, Array.getElem?_push_size])
    rw [Stmt.every, given] at ht
    have hfound := typeOf_of_value hc code ht
    rw [stmt, given, typed]
    simp only [hfound]
    -- the value is computed, converted to the declared type and stored
    refine fun μ => ((value_computes hfuel hc hnodup (hF.of_grows hgrows) code ht).1.push
      (ne_void_of_value code) μ #[]).bind fun v μ₁ _ => ?_
    refine (convert_follows hfuel converted v μ₁).bind fun v μ₂ _ => ?_
    have hroom : _ < L.top := reached.elim (fun h => Int.ofNat_lt.1 h.2) fun h => by omega
    exact Leads.store hfuel store hnodup hroom hslot
  | _, _, _, _, _, _, .function _, _, hb, _, _ => by
    rw [Stmt.bodies] at hb
    cases hb
  | _, _, _, _, _, _, .block functions code, hc, hb, ht, hF => by
    rw [Stmt.bodies] at hb
    rw [Stmt.every] at ht
    obtain rfl := eq_of_hoists functions hb
    obtain ⟨hc₂, hgrows⟩ := StmtsCode.grows code hc.beginScope hb ht
    obtain ⟨-, -, -, hframe⟩ := hc.endScope hgrows hc₂
    rw [stmt]
    exact stmts_does hfuel hnodup code hc.beginScope hb ht (by rwa [Starts, ← hframe])
  | _, _, _, _, _, _, .cond choice first, hc, hb, ht, hF => by
    simp only [Stmt.every, everyStmt?, Bool.and_eq_true] at ht
    rw [Stmt.bodies, List.append_eq_nil_iff] at hb
    obtain ⟨-, hgrows, -⟩ := StmtCode.grows first hc hb.1 ht.1.2
    rw [stmt]
    refine fun μ => (cond_chooses hfuel hc hnodup (hF.of_grows hgrows) choice ht.1.1 μ #[]).bind
      fun v μ' _ => ?_
    split
    · exact stmt_does hfuel hnodup first hc hb.1 ht.1.2 hF μ'
    · rw [stmt?]
      exact .pure (.here rfl)
  | _, _, _, _, _, _, .condElse choice first skip second, hc, hb, ht, hF => by
    simp only [Stmt.every, everyStmt?, Bool.and_eq_true] at ht
    rw [Stmt.bodies, bodies?, List.append_eq_nil_iff] at hb
    obtain ⟨hc₁, hgrows, hnames⟩ := StmtCode.grows first hc hb.1 ht.1.2
    obtain ⟨hc', hgrows', -⟩ := StmtCode.grows second hc₁ hb.2 ht.2
    rw [stmt, ← hnames]
    refine fun μ => (cond_chooses hfuel hc hnodup (hF.of_grows (hgrows.trans hgrows')) choice ht.1.1
      μ #[]).bind fun v μ' _ => ?_
    split
    · exact (stmt_does hfuel hnodup first hc hb.1 ht.1.2 (hF.of_grows hgrows') μ').andThen
        fun _ μ => Leads.goto hfuel skip
    · rw [stmt?]
      exact stmt_does hfuel hnodup second hc₁ hb.2 ht.2 hF μ'
  | _, _, _, _, _, _, .loop .none choice code step back, hc, hb, ht, hF => by
    simp only [Stmt.every, everyStmt?, Bool.and_eq_true] at ht
    rw [Stmt.bodies, List.append_eq_nil_iff] at hb
    obtain ⟨hc₂, hgrows, hnames⟩ := StmtCode.grows code hc hb.2 ht.2
    have hF : Starts F _ := hF
    rw [stmt, ← hnames]
    exact loop_does hfuel (cond_chooses hfuel hc hnodup (hF.of_grows hgrows) choice ht.1.1.2)
      (stmt_does hfuel hnodup code hc hb.2 ht.2 hF) (step_does hfuel hc₂ hnodup step ht.1.2 hF) back
  | _, _, _, _, _, _, .loop (.some first) choice code step back, hc, hb, ht, hF => by
    simp only [Stmt.every, everyStmt?, Bool.and_eq_true] at ht
    rw [Stmt.bodies, List.append_eq_nil_iff] at hb
    obtain ⟨hc₁, hgrows, hnames⟩ := StmtCode.grows first hc.beginScope hb.1 ht.1.1.1
    obtain ⟨hc₂, hgrows', hnames'⟩ := StmtCode.grows code hc₁ hb.2 ht.2
    -- the variables of the loop keep their slots when its names are gone
    obtain ⟨-, -, -, hframe⟩ := hc.endScope (hgrows.trans hgrows') hc₂
    have hF₂ := Starts.of_frame hF hframe.symm
    have hF₁ := hF₂.of_grows hgrows'
    rw [stmt]
    refine (stmt_does hfuel hnodup first hc.beginScope hb.1 ht.1.1.1 hF₁).bind ?_
    have hnames : names _ = after L.environment ([] :: names _) _ := hnames
    dsimp only
    rw [← hnames, ← hnames']
    exact loop_does hfuel (cond_chooses hfuel hc₁ hnodup hF₁ choice ht.1.1.2)
      (stmt_does hfuel hnodup code hc₁ hb.2 ht.2 hF₂) (step_does hfuel hc₂ hnodup step ht.1.2 hF₂) back
  | _, _, _, _, _, _, .brk positive target jump, _, _, _, _ => by
    rw [stmt]
    exact fun μ => ⟨_, target, Leads.goto hfuel jump⟩
  | _, _, _, _, _, _, .stopNull _ null stop, _, _, _, _ => by
    rw [stmt]
    exact fun μ => (Leads.literal (v := .null) hfuel null).bind fun _ hs => hs ▸ Leads.stop hfuel stop
  | _, _, _, _, _, _, .stop _ code stop, hc, _, ht, hF => by
    rw [stmt]
    exact fun μ => ((value_computes hfuel hc hnodup hF code ht).1.push (ne_void_of_value code)
      μ #[]).bind fun v μ' _ => Leads.stop hfuel stop
  | _, _, _, _, _, _, .leaveNull inside _, hc, _, _, _ => absurd hc.top inside
  | _, _, _, _, _, _, .leave inside _ _, hc, _, _, _ => absurd hc.top inside
  | _, _, _, _, _, _, .empty, _, _, _, _ => by
    rw [stmt]
    exact .nothing

theorem stmts_does (hfuel : limits.fuel = none) (hnodup : F.toList.Nodup) :
    {exits : List Nat} → {c : ScopeChain} → {body : List Stmt} →
    {c' : ScopeChain} → {p q : Nat} → StmtsCode L ⟨0, L.top⟩ exits c body c' p q → Variables c →
    bodiesAll body = [] → everyAll Expr.plain body = true → Starts F c' →
    Does limits L F n exits p q (stmts limits L.environment n (names c) body)
  | _, _, _, _, _, _, .nil, _, _, _, _ => by
    rw [stmts]
    exact .nothing
  | _, _, _, _, _, _, .cons first others, hc, hb, ht, hF => by
    rw [bodiesAll, List.append_eq_nil_iff] at hb
    rw [everyAll, Bool.and_eq_true] at ht
    obtain ⟨hc₁, hgrows, hnames⟩ := StmtCode.grows first hc hb.1 ht.1
    obtain ⟨-, hgrows'⟩ := StmtsCode.grows others hc₁ hb.2 ht.2
    rw [stmts, ← hnames]
    exact (stmt_does hfuel hnodup first hc hb.1 ht.1 (hF.of_grows hgrows')).bind
      (stmts_does hfuel hnodup others hc₁ hb.2 ht.2 hF)

end

include hfuel hnodup

/-! ### Programs -/

/-- The last statement of a program, and the value of the program. -/
theorem last_follows {c c' : ScopeChain} {s : Stmt} {p q : Nat} {kept : Bool}
    (h : LastCode L ⟨0, L.top⟩ c s c' p q kept) (hc : Variables c) (hb : s.bodies = [])
    (ht : s.every Expr.plain = true) (hF : Starts F c')
    (null : kept = false → L.Has q ⟨.loadNull, .none⟩) (μ : Memory) :
    Follows limits L F n [] (fun v μ => place L F μ (#[].push v) (if kept then q else q + 1))
      (place L F μ #[] p) (program limits L.environment n (names c) [s]) μ := by
  have hnull : kept = false → ∀ μ, Leads limits L (· = place L F μ (#[].push .null) (q + 1))
      (place L F μ #[] q) := fun hk μ => Leads.literal (v := .null) hfuel (null hk)
  cases h with
  | value code =>
    have hfound := typeOf_of_value hc code ht
    have hleaves := ne_void_of_value code
    rw [program]
    refine ((value_computes hfuel hc hnodup hF code ht).1.push hleaves μ #[]).bind fun v μ' _ => ?_
    rw [hfound, if_neg fun h => hleaves (Option.some.inj h)]
    exact .pure (.here rfl)
  | void code last =>
    have hfound := typeOf_of_code hc code ht
    rw [program]
    refine Follows.bind (code_computes hfuel hc hnodup hF code ht
      (by rintro m hm; obtain rfl := Nat.succ.inj hm; exact last) μ #[]) fun v μ' _ => ?_
    rw [hfound, if_pos rfl]
    exact .pure (hnull rfl μ')
  | other plain code =>
    rw [program]
    · refine (stmt_does hfuel hnodup code hc hb ht hF μ).bind fun _ μ' _ => ?_
      rw [program]
      exact .pure (hnull rfl μ')
    · exact fun e h _ => plain e h

end Trees

/-- The code of a program without functions does what the program means: the frame of the top level
holds its variables. -/
theorem top_follows {limits : Limits} {L : Layout} (hfuel : limits.fuel = none) {c : ScopeChain}
    {body : List Stmt} {p q : Nat} {kept : Bool} (h : TopCode L ⟨0, L.top⟩ c body p q kept)
    (hc : Variables c) (hb : bodiesAll body = []) (ht : everyAll Expr.plain body = true)
    (null : kept = false → L.Has q ⟨.loadNull, .none⟩) :
    ∃ F : Array String, Starts F c ∧ ∀ n μ,
      Follows limits L F n [] (fun v μ => place L F μ (#[].push v) (if kept then q else q + 1))
        (place L F μ #[] p) (program limits L.environment n (names c) body) μ := by
  have hgoal : ∃ F : Array String, F.toList.Nodup ∧ Starts F c ∧ ∀ n μ,
      Follows limits L F n [] (fun v μ => place L F μ (#[].push v) (if kept then q else q + 1))
        (place L F μ #[] p) (program limits L.environment n (names c) body) μ := by
    induction h with
    | nil =>
      refine ⟨_, hc.nodup, fun _ _ hi => hi, fun n μ => ?_⟩
      rw [program]
      exact .pure (Leads.literal (v := .null) hfuel (null rfl))
    | @last c c' s p q kept code =>
      rw [bodiesAll, bodiesAll, List.append_nil] at hb
      rw [everyAll, everyAll, Bool.and_true] at ht
      have hgrows : Variables c' ∧ c.Grows c' := by
        cases code with
        | value => exact ⟨hc, .refl _⟩
        | void => exact ⟨hc, .refl _⟩
        | other _ code =>
          obtain ⟨hc', hg, -⟩ := StmtCode.grows code hc hb ht
          exact ⟨hc', hg⟩
      have hF : Starts c'.frame c' := fun _ _ hi => hi
      -- the last statement has declared all there is
      exact ⟨_, hgrows.1.nodup, hF.of_grows hgrows.2,
        fun n μ => last_follows hfuel hgrows.1.nodup code hc hb ht hF null μ⟩
    | @cons c c' s next rest p m q kept first others ih =>
      rw [bodiesAll, List.append_eq_nil_iff] at hb
      rw [everyAll, Bool.and_eq_true] at ht
      obtain ⟨hc', hgrows, hnames⟩ := StmtCode.grows first hc hb.1 ht.1
      obtain ⟨F, hnodup, hF, hrest⟩ := ih hc' hb.2 ht.2 null
      refine ⟨F, hnodup, hF.of_grows hgrows, fun n μ => ?_⟩
      rw [program, ← hnames]
      · exact (stmt_does hfuel hnodup first hc hb.1 ht.1 hF μ).bind fun _ μ' _ => hrest n μ'
      · exact fun e _ h => by cases h
  obtain ⟨F, -, hF, hfollows⟩ := hgoal
  exact ⟨F, hF, hfollows⟩

end StackScript.Evaluation
