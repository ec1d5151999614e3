import Mathlib.Data.List.TakeWhile
import StackScript.Proofs.Limits
import StackScript.Proofs.TypedExprs

/-!
# Static types are honoured

A program without functions, in which static types say what the values of all expressions are, comes upon no value of
the wrong type.  It has no declaration in the place of a block: that may be skipped, and its variable stays visible.

* `settledStmt`: the statements of such programs.
* `Names.Within`: variables that are visible stay visible, with their types.
* `stmt_safe`: a statement leaves the visible variables with values of their types.
* `typed_runs`: no run ends for a value of the wrong type.
-/

namespace StackScript.Evaluation

open Typing Bytecode Host Syntax Machine Assembly

/-! ### Statements in which types say what values are -/

section Settled

variable (environment : Environment)

def declares : Stmt → Bool
  | .declare _ => true
  | _ => false

mutual

/-- All expressions in the statement are settled, and every declaration in it has an initial value and stands in a
list of statements or at the start of a loop. -/
def settledStmt (Γ : Names) : Stmt → Bool
  | .expr e => e.every (settled environment Γ)
  | .declare d => d.initial.isSome && every? (settled environment Γ) d.initial
  | .function _ _ _ _ => true
  | .block body => settledAll ([] :: Γ) body
  | .cond test yes no =>
    test.every (settled environment Γ) && !declares yes && settledStmt Γ yes && settledBody? Γ no
  | .loop none test step body =>
    every? (settled environment Γ) test && every? (settled environment Γ) step && settledBody? Γ body
  | .loop (some initial) test step body =>
    settledStmt ([] :: Γ) initial &&
      every? (settled environment (after environment ([] :: Γ) initial)) test &&
      every? (settled environment (after environment ([] :: Γ) initial)) step &&
      settledBody? (after environment ([] :: Γ) initial) body
  | .brk _ => true
  | .ret value => every? (settled environment Γ) value
  | .empty => true

/-- The same for a statement in the place of a block, which may be missing. -/
def settledBody? (Γ : Names) : Option Stmt → Bool
  | none => true
  | some s => !declares s && settledStmt Γ s

def settledAll (Γ : Names) : List Stmt → Bool
  | [] => true
  | s :: rest => settledStmt Γ s && settledAll (after environment Γ s) rest

end

end Settled

/-! ### Visible variables -/

/-- The variables of the one are variables of the other, of the same types. -/
def Names.Within (Γ Γ' : Names) : Prop := ∀ name t, Γ.find? name = some t → Γ'.find? name = some t

namespace Names

variable {Γ Γ' Γ'' : Names}

theorem Within.refl : Γ.Within Γ := fun _ _ h => h

theorem Within.trans (h : Γ.Within Γ') (h' : Γ'.Within Γ'') : Γ.Within Γ'' := fun name t ht => h' name t (h name t ht)

/-- Before the first declaration there are none. -/
theorem empty_within : Within [[]] Γ := fun _ _ h => by cases h

theorem find?_declare (Γ : Names) (name other : String) (t : Ty) :
    (Γ.declare name t).find? other = if other = name then some t else Γ.find? other := by
  have hlookup (block : List (String × Ty)) :
      ((name, t) :: block).lookup other = if other = name then some t else block.lookup other := by
    rw [List.lookup_cons]
    by_cases h : other = name
    · simp [h]
    · simp [h, beq_false_of_ne h]
  cases Γ <;> rw [declare, find?, List.findSome?_cons, hlookup] <;> by_cases h : other = name
  · rw [if_pos h, if_pos h]
  · rw [if_neg h, if_neg h]
    rfl
  · rw [if_pos h, if_pos h]
  · rw [if_neg h, if_neg h]
    rfl

end Names

theorem Memory.Sound.within {Γ Γ' : Names} {μ : Memory} (hμ : μ.Sound Γ') (h : Γ.Within Γ') : μ.Sound Γ :=
  fun name t ht => hμ name t (h name t ht)

theorem Safe.within {α : Type} {Γ₀ Γ Γ' : Names} {post : α → Prop} {x : Eval α}
    {μ : Memory} (hx : Safe Γ₀ Γ' post x μ) (h : Γ.Within Γ') : Safe Γ₀ Γ post x μ := by
  unfold Safe at hx ⊢
  rcases hr : x μ with ⟨a, μ'⟩ | ⟨⟨⟩ | ⟨⟩ | ⟨⟩ | _ | _, μ'⟩
  all_goals rw [hr] at hx
  case ok => exact ⟨hx.1, hx.2.within h⟩
  all_goals exact hx

/-- A name that is not taken is not visible. -/
theorem Variables.find?_eq_none {c : ScopeChain} {name : String} (hc : Variables c) (h : c.isTaken name = false) :
    (names c).find? name = none := by
  have hlevel (s : Scope) (hs : s ∈ c.scopes) : (s.frame == c.functionDepth) = true := by
    have := hc.sound.levels s hs
    rw [hc.top] at this ⊢
    exact beq_iff_eq.2 (Nat.le_zero.1 this)
  rw [ScopeChain.isTaken, Bool.or_eq_false_iff, List.takeWhile_eq_self_iff.2 hlevel, List.any_eq_false] at h
  rw [find?_names, Option.map_eq_none_iff, List.findSome?_eq_none_iff]
  intro s hs
  simpa [Scope.declares] using h.1 s hs

section Statements

variable {environment : Environment}

mutual

/-- What is no declaration, and has none in the place of a block, shows no new names. -/
theorem after_of_settled : {Γ : Names} → {s : Stmt} → settledStmt environment Γ s = true → declares s = false →
    after environment Γ s = Γ
  | _, .declare _, _, h => by cases h
  | Γ, .cond _ yes no, hs, _ => by
    simp only [settledStmt, Bool.and_eq_true, Bool.not_eq_true'] at hs
    rw [after, after_of_settled hs.1.2 hs.1.1.2]
    exact after?_of_settled hs.2
  | Γ, .loop none _ _ body, hs, _ => by
    simp only [settledStmt, Bool.and_eq_true] at hs
    rw [after]
    exact after?_of_settled hs.2
  | _, .loop (some _) _ _ _, _, _ | _, .expr _, _, _ | _, .function .., _, _ | _, .block _, _, _ | _, .brk _, _, _
  | _, .ret _, _, _ | _, .empty, _, _ => rfl

theorem after?_of_settled : {Γ : Names} → {s : Option Stmt} → settledBody? environment Γ s = true →
    after? environment Γ s = Γ
  | _, none, _ => rfl
  | _, some s, hs => by
    simp only [settledBody?, Bool.and_eq_true, Bool.not_eq_true'] at hs
    rw [after?]
    exact after_of_settled hs.2 hs.1

end

theorem every?_plain {Γ : Names} {e : Option Expr} (h : every? (settled environment Γ) e = true) :
    every? Expr.plain e = true := by
  cases e with
  | none => rfl
  | some e => exact every_plain h

mutual

/-- Without functions there are no calls either. -/
theorem plain_of_settledStmt : {Γ : Names} → {s : Stmt} → settledStmt environment Γ s = true → s.bodies = [] →
    s.every Expr.plain = true
  | _, .expr e, hs, _ => every_plain hs
  | _, .declare d, hs, _ => by
    simp only [settledStmt, Bool.and_eq_true] at hs
    exact every?_plain hs.2
  | _, .function .., _, hb => by
    rw [Stmt.bodies] at hb
    cases hb
  | _, .block body, hs, hb => by
    rw [Stmt.bodies] at hb
    exact plain_of_settledAll hs hb
  | _, .cond test yes no, hs, hb => by
    simp only [settledStmt, Bool.and_eq_true] at hs
    rw [Stmt.bodies, List.append_eq_nil_iff] at hb
    simp only [Stmt.every, Bool.and_eq_true]
    exact ⟨⟨every_plain hs.1.1.1, plain_of_settledStmt hs.1.2 hb.1⟩, plain_of_settledBody? hs.2 hb.2⟩
  | _, .loop none test step body, hs, hb => by
    simp only [settledStmt, Bool.and_eq_true] at hs
    rw [Stmt.bodies, List.append_eq_nil_iff] at hb
    simp only [Stmt.every, Bool.and_eq_true]
    exact ⟨⟨⟨rfl, every?_plain hs.1.1⟩, every?_plain hs.1.2⟩, plain_of_settledBody? hs.2 hb.2⟩
  | _, .loop (some initial) test step body, hs, hb => by
    simp only [settledStmt, Bool.and_eq_true] at hs
    rw [Stmt.bodies, List.append_eq_nil_iff] at hb
    simp only [Stmt.every, Bool.and_eq_true]
    exact ⟨⟨⟨plain_of_settledStmt hs.1.1.1 hb.1, every?_plain hs.1.1.2⟩, every?_plain hs.1.2⟩,
      plain_of_settledBody? hs.2 hb.2⟩
  | _, .brk _, _, _ | _, .empty, _, _ => rfl
  | _, .ret _, hs, _ => every?_plain hs

theorem plain_of_settledBody? : {Γ : Names} → {s : Option Stmt} → settledBody? environment Γ s = true →
    bodies? s = [] → everyStmt? Expr.plain s = true
  | _, none, _, _ => rfl
  | _, some s, hs, hb => by
    simp only [settledBody?, Bool.and_eq_true] at hs
    exact plain_of_settledStmt hs.2 hb

theorem plain_of_settledAll : {Γ : Names} → {body : List Stmt} → settledAll environment Γ body = true →
    bodiesAll body = [] → everyAll Expr.plain body = true
  | _, [], _, _ => rfl
  | _, s :: rest, hs, hb => by
    simp only [settledAll, Bool.and_eq_true] at hs
    rw [bodiesAll, List.append_eq_nil_iff] at hb
    simp only [everyAll, Bool.and_eq_true]
    exact ⟨plain_of_settledStmt hs.1 hb.1, plain_of_settledAll hs.2 hb.2⟩

end

variable {L : Layout} {r : Room} {exits : List Nat} {c c' : ScopeChain} {p q : Nat}

/-- A statement leaves the variables visible that were. -/
theorem StmtCode.within {s : Stmt} (code : StmtCode L r exits c s c' p q) (hc : Variables c) (hb : s.bodies = [])
    (hs : settledStmt L.environment (names c) s = true) :
    Variables c' ∧ names c' = after L.environment (names c) s ∧ (names c).Within (names c') := by
  obtain ⟨hc', -, hnames⟩ := StmtCode.grows code hc hb (plain_of_settledStmt hs hb)
  refine ⟨hc', hnames, ?_⟩
  have hdeclared {name : String} {k : Bool} {t : Ty} {e : Entity} (h : c.declareLocal name k t = (.ok e, c')) :
      (names c).Within (names c') := fun other u hu => by
    obtain ⟨-, -, hnames', -⟩ := hc.declareLocal h
    have hfree := hc.find?_eq_none (ScopeChain.declareLocal_eq_ok h).1
    rw [hnames', Names.find?_declare, if_neg, hu]
    rintro rfl
    cases hfree.symm.trans hu
  cases hd : declares s with
  | false =>
    rw [hnames, after_of_settled hs hd]
    exact .refl
  | true =>
    cases code with
    | declare _ _ declared _ => exact hdeclared declared
    | initial _ _ _ _ declared _ _ => exact hdeclared declared
    | _ => cases hd

theorem StmtsCode.within {body : List Stmt} (code : StmtsCode L r exits c body c' p q) (hc : Variables c)
    (hb : bodiesAll body = []) (hs : settledAll L.environment (names c) body = true) :
    Variables c' ∧ (names c).Within (names c') := by
  induction body generalizing c p with
  | nil =>
    cases code
    exact ⟨hc, .refl⟩
  | cons s rest ih =>
    obtain ⟨⟩ := code
    next c₁ m first others =>
    rw [bodiesAll, List.append_eq_nil_iff] at hb
    simp only [settledAll, Bool.and_eq_true] at hs
    obtain ⟨hc₁, hnames, hwithin⟩ := StmtCode.within first hc hb.1 hs.1
    obtain ⟨hc', hwithin'⟩ := ih others hc₁ hb.2 (hnames ▸ hs.2)
    exact ⟨hc', hwithin.trans hwithin'⟩

end Statements

/-! ### Statements -/

section Loops

variable {Γ₀ Γ Γ₁ : Names}

theorem rounds_safe {round : Eval Bool}
    (hround : ∀ μ, μ.Sound Γ₁ → Safe Γ Γ₁ (fun _ => True) round μ) (n : Nat) :
    ∀ μ, μ.Sound Γ₁ → Safe Γ Γ₁ (fun _ => True) (rounds round n) μ := by
  induction n with
  | zero => exact fun _ _ => trivial
  | succ n ih =>
    intro μ hμ
    rw [rounds]
    refine (hround μ hμ).bind fun again μ _ hμ => ?_
    cases again with
    | true => exact ih μ hμ
    | false => exact .pure hμ trivial

/-- Behind a loop the variables are sound that are visible around it, whether it ends or is left. -/
theorem edge_safe {x : Eval Unit} {μ : Memory} (hx : Safe Γ Γ₁ (fun _ => True) x μ)
    (hin : Γ.Within Γ₁) (hout : Γ₀.Within Γ) : Safe Γ₀ Γ (fun _ => True) (edge x) μ := by
  unfold Safe at hx ⊢
  unfold edge
  rcases hr : x μ with ⟨a, μ'⟩ | ⟨⟨⟩ | ⟨⟨⟩ | more⟩ | ⟨⟩ | _ | _, μ'⟩
  all_goals rw [hr] at hx
  case ok => exact ⟨trivial, hx.2.within hin⟩
  case error.leave.zero => exact ⟨trivial, hx⟩
  case error.leave.succ => exact Memory.Sound.within hx hout
  all_goals exact hx

theorem loop_safe {test : Eval Value} {body step : Eval Unit} {n : Nat} {μ : Memory}
    (htest : ∀ μ, μ.Sound Γ₁ → Safe Γ Γ₁ (fun _ => True) test μ)
    (hbody : ∀ μ, μ.Sound Γ₁ → Safe Γ Γ₁ (fun _ => True) body μ)
    (hstep : ∀ μ, μ.Sound Γ₁ → Safe Γ Γ₁ (fun _ => True) step μ)
    (hin : Γ.Within Γ₁) (hout : Γ₀.Within Γ) (hμ : μ.Sound Γ₁) :
    Safe Γ₀ Γ (fun _ => True) (loop n test body step) μ := by
  refine edge_safe (rounds_safe (fun μ hμ => ?_) n μ hμ) hin hout
  refine (htest μ hμ).bind fun v μ _ hμ => ?_
  split
  · refine (hbody μ hμ).bind fun _ μ _ hμ => (hstep μ hμ).bind fun _ μ _ hμ => ?_
    exact .pure hμ trivial
  · exact .pure hμ trivial

end Loops

section Statements

variable {limits : Limits} {L : Layout} {Γ₀ : Names} {c c' : ScopeChain} {p q : Nat}

/-- A conversion makes the initial value fit the variable. -/
theorem convert_safe {Γ : Names} {μ : Memory} {declared found t : Ty} {v : Value}
    (code : InitialCode L declared found p q t) (hany : found ≠ .any) (hμ : μ.Sound Γ)
    (hv : v.HasType found) :
    Safe Γ₀ Γ (fun v => t ≠ .any → v.HasType t)
      (convert limits L.environment declared found v) μ := by
  unfold convert
  cases code with
  | any =>
    refine .pure hμ fun ht => ?_
    rw [if_neg fun hnull => ht (if_pos hnull)]
    exact hv
  | same typed accepted =>
    rw [accepted, Bool.or_true, if_pos rfl]
    exact .pure hμ fun _ => accepts_eq accepted typed hany ▸ hv
  | convert typed refused conversion =>
    rw [refused, Bool.or_false, if_neg (by simpa using typed), conversion]
    exact (Safe.operate hμ (conversion_gives conversion hv)).mono fun _ h _ => h

variable (hc : Variables c)
include hc

theorem dropped_safe (ht : L.environment.Typed) {e : Expr} (code : DroppedCode L ⟨0, L.top⟩ c e p q)
    (hs : e.every (settled L.environment (names c)) = true) (μ : Memory) (hμ : μ.Sound (names c)) :
    Safe Γ₀ (names c) (fun _ => True) (discard (expr limits L.environment (names c) e)) μ := by
  have hexpr : Safe Γ₀ (names c) (fun _ => True) (expr limits L.environment (names c) e) μ := by
    cases code with
    | void code _ => exact (code_safe hc ht code hs μ hμ).mono fun _ _ => trivial
    | drop code _ => exact (value_safe hc ht code hs μ hμ).mono fun _ _ => trivial
  exact hexpr.bind fun _ μ _ hμ => .pure hμ trivial

theorem step_safe (ht : L.environment.Typed) {step : Option Expr} (code : StepCode L ⟨0, L.top⟩ c step p q)
    (hs : every? (settled L.environment (names c)) step = true) (μ : Memory) (hμ : μ.Sound (names c)) :
    Safe Γ₀ (names c) (fun _ => True) (expr? limits L.environment (names c) step) μ := by
  cases code with
  | none => exact .pure hμ trivial
  | some code => exact dropped_safe hc ht code hs μ hμ

omit hc in
/-- The rounds of a loop whose body shows no new names. -/
theorem loopCode_safe (ht : L.environment.Typed) {c₁ c₂ : ScopeChain} {Γ : Names} {test : Expr} {step : Option Expr}
    {body : Eval Unit} {n start m k no : Nat} (hc₁ : Variables c₁) (hc₂ : Variables c₂) (hnames : names c₂ = names c₁)
    (choice : CondCode L ⟨0, L.top⟩ c₁ test start m no) (code : StepCode L ⟨0, L.top⟩ c₂ step k q)
    (htest : test.every (settled L.environment (names c₁)) = true)
    (hstep : every? (settled L.environment (names c₁)) step = true)
    (hbody : ∀ μ, μ.Sound (names c₁) → Safe Γ (names c₂) (fun _ => True) body μ)
    (hin : Γ.Within (names c₁)) (hout : Γ₀.Within Γ) (μ : Memory) (hμ : μ.Sound (names c₁)) :
    Safe Γ₀ Γ (fun _ => True)
      (loop n (expr limits L.environment (names c₁) test) body (expr? limits L.environment (names c₂) step)) μ := by
  rw [← hnames] at hstep
  have hsafe : ∀ μ, μ.Sound (names c₂) →
      Safe Γ (names c₂) (fun _ => True) (expr? limits L.environment (names c₂) step) μ :=
    step_safe hc₂ ht code hstep
  rw [hnames] at hbody hsafe ⊢
  exact loop_safe (cond_safe hc₁ ht choice htest) hbody hsafe hin hout hμ

end Statements

section Trees

variable {limits : Limits} {L : Layout} (n : Nat)

mutual

/-- A statement leaves the visible variables with values of their types, and comes upon no value of the wrong
type. -/
theorem stmt_safe (ht : L.environment.Typed) : {exits : List Nat} → {c : ScopeChain} → {s : Stmt} →
    {c' : ScopeChain} → {p q : Nat} → StmtCode L ⟨0, L.top⟩ exits c s c' p q → Variables c → s.bodies = [] →
    settledStmt L.environment (names c) s = true → {Γ₀ : Names} → Γ₀.Within (names c) → (μ : Memory) →
    μ.Sound (names c) →
    Safe Γ₀ (names c') (fun _ => True) (stmt limits L.environment n (names c) s) μ
  | _, _, _, _, _, _, .expr code, hc, _, hs, _, _, μ, hμ => by
    rw [stmt]
    exact dropped_safe hc ht code hs μ hμ
  | _, _, _, _, _, _, .declare missing _ _ _, _, _, hs, _, _, _, _ => by
    simp [settledStmt, missing] at hs
  | _, _, _, _, _, _, .initial given typed code converted declared _ _, hc, _, hs, _, _, μ, hμ => by
    obtain ⟨-, -, hnames, -⟩ := hc.declareLocal declared
    simp only [settledStmt, given, Bool.and_eq_true] at hs
    have hfound := typeOf_of_value hc code (every_plain hs.2)
    have hany := ne_any_of_value hc code hs.2
    rw [stmt, given, typed, hnames]
    simp only [hfound]
    refine (value_safe hc ht code hs.2 μ hμ).bind fun v μ hv hμ => ?_
    refine (convert_safe converted hany hμ hv).bind fun v μ hv hμ => ?_
    refine set_safe hμ (fun other hne => ?_) ?_ hv
    · rw [Names.find?_declare, if_neg hne]
    · rw [Names.find?_declare, if_pos rfl]
  | _, _, _, _, _, _, .function _, _, hb, _, _, _, _, _ => by
    rw [Stmt.bodies] at hb
    cases hb
  | _, _, _, _, _, _, .block functions code, hc, hb, hs, _, hΓ, μ, hμ => by
    rw [Stmt.bodies] at hb
    rw [settledStmt] at hs
    -- no function is declared, so hoisting leaves the chain alone
    obtain rfl := eq_of_hoists functions hb
    obtain ⟨hc₂, hgrows⟩ := StmtsCode.grows code hc.beginScope hb (plain_of_settledAll hs hb)
    obtain ⟨-, hwithin⟩ := StmtsCode.within code hc.beginScope hb hs
    obtain ⟨-, -, hnames, -⟩ := hc.endScope hgrows hc₂
    rw [stmt, hnames]
    exact (stmts_safe ht code hc.beginScope hb hs hΓ μ hμ).within hwithin
  | _, _, _, _, _, _, .cond choice first, hc, hb, hs, _, hΓ, μ, hμ => by
    simp only [settledStmt, Bool.and_eq_true, Bool.not_eq_true'] at hs
    rw [Stmt.bodies, List.append_eq_nil_iff] at hb
    obtain ⟨-, hnames, -⟩ := StmtCode.within first hc hb.1 hs.1.2
    -- an arm declares nothing, so the names behind it are those before it
    rw [after_of_settled hs.1.2 hs.1.1.2] at hnames
    rw [stmt]
    refine (cond_safe hc ht choice hs.1.1.1 μ hμ).bind fun v μ _ hμ => ?_
    split
    · exact stmt_safe ht first hc hb.1 hs.1.2 hΓ μ hμ
    · rw [stmt?, hnames]
      exact .pure hμ trivial
  | _, _, _, _, _, _, .condElse choice first _ second, hc, hb, hs, _, hΓ, μ, hμ => by
    simp only [settledStmt, settledBody?, Bool.and_eq_true, Bool.not_eq_true'] at hs
    rw [Stmt.bodies, bodies?, List.append_eq_nil_iff] at hb
    obtain ⟨hc₁, hnames, -⟩ := StmtCode.within first hc hb.1 hs.1.2
    have hsame := after_of_settled hs.1.2 hs.1.1.2
    rw [hsame] at hnames
    have hs₂ := hs.2.2
    rw [← hnames] at hs₂
    obtain ⟨-, hnames', -⟩ := StmtCode.within second hc₁ hb.2 hs₂
    rw [after_of_settled hs₂ hs.2.1] at hnames'
    have hyes := stmt_safe ht first hc hb.1 hs.1.2 hΓ
    have hno := stmt_safe ht second hc₁ hb.2 hs₂ (hnames ▸ hΓ)
    rw [stmt, hsame, hnames', hnames]
    refine (cond_safe hc ht choice hs.1.1.1 μ hμ).bind fun v μ _ hμ => ?_
    rw [hnames] at hyes hno
    rw [hnames', hnames] at hno
    split
    · exact hyes μ hμ
    · rw [stmt?]
      exact hno μ hμ
  | _, _, _, _, _, _, .loop .none choice code step _, hc, hb, hs, _, hΓ, μ, hμ => by
    simp only [settledStmt, settledBody?, Bool.and_eq_true, Bool.not_eq_true'] at hs
    rw [Stmt.bodies, List.append_eq_nil_iff] at hb
    obtain ⟨hc₂, hnames, -⟩ := StmtCode.within code hc hb.2 hs.2.2
    have hsame := hnames.trans (after_of_settled hs.2.2 hs.2.1)
    rw [stmt, ← hnames]
    have hbody := stmt_safe ht code hc hb.2 hs.2.2 .refl
    exact hsame ▸ loopCode_safe ht hc hc₂ hsame choice step hs.1.1 hs.1.2 hbody .refl hΓ μ hμ
  | _, c, _, _, _, _, .loop (.some first) choice code step _, hc, hb, hs, _, hΓ, μ, hμ => by
    simp only [settledStmt, settledBody?, Bool.and_eq_true, Bool.not_eq_true'] at hs
    rw [Stmt.bodies, List.append_eq_nil_iff] at hb
    have hinitial : settledStmt L.environment (names c.beginScope) _ = true := hs.1.1.1
    obtain ⟨hc₁, hnames, hwithin⟩ := StmtCode.within first hc.beginScope hb.1 hinitial
    have hs₂ := hs.2
    have htest := hs.1.1.2
    have hafter := hs.1.2
    -- what the loop declares first is known to its test, step and body only
    have hblock : names c.beginScope = [] :: names c := rfl
    rw [← hblock, ← hnames] at hs₂ htest hafter
    obtain ⟨hc₂, hnames', -⟩ := StmtCode.within code hc₁ hb.2 hs₂.2
    have hsame := hnames'.trans (after_of_settled hs₂.2 hs₂.1)
    obtain ⟨-, hgrows, -⟩ := StmtCode.grows first hc.beginScope hb.1 (plain_of_settledStmt hinitial hb.1)
    obtain ⟨-, hgrows', -⟩ := StmtCode.grows code hc₁ hb.2 (plain_of_settledStmt hs₂.2 hb.2)
    obtain ⟨-, -, hend, -⟩ := hc.endScope (hgrows.trans hgrows') hc₂
    rw [stmt]
    refine (stmt_safe ht first hc.beginScope hb.1 hinitial hΓ μ hμ).bind fun _ μ _ hμ => ?_
    dsimp only
    rw [← hblock, ← hnames, ← hnames']
    show Safe _ (names (ScopeChain.endScope _)) _ _ _
    rw [hend]
    have hin : (names c).Within (names _) := hwithin
    exact loopCode_safe ht hc₁ hc₂ hsame choice step htest hafter (stmt_safe ht code hc₁ hb.2 hs₂.2 hin) hin hΓ μ hμ
  | _, _, _, _, _, _, .brk _ _ _, _, _, _, _, hΓ, μ, hμ => by
    rw [stmt]
    exact hμ.within hΓ
  | _, _, _, _, _, _, .stopNull _ _ _, _, _, _, _, _, _, _ => by
    rw [stmt]
    trivial
  | _, _, _, _, _, _, .stop _ code _, hc, _, hs, _, _, μ, hμ => by
    rw [stmt]
    exact (value_safe hc ht code hs μ hμ).bind fun _ _ _ _ => trivial
  | _, _, _, _, _, _, .leaveNull inside _, hc, _, _, _, _, _, _ => absurd hc.top inside
  | _, _, _, _, _, _, .leave inside _ _, hc, _, _, _, _, _, _ => absurd hc.top inside
  | _, _, _, _, _, _, .empty, _, _, _, _, _, μ, hμ => by
    rw [stmt]
    exact .pure hμ trivial

theorem stmts_safe (ht : L.environment.Typed) : {exits : List Nat} → {c : ScopeChain} → {body : List Stmt} →
    {c' : ScopeChain} → {p q : Nat} → StmtsCode L ⟨0, L.top⟩ exits c body c' p q → Variables c → bodiesAll body = [] →
    settledAll L.environment (names c) body = true → {Γ₀ : Names} → Γ₀.Within (names c) → (μ : Memory) →
    μ.Sound (names c) →
    Safe Γ₀ (names c') (fun _ => True) (stmts limits L.environment n (names c) body) μ
  | _, _, _, _, _, _, .nil, _, _, _, _, _, μ, hμ => by
    rw [stmts]
    exact .pure hμ trivial
  | _, _, _, _, _, _, .cons first others, hc, hb, hs, _, hΓ, μ, hμ => by
    rw [bodiesAll, List.append_eq_nil_iff] at hb
    simp only [settledAll, Bool.and_eq_true] at hs
    obtain ⟨hc₁, hnames, hwithin⟩ := StmtCode.within first hc hb.1 hs.1
    rw [stmts, ← hnames]
    refine (stmt_safe ht first hc hb.1 hs.1 hΓ μ hμ).bind fun _ μ _ hμ => ?_
    exact stmts_safe ht others hc₁ hb.2 (hnames ▸ hs.2) (hΓ.trans hwithin) μ hμ

end

end Trees

/-! ### Programs -/

section Programs

variable {limits : Limits} {L : Layout} (n : Nat)

/-- The last statement of a program, and the value of the program. -/
theorem last_safe (ht : L.environment.Typed) {c c' : ScopeChain} {s : Stmt} {p q : Nat} {kept : Bool}
    (code : LastCode L ⟨0, L.top⟩ c s c' p q kept) (hc : Variables c) (hb : s.bodies = [])
    (hs : settledStmt L.environment (names c) s = true) (μ : Memory) (hμ : μ.Sound (names c)) :
    Safe [[]] [[]] (fun _ => True) (program limits L.environment n (names c) [s]) μ := by
  have hexpr {e : Expr}
      (h : Safe [[]] (names c) (fun _ => True) (expr limits L.environment (names c) e) μ) :
      Safe [[]] [[]] (fun _ => True) (program limits L.environment n (names c) [.expr e]) μ := by
    rw [program]
    exact h.bind fun _ _ _ hμ => .pure (hμ.within Names.empty_within) trivial
  cases code with
  | value code => exact hexpr ((value_safe hc ht code hs μ hμ).mono fun _ _ => trivial)
  | void code => exact hexpr ((code_safe hc ht code hs μ hμ).mono fun _ _ => trivial)
  | other plain code =>
    rw [program]
    · refine (stmt_safe n ht code hc hb hs Names.empty_within μ hμ).bind fun _ μ _ hμ => ?_
      rw [program]
      exact .pure (hμ.within Names.empty_within) trivial
    · exact fun e h _ => plain e h

theorem program_safe (ht : L.environment.Typed) {c : ScopeChain} {body : List Stmt} {p q : Nat} {kept : Bool}
    (code : TopCode L ⟨0, L.top⟩ c body p q kept) (hc : Variables c) (hb : bodiesAll body = [])
    (hs : settledAll L.environment (names c) body = true) (μ : Memory) (hμ : μ.Sound (names c)) :
    Safe [[]] [[]] (fun _ => True) (program limits L.environment n (names c) body) μ := by
  induction code generalizing μ with
  | nil =>
    rw [program]
    exact .pure (hμ.within Names.empty_within) trivial
  | last code =>
    simp only [bodiesAll, List.append_nil] at hb
    simp only [settledAll, Bool.and_true] at hs
    exact last_safe n ht code hc hb hs μ hμ
  | cons first _ ih =>
    rw [bodiesAll, List.append_eq_nil_iff] at hb
    rw [settledAll, Bool.and_eq_true] at hs
    obtain ⟨hc', hnames, -⟩ := StmtCode.within first hc hb.1 hs.1
    rw [program, ← hnames]
    · refine (stmt_safe n ht first hc hb.1 hs.1 Names.empty_within μ hμ).bind fun _ μ _ hμ => ?_
      exact ih hc' hb.2 (hnames ▸ hs.2) μ hμ
    · exact fun e _ h => by cases h

theorem Fault.isOverflow_unplaced (f : Fault) : f.unplaced.isOverflow = f.isOverflow := by
  cases f <;> rfl

/-- A run that fails does so without a limit for the number of instructions, unless it stops at a limit. -/
theorem fails_unfuelled {environment : Environment} {program : Bytecode.Program} {s : State} {f : Fault} {w : World}
    (hrun : RunsTo limits environment program s (.error f) w) :
    f.isLimit = true ∨ RunsTo limits.unfuelled environment program s (.error f) w := by
  obtain ⟨count, o, ho, hresult, hworld⟩ := hrun
  have hwider : limits.AtMost limits.unfuelled := ⟨fun _ h => (by cases h), Nat.le_refl _, Nat.le_refl _⟩
  have hsame : run limits environment program count s = run limits.unfuelled environment program count s ∨
      ∃ f t, run limits environment program count s = .done ⟨.error f, t⟩ ∧ f.isLimit = true := by
    unfold run
    split
    · exact runFrom_endsAlike hwider count 0 s.restart
    · exact .inl rfl
  rcases hsame with hsame | ⟨f', t, hf, hlimit⟩
  · exact .inr ⟨count, o, hsame ▸ ho, hresult, hworld⟩
  · obtain rfl := Attempt.done.inj (hf.symm.trans ho)
    obtain rfl := Except.error.inj hresult
    left
    cases f' <;> first | rfl | cases hlimit

/-- No evaluation of such a program comes upon a value of the wrong type. -/
theorem evaluate_safe {body : List Stmt} {w w' : World} {f : Fault} (hfunctions : bodiesAll body = [])
    (hcode : ProgramCode L body) (hsettled : settledAll L.environment [[]] body = true)
    (hhost : L.environment.Typed) (hends : evaluate limits L.environment n body w = .ended (.error f) w') :
    f.isTypeError = false := by
  obtain ⟨c, q, kept, hhoists, htop, -, -⟩ := hcode.main
  obtain rfl := eq_of_hoists hhoists hfunctions
  have hstart : Memory.Sound (names .empty) ⟨fun _ => .null, w⟩ := fun _ _ h => (by cases h)
  have hsafe : Safe [[]] [[]] (fun _ => True)
      (program limits L.environment n (names .empty) body) _ :=
    program_safe n hhost htop .empty hfunctions hsettled _ hstart
  unfold evaluate at hends
  unfold Safe at hsafe
  split at hends
  case h_3 heq =>
    cases hends
    have heq : program limits L.environment n (names .empty) body _ = _ := heq
    rw [heq] at hsafe
    exact hsafe
  all_goals cases hends

/-- No run of a program without functions ends for a value of the wrong type, where the static types say what values
are: no expression has the type `any`, only members of sets are read by index, and no declaration lacks an initial
value or stands in the place of a block. -/
theorem typed_runs {environment : Environment} {body : List Stmt} {program : Bytecode.Program} {s : State} {f : Fault}
    {w : World} (hfunctions : bodiesAll body = []) (hcompile : compile environment body = .ok program)
    (hsettled : settledAll environment [[]] body = true) (hhost : environment.Typed)
    (hrun : RunsTo limits environment program s (.error f) w) : f.isTypeError = false := by
  rcases fails_unfuelled hrun with hlimit | hrun
  · cases f <;> first | rfl | cases hlimit
  by_cases hhigh : f.isOverflow = true
  · cases f <;> first | rfl | cases hhigh
  have hheight : ∀ count, overflows (run limits.unfuelled environment program count s) = false := by
    obtain ⟨count, ⟨f' | v, t⟩, ho, hresult, -⟩ := hrun
    · obtain rfl := Except.error.inj hresult
      rw [Fault.isOverflow_unplaced] at hhigh
      exact not_overflows_of_done ho (Bool.eq_false_iff.2 hhigh)
    · cases hresult
  obtain ⟨n, hevaluate⟩ :=
    ((compile_correct (plain_of_settledAll hsettled hfunctions) hfunctions hcompile rfl hheight).1 _ _).1 hrun
  obtain ⟨L, rfl, rfl, hcode⟩ :=
    code_of_compile (steadyProgram_of_listed (allListed_of_bodies body hfunctions)) hcompile
  exact evaluate_safe n hfunctions hcode hsettled hhost hevaluate

/-- The element of a text may be missing: `"abc"[5] + "d"`. -/
example : settledAll .empty [[]]
    [.expr (.binary .add (.index (.literal (.string "abc")) [.literal (.int 5)]) (.literal (.string "d")))] =
      false := by
  decide

example : settledAll .empty [[]] nestedBreak = true := by decide

end Programs

end StackScript.Evaluation
