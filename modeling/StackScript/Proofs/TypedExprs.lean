import StackScript.Proofs.RuntimeTypes

/-!
# Values of expressions

* `settled`: an expression whose static type says what its value is.  The type `any` does not, nor does the type of
  an element of a text, which may be missing, or of an element of what a set answers, which has none.
* `code_safe`: where all parts of an expression are such, its value is of its static type, and nothing in it comes
  upon a value of the wrong type.
-/

namespace StackScript.Evaluation

open Typing Bytecode Host Syntax Machine Assembly

/-! ### Static types that say what values are -/

section Settled

variable (environment : Environment)

/-- The static type of the expression says what its value is.  Among elements, only what a set answers for one member
is of its type for sure. -/
def settled (Γ : Names) (e : Expr) : Bool :=
  (typeOf? environment Γ e).any (· != .any) &&
    match e with
    | .index object indices => typeOf? environment Γ object == some .set && indices.length == 1
    | _ => true

end Settled

section Types

variable {environment : Environment} {Γ : Names} {e : Expr} {t : Ty}

theorem ne_any_of_settled (h : settled environment Γ e = true) (ht : typeOf? environment Γ e = some t) :
    t ≠ .any := by
  simp only [settled, Bool.and_eq_true] at h
  simpa [ht] using h.1

theorem plain_of_settled (h : settled environment Γ e = true) : e.plain = true := by
  cases e with
  | call => cases h
  | _ => rfl

theorem every_plain (h : e.every (settled environment Γ) = true) : e.every Expr.plain = true :=
  Expr.every_mono (fun _ => plain_of_settled) h

/-- Two types without `any` have a common type only if they are the same. -/
theorem join?_eq {l r : Ty} (h : Ty.join? l r = some t) (hl : l ≠ .any) (hr : r ≠ .any) : l = t ∧ r = t := by
  unfold Ty.join? at h
  rw [if_neg (by simp [hl, hr])] at h
  obtain ⟨hsame, hsome⟩ := Option.ite_none_right_eq_some.1 h
  have hl := Option.some.inj hsome
  exact ⟨hl, (eq_of_beq hsame).symm.trans hl⟩

end Types

/-! ### Expressions -/

/-- The value of an expression, if it leaves one. -/
abbrev Yields (t : Ty) (v : Value) : Prop := t ≠ .void → v.HasType t

/-- What is stored in a variable is of its type. -/
theorem accepts_eq {t u : Ty} (h : t.accepts u = true) (ht : t ≠ .any) (hu : u ≠ .any) : u = t := by
  simp only [Ty.accepts, Bool.or_eq_true, beq_iff_eq] at h
  rcases h with (h | h) | h
  · exact h.symm
  · exact absurd h ht
  · exact absurd h hu

/-- The result of an operator is known where the operands are. -/
theorem binaryRule?_ne_any {t : Ty} {op : BinaryOp} {rule : Rule} (found : t.binaryRule? op = some rule)
    (ht : t ≠ .any) : rule.result ≠ .any := by
  unfold Ty.binaryRule? at found
  split at found
  · cases found
    exact ht
  · cases found
    simp [Rule.emit]
  · obtain ⟨-, found⟩ := Option.ite_none_right_eq_some.1 found
    cases found
    simp [Rule.emit]
  · obtain ⟨_, -, rfl⟩ := Option.map_eq_some_iff.1 found
    simp [Rule.emit]
  · obtain ⟨_, -, rfl⟩ := Option.map_eq_some_iff.1 found
    simp [Rule.emit]
  · obtain ⟨-, found⟩ := Option.ite_none_right_eq_some.1 found
    cases found
    exact ht
  · cases found

/-- A rule that reads a field in a place that can be assigned to says nothing of it. -/
theorem fieldRule?_any {t : Ty} {field : String} {rule : Rule} (found : fieldRule? t field = some rule)
    (assignable : rule.assignable = true) : rule.result = .any := by
  rcases Option.or_eq_some_iff.1 found with h | ⟨-, h⟩
  · unfold Ty.namedMemberRule? at h
    split at h
    all_goals first | contradiction | skip
    all_goals
      obtain ⟨-, h⟩ := Option.ite_none_right_eq_some.1 h
      obtain rfl := Option.some.inj h
      cases assignable
  · unfold Ty.memberRule? at h
    split at h
    all_goals first | contradiction | skip
    all_goals
      obtain rfl := Option.some.inj h
      rfl

/-- Nor does one that reads an element. -/
theorem elementRule?_any {t : Ty} {rule : Rule} (found : t.elementRule? = some rule)
    (assignable : rule.assignable = true) : rule.result = .any := by
  unfold Ty.elementRule? at found
  split at found
  all_goals first | contradiction | skip
  all_goals
    obtain rfl := Option.some.inj found
    first | rfl | cases assignable

section Expressions

variable {limits : Limits} {L : Layout} {c : ScopeChain} {Γ₀ : Names} (hc : Variables c)
include hc

theorem ne_any_of_code {e : Expr} {p q : Nat} {d : Draft} {t : Ty} {a : Bool}
    (code : ExprCode L ⟨0, L.top⟩ c e p q d t a) (hs : e.every (settled L.environment (names c)) = true) :
    t ≠ .any := ne_any_of_settled (Expr.every_self hs) (typeOf_of_code hc code (every_plain hs))

theorem ne_any_of_value {e : Expr} {p q : Nat} {t : Ty} (code : ValueCode L ⟨0, L.top⟩ c e p q t)
    (hs : e.every (settled L.environment (names c)) = true) : t ≠ .any :=
  ne_any_of_settled (Expr.every_self hs) (typeOf_of_value hc code (every_plain hs))

/-- What can be assigned to is a variable: fields and elements have the type `any`. -/
theorem named_of_assignable {e : Expr} {p q : Nat} {d : Draft} {t : Ty} {a : Bool}
    (code : ExprCode L ⟨0, L.top⟩ c e p q d t a) (ha : a = true)
    (hs : e.every (settled L.environment (names c)) = true) : ∃ s, e = .name s ∧ (names c).find? s = some t := by
  have hany := ne_any_of_code hc code hs
  cases code with
  | function name place => exact no_entry hc name place
  | «variable» name place => exact ⟨_, rfl, find?_of_resolve name place⟩
  | update updates _ _ found _ _ hassignable =>
    obtain rfl := Ty.unaryRule?_updates found updates
    cases hassignable.symm.trans ha
  | unary computes _ found =>
    obtain ⟨_, -, -, -, hassignable⟩ := Ty.unaryRule?_emits found computes
    cases hassignable.symm.trans ha
  | binary plain _ _ _ found =>
    obtain ⟨_, -, -, -, hassignable⟩ := Ty.binaryRule?_emits found plain
    cases hassignable.symm.trans ha
  | member _ found => exact absurd (fieldRule?_any found ha) hany
  | index _ _ found => exact absurd (elementRule?_any found ha) hany
  | _ => cases ha

/-- The value that an assignment stores is covered where its parts are. -/
theorem storedExpr_settled {op : AssignOp} {target value : Expr} {p m : Nat} {t : Ty}
    (stored : ValueCode L ⟨0, L.top⟩ c (storedExpr op target value) p m t)
    (htarget : target.every (settled L.environment (names c)) = true)
    (hvalue : value.every (settled L.environment (names c)) = true) :
    (storedExpr op target value).every (settled L.environment (names c)) = true := by
  unfold storedExpr at stored ⊢
  split at stored
  · next o ho =>
    have hplain : (Expr.binary o target value).every Expr.plain = true := by
      simp [Expr.every, Expr.plain, every_plain htarget, every_plain hvalue]
    have htype := typeOf_of_value hc stored hplain
    have hany : t ≠ .any := by
      obtain ⟨code, -, -⟩ := stored
      cases code with
      | binary _ first second joined found =>
        obtain ⟨rfl, rfl⟩ := join?_eq joined (ne_any_of_value hc first htarget) (ne_any_of_value hc second hvalue)
        exact binaryRule?_ne_any found (ne_any_of_value hc first htarget)
      | logical _ first _ second _ joined found =>
        obtain ⟨rfl, rfl⟩ := join?_eq joined (ne_any_of_value hc first htarget) (ne_any_of_value hc second hvalue)
        exact binaryRule?_ne_any found (ne_any_of_value hc first htarget)
    simp [Expr.every, settled, htype, hany, htarget, hvalue]
  · exact hvalue

omit hc

variable {Γ : Names} {μ : Memory}

/-- A value, and then another one. -/
theorem two_safe {α : Type} {x y : Eval Value} {tl tr : Ty} {post : α → Prop} {f : Value → Value → Eval α}
    (hx : Safe Γ₀ Γ (fun v => v.HasType tl) x μ)
    (hy : ∀ μ, μ.Sound Γ → Safe Γ₀ Γ (fun v => v.HasType tr) y μ)
    (hf : ∀ a b μ, a.HasType tl → b.HasType tr → μ.Sound Γ → Safe Γ₀ Γ post (f a b) μ) :
    Safe Γ₀ Γ post (do
      let a ← x
      let b ← y
      f a b) μ :=
  hx.bind fun a μ₁ ha hμ₁ => (hy μ₁ hμ₁).bind fun b μ₂ hb hμ₂ => hf a b μ₂ ha hb hμ₂

/-- A variable is given a value of its type.  The other variables are visible as before. -/
theorem set_safe {Γ' : Names} {name : String} {t : Ty} {v : Value} (hμ : μ.Sound Γ)
    (hother : ∀ other, other ≠ name → Γ'.find? other = Γ.find? other) (hname : Γ'.find? name = some t)
    (hv : t ≠ .any → v.HasType t) : Safe Γ₀ Γ' (fun _ => True) (setVariable name v) μ := by
  refine ⟨trivial, fun other u hfound hany => ?_⟩
  show (if other = name then v else μ.vars other).HasType u
  split
  · next heq =>
    subst heq
    obtain rfl := Option.some.inj (hname.symm.trans hfound)
    exact hv hany
  · next hne => exact hμ other u ((hother other hne).symm.trans hfound) hany

theorem literal_hasType (v : Literal) : (literalValue v).HasType (literalType v) := by
  cases v <;> constructor

theorem domain_of_updates {t : Ty} {op : UnaryOp} {side : Side} {rule : Rule}
    (found : t.unaryRule? op side = some rule) (updates : op = .increment ∨ op = .decrement) :
    ∃ d, t.domain? = some d := by
  rcases updates with rfl | rfl
  · obtain ⟨d, hd, -⟩ := Option.map_eq_some_iff.1 found
    exact ⟨d, hd⟩
  · obtain ⟨d, hd, -⟩ := Option.map_eq_some_iff.1 found
    exact ⟨d, hd⟩

theorem bump_typed {u : Bytecode.Update} {v : Value} {t : Ty} {d : Domain} (hd : t.domain? = some d)
    (hany : t ≠ .any) (hv : v.HasType t) : ∃ v', bump u v = .ok v' ∧ v'.HasType t := by
  rcases domain_cases hd hany with ⟨rfl, -⟩ | ⟨rfl, -⟩
  · obtain ⟨⟩ := hv
    exact ⟨_, rfl, .int _⟩
  · obtain ⟨⟩ := hv
    exact ⟨_, rfl, .float _⟩

/-- A number is updated in place. -/
theorem update_safe {environment : Environment} {u : Bytecode.Update} {name : String} {t : Ty} (hμ : μ.Sound Γ)
    (hname : Γ.find? name = some t) (hd : ∃ d, t.domain? = some d) (hany : t ≠ .any) :
    Safe Γ₀ Γ (fun _ => True) (update limits environment Γ u (.name name)) μ := by
  obtain ⟨d, hd⟩ := hd
  obtain ⟨v, hbump, hv⟩ := bump_typed (u := u) hd hany (hμ name t hname hany)
  have hset : Safe Γ₀ Γ (fun _ => True) (setVariable name v >>= fun _ => return Value.null) μ :=
    (set_safe hμ (fun _ _ => rfl) hname fun _ => hv).bind fun _ μ _ hμ => .pure hμ trivial
  unfold Safe at hset ⊢
  rw [update]
  have hrun : (do
      let v ← readVariable name
      setVariable name (← orFault (bump u v))
      return Value.null : Eval Value) μ = (setVariable name v >>= fun _ => return Value.null) μ := by
    show (orFault (bump u (μ.vars name)) >>= fun v => setVariable name v >>= fun _ => return Value.null) μ = _
    rw [hbump]
    rfl
  rw [hrun]
  exact hset

end Expressions

section Trees

variable {limits : Limits} {L : Layout} {c : ScopeChain} {Γ₀ : Names}

/-- An operator that evaluates both of its operands. -/
theorem binary_safe (hc : Variables c) {op : BinaryOp} {left right : Expr} {p m q : Nat} {tl tr t : Ty} {rule : Rule}
    {o : Opcode} (plain : op.isLogical = false) (first : ValueCode L ⟨0, L.top⟩ c left p m tl)
    (second : ValueCode L ⟨0, L.top⟩ c right m q tr) (joined : Ty.join? tl tr = some t)
    (found : t.binaryRule? op = some rule) (action : rule.action = .emit o)
    (hl : left.every (settled L.environment (names c)) = true)
    (hr : right.every (settled L.environment (names c)) = true)
    (hleft : ∀ μ, μ.Sound (names c) →
      Safe Γ₀ (names c) (fun v => v.HasType tl) (expr limits L.environment (names c) left) μ)
    (hright : ∀ μ, μ.Sound (names c) →
      Safe Γ₀ (names c) (fun v => v.HasType tr) (expr limits L.environment (names c) right) μ)
    (μ : Memory) (hμ : μ.Sound (names c)) :
    Safe Γ₀ (names c) (fun v => v.HasType rule.result)
      (expr limits L.environment (names c) (.binary op left right)) μ := by
  have hany := ne_any_of_value hc first hl
  obtain ⟨rfl, rfl⟩ := join?_eq joined hany (ne_any_of_value hc second hr)
  rw [expr_binary plain, binaryOpcode_of_code hc first second joined found action (every_plain hl) (every_plain hr)]
  exact two_safe (hleft μ hμ) hright fun a b μ ha hb hμ =>
    .operate hμ (binary_gives plain hany found action ha hb)

/-- An operator whose left operand may decide. -/
theorem logical_safe (hc : Variables c) {op : BinaryOp} {left right : Expr} {p m k q : Nat} {tl tr t : Ty} {rule : Rule}
    (decides : op.isLogical = true) (first : ValueCode L ⟨0, L.top⟩ c left p m tl)
    (second : ValueCode L ⟨0, L.top⟩ c right k q tr) (joined : Ty.join? tl tr = some t)
    (found : t.binaryRule? op = some rule) (hl : left.every (settled L.environment (names c)) = true)
    (hr : right.every (settled L.environment (names c)) = true)
    (hleft : ∀ μ, μ.Sound (names c) →
      Safe Γ₀ (names c) (fun v => v.HasType tl) (expr limits L.environment (names c) left) μ)
    (hright : ∀ μ, μ.Sound (names c) →
      Safe Γ₀ (names c) (fun v => v.HasType tr) (expr limits L.environment (names c) right) μ)
    (μ : Memory) (hμ : μ.Sound (names c)) :
    Safe Γ₀ (names c) (Yields rule.result) (expr limits L.environment (names c) (.binary op left right)) μ := by
  have hany := ne_any_of_value hc first hl
  obtain ⟨rfl, rfl⟩ := join?_eq joined hany (ne_any_of_value hc second hr)
  obtain ⟨rfl, hbool⟩ := Ty.binaryRule?_logical found decides
  obtain rfl := hbool.resolve_right hany
  have hconstant (b : Bool) (μ : Memory) (hμ : μ.Sound (names c)) :
      Safe Γ₀ (names c) (Yields .bool) (return .bool b) μ := .pure hμ fun _ => .bool b
  cases op with
  | both =>
    simp only [expr]
    refine (hleft μ hμ).bind fun a μ _ hμ => ?_
    split
    · exact (hright μ hμ).mono fun _ h _ => h
    · exact hconstant false μ hμ
  | either =>
    simp only [expr]
    refine (hleft μ hμ).bind fun a μ _ hμ => ?_
    split
    · exact hconstant true μ hμ
    · exact (hright μ hμ).mono fun _ h _ => h
  | _ => cases decides

/-- Only an element of a set has a type known beforehand. -/
theorem index_safe (hc : Variables c) {object : Expr} {indices : List Expr} {p m : Nat} {t : Ty} {rule : Rule}
    {o : Opcode} (code : ValueCode L ⟨0, L.top⟩ c object p m t) (found : t.elementRule? = some rule)
    (action : rule.action = .emit o) (hself : settled L.environment (names c) (.index object indices) = true)
    (hplain : object.every Expr.plain = true)
    (hobject : ∀ μ, μ.Sound (names c) →
      Safe Γ₀ (names c) (fun v => v.HasType t) (expr limits L.environment (names c) object) μ)
    (hindices : ∀ μ, μ.Sound (names c) →
      Safe Γ₀ (names c) (fun vs => vs.length = indices.length) (exprs limits L.environment (names c) indices) μ)
    (μ : Memory) (hμ : μ.Sound (names c)) :
    Safe Γ₀ (names c) (fun v => v.HasType rule.result)
      (expr limits L.environment (names c) (.index object indices)) μ := by
  have htype := typeOf_of_value hc code hplain
  have hopcode : elementOpcode? (typeOf? L.environment (names c) object) = some o := by
    rw [htype]
    simp [elementOpcode?, found, opcode?_of_emit action]
  obtain ⟨rfl, hlength⟩ : t = .set ∧ indices.length = 1 := by
    simp only [settled, htype, Bool.and_eq_true, beq_iff_eq, Option.some.injEq] at hself
    exact hself.2
  cases found
  cases action
  rw [expr, hopcode]
  refine (hobject μ hμ).bind fun v μ hv hμ => (hindices μ hμ).bind fun vs μ hvs hμ => ?_
  obtain ⟨b, rfl⟩ := List.length_eq_one_iff.1 (hvs.trans hlength)
  rw [hlength]
  exact Safe.operate hμ (element_gives hv)

mutual

/-- The value of an expression is of its static type, and no operation on the way comes upon a value of the wrong
type. -/
theorem code_safe (hc : Variables c) (ht : L.environment.Typed) : {e : Expr} → {p q : Nat} → {d : Draft} →
    {t : Ty} → {a : Bool} → ExprCode L ⟨0, L.top⟩ c e p q d t a →
    e.every (settled L.environment (names c)) = true → (μ : Memory) →
    μ.Sound (names c) →
    Safe Γ₀ (names c) (Yields t) (expr limits L.environment (names c) e) μ
  | _, _, _, _, _, _, .literal (v := v), _, _, hμ => by
    rw [expr]
    exact .pure hμ fun _ => literal_hasType v
  | _, _, _, _, _, _, .template code, hs, μ, hμ => by
    simp only [Expr.every, Bool.and_eq_true] at hs
    rw [expr]
    refine (parts_safe hc ht code hs.2 μ hμ).bind fun vs μ _ hμ => ?_
    exact (Safe.operate hμ (buildString_gives (by simp))).mono fun _ h _ => h
  | _, _, _, _, _, _, .external (s := s) name place, hs, μ, hμ => by
    obtain ⟨hnone, hbinding⟩ := hc.resolve_external name place
    obtain ⟨b, hb, htype⟩ := Option.map_eq_some_iff.1 hbinding
    -- a name of the host has the type its binding promises
    have hany := ne_any_of_code hc (.external name place (p := 0)) hs
    rw [expr, hnone, ← htype]
    exact (Safe.operate hμ (ht.gives hb (htype ▸ hany) limits)).mono fun _ h _ => h
  | _, _, _, _, _, _, .function name place _ _, _, _, _ => no_entry hc name place
  | _, _, _, _, _, _, .variable name place own typed placed reached shared, hs, μ, hμ => by
    have hany := ne_any_of_code hc (.variable name place own typed placed reached shared (p := 0)) hs
    have hname := find?_of_resolve name place
    rw [expr, hname]
    exact ⟨fun _ => hμ _ _ hname hany, hμ⟩
  | _, _, _, _, _, _, .update updates code _ found _ _ _, hs, μ, hμ => by
    simp only [Expr.every, Bool.and_eq_true] at hs
    obtain ⟨s, rfl, hname⟩ := named_of_assignable hc code rfl hs.2
    have hany := ne_any_of_code hc code hs.2
    have hupdate (u : Bytecode.Update) : Safe Γ₀ (names c) (fun _ => True)
        (update limits L.environment (names c) u (.name s)) μ :=
      update_safe hμ hname (domain_of_updates found updates) hany
    -- an update of a variable: the operand is a name, and the value keeps its type
    obtain rfl := Ty.unaryRule?_updates found updates
    rcases updates with rfl | rfl
    · rw [expr]
      exact (hupdate _).mono fun _ _ h => absurd rfl h
    · rw [expr]
      exact (hupdate _).mono fun _ _ h => absurd rfl h
  | .unary op _ operand, _, _, _, _, _, .unary (o := o) computes code found action, hs, μ, hμ => by
    simp only [Expr.every, Bool.and_eq_true] at hs
    have hopcode : unaryOpcode? op (typeOf? L.environment (names c) operand) = some o := by
      rw [typeOf_of_value hc code (every_plain hs.2)]
      simp [unaryOpcode?, found, opcode?_of_emit action]
    rw [expr_unary computes, hopcode]
    refine (value_safe hc ht code hs.2 μ hμ).bind fun v μ hv hμ => ?_
    exact (Safe.operate hμ (unary_gives computes (ne_any_of_value hc code hs.2) found action hv)).mono
      fun _ h _ => h
  | _, _, _, _, _, _, .binary plain first second joined found action, hs, μ, hμ => by
    simp only [Expr.every, Bool.and_eq_true] at hs
    have hnode := binary_safe hc plain first second joined found action hs.1.2 hs.2 (value_safe hc ht first hs.1.2)
      (value_safe hc ht second hs.2) μ hμ
    exact hnode.mono fun _ h _ => h
  | _, _, _, _, _, _, .logical decides first _ second _ joined found, hs, μ, hμ => by
    simp only [Expr.every, Bool.and_eq_true] at hs
    exact logical_safe hc decides first second joined found hs.1.2 hs.2 (value_safe hc ht first hs.1.2)
      (value_safe hc ht second hs.2) μ hμ
  | _, _, _, _, _, _, .ternary choice first _ second _ joined, hs, μ, hμ => by
    simp only [Expr.every, Bool.and_eq_true] at hs
    have htest := cond_safe hc ht choice hs.1.1.2 μ hμ
    have hyes := value_safe hc ht first hs.1.2
    have hno := code_safe hc ht second hs.2
    obtain ⟨rfl, rfl⟩ := join?_eq joined (ne_any_of_value hc first hs.1.2) (ne_any_of_code hc second hs.2)
    rw [expr]
    refine htest.bind fun v μ _ hμ => ?_
    split
    · exact (hyes μ hμ).mono fun _ h _ => h
    · exact hno μ hμ
  | .member object field, _, _, _, _, _, .member (o := o) code found action, hs, μ, hμ => by
    have hany := ne_any_of_code hc (.member code found action) hs
    simp only [Expr.every, Bool.and_eq_true] at hs
    have hopcode : memberOpcode? (typeOf? L.environment (names c) object) field = some o := by
      rw [typeOf_of_value hc code (every_plain hs.2)]
      simp [memberOpcode?, found, opcode?_of_emit action]
    rw [expr, hopcode]
    refine (value_safe hc ht code hs.2 μ hμ).bind fun v μ hv hμ => ?_
    exact (Safe.operate hμ (member_gives found action hany hv)).mono fun _ h _ => h
  | _, _, _, _, _, _, .index code rest found action, hs, μ, hμ => by
    have hself := Expr.every_self hs
    simp only [Expr.every, Bool.and_eq_true] at hs
    exact (index_safe hc code found action hself (every_plain hs.1.2) (value_safe hc ht code hs.1.2)
      (values_safe hc ht rest hs.2) μ hμ).mono fun _ h _ => h
  | _, _, _, _, _, _, .callFunction .., hs, _, _ => by
    cases Expr.every_self hs
  | _, _, _, _, _, _, .callHost .., hs, _, _ => by
    cases Expr.every_self hs
  | .assign op target value, _, _, _, _, _, .assign stored code _ accepted _, hs, μ, hμ => by
    simp only [Expr.every, Bool.and_eq_true] at hs
    have hstored := storedExpr_settled hc stored hs.1.2 hs.2
    have hvalue := value_safe hc ht stored hstored μ hμ
    have hsame := accepts_eq accepted (ne_any_of_code hc code hs.1.2) (ne_any_of_value hc stored hstored)
    obtain ⟨s, rfl, hname⟩ := named_of_assignable hc code rfl hs.1.2
    rw [expr_assign]
    refine hvalue.bind fun v μ hv hμ => ?_
    rw [store]
    refine (set_safe hμ (fun _ _ => rfl) hname fun _ => hsame ▸ hv).bind fun _ μ _ hμ => ?_
    exact .pure hμ fun h => absurd rfl h
  | _, _, _, _, _, _, .array code, hs, μ, hμ => by
    simp only [Expr.every, Bool.and_eq_true] at hs
    rw [expr]
    refine (values_safe hc ht code hs.2 μ hμ).bind fun vs μ hvs hμ => ?_
    exact (Safe.operate hμ (newArray_gives (by simpa using hvs))).mono fun _ h _ => h
  | _, _, _, _, _, _, .set code, hs, μ, hμ => by
    simp only [Expr.every, Bool.and_eq_true] at hs
    rw [expr]
    refine (values_safe hc ht code hs.2 μ hμ).bind fun vs μ hvs hμ => ?_
    exact (Safe.operate hμ (newSet_gives (by simpa using hvs))).mono fun _ h _ => h
  | _, _, _, _, _, _, .object code, hs, μ, hμ => by
    simp only [Expr.every, Bool.and_eq_true] at hs
    rw [expr]
    refine (fields_safe hc ht code hs.2 μ hμ).bind fun vs μ hvs hμ => ?_
    refine (Safe.operate hμ (newObject_gives (by simpa using hvs.1) fun fault hfault => ?_)).mono fun _ h _ => h
    obtain ⟨pairs, hpairs⟩ := hvs.2
    cases hpairs.symm.trans hfault

/-- The value that the code of an expression leaves. -/
theorem value_safe (hc : Variables c) (ht : L.environment.Typed) : {e : Expr} → {p q : Nat} → {t : Ty} →
    ValueCode L ⟨0, L.top⟩ c e p q t →
    e.every (settled L.environment (names c)) = true → (μ : Memory) → μ.Sound (names c) →
    Safe Γ₀ (names c) (fun v => v.HasType t) (expr limits L.environment (names c) e) μ
  | _, _, _, _, .value code _ leaves, hs, μ, hμ => (code_safe hc ht code hs μ hμ).mono fun _ h => h leaves

theorem values_safe (hc : Variables c) (ht : L.environment.Typed) : {es : List Expr} → {p q : Nat} → {types : List Ty} →
    ValuesCode L ⟨0, L.top⟩ c es p q types → everyIn (settled L.environment (names c)) es = true → (μ : Memory) →
    μ.Sound (names c) →
    Safe Γ₀ (names c) (fun vs => vs.length = es.length) (exprs limits L.environment (names c) es) μ
  | _, _, _, _, .nil, _, μ, hμ => by
    rw [exprs]
    exact .pure hμ rfl
  | _, _, _, _, .cons first others, hs, μ, hμ => by
    simp only [everyIn, Bool.and_eq_true] at hs
    rw [exprs]
    refine (value_safe hc ht first hs.1 μ hμ).bind fun v μ _ hμ => ?_
    refine (values_safe hc ht others hs.2 μ hμ).bind fun vs μ hvs hμ => .pure hμ ?_
    rw [List.length_cons, List.length_cons, hvs]

theorem fields_safe (hc : Variables c) (ht : L.environment.Typed) : {fields : List (String × Expr)} → {p q : Nat} →
    FieldsCode L ⟨0, L.top⟩ c fields p q →
    everyField (settled L.environment (names c)) fields = true → (μ : Memory) → μ.Sound (names c) →
    Safe Γ₀ (names c)
      (fun vs => vs.length = 2 * fields.length ∧ ∃ pairs, Exec.pairUp vs = .ok pairs)
      (fieldValues limits L.environment (names c) fields) μ
  | _, _, _, .nil, _, μ, hμ => by
    rw [fieldValues]
    exact .pure hμ ⟨rfl, [], rfl⟩
  | (key, _) :: _, _, _, .cons _ first others, hs, μ, hμ => by
    simp only [everyField, everyOf, Bool.and_eq_true] at hs
    rw [fieldValues, fieldValue]
    refine (value_safe hc ht first hs.1 μ hμ).bind fun v μ _ hμ => ?_
    refine (fields_safe hc ht others hs.2 μ hμ).bind fun vs μ hvs hμ => .pure hμ ⟨?_, ?_⟩
    · rw [List.length_cons, List.length_cons, List.length_cons, hvs.1]
      omega
    · obtain ⟨pairs, hpairs⟩ := hvs.2
      exact ⟨(key, v) :: pairs, by rw [Exec.pairUp, hpairs]; rfl⟩

theorem parts_safe (hc : Variables c) (ht : L.environment.Typed) : {chunks : List String} → {parts : List Expr} →
    {p q k : Nat} → PartsCode L ⟨0, L.top⟩ c chunks parts p q k →
    everyIn (settled L.environment (names c)) parts = true →
    (μ : Memory) → μ.Sound (names c) →
    Safe Γ₀ (names c) (fun _ => True) (pieces limits L.environment (names c) chunks parts) μ
  | _, _, _, _, _, .done, _, μ, hμ => by
    rw [pieces]
    exact .pure hμ trivial
  | _, _, _, _, _, .text full _ rest, hs, μ, hμ => by
    rw [pieces_cons, full, if_neg Bool.false_ne_true, cons, pure_bind]
    exact (behind_safe hc ht rest hs μ hμ).bind fun vs μ _ hμ => .pure hμ trivial
  | _, _, _, _, _, .noText empty rest, hs, μ, hμ => by
    rw [pieces_cons, empty, if_pos rfl]
    exact behind_safe hc ht rest hs μ hμ

theorem behind_safe (hc : Variables c) (ht : L.environment.Typed) : {chunks : List String} → {parts : List Expr} →
    {p q k : Nat} → PieceCode L ⟨0, L.top⟩ c chunks parts p q k →
    everyIn (settled L.environment (names c)) parts = true →
    (μ : Memory) → μ.Sound (names c) →
    Safe Γ₀ (names c) (fun _ => True) (behind limits L.environment (names c) chunks parts) μ
  | _, _, _, _, _, .none rest, hs, μ, hμ => parts_safe hc ht rest hs μ hμ
  | _, _, _, _, _, .some code rest, hs, μ, hμ => by
    simp only [everyIn, Bool.and_eq_true] at hs
    refine (value_safe hc ht code hs.1 μ hμ).bind fun v μ _ hμ => ?_
    exact (parts_safe hc ht rest hs.2 μ hμ).bind fun vs μ _ hμ => .pure hμ trivial

/-- A condition may have a value of any type. -/
theorem cond_safe (hc : Variables c) (ht : L.environment.Typed) : {e : Expr} → {p q no : Nat} →
    CondCode L ⟨0, L.top⟩ c e p q no →
    e.every (settled L.environment (names c)) = true → (μ : Memory) → μ.Sound (names c) →
    Safe Γ₀ (names c) (fun _ => True) (expr limits L.environment (names c) e) μ
  | _, _, _, _, .branch code _, hs, μ, hμ => (value_safe hc ht code hs μ hμ).mono fun _ _ => trivial
  | _, _, _, _, .merged plain first second joined found action _, hs, μ, hμ => by
    simp only [Expr.every, Bool.and_eq_true] at hs
    have hnode := binary_safe hc plain first second joined found action hs.1.2 hs.2 (value_safe hc ht first hs.1.2)
      (value_safe hc ht second hs.2) μ hμ
    exact hnode.mono fun _ _ => trivial

end

end Trees

end StackScript.Evaluation
