import StackScript.Proofs.Simulation

/-!
# The code of expressions computes their values

* `names`: the variables that a scope chain shows, and `Variables`: a chain of a program without
  functions.
* `ExprCode.typeOf`: the types that code is written for are those of direct evaluation.
* `ExprCode.follows`: where the code of an expression is in place, the machine follows the
  evaluation of the expression.
-/

namespace StackScript.Evaluation

open Typing Bytecode Host Syntax Machine Assembly

/-! ### Visible names -/

def blockNames (s : Scope) : List (String × Ty) := s.entities.map fun e => (e.name, e.type)

def names (c : ScopeChain) : Names := c.scopes.map blockNames

theorem lookup_blockNames (s : Scope) (name : String) :
    (blockNames s).lookup name = (s.find? name).map (·.type) := by
  unfold blockNames Scope.find?
  induction s.entities with
  | nil => rfl
  | cons e rest ih =>
    rw [List.map_cons, List.lookup_cons, List.find?_cons, BEq.comm]
    cases e.name == name
    · exact ih
    · rfl

theorem find?_names (c : ScopeChain) (name : String) :
    (names c).find? name = (c.scopes.findSome? fun s => s.find? name).map (·.type) := by
  unfold names Names.find?
  induction c.scopes with
  | nil => rfl
  | cons s rest ih =>
    rw [List.map_cons, List.findSome?_cons, List.findSome?_cons, lookup_blockNames]
    cases s.find? name
    · exact ih
    · rfl

/-- A chain of the top level, with nothing but variables in it. -/
structure Variables (c : ScopeChain) : Prop where
  sound : c.Sound 0
  top : c.functionDepth = 0
  slots : ∀ e ∈ c.entities, ∃ i, e.location = .slot i
  nodup : c.frame.toList.Nodup

/-- The frame of a chain is the beginning of a longer one. -/
def Starts (F : Array String) (c : ScopeChain) : Prop :=
  ∀ (i : Nat) (name : String), c.frame[i]? = some name → F[i]? = some name

section Names

variable {c : ScopeChain} {environment : Environment} {name : String} {e : Entity}

/-- A name of the host is no visible variable. -/
theorem Variables.resolve_external (hc : Variables c) (h : c.resolve environment name = .ok e)
    (place : e.location = .external) :
    (names c).find? name = none ∧ (environment.get? name).map (·.type) = some e.type := by
  rw [find?_names]
  unfold ScopeChain.resolve at h
  split at h
  · next f hf =>
    obtain rfl := Except.ok.inj h
    obtain ⟨s, hs, hsf⟩ := List.exists_of_findSome?_eq_some hf
    obtain ⟨i, hi⟩ := hc.slots f (List.mem_flatMap.2 ⟨s, hs, (Scope.mem_of_find? hsf).1⟩)
    rw [place] at hi
    cases hi
  · next hnone =>
    rw [hnone]
    split at h
    · next b hb =>
      obtain rfl := Except.ok.inj h
      rw [hb]
      exact ⟨rfl, rfl⟩
    · cases h

/-- A visible variable has the type of its declaration. -/
theorem find?_of_resolve {i : Int} (h : c.resolve environment name = .ok e)
    (place : e.location = .slot i) : (names c).find? name = some e.type := by
  rw [find?_names]
  unfold ScopeChain.resolve at h
  split at h
  · next f hf =>
    obtain rfl := Except.ok.inj h
    rw [hf]
    rfl
  · split at h
    · obtain rfl := Except.ok.inj h
      cases place
    · cases h

theorem type_ne_void (b : Binding) : b.type ≠ .void := by
  unfold Binding.type Ty.ofText?
  cases h : Ty.declarable.find? _ with
  | none => exact nofun
  | some t =>
    rintro (rfl : t = .void)
    exact absurd (List.mem_of_find?_eq_some h) (by decide)

theorem Variables.type_ne_void (hc : Variables c) (h : c.resolve environment name = .ok e)
    (place : e.location = .external) : e.type ≠ .void := by
  obtain ⟨b, -, hb⟩ := Option.map_eq_some_iff.1 (hc.resolve_external h place).2
  rw [← hb]
  exact Evaluation.type_ne_void b

end Names

/-! ### Static types -/

section Types

variable {L : Layout} {r : Room} {c : ScopeChain}

theorem opcode?_of_emit {rule : Rule} {op : Opcode} (h : rule.action = .emit op) :
    opcode? rule = some op := by
  rw [opcode?, h]

theorem unaryRule?_before {t : Ty} {op : UnaryOp} {side : Side} {rule : Rule}
    (updates : op = .increment ∨ op = .decrement) (found : t.unaryRule? op side = some rule) :
    t.unaryRule? op .before = some rule := by
  rcases updates with rfl | rfl <;> exact found

mutual

/-- The type that code is written for is that of the expression. -/
theorem typeOf_of_code (hc : Variables c) : {e : Expr} → {p q : Nat} → {d : Draft} → {t : Ty} →
    {a : Bool} → ExprCode L r c e p q d t a → e.every Expr.plain = true →
    typeOf? L.environment (names c) e = some t
  | _, _, _, _, _, _, .literal, _ => rfl
  | _, _, _, _, _, _, .template _, _ => rfl
  | _, _, _, _, _, _, .external name place, _ => by
    obtain ⟨hnone, htype⟩ := hc.resolve_external name place
    rw [typeOf?, hnone]
    exact htype
  | _, _, _, _, _, _, .function name place _ _, _ => by
    -- there are no functions among variables only
    obtain ⟨hm, -⟩ := ScopeChain.Sound.mem_of_resolve name (by simp [place])
    obtain ⟨i, hi⟩ := hc.slots _ hm
    rw [place] at hi
    cases hi
  | _, _, _, _, _, _, .variable name place _ _ _ _ _, _ => by
    rw [typeOf?, find?_of_resolve name place]
    rfl
  | _, _, _, _, _, _, .update updates code _ found _ _ _, ht => by
    simp only [Expr.every, Bool.and_eq_true] at ht
    rw [typeOf?, typeOf_of_code hc code ht.2]
    simp [unaryRule?_before updates found]
  | _, _, _, _, _, _, .unary computes code found _, ht => by
    simp only [Expr.every, Bool.and_eq_true] at ht
    rw [typeOf?, typeOf_of_value hc code ht.2]
    simp [found]
  | _, _, _, _, _, _, .binary _ first second joined found _, ht => by
    simp only [Expr.every, Bool.and_eq_true] at ht
    rw [typeOf?, typeOf_of_value hc first ht.1.2, typeOf_of_value hc second ht.2]
    simp [joined, found]
  | _, _, _, _, _, _, .logical _ first _ second _ joined found, ht => by
    simp only [Expr.every, Bool.and_eq_true] at ht
    rw [typeOf?, typeOf_of_value hc first ht.1.2, typeOf_of_value hc second ht.2]
    simp [joined, found]
  | _, _, _, _, _, _, .ternary _ first _ second _ joined, ht => by
    simp only [Expr.every, Bool.and_eq_true] at ht
    rw [typeOf?, typeOf_of_value hc first ht.1.2, typeOf_of_code hc second ht.2]
    simp [joined]
  | _, _, _, _, _, _, .member code found _, ht => by
    simp only [Expr.every, Bool.and_eq_true] at ht
    rw [typeOf?, typeOf_of_value hc code ht.2]
    simp [found]
  | _, _, _, _, _, _, .index code _ found _, ht => by
    simp only [Expr.every, Bool.and_eq_true] at ht
    rw [typeOf?, typeOf_of_value hc code ht.1.2]
    simp [found]
  | _, _, _, _, _, _, .callFunction .., ht => absurd (Expr.every_self ht) nofun
  | _, _, _, _, _, _, .callHost .., ht => absurd (Expr.every_self ht) nofun
  | _, _, _, _, _, _, .assign .., _ => rfl
  | _, _, _, _, _, _, .array _, _ => rfl
  | _, _, _, _, _, _, .set _, _ => rfl
  | _, _, _, _, _, _, .object _, _ => rfl

theorem typeOf_of_value (hc : Variables c) : {e : Expr} → {p q : Nat} → {t : Ty} →
    ValueCode L r c e p q t → e.every Expr.plain = true →
    typeOf? L.environment (names c) e = some t
  | _, _, _, _, .value code _ _, ht => typeOf_of_code hc code ht

end

end Types

/-! ### Evaluations -/

section Evaluations

variable {limits : Limits} {environment : Environment} {Γ : Names}

theorem ok_of_bind {α β : Type} {x : Eval α} {f : α → Eval β} {μ μ' : Memory} {b : β}
    (h : (x >>= f) μ = .ok b μ') : ∃ a μ₁, x μ = .ok a μ₁ ∧ f a μ₁ = .ok b μ' := by
  change EStateM.bind x f μ = _ at h
  unfold EStateM.bind at h
  cases hx : x μ with
  | ok a μ₁ =>
    rw [hx] at h
    exact ⟨a, μ₁, rfl, h⟩
  | error e μ₁ =>
    rw [hx] at h
    cases h

/-- An assignment evaluates what is stored, and then the target. -/
theorem expr_assign (op : AssignOp) (target value : Expr) :
    expr limits environment Γ (.assign op target value) =
      expr limits environment Γ (storedExpr op target value) >>= store limits environment Γ target := by
  cases op <;> simp only [expr, storedExpr, AssignOp.binary?, bind_assoc]

/-- Both operands of an operator that does not decide are evaluated. -/
theorem expr_binary {op : BinaryOp} (plain : op.isLogical = false) (left right : Expr) :
    expr limits environment Γ (.binary op left right) = (do
      let a ← expr limits environment Γ left
      let b ← expr limits environment Γ right
      operate limits environment
        (binaryOpcode? op (typeOf? environment Γ left) (typeOf? environment Γ right)) .none [a, b]) := by
  cases op <;> first | (simp only [expr]; done) | exact absurd plain Bool.noConfusion

theorem expr_unary {op : UnaryOp} (computes : op = .minus ∨ op = .not) (side : Side) (operand : Expr) :
    expr limits environment Γ (.unary op side operand) = (do
      let v ← expr limits environment Γ operand
      operate limits environment (unaryOpcode? op (typeOf? environment Γ operand)) .none [v]) := by
  rcases computes with rfl | rfl <;> simp only [expr]

theorem pieces_nil (chunks : List String) : pieces limits environment Γ chunks [] =
    return (chunks.filter fun chunk => !chunk.isEmpty).map .str := by
  cases chunks with
  | nil => rw [pieces]; rfl
  | cons chunk chunks => rw [pieces]; exact nofun

def cons (x : Eval Value) (xs : Eval (List Value)) : Eval (List Value) := do
  let v ← x
  let vs ← xs
  return v :: vs

variable (limits environment Γ) in
def behind (chunks : List String) : List Expr → Eval (List Value)
  | [] => pieces limits environment Γ chunks []
  | e :: parts => cons (expr limits environment Γ e) (pieces limits environment Γ chunks parts)

/-- A text of a template, and what is behind it. -/
theorem pieces_cons (chunk : String) (chunks : List String) (parts : List Expr) :
    pieces limits environment Γ (chunk :: chunks) parts =
      if chunk.isEmpty then behind limits environment Γ chunks parts
      else cons (return .str chunk) (behind limits environment Γ chunks parts) := by
  cases parts with
  | nil =>
    rw [pieces_nil, behind, pieces_nil]
    cases h : chunk.isEmpty <;> simp [cons, h]
  | cons e parts =>
    rw [pieces, behind]
    cases h : chunk.isEmpty <;> simp [cons]

end Evaluations

/-! ### Expressions -/

/-- The values above the variables behind an expression of a type. -/
def left (t : Ty) (temps : Array Value) (v : Value) : Array Value :=
  if t = .void then temps else temps.push v

theorem left_of_ne {t : Ty} (h : t ≠ .void) (temps : Array Value) (v : Value) :
    left t temps v = temps.push v := if_neg h

section Expressions

variable (limits : Limits) (L : Layout) (F : Array String) (n : Nat) (exits : List Nat)

/-- From one place to another, the machine follows an evaluation that leaves a value of a type. -/
def Computes (p q : Nat) (t : Ty) (x : Eval Value) : Prop :=
  ∀ μ temps, Follows limits L F n exits (fun v μ => place L F μ (left t temps v) q)
    (place L F μ temps p) x μ

/-- From one place to another, the machine follows an evaluation that leaves so many values. -/
structure Lists (p q k : Nat) (x : Eval (List Value)) : Prop where
  length : ∀ {μ vs μ'}, x μ = .ok vs μ' → vs.length = k
  follows : ∀ μ temps, Follows limits L F n exits (fun vs μ => place L F μ (temps ++ vs.toArray) q)
    (place L F μ temps p) x μ

/-- From a place on, the machine follows an evaluation, and goes on at one of two places. -/
def Chooses (p yes no : Nat) (x : Eval Value) : Prop :=
  ∀ μ temps, Follows limits L F n exits
    (fun v μ => place L F μ temps (if v.isTruthy then yes else no)) (place L F μ temps p) x μ

end Expressions

section Expressions

variable {limits : Limits} {L : Layout} {F : Array String} {c : ScopeChain} {n : Nat} {exits : List Nat}
  {p m q : Nat} {t : Ty}

theorem Computes.push {x : Eval Value} (h : Computes limits L F n exits p q t x) (ht : t ≠ .void)
    (μ : Memory) (temps : Array Value) :
    Follows limits L F n exits (fun v μ => place L F μ (temps.push v) q) (place L F μ temps p) x μ := by
  simpa only [left_of_ne ht] using h μ temps

theorem Computes.of_push {x : Eval Value} (ht : t ≠ .void)
    (h : ∀ μ temps, Follows limits L F n exits (fun v μ => place L F μ (temps.push v) q)
      (place L F μ temps p) x μ) : Computes limits L F n exits p q t x := by
  intro μ temps
  simpa only [left_of_ne ht] using h μ temps

theorem Lists.nil : Lists limits L F n exits p p 0 (return []) where
  length h := by
    obtain ⟨rfl, -⟩ := EStateM.Result.ok.inj h
    rfl
  follows μ temps := .pure (.here (by simp))

/-- A value, and more behind it. -/
theorem Computes.cons {x : Eval Value} {xs : Eval (List Value)} {k : Nat}
    (hx : Computes limits L F n exits p m t x) (ht : t ≠ .void)
    (hxs : Lists limits L F n exits m q k xs) :
    Lists limits L F n exits p q (k + 1) (cons x xs) where
  length h := by
    obtain ⟨v, μ₁, -, h⟩ := ok_of_bind h
    obtain ⟨vs, μ₂, hvs, h⟩ := ok_of_bind h
    obtain ⟨rfl, -⟩ := EStateM.Result.ok.inj h
    rw [List.length_cons, hxs.length hvs]
  follows μ temps := by
    refine (hx.push ht μ temps).bind fun v μ' _ =>
      (hxs.follows μ' (temps.push v)).bind fun vs μ'' _ => .pure (.here ?_)
    simp

variable (hfuel : limits.fuel = none) {op : Opcode} {x : Operand} {xs : Eval (List Value)} {k g : Nat}
include hfuel

/-- An operation behind its operands. -/
theorem Lists.operate (hxs : Lists limits L F n exits p q k xs) (has : L.Has q ⟨op, x⟩)
    (effect : Effect op x k g) (ht : g = 0 ↔ t = .void) :
    Computes limits L F n exits p (q + 1) t
      (xs >>= Evaluation.operate limits L.environment (some op) x) := by
  refine fun μ temps => (hxs.follows μ temps).bind fun vs μ' hvs => ?_
  have heffect : Effect op x vs.length g := by
    rw [hxs.length hvs]
    exact effect
  simpa only [left, ht] using Follows.operate hfuel has heffect

/-- A change of an element without an index, behind its operands. -/
theorem Lists.noElement (hxs : Lists limits L F n exits p q (k + 1) xs)
    (has : L.Has q ⟨op, .int (0 : Nat)⟩)
    (element : op = .storeElement .w64 ∨ ∃ u, op = .updateElement u) :
    Computes limits L F n exits p (q + 1) t
      (xs >>= Evaluation.operate limits L.environment (some op) (.int (0 : Nat))) := by
  refine fun μ temps => (hxs.follows μ temps).bind fun vs μ' hvs => ?_
  have hlength := hxs.length hvs
  rcases List.eq_nil_or_concat vs with rfl | ⟨operands, container, rfl⟩
  · cases hlength
  · rw [List.concat_eq_append]
    exact Follows.noElement hfuel has element

/-- The end of a template, behind its parts. -/
theorem Lists.template (hxs : Lists limits L F n exits p q k xs) (has : L.Has q (templateDraft k)) :
    Computes limits L F n exits p (q + 1) .string (do
      let vs ← xs
      Evaluation.operate limits L.environment (some .buildString) (.int vs.length) vs) := by
  refine .of_push nofun fun μ temps => (hxs.follows μ temps).bind fun vs μ' hvs => ?_
  obtain rfl := hxs.length hvs
  unfold templateDraft at has
  split at has
  · next hnone =>
    obtain rfl := List.eq_nil_of_length_eq_zero hnone
    rw [show temps ++ ([] : List Value).toArray = temps from Array.append_empty]
    exact Leads.literal (v := .string "") hfuel has
  · exact Follows.operate hfuel has (.buildString _)

end Expressions

/-! ### Targets -/

section Targets

variable (limits : Limits) (L : Layout) (F : Array String) (n : Nat) (exits : List Nat) (Γ : Names)

/-- A target whose code starts at `p` and was written as a load in the end: what lies on the stack
before that. -/
inductive Target (p : Nat) : Expr → Nat → Draft → Prop
  | named {s k w} (room : k < L.top) (slot : F[k]? = some s) :
      Target p (.name s) (p + 1) ⟨.load .own w, .int (k : Nat)⟩
  | member {object field m}
      (parts : Lists limits L F n exits p m 1
        (cons (expr limits L.environment Γ object) (return []))) :
      Target p (.member object field) (m + 1) ⟨.loadMember .w64, .str field⟩
  | element {object indices m} (parts : Lists limits L F n exits p m (indices.length + 1)
        (cons (expr limits L.environment Γ object) (exprs limits L.environment Γ indices))) :
      Target p (.index object indices) (m + 1) ⟨.loadElement .w64, .int indices.length⟩

end Targets

section Targets

variable {limits : Limits} {L : Layout} {F : Array String} {n : Nat} {exits : List Nat} {Γ : Names}
  {p m q : Nat} {target : Expr} {o o' : Opcode} {x : Operand} {t : Ty} (hfuel : limits.fuel = none)
  (hnodup : F.toList.Nodup)
include hfuel hnodup

/-- The store of a value in a target. -/
theorem Target.store {y : Eval Value} (h : Target limits L F n exits Γ m target q ⟨o, x⟩)
    (hy : Computes limits L F n exits p m t y) (ht : t ≠ .void) (load : Write.storeFor? o = some o')
    (hlast : ∀ k, q = k + 1 → L.Has k ⟨o', x⟩) :
    Computes limits L F n exits p q .void (y >>= Evaluation.store limits L.environment Γ target) := by
  cases h with
  | named room slot =>
    obtain rfl := Option.some.inj load
    refine fun μ temps => (hy.push ht μ temps).bind fun v μ' _ => ?_
    exact .pure (Leads.store hfuel (hlast _ rfl) hnodup room slot)
  | @member object field m parts =>
    obtain rfl := Option.some.inj load
    have hform : y >>= Evaluation.store limits L.environment Γ (.member object field) =
        cons y (cons (expr limits L.environment Γ object) (return [])) >>=
          operate limits L.environment (some (.storeMember .w64)) (.str field) := by
      simp only [Evaluation.store, cons, bind_assoc, pure_bind]
    rw [hform]
    exact (hy.cons ht parts).operate hfuel (hlast _ rfl) (.storeMember field) (iff_of_true rfl rfl)
  | @element object indices m parts =>
    obtain rfl := Option.some.inj load
    have hform : y >>= Evaluation.store limits L.environment Γ (.index object indices) =
        cons y (cons (expr limits L.environment Γ object) (exprs limits L.environment Γ indices)) >>=
          operate limits L.environment (some (.storeElement .w64)) (.int indices.length) := by
      simp only [Evaluation.store, cons, bind_assoc, pure_bind]
    rw [hform]
    cases indices with
    | nil => exact (hy.cons ht parts).noElement hfuel (hlast _ rfl) (.inl rfl)
    | cons i is => exact (hy.cons ht parts).operate hfuel (hlast _ rfl) (.storeElement is.length) (iff_of_true rfl rfl)

/-- The update of a target in place. -/
theorem Target.update {u : Bytecode.Update} (h : Target limits L F n exits Γ p target q ⟨o, x⟩)
    (load : Write.updateFor? u o = some o') (hlast : ∀ k, q = k + 1 → L.Has k ⟨o', x⟩) :
    Computes limits L F n exits p q .void (Evaluation.update limits L.environment Γ u target) := by
  cases h with
  | @named name _ _ room slot =>
    obtain rfl := Option.some.inj load
    intro μ temps
    have hform : Evaluation.update limits L.environment Γ u (.name name) = (do
        let v ← readVariable name
        setVariable name (← orFault (bump u v))) >>= fun _ => return .null := by
      simp only [Evaluation.update, bind_assoc]
    rw [hform]
    exact (Follows.update hfuel (hlast _ rfl) hnodup room slot).bind fun _ μ _ => .pure (.here rfl)
  | @member object field m parts =>
    obtain rfl := Option.some.inj load
    have hform : Evaluation.update limits L.environment Γ u (.member object field) =
        cons (expr limits L.environment Γ object) (return []) >>=
          operate limits L.environment (some (.updateMember u)) (.str field) := by
      simp only [Evaluation.update, cons, bind_assoc, pure_bind]
    rw [hform]
    exact parts.operate hfuel (hlast _ rfl) (.updateMember field) (iff_of_true rfl rfl)
  | @element object indices m parts =>
    obtain rfl := Option.some.inj load
    have hform : Evaluation.update limits L.environment Γ u (.index object indices) =
        cons (expr limits L.environment Γ object) (exprs limits L.environment Γ indices) >>=
          operate limits L.environment (some (.updateElement u)) (.int indices.length) := by
      simp only [Evaluation.update, cons, bind_assoc, pure_bind]
    rw [hform]
    cases indices with
    -- without an index the code is there, but it names no element
    | nil => exact parts.noElement hfuel (hlast _ rfl) (.inr ⟨u, rfl⟩)
    | cons i is => exact parts.operate hfuel (hlast _ rfl) (.updateElement is.length) (iff_of_true rfl rfl)

end Targets

/-! ### Trees -/

section Trees

variable {limits : Limits} {L : Layout} {F : Array String} {c : ScopeChain} {n : Nat} {exits : List Nat}

/-- A rule whose code can become a store loads an element. -/
theorem elementRule?_assignable {t : Ty} {rule : Rule} {o : Opcode} (found : t.elementRule? = some rule)
    (action : rule.action = .emit o) (assignable : rule.assignable = true) :
    o = .loadElement .w64 := by
  unfold Ty.elementRule? at found
  split at found
  all_goals first | contradiction | skip
  all_goals
    obtain rfl := Option.some.inj found
    first | exact (Action.emit.inj action).symm | cases assignable

theorem fieldRule?_assignable {t : Ty} {field : String} {rule : Rule} {o : Opcode}
    (found : fieldRule? t field = some rule) (action : rule.action = .emit o)
    (assignable : rule.assignable = true) : o = .loadMember .w64 := by
  rcases Option.or_eq_some_iff.1 found with h | ⟨-, h⟩
  · unfold Ty.namedMemberRule? at h
    split at h
    all_goals first | contradiction | skip
    all_goals
      obtain ⟨-, h⟩ := Option.ite_none_right_eq_some.1 h
      obtain rfl := Option.some.inj h
      cases assignable
  · unfold Ty.memberRule? at h
    split at h
    all_goals first | contradiction | skip
    all_goals
      obtain rfl := Option.some.inj h
      exact (Action.emit.inj action).symm

/-- The slot of a variable. -/
theorem slot_of_placed (hc : Variables c) (hF : Starts F c) {s : String} {area : Area} {i : Int}
    (placed : c.Placed 0 s area i) (reached : L.Reaches ⟨0, L.top⟩ area i) :
    area = .own ∧ ∃ k : Nat, i = k ∧ k < L.top ∧ F[k]? = some s := by
  cases placed with
  | @frame k h =>
    refine ⟨rfl, k, rfl, ?_, hF k s h⟩
    rcases reached with ⟨-, h⟩ | ⟨h, h'⟩
    · exact Int.ofNat_lt.1 h
    · omega
  | param h => exact absurd h (Nat.not_lt_zero _)
  | top hd => exact absurd hc.top hd

/-- A text that is put on the stack. -/
theorem text_computes (hfuel : limits.fuel = none) {p : Nat} {text : String}
    (has : L.Has p ⟨.loadConst .w64, .str text⟩) :
    Computes limits L F n exits p (p + 1) .string (return .str text) :=
  .of_push nofun fun _ _ => .pure (Leads.literal (v := .string text) hfuel has)

/-- `&&` and `||`, around the code of their operands. -/
theorem logical_computes (hfuel : limits.fuel = none) {op : BinaryOp} {left right : Expr} {p m q : Nat} {tl tr t : Ty}
    {Γ : Names} (decides : op.isLogical = true)
    (hleft : Computes limits L F n exits p m tl (expr limits L.environment Γ left) ∧ tl ≠ .void)
    (branch : L.Has m ⟨skipBranch op, .int (q + 1 : Nat)⟩)
    (hright : Computes limits L F n exits (m + 1) q tr (expr limits L.environment Γ right) ∧ tr ≠ .void)
    (skip : L.Has q ⟨.jump, .int (q + 2 : Nat)⟩)
    (last : L.Has (q + 1) ⟨.loadConst .w8, .bool (op == .either)⟩) (ht : t ≠ .void) :
    Computes limits L F n exits p (q + 2) t (expr limits L.environment Γ (.binary op left right)) := by
  have hrest : ∀ μ temps, Follows limits L F n exits (fun v μ => place L F μ (temps.push v) (q + 2))
      (place L F μ temps (m + 1)) (expr limits L.environment Γ right) μ := fun μ temps =>
    (hright.1.push hright.2 μ temps).andThen fun v μ => Leads.goto hfuel skip
  have hconstant : ∀ μ temps, Leads limits L (· = place L F μ (temps.push (.bool (op == .either))) (q + 2))
      (place L F μ temps (q + 1)) := fun μ temps =>
    Leads.literal (v := .bool (op == .either)) hfuel last
  refine .of_push ht fun μ temps => ?_
  cases op with
  | both =>
    simp only [expr]
    refine (hleft.1.push hleft.2 μ temps).bind fun v μ' _ => .before (Leads.branchFalse hfuel branch) ?_
    split
    · exact hrest μ' temps
    · exact .pure (hconstant μ' temps)
  | either =>
    simp only [expr]
    refine (hleft.1.push hleft.2 μ temps).bind fun v μ' _ => .before (Leads.branchTrue hfuel branch) ?_
    split
    · exact .pure (hconstant μ' temps)
    · exact hrest μ' temps
  | _ => cases decides

/-- No name stands for a function. -/
theorem no_entry (hc : Variables c) {s : String} {e : Entity} {l : Label} {P : Prop}
    (name : c.resolve L.environment s = .ok e) (place : e.location = .entry l) : P := by
  obtain ⟨hm, -⟩ := ScopeChain.Sound.mem_of_resolve name (by simp [place])
  obtain ⟨i, hi⟩ := hc.slots _ hm
  rw [place] at hi
  cases hi

/-- The operation that code between two operands was written for. -/
theorem binaryOpcode_of_code (hc : Variables c) {op : BinaryOp} {left right : Expr} {p m q : Nat} {tl tr t : Ty}
    {rule : Rule} {o : Opcode} (first : ValueCode L ⟨0, L.top⟩ c left p m tl)
    (second : ValueCode L ⟨0, L.top⟩ c right m q tr) (joined : Ty.join? tl tr = some t)
    (found : t.binaryRule? op = some rule) (action : rule.action = .emit o)
    (hl : left.every Expr.plain = true) (hr : right.every Expr.plain = true) :
    binaryOpcode? op (typeOf? L.environment (names c) left) (typeOf? L.environment (names c) right) =
      some o := by
  rw [typeOf_of_value hc first hl, typeOf_of_value hc second hr]
  simp [binaryOpcode?, joined, found, opcode?_of_emit action]

mutual

/-- Where the code of an expression is in place, it computes the value of the expression. -/
theorem code_computes (hfuel : limits.fuel = none) (hc : Variables c) (hnodup : F.toList.Nodup)
    (hF : Starts F c) : {e : Expr} → {p q : Nat} → {d : Draft} → {t : Ty} → {a : Bool} →
    ExprCode L ⟨0, L.top⟩ c e p q d t a → e.every Expr.plain = true →
    (∀ m, q = m + 1 → L.Has m d) →
    Computes limits L F n exits p q t (expr limits L.environment (names c) e)
  | _, _, _, _, _, _, .literal (v := v), _, hlast =>
    .of_push (by cases v <;> exact nofun) fun μ temps => by
      rw [expr]
      exact .pure (Leads.literal hfuel (hlast _ rfl))
  | _, _, _, _, _, _, .template code, ht, hlast => by
    simp only [Expr.every, Bool.and_eq_true] at ht
    rw [expr]
    exact (parts_list hfuel hc hnodup hF code ht.2).template hfuel (hlast _ rfl)
  | _, _, _, _, _, _, .external (s := s) name place, ht, hlast => by
    have hload : Computes limits L F n exits _ _ _ _ := Lists.nil.operate hfuel (hlast _ rfl)
      (.loadExternal s) (iff_of_false Nat.one_ne_zero (hc.type_ne_void name place))
    rw [pure_bind] at hload
    rw [expr, (hc.resolve_external name place).1]
    exact hload
  | _, _, _, _, _, _, .function name place _ _, _, _ => no_entry hc name place
  | _, _, _, _, _, _, .variable name place _ typed placed reached _, _, hlast => by
    -- the slot of the variable is the place that the evaluation reads it from
    obtain ⟨rfl, k, rfl, hk, hslot⟩ := slot_of_placed hc hF placed reached
    refine .of_push typed fun μ temps => ?_
    rw [expr, find?_of_resolve name place]
    exact Follows.pure (Leads.load hfuel (hlast _ rfl) hk hslot)
  | _, _, _, _, _, _, .update updates code _ found action load _, ht, hlast => by
    simp only [Expr.every, Bool.and_eq_true] at ht
    obtain rfl := Ty.unaryRule?_updates found updates
    obtain rfl := Action.update.inj action
    have htarget := (code_target hfuel hc hnodup hF code rfl ht.2).update hfuel hnodup load hlast
    rcases updates with rfl | rfl
    · rw [expr]
      exact htarget
    · rw [expr]
      exact htarget
  | .unary op _ operand, _, _, _, _, _, .unary computes code found action, ht, hlast => by
    simp only [Expr.every, Bool.and_eq_true] at ht
    obtain ⟨o', ho', hunary, hresult, -⟩ := Ty.unaryRule?_emits found computes
    obtain rfl := Action.emit.inj (ho'.symm.trans action)
    -- the operation is the one that the registry names for the types of the operands
    have hopcode : unaryOpcode? op (typeOf? L.environment (names c) operand) = some o' := by
      rw [typeOf_of_value hc code ht.2]
      simp [unaryOpcode?, found, opcode?_of_emit action]
    have hoperand := value_computes hfuel hc hnodup hF code ht.2
    have hnode := (hoperand.1.cons hoperand.2 .nil).operate hfuel (hlast _ rfl) (.unary hunary)
      (iff_of_false Nat.one_ne_zero hresult)
    rw [expr_unary computes, hopcode]
    simpa only [cons, bind_assoc, pure_bind] using hnode
  | _, _, _, _, _, _, .binary plain first second joined found action, ht, hlast => by
    simp only [Expr.every, Bool.and_eq_true] at ht
    obtain ⟨o', ho', hbinary, hresult, -⟩ := Ty.binaryRule?_emits found plain
    obtain rfl := Action.emit.inj (ho'.symm.trans action)
    have hopcode := binaryOpcode_of_code hc first second joined found action ht.1.2 ht.2
    have hleft := value_computes hfuel hc hnodup hF first ht.1.2
    have hright := value_computes hfuel hc hnodup hF second ht.2
    have hnode := (hleft.1.cons hleft.2 (hright.1.cons hright.2 .nil)).operate hfuel (hlast _ rfl)
      (.binary hbinary) (iff_of_false Nat.one_ne_zero hresult)
    rw [expr_binary plain, hopcode]
    simpa only [cons, bind_assoc, pure_bind] using hnode
  | _, _, _, _, _, _, .logical decides first branch second skip joined found, ht, hlast => by
    simp only [Expr.every, Bool.and_eq_true] at ht
    have hleft := value_computes hfuel hc hnodup hF first ht.1.2
    have hright := value_computes hfuel hc hnodup hF second ht.2
    have htype := Ty.binaryRule?_logical found decides
    exact logical_computes hfuel decides hleft branch hright skip (hlast _ rfl)
      (by rw [htype.1]; rcases htype.2 with h | h <;> rw [h] <;> exact nofun)
  | _, _, _, _, _, _, .ternary choice first skip second leaves joined, ht, hlast => by
    simp only [Expr.every, Bool.and_eq_true] at ht
    have hyes := value_computes hfuel hc hnodup hF first ht.1.2
    -- one arm is carried out; behind the first one the code jumps over the second
    have hno := code_computes hfuel hc hnodup hF second ht.2 hlast
    refine .of_push (Ty.join?_ne_void joined hyes.2) fun μ temps => ?_
    rw [expr]
    refine (cond_chooses hfuel hc hnodup hF choice ht.1.1.2 μ temps).bind fun v μ' _ => ?_
    split
    · exact (hyes.1.push hyes.2 μ' temps).andThen fun v μ => Leads.goto hfuel skip
    · exact hno.push leaves μ' temps
  | .member object field, _, _, _, _, _, .member code found action, ht, hlast => by
    simp only [Expr.every, Bool.and_eq_true] at ht
    obtain ⟨w, hw, hresult⟩ := Ty.fieldRule_emits found
    obtain rfl := Action.emit.inj (hw.symm.trans action)
    have hopcode : memberOpcode? (typeOf? L.environment (names c) object) field =
        some (.loadMember w) := by
      rw [typeOf_of_value hc code ht.2]
      simp [memberOpcode?, found, opcode?_of_emit hw]
    have hobject := value_computes hfuel hc hnodup hF code ht.2
    have hnode := (hobject.1.cons hobject.2 .nil).operate hfuel (hlast _ rfl) (.loadMember field)
      (iff_of_false Nat.one_ne_zero hresult)
    rw [expr, hopcode]
    simpa only [cons, bind_assoc, pure_bind] using hnode
  | .index object _, _, _, _, _, _, .index code rest found action, ht, hlast => by
    simp only [Expr.every, Bool.and_eq_true] at ht
    obtain ⟨w, hw, hresult⟩ := Ty.elementRule?_emits found
    obtain rfl := Action.emit.inj (hw.symm.trans action)
    have hopcode : elementOpcode? (typeOf? L.environment (names c) object) =
        some (.loadElement w) := by
      rw [typeOf_of_value hc code ht.1.2]
      simp [elementOpcode?, found, opcode?_of_emit hw]
    have hobject := value_computes hfuel hc hnodup hF code ht.1.2
    have hnode := (hobject.1.cons hobject.2 (values_list hfuel hc hnodup hF rest ht.2)).operate hfuel (hlast _ rfl)
      (.loadElement _) (iff_of_false Nat.one_ne_zero hresult)
    rw [expr, hopcode]
    simpa only [cons, bind_assoc, pure_bind] using hnode
  | _, _, _, _, _, _, .callFunction .., ht, _ => absurd (Expr.every_self ht) nofun
  | _, _, _, _, _, _, .callHost .., ht, _ => absurd (Expr.every_self ht) nofun
  | .assign op target value, _, _, _, _, _, .assign stored code _ _ load, ht, hlast => by
    simp only [Expr.every, Bool.and_eq_true] at ht
    -- what is stored is the value, or the target and the value combined
    have hplain : (storedExpr op target value).every Expr.plain = true := by
      unfold storedExpr
      split
      · simp [Expr.every, Expr.plain, ht.1.2, ht.2]
      · exact ht.2
    have hstored := value_computes hfuel hc hnodup hF stored hplain
    rw [expr_assign]
    exact (code_target hfuel hc hnodup hF code rfl ht.1.2).store hfuel hnodup hstored.1 hstored.2 load hlast
  | _, _, _, _, _, _, .array code, ht, hlast => by
    simp only [Expr.every, Bool.and_eq_true] at ht
    have hlist := (values_list hfuel hc hnodup hF code ht.2).operate (t := .array) hfuel (hlast _ rfl) (.newArray _)
      (iff_of_false Nat.one_ne_zero nofun)
    rw [expr]
    exact hlist
  | _, _, _, _, _, _, .set code, ht, hlast => by
    simp only [Expr.every, Bool.and_eq_true] at ht
    have hlist := (values_list hfuel hc hnodup hF code ht.2).operate (t := .set) hfuel (hlast _ rfl) (.newSet _)
      (iff_of_false Nat.one_ne_zero nofun)
    rw [expr]
    exact hlist
  | _, _, _, _, _, _, .object code, ht, hlast => by
    simp only [Expr.every, Bool.and_eq_true] at ht
    have hlist := (fields_list hfuel hc hnodup hF code ht.2).operate (t := .object) hfuel (hlast _ rfl) (.newObject _)
      (iff_of_false Nat.one_ne_zero nofun)
    rw [expr]
    exact hlist

/-- The code of a value leaves the value. -/
theorem value_computes (hfuel : limits.fuel = none) (hc : Variables c) (hnodup : F.toList.Nodup)
    (hF : Starts F c) : {e : Expr} → {p q : Nat} → {t : Ty} → ValueCode L ⟨0, L.top⟩ c e p q t →
    e.every Expr.plain = true →
    Computes limits L F n exits p q t (expr limits L.environment (names c) e) ∧ t ≠ .void
  | _, _, _, _, .value code last leaves, ht =>
    ⟨code_computes hfuel hc hnodup hF code ht (by rintro m hm; obtain rfl := Nat.succ.inj hm; exact last), leaves⟩

theorem values_list (hfuel : limits.fuel = none) (hc : Variables c) (hnodup : F.toList.Nodup)
    (hF : Starts F c) : {es : List Expr} → {p q : Nat} → {types : List Ty} →
    ValuesCode L ⟨0, L.top⟩ c es p q types → everyIn Expr.plain es = true →
    Lists limits L F n exits p q es.length (exprs limits L.environment (names c) es)
  | _, _, _, _, .nil, _ => by
    rw [exprs]
    exact .nil
  | _, _, _, _, .cons first others, ht => by
    simp only [everyIn, Bool.and_eq_true] at ht
    rw [exprs]
    have hfirst := value_computes hfuel hc hnodup hF first ht.1
    exact hfirst.1.cons hfirst.2 (values_list hfuel hc hnodup hF others ht.2)

theorem fields_list (hfuel : limits.fuel = none) (hc : Variables c) (hnodup : F.toList.Nodup)
    (hF : Starts F c) : {fields : List (String × Expr)} → {p q : Nat} →
    FieldsCode L ⟨0, L.top⟩ c fields p q → everyField Expr.plain fields = true →
    Lists limits L F n exits p q (2 * fields.length)
      (fieldValues limits L.environment (names c) fields)
  | _, _, _, .nil, _ => by
    rw [fieldValues]
    exact .nil
  | (key, _) :: _, _, _, .cons name first others, ht => by
    simp only [everyField, everyOf, Bool.and_eq_true] at ht
    have hfirst := value_computes hfuel hc hnodup hF first ht.1
    have hlist := (text_computes hfuel name).cons nofun
      (hfirst.1.cons hfirst.2 (fields_list hfuel hc hnodup hF others ht.2))
    rw [fieldValues, fieldValue, List.length_cons, Nat.mul_succ]
    simpa only [cons, bind_assoc, pure_bind] using hlist

theorem parts_list (hfuel : limits.fuel = none) (hc : Variables c) (hnodup : F.toList.Nodup)
    (hF : Starts F c) : {chunks : List String} → {parts : List Expr} → {p q k : Nat} →
    PartsCode L ⟨0, L.top⟩ c chunks parts p q k → everyIn Expr.plain parts = true →
    Lists limits L F n exits p q k (pieces limits L.environment (names c) chunks parts)
  | _, _, _, _, _, .done, _ => by
    rw [pieces]
    exact .nil
  | _, _, _, _, _, .text full load rest, ht => by
    rw [pieces_cons, full, if_neg Bool.false_ne_true]
    exact (text_computes hfuel load).cons nofun (behind_list hfuel hc hnodup hF rest ht)
  | _, _, _, _, _, .noText empty rest, ht => by
    rw [pieces_cons, empty, if_pos rfl]
    exact behind_list hfuel hc hnodup hF rest ht

theorem behind_list (hfuel : limits.fuel = none) (hc : Variables c) (hnodup : F.toList.Nodup)
    (hF : Starts F c) : {chunks : List String} → {parts : List Expr} → {p q k : Nat} →
    PieceCode L ⟨0, L.top⟩ c chunks parts p q k → everyIn Expr.plain parts = true →
    Lists limits L F n exits p q k (behind limits L.environment (names c) chunks parts)
  | _, _, _, _, _, .none rest, ht => parts_list hfuel hc hnodup hF rest ht
  | _, _, _, _, _, .some code rest, ht => by
    simp only [everyIn, Bool.and_eq_true] at ht
    have hvalue := value_computes hfuel hc hnodup hF code ht.1
    exact hvalue.1.cons hvalue.2 (parts_list hfuel hc hnodup hF rest ht.2)

/-- The code of a condition goes where the value of the condition says. -/
theorem cond_chooses (hfuel : limits.fuel = none) (hc : Variables c) (hnodup : F.toList.Nodup)
    (hF : Starts F c) : {e : Expr} → {p q no : Nat} → CondCode L ⟨0, L.top⟩ c e p q no →
    e.every Expr.plain = true →
    Chooses limits L F n exits p q no (expr limits L.environment (names c) e)
  | _, _, _, _, .branch code branch, ht => fun μ temps => by
    have hvalue := value_computes hfuel hc hnodup hF code ht
    exact (hvalue.1.push hvalue.2 μ temps).andThen fun v μ => Leads.branchFalse hfuel branch
  | _, _, _, _, .merged plain first second joined found action branch, ht => fun μ temps => by
    simp only [Expr.every, Bool.and_eq_true] at ht
    have hopcode := binaryOpcode_of_code hc first second joined found action ht.1.2 ht.2
    have hleft := value_computes hfuel hc hnodup hF first ht.1.2
    have hright := value_computes hfuel hc hnodup hF second ht.2
    rw [expr_binary plain, hopcode]
    refine (hleft.1.push hleft.2 μ temps).bind fun a μ₁ _ =>
      (hright.1.push hright.2 μ₁ (temps.push a)).bind fun b μ₂ _ => ?_
    rw [show (temps.push a).push b = temps ++ [a, b].toArray from Array.ext' (by simp)]
    exact Follows.branchInt hfuel branch

theorem code_target (hfuel : limits.fuel = none) (hc : Variables c) (hnodup : F.toList.Nodup)
    (hF : Starts F c) : {e : Expr} → {p q : Nat} → {d : Draft} → {t : Ty} → {a : Bool} →
    ExprCode L ⟨0, L.top⟩ c e p q d t a → a = true → e.every Expr.plain = true →
    Target limits L F n exits (names c) p e q d
  | _, _, _, _, _, _, .literal (v := v), ha, _ => absurd ha nofun
  | _, _, _, _, _, _, .template code, ha, _ => absurd ha nofun
  | _, _, _, _, _, _, .external (s := s) name place, ha, _ => absurd ha nofun
  | _, _, _, _, _, _, .function name place _ _, _, _ => no_entry hc name place
  | _, _, _, _, _, _, .variable name place _ typed placed reached _, _, _ => by
    obtain ⟨rfl, k, rfl, hk, hslot⟩ := slot_of_placed hc hF placed reached
    exact .named hk hslot
  | _, _, _, _, _, _, .update updates _ _ found _ _ ha', ha, _ => by
    obtain rfl := Ty.unaryRule?_updates found updates
    exact absurd (ha'.symm.trans ha) nofun
  | _, _, _, _, _, _, .unary computes code found action, ha, _ => by
    obtain ⟨_, -, -, -, hassignable⟩ := Ty.unaryRule?_emits found computes
    exact absurd (hassignable.symm.trans ha) nofun
  | _, _, _, _, _, _, .binary plain first second joined found action, ha, _ => by
    obtain ⟨_, -, -, -, hassignable⟩ := Ty.binaryRule?_emits found plain
    exact absurd (hassignable.symm.trans ha) nofun
  | _, _, _, _, _, _, .logical _ first _ second _ joined found, ha, _ => absurd ha nofun
  | _, _, _, _, _, _, .ternary choice first skip second leaves joined, ha, _ => absurd ha nofun
  | _, _, _, _, _, _, .member code found action, ha, ht => by
    simp only [Expr.every, Bool.and_eq_true] at ht
    obtain rfl := fieldRule?_assignable found action ha
    have hobject := value_computes hfuel hc hnodup hF code ht.2
    exact .member (hobject.1.cons hobject.2 .nil)
  | _, _, _, _, _, _, .index code rest found action, ha, ht => by
    simp only [Expr.every, Bool.and_eq_true] at ht
    obtain rfl := elementRule?_assignable found action ha
    have hobject := value_computes hfuel hc hnodup hF code ht.1.2
    exact .element (hobject.1.cons hobject.2 (values_list hfuel hc hnodup hF rest ht.2))
  | _, _, _, _, _, _, .callFunction .., ha, _ => absurd ha nofun
  | _, _, _, _, _, _, .callHost .., ha, _ => absurd ha nofun
  | _, _, _, _, _, _, .assign stored code _ _ load, ha, _ => absurd ha nofun
  | _, _, _, _, _, _, .array code, ha, _ => absurd ha nofun
  | _, _, _, _, _, _, .set code, ha, _ => absurd ha nofun
  | _, _, _, _, _, _, .object code, ha, _ => absurd ha nofun

end

end Trees

end StackScript.Evaluation
