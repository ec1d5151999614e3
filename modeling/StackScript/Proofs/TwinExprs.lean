import StackScript.Proofs.TwinCode

/-!
# Expressions written twice, along the tree

One lemma for each kind of expression, and `expr_parallel` for all of them.
-/

namespace StackScript.Assembly

open Typing Bytecode Host Syntax Assembly.Write

namespace Together

variable {α β : Type} {split : Bool} {T : Pairing} {w₁ w₂ : Writer}
  {R : Pairing → Writer → Writer → α → β → Prop}

/-- Each side answers where the other one does. -/
theorem of_ok {x : Write α} {y : Write β}
    (hx : ∀ a v₁, x w₁ = .ok (a, v₁) → ∃ T' b v₂, y w₂ = .ok (b, v₂) ∧ Passes split T T' w₁ w₂ v₁ v₂ ∧
      R T' v₁ v₂ a b)
    (hy : ∀ b v₂, y w₂ = .ok (b, v₂) → ∃ a v₁, x w₁ = .ok (a, v₁)) : Together split T w₁ w₂ R x y := by
  unfold Together
  cases hx₁ : x w₁ with
  | ok p =>
    obtain ⟨T', b, v₂, hy₂, hp, hR⟩ := hx p.1 p.2 hx₁
    rw [hy₂]
    exact .ok hp hR
  | error e =>
    cases hy₂ : y w₂ with
    | ok p =>
      obtain ⟨a, v₁, hx'⟩ := hy p.1 p.2 hy₂
      exact absurd (hx₁.symm.trans hx') nofun
    | error e' => exact .error e e'

/-! ### Loads that become stores -/

theorem replaceLoad (h : Twin split T w₁ w₂) {f : Opcode → Option Opcode}
    (hf : ∀ o o', f o = some o' → isPlain o = true ∧ isPlain o' = true) :
    Together split T w₁ w₂ Hears (Write.replaceLoad f) (Write.replaceLoad f) := by
  have hplain : ∀ {o o'}, f o = some o' → ¬ IsJump o := fun ho hj => by
    have := (hf _ _ ho).1
    rw [hj.not_plain] at this
    cases this
  have hlast := h.last
  refine .of_ok (fun _ v₁ hx => ?_) fun _ v₂ hy => ?_
  · obtain ⟨d, o, hd, ho, rfl⟩ := replaceLoad_eq_ok.1 hx
    rw [hd] at hlast
    generalize hd' : w₂.last? = y at hlast
    cases hlast with
    -- a merged branch is no load, so neither writer finds one
    | split => exact absurd (.inr (.inr (.inr ⟨_, rfl⟩))) (hplain ho)
    | @same op x x' hw _ =>
      have ho' := (hf _ _ ho).2
      have hchange := h.changeOpcode hd hw (hplain ho) (show ∀ r, o ≠ .branchInt r by rintro r rfl; cases ho')
      refine ⟨T, (), _, replaceLoad_eq_ok.2 ⟨_, o, hd', ho, rfl⟩, .still hchange (.setAt rfl _)
        (.setAt rfl _) (Writer.setAt_buffers_size ..) (Writer.setAt_buffers_size ..), fun hl => ?_⟩
      rw [setAt_last, hd] at hl
      obtain rfl := Option.some.inj hl
      cases ho'
  · obtain ⟨d, o, hd, ho, rfl⟩ := replaceLoad_eq_ok.1 hy
    rw [hd] at hlast
    generalize hd' : w₁.last? = y at hlast
    cases hlast with
    | split => exact absurd (.inr (.inl rfl)) (hplain ho)
    | same => exact ⟨(), _, replaceLoad_eq_ok.2 ⟨_, o, hd', ho, rfl⟩⟩

theorem storeLast (h : Twin split T w₁ w₂) :
    Together split T w₁ w₂ Hears (Write.replaceLoad storeFor?) (Write.replaceLoad storeFor?) :=
  replaceLoad h fun o o' ho => by
    rcases storeFor?_eq_some ho with ⟨_, _, rfl, rfl⟩ | ⟨_, rfl, rfl⟩ | ⟨_, rfl, rfl⟩ <;> exact ⟨rfl, rfl⟩

theorem updateLast (h : Twin split T w₁ w₂) (u : Bytecode.Update) :
    Together split T w₁ w₂ Hears (Write.replaceLoad (updateFor? u)) (Write.replaceLoad (updateFor? u)) :=
  replaceLoad h fun o o' ho => by
    rcases updateFor?_eq_some ho with ⟨_, _, rfl, rfl⟩ | ⟨_, rfl, rfl⟩ | ⟨_, rfl, rfl⟩ <;> exact ⟨rfl, rfl⟩

/-! ### Rules -/

theorem applyRule (h : Twin split T w₁ w₂) {rule : Rule} {x : Operand}
    (hemit : ∀ o, rule.action = .emit o → isPlain o = true) (hx : isClosed x = true) :
    Together split T w₁ w₂ Speaks (Write.applyRule rule x) (Write.applyRule rule x) := by
  unfold Write.applyRule
  dsimp only
  split
  · next o ho => exact putTyped h (hemit o ho) hx _ _
  · next u _ => exact (updateLast h u).bind fun _ _ _ _ _ hp hk => .setType hp.twin hk _ _
  · exact (Together.throw (R := Hears)).bind fun _ _ _ _ _ hp hk => .setType hp.twin hk _ _

/-- A rule that is found, and then applied. -/
theorem ruleFor (h : Twin split T w₁ w₂) {e e' : CompileError} {found : Option Rule} {x : Operand}
    (hemit : ∀ rule o, found = some rule → rule.action = .emit o → isPlain o = true) (hx : isClosed x = true) :
    Together split T w₁ w₂ Speaks (do Write.applyRule (← Write.orThrow e found) x)
      (do Write.applyRule (← Write.orThrow e' found) x) :=
  (orThrow h).bind fun _ _ _ rule _ hp ⟨⟨hsame, hrule⟩, _⟩ => by
    subst hsame
    exact applyRule hp.twin (fun o ho => hemit _ o hrule ho) hx

/-- The rule for an operation with branches. -/
theorem findShortCircuit (h : Twin split T w₁ w₂) {t : Ty} {o : Typing.Operation} :
    Together split T w₁ w₂ Equal (Write.findShortCircuit t o) (Write.findShortCircuit t o) :=
  (orThrow h).bind fun _ _ _ rule _ hp ⟨⟨hsame, _⟩, _⟩ => by
    subst hsame
    exact .ite (fun _ => .pure hp.twin rfl) fun _ => .throw

/-! ### Values -/

theorem value {x y : Write Unit} (hxy : Together split T w₁ w₂ Speaks x y) (u : Usage) :
    Together split T w₁ w₂ Speaks (Write.value x u) (Write.value y u) :=
  hxy.bind fun _ _ _ _ _ hp hk => (lastType hp.twin hk).bind fun _ _ _ t _ hp' ⟨ht, hk'⟩ => by
    subst ht
    exact .ite (fun _ => .throw) fun _ => .pure hp'.twin hk'

theorem typedValue {x y : Write Unit} (hxy : Together split T w₁ w₂ Speaks x y) (u : Usage) :
    Together split T w₁ w₂ SpeaksOf (Write.typedValue x u) (Write.typedValue y u) :=
  (value hxy u).bind fun _ _ _ _ _ hp hk => lastType hp.twin hk

theorem forM {γ δ : Type} {xs : List γ} {ys : List δ} {f : γ → Write Unit} {g : δ → Write Unit}
    (hxy : List.Forall₂ (fun x y => Parallel split Any (f x) (g y)) xs ys)
    (h : Twin split T w₁ w₂) : Together split T w₁ w₂ Any (xs.forM f) (ys.forM g) := by
  induction hxy generalizing T w₁ w₂ with
  | nil => exact .pure h trivial
  | cons hone _ ih => exact (hone h).bind fun _ _ _ _ _ hp _ => ih hp.twin

theorem any {x : Write α} {y : Write β} (hxy : Together split T w₁ w₂ R x y) : Together split T w₁ w₂ Any x y :=
  hxy.mono fun _ _ _ _ _ _ _ => trivial

/-! ### Names -/

theorem resolveName {s₁ s₂ : Setting} (hs : Beside split s₁ s₂) (h : Twin split T w₁ w₂) (name : String) :
    Together split T w₁ w₂ (fun T' _ _ e e' => EntityTwin T' e e') (Write.resolveName s₁ name)
      (Write.resolveName s₂ name) := by
  have hresolve := h.scopes.resolve s₁.environment name
  rw [← hs.environment] at hresolve
  refine .of_ok (fun e v₁ hx => ?_) fun e' v₂ hy => ?_
  · obtain ⟨hx, rfl⟩ := resolveName_eq_ok.1 hx
    rw [← hs.environment] at hx
    rcases hresolve with ⟨f, f', hf, hf', htwin⟩ | ⟨_, hf, -⟩
    · obtain rfl := Except.ok.inj (hf.symm.trans hx)
      exact ⟨T, f', w₂, resolveName_eq_ok.2 ⟨hf', rfl⟩, .refl h, htwin⟩
    · exact absurd (hf.symm.trans hx) nofun
  · obtain ⟨hy, rfl⟩ := resolveName_eq_ok.1 hy
    rcases hresolve with ⟨f, f', hf, hf', htwin⟩ | ⟨_, -, hf'⟩
    · rw [hs.environment] at hf
      exact ⟨f, w₁, resolveName_eq_ok.2 ⟨hf, rfl⟩⟩
    · exact absurd (hf'.symm.trans hy) nofun

theorem areaOf (h : Twin split T w₁ w₂) {e e' : Entity} (he : EntityTwin T e e') :
    Together split T w₁ w₂ Equal (Write.areaOf e) (Write.areaOf e') := by
  have hframe : e'.frame = e.frame := by rw [he.same]
  refine .get ?_
  rw [hframe, h.scopes.functionDepth]
  exact .ite (fun _ => .pure h rfl) fun _ => .ite (fun _ => .pure h rfl) fun _ => .throw

theorem called (h : Twin split T w₁ w₂) (f f' : Writer → Option (String × Signature)) :
    Together split T w₁ w₂ (fun _ v₁ v₂ _ _ => v₁ = { w₁ with callee := f w₁ } ∧ v₂ = { w₂ with callee := f' w₂ })
      (modify fun w => { w with callee := f w } : Write Unit) (modify fun w => { w with callee := f' w }) :=
  .ok rfl rfl (.still (h.called _ _) (.of_same rfl rfl rfl rfl) (.of_same rfl rfl rfl rfl) rfl rfl) ⟨rfl, rfl⟩

end Together

section Exprs

variable {split : Bool} {s₁ s₂ : Setting}

theorem name_parallel (hs : Beside split s₁ s₂) (s : String) : Parallel split Speaks (name s₁ s) (name s₂ s) := by
  intro T w₁ w₂ h
  refine (Together.resolveName hs h s).bind fun T' v₁ v₂ e e' hp he => ?_
  refine (Together.called hp.twin _ _).bind fun T'' u₁ u₂ _ _ hp' _ => ?_
  replace he := he.mono hp'.grows
  obtain ⟨n, t, k, location, frame, constant, signature⟩ := e
  obtain ⟨n', t', k', location', frame', constant', signature'⟩ := e'
  obtain ⟨hsame, hlocation⟩ := he
  cases hsame
  cases hlocation with
  | external => exact .putTyped hp'.twin rfl rfl _ _
  | entry hl =>
    refine (Together.put hp'.twin (show ∀ r, Opcode.loadFunction ≠ .branchInt r from nofun) (.label hl)).bind
      fun _ _ _ _ _ hp₁ _ => ?_
    refine (Together.noted hp₁.twin _ _).bind fun _ _ _ _ _ hp₂ ⟨hv₁, hv₂⟩ => ?_
    subst hv₁ hv₂
    refine (Together.called hp₂.twin _ _).mono ?_
    rintro _ _ _ _ _ _ ⟨rfl, rfl⟩
    exact ⟨rfl, rfl, fun _ => rfl⟩
  | slot offset =>
    refine (Together.areaOf hp'.twin ⟨rfl, .slot offset⟩).bind fun _ _ _ area _ hp₁ harea => ?_
    subst harea
    refine Together.ruleFor hp₁.twin (fun rule o hrule ho => ?_) rfl
    obtain ⟨-, rfl⟩ := Ty.slotRule?_eq_some.1 hrule
    obtain rfl := Action.emit.inj ho
    rfl

theorem literal_parallel (v : Literal) : Parallel split Speaks (literal v) (literal v) := by
  intro T w₁ w₂ h
  cases v <;> exact .putTyped h rfl rfl _ _

/-! ### Templates and collections -/

/-- Pieces of code, one by one. -/
abbrev Parallels (split : Bool) : List (Write Unit) → List (Write Unit) → Prop :=
  List.Forall₂ (Parallel split Speaks)

variable {x y x' y' : Write Unit} {xs ys : List (Write Unit)}

theorem templatePart_parallel (hxy : Parallels split xs ys) :
    Parallel split Equal (templatePart xs).1 (templatePart ys).1 ∧
      Parallels split (templatePart xs).2 (templatePart ys).2 := by
  cases hxy with
  | nil => exact ⟨fun _ _ _ h => .pure h rfl, .nil⟩
  | cons hone hrest =>
    exact ⟨fun _ _ _ h => (Together.value (hone h) _).bind fun _ _ _ _ _ hp _ => .pure hp.twin rfl, hrest⟩

theorem templateParts_parallel (chunks : List String) (hxy : Parallels split xs ys) :
    Parallel split Equal (templateParts chunks xs) (templateParts chunks ys) := by
  induction chunks generalizing xs ys with
  | nil => exact fun _ _ _ h => .pure h rfl
  | cons chunk chunks ih =>
    obtain ⟨hpart, hrest⟩ := templatePart_parallel hxy
    have hpiece : ∀ n : Nat, Parallel split Equal
        (do
          let count ← (templatePart xs).1
          return n + count + (← templateParts chunks (templatePart xs).2))
        (do
          let count ← (templatePart ys).1
          return n + count + (← templateParts chunks (templatePart ys).2)) := fun n _ _ _ h =>
      (hpart h).bind fun _ _ _ a b hp hab => (ih hrest hp.twin).bind fun _ _ _ c d hp' hcd => by
        subst hab hcd
        exact .pure hp'.twin rfl
    intro T w₁ w₂ h
    unfold templateParts
    refine .ite (fun _ => hpiece 0 h) fun _ => ?_
    have hplain : ∀ r, Opcode.loadConst .w64 ≠ .branchInt r := by
      rintro r hr
      cases hr
    exact (Together.put h hplain (.same rfl)).bind fun _ _ _ _ _ hp _ => hpiece 1 hp.twin

theorem template_parallel (chunks : List String) (hxy : Parallels split xs ys) :
    Parallel split Speaks (template chunks xs) (template chunks ys) := by
  intro T w₁ w₂ h
  refine (templateParts_parallel chunks hxy h).bind fun _ _ _ _ count hp hcount => ?_
  subst hcount
  by_cases hzero : (count == 0) = true
  · rw [if_pos hzero]
    exact .putTyped hp.twin rfl rfl _ _
  · rw [if_neg hzero]
    exact .putTyped hp.twin rfl rfl _ _

theorem values_parallel (hxy : Parallels split xs ys) (u : Usage) {T : Pairing} {w₁ w₂ : Writer}
    (h : Twin split T w₁ w₂) :
    Together split T w₁ w₂ Any (xs.forM fun item => value item u) (ys.forM fun item => value item u) :=
  .forM (hxy.imp fun _ _ hone => fun _ _ _ h => (Together.value (hone h) u).any) h

theorem collection_parallel (hxy : Parallels split xs ys) {op : Opcode} (hop : isPlain op = true) (t : Ty) :
    Parallel split Speaks (collection xs op t) (collection ys op t) := by
  intro T w₁ w₂ h
  unfold collection
  rw [hxy.length_eq]
  exact (values_parallel hxy _ h).bind fun _ _ _ _ _ hp _ => .putTyped hp.twin hop rfl _ _

theorem object_parallel {fields fields' : List (String × Write Unit)}
    (hf : List.Forall₂ (fun f f' => f'.1 = f.1 ∧ Parallel split Speaks f.2 f'.2) fields fields') :
    Parallel split Speaks (object fields) (object fields') := by
  intro T w₁ w₂ h
  unfold object
  rw [hf.length_eq]
  refine (Together.forM (hf.imp fun f f' ⟨hname, hcode⟩ => ?_) h).bind fun _ _ _ _ _ hp _ =>
    .putTyped hp.twin rfl rfl _ _
  obtain ⟨name, code⟩ := f
  obtain ⟨name', code'⟩ := f'
  subst hname
  intro T w₁ w₂ h
  exact (Together.put h (show ∀ r, Opcode.loadConst .w64 ≠ .branchInt r from nofun) (.same rfl)).bind
    fun _ _ _ _ _ hp _ => (Together.value (hcode hp.twin) _).any

/-! ### Targets -/

theorem checkAssignable_parallel (hs : Beside split s₁ s₂) (target : Expr) :
    Parallel split Equal (checkAssignable s₁ target) (checkAssignable s₂ target) := by
  intro T w₁ w₂ h
  unfold checkAssignable
  split
  · refine (Together.resolveName hs h _).bind fun _ _ _ e e' hp he => ?_
    rw [he.same]
    exact .ite (fun _ => .throw) fun _ => .pure hp.twin rfl
  · split
    · refine (Together.resolveName hs h _).bind fun _ _ _ e e' hp he => ?_
      have hexternal : (e'.location == .external) = (e.location == .external) := by
        have := he.location
        generalize e.location = x, e'.location = y at this
        cases this <;> rfl
      rw [hexternal]
      exact .ite (fun _ => .throw) fun _ => .pure hp.twin rfl
    · exact .pure h rfl

theorem assignmentTarget_parallel (hs : Beside split s₁ s₂) (target : Expr) (hxy : Parallel split Speaks x y) :
    Parallel split SpeaksOf (assignmentTarget s₁ target x) (assignmentTarget s₂ target y) := by
  intro T w₁ w₂ h
  refine (checkAssignable_parallel hs target h).bind fun _ _ _ _ _ hp _ => ?_
  refine (hxy hp.twin).bind fun _ v₁ v₂ _ _ hp' hk => .get ?_
  rw [hk.assignable]
  cases v₁.assignable with
  | true => exact .lastType hp'.twin hk
  | false => exact .throw

/-! ### Operators -/

theorem update_parallel (hs : Beside split s₁ s₂) {op : UnaryOp} (side : Side) (target : Expr)
    (hop : op = .increment ∨ op = .decrement) (hxy : Parallel split Speaks x y) :
    Parallel split Speaks (update s₁ op side target x) (update s₂ op side target y) := by
  intro T w₁ w₂ h
  refine (assignmentTarget_parallel hs target hxy h).bind fun _ _ _ t _ hp ⟨ht, _⟩ => ?_
  subst ht
  refine .ruleFor hp.twin (fun rule o hrule ho => ?_) rfl
  rw [Ty.unaryRule?_updates hrule hop] at ho
  cases ho

theorem unary_parallel {op : UnaryOp} (hop : op = .minus ∨ op = .not) (hxy : Parallel split Speaks x y) :
    Parallel split Speaks (unary op x) (unary op y) := by
  intro T w₁ w₂ h
  refine (Together.typedValue (hxy h) _).bind fun _ _ _ t _ hp ⟨ht, _⟩ => ?_
  subst ht
  refine .ruleFor hp.twin (fun rule o hrule ho => ?_) rfl
  obtain ⟨_, ho', hu, -⟩ := Ty.unaryRule?_emits hrule hop
  exact Action.emit.inj (ho.symm.trans ho') ▸ isPlain_of_isUnary hu

theorem binary_parallel {op : BinaryOp} (hop : op.isLogical = false) (hl : Parallel split Speaks x y)
    (hr : Parallel split Speaks x' y') : Parallel split Speaks (binary op x x') (binary op y y') := by
  intro T w₁ w₂ h
  refine (Together.typedValue (hl h) _).bind fun _ _ _ t _ hp ⟨ht, _⟩ => ?_
  refine (Together.typedValue (hr hp.twin) _).bind fun _ _ _ t' _ hp' ⟨ht', _⟩ => ?_
  subst ht ht'
  refine (Together.orThrow hp'.twin).bind fun _ _ _ joined _ hp'' ⟨⟨hj, _⟩, _⟩ => ?_
  subst hj
  refine .ruleFor hp''.twin (fun rule o hrule ho => ?_) rfl
  obtain ⟨_, ho', hb, -⟩ := Ty.binaryRule?_emits hrule hop
  exact Action.emit.inj (ho.symm.trans ho') ▸ isPlain_of_isBinary hb

theorem logical_parallel (op : BinaryOp) (hl : Parallel split Speaks x y) (hr : Parallel split Speaks x' y') :
    Parallel split Speaks (logical op x x') (logical op y y') := by
  intro T w₁ w₂ h
  refine (Together.typedValue (hl h) _).bind fun _ _ _ t _ hp ⟨ht, _⟩ => ?_
  subst ht
  have hjump : ∀ isEither : Bool, IsJump (if isEither then .branchTrue else .branchFalse) ∧
      ∀ r, (if isEither then Opcode.branchTrue else .branchFalse) ≠ .branchInt r := by
    rintro (_ | _)
    · exact ⟨.inr (.inl rfl), nofun⟩
    · exact ⟨.inr (.inr (.inl rfl)), nofun⟩
  refine (Together.emit hp.twin (hjump _).1 (hjump _).2).bind fun _ _ _ branch branch' hp₁ hbranch => ?_
  refine (Together.typedValue (hr hp₁.twin) _).bind fun _ _ _ t' _ hp₂ ⟨ht', _⟩ => ?_
  subst ht'
  refine (Together.orThrow hp₂.twin).bind fun _ _ _ joined _ hp₃ ⟨⟨hj, _⟩, _⟩ => ?_
  subst hj
  refine (Together.findShortCircuit hp₃.twin).bind fun _ _ _ rule _ hp₄ hrule => ?_
  subst hrule
  refine (Together.emit hp₄.twin (.inl rfl) nofun).bind fun _ _ _ skip skip' hp₅ hskip => ?_
  -- the first branch has stood open since the left operand; what came behind it moved nothing before it
  have hwaiting := hbranch.later (((hp₂.trans hp₃).trans hp₄).trans hp₅)
  refine (Together.openLabel hp₅.twin).bind fun _ _ _ l l' hp₆ ⟨hlabel, _⟩ => ?_
  refine (Together.patch hp₆.twin (hwaiting.later hp₆) hlabel).bind fun _ _ _ _ _ hp₇ _ => ?_
  refine (Together.put hp₇.twin (show ∀ r, Opcode.loadConst .w8 ≠ .branchInt r from nofun) (.same rfl)).bind
    fun _ _ _ _ _ hp₈ hk => ?_
  refine (Together.openLabel hp₈.twin).bind fun _ _ _ m m' hp₉ ⟨hlabel', hk'⟩ => ?_
  refine (Together.patch hp₉.twin (hskip.later (((hp₆.trans hp₇).trans hp₈).trans hp₉)) hlabel').bind
    fun _ _ _ _ _ hp₁₀ hk'' => ?_
  exact .setType hp₁₀.twin (hk'' (hk' (hk nofun))) _ _

theorem ternary_parallel {z z' : Write Unit} (hs : Beside split s₁ s₂) (ht : Parallel split Speaks x y)
    (hy : Parallel split Speaks x' y') (hn : Parallel split Speaks z z') :
    Parallel split Speaks (ternary s₁ x x' z) (ternary s₂ y y' z') := by
  intro T w₁ w₂ h
  refine (Together.value (ht h) _).bind fun _ _ _ _ _ hp _ => ?_
  refine (Together.emitBranchIfFalse hs hp.twin).bind fun _ _ _ branch branch' hp₁ hbranch => ?_
  refine (Together.typedValue (hy hp₁.twin) _).bind fun _ _ _ t _ hp₂ ⟨ht, _⟩ => ?_
  subst ht
  refine (Together.emit hp₂.twin (.inl rfl) nofun).bind fun _ _ _ skip skip' hp₃ hskip => ?_
  refine (Together.openLabel hp₃.twin).bind fun _ _ _ l l' hp₄ ⟨hlabel, _⟩ => ?_
  refine (Together.patch hp₄.twin (hbranch.later ((hp₂.trans hp₃).trans hp₄)) hlabel).bind fun _ _ _ _ _ hp₅ _ => ?_
  refine (Together.typedValue (hn hp₅.twin) _).bind fun _ _ _ t' _ hp₆ ⟨ht', hk⟩ => ?_
  subst ht'
  refine (Together.openLabel hp₆.twin).bind fun _ _ _ m m' hp₇ ⟨hlabel', hk'⟩ => ?_
  refine (Together.patch hp₇.twin (hskip.later (((hp₄.trans hp₅).trans hp₆).trans hp₇)) hlabel').bind
    fun _ _ _ _ _ hp₈ hk'' => ?_
  refine (Together.orThrow hp₈.twin).bind fun _ _ _ joined _ hp₉ ⟨⟨hj, _⟩, _, hv₁, hv₂⟩ => ?_
  subst hj hv₁ hv₂
  exact .setType hp₉.twin (hk'' (hk' hk.heard)) _ _

/-! ### Members, elements and assignments -/

theorem member_parallel (hxy : Parallel split Speaks x y) (field : String) :
    Parallel split Speaks (member x field) (member y field) := by
  intro T w₁ w₂ h
  refine (Together.typedValue (hxy h) _).bind fun _ _ _ t _ hp ⟨ht, _⟩ => ?_
  subst ht
  refine .ruleFor hp.twin (fun rule o hrule ho => ?_) rfl
  obtain ⟨_, ho', -⟩ := Ty.fieldRule_emits hrule
  obtain rfl := Action.emit.inj (ho'.symm.trans ho)
  rfl

theorem index_parallel (hxy : Parallel split Speaks x y) (hi : Parallels split xs ys) :
    Parallel split Speaks (index x xs) (index y ys) := by
  intro T w₁ w₂ h
  unfold index
  rw [hi.length_eq]
  refine (Together.typedValue (hxy h) _).bind fun _ _ _ t _ hp ⟨ht, _⟩ => ?_
  subst ht
  refine (values_parallel hi _ hp.twin).bind fun _ _ _ _ _ hp' _ => ?_
  refine .ruleFor hp'.twin (fun rule o hrule ho => ?_) rfl
  obtain ⟨_, ho', -⟩ := Ty.elementRule?_emits hrule
  obtain rfl := Action.emit.inj (ho'.symm.trans ho)
  rfl

theorem assign_parallel (hs : Beside split s₁ s₂) (target : Expr) (hxy : Parallel split Speaks x y)
    (ht : Parallel split Speaks x' y') :
    Parallel split Speaks (assign s₁ x target x') (assign s₂ y target y') := by
  intro T w₁ w₂ h
  refine (hxy h).bind fun _ _ _ _ _ hp hk => ?_
  refine (Together.lastType hp.twin hk).bind fun _ _ _ _ found hp₁ ⟨hfound, _⟩ => ?_
  refine (assignmentTarget_parallel hs target ht hp₁.twin).bind fun _ _ _ _ expected hp₂ ⟨hexpected, _⟩ => ?_
  subst hfound hexpected
  cases expected.accepts found with
  | true => exact (Together.storeLast hp₂.twin).bind fun _ _ _ _ _ hp₃ hk => .setType hp₃.twin hk _ _
  | false => exact .throw

/-! ### Calls -/

variable {T : Pairing} {w₁ w₂ : Writer}

theorem checkArguments_together (function : String) (position : Nat) (params arguments : List Ty)
    (h : Twin split T w₁ w₂) :
    Together split T w₁ w₂ (fun T' v₁ v₂ _ _ => T' = T ∧ v₁ = w₁ ∧ v₂ = w₂)
      (checkArguments function position params arguments) (checkArguments function position params arguments) := by
  induction params generalizing position arguments with
  | nil => exact .pure h ⟨rfl, rfl, rfl⟩
  | cons expected params ih =>
    cases arguments with
    | nil => exact .pure h ⟨rfl, rfl, rfl⟩
    | cons found arguments =>
      unfold checkArguments
      cases expected.accepts found with
      | true => exact ih _ _
      | false => exact .throw

/-- The load of a function written last becomes a call. -/
theorem callLast_together (h : Twin split T w₁ w₂) (hlast : w₁.last?.map (·.opcode) = some .loadFunction) :
    Together split T w₁ w₂ Equal (changeLast fun d => { d with opcode := .callInternal })
      (changeLast fun d => { d with opcode := .callInternal }) := by
  obtain ⟨d, hd, hop⟩ := Option.map_eq_some_iff.1 hlast
  have hwidth : d.width split = 1 := Draft.width_of_ne fun r hr => by cases hop.symm.trans hr
  have hjump : ¬ IsJump d.opcode := by
    rw [hop]
    rintro (h | h | h | ⟨_, h⟩) <;> cases h
  exact .ok (a := ()) (b := ()) (changeLast_eq_ok.2 rfl) (changeLast_eq_ok.2 rfl)
    (.still (h.changeOpcode hd hwidth hjump nofun) (.setAt rfl _) (.setAt rfl _)
      (Writer.setAt_buffers_size ..) (Writer.setAt_buffers_size ..)) rfl

theorem callFunction_together (types : List Ty) (known : Option (String × Signature))
    (h : Twin split T w₁ w₂) (hlast : w₁.last?.map (·.opcode) = some .loadFunction) :
    Together split T w₁ w₂ Speaks (callFunction types known) (callFunction types known) := by
  refine (Together.orThrow h).bind fun _ _ _ _ callee hp ⟨⟨hcallee, _⟩, _, hv₁, hv₂⟩ => ?_
  subst hcallee hv₁ hv₂
  obtain ⟨function, signature⟩ := callee
  dsimp only
  split
  · exact .throw
  refine (checkArguments_together _ _ _ _ hp.twin).bind fun _ _ _ _ _ hp₁ ⟨_, hu₁, hu₂⟩ => ?_
  subst hu₁ hu₂
  refine (callLast_together hp₁.twin hlast).bind fun _ _ _ _ _ hp₂ _ => ?_
  have hpush : isPlain (pushReturnFor signature.returns) = true := rfl
  split
  · refine (Together.put hp₂.twin (show ∀ r, Opcode.popStack ≠ .branchInt r from nofun) (.same rfl)).bind
      fun _ _ _ _ _ hp₃ _ => ?_
    exact .putTyped hp₃.twin hpush rfl _ _
  · exact .putTyped hp₂.twin hpush rfl _ _

theorem callHost_together (count : Nat) (h : Twin split T w₁ w₂) :
    Together split T w₁ w₂ Speaks (callHost count) (callHost count) :=
  (Together.put h (show ∀ r, Opcode.callExternal ≠ .branchInt r from nofun) (.same rfl)).bind
    fun _ _ _ _ _ hp _ => .putTyped hp.twin rfl rfl _ _

theorem typedValues_together (hxy : Parallels split xs ys) (u : Usage) (h : Twin split T w₁ w₂) :
    Together split T w₁ w₂ Equal (xs.mapM fun a => typedValue a u) (ys.mapM fun a => typedValue a u) := by
  induction hxy generalizing T w₁ w₂ with
  | nil => exact .pure h rfl
  | cons hone _ ih =>
    rw [List.mapM_cons, List.mapM_cons]
    refine (Together.typedValue (hone h) u).bind fun _ _ _ t _ hp ⟨ht, _⟩ => ?_
    refine (ih hp.twin).bind fun _ _ _ ts _ hp' hts => ?_
    subst ht hts
    exact .pure hp'.twin rfl

theorem call_parallel (ha : Parallels split xs ys) (hc : Parallel split Speaks x y) :
    Parallel split Speaks (call xs x) (call ys y) := by
  intro T w₁ w₂ h
  refine (typedValues_together ha _ h).bind fun _ _ _ _ types hp htypes => ?_
  subst htypes
  refine (hc hp.twin).bind fun _ _ _ _ _ hp₁ hk => ?_
  refine (Together.lastType hp₁.twin hk).bind fun _ v₁ v₂ _ t hp₂ ⟨ht, hk'⟩ => .get ?_
  subst ht
  refine (Together.called hp₂.twin _ _).bind fun _ u₁ u₂ _ _ hp₃ ⟨hu₁, hu₂⟩ => .get ?_
  have hback : ∀ w : Writer, (currentCode w).back?.map (·.opcode) = w.last?.map (·.opcode) := fun w => by
    simp only [currentCode, Writer.last?, Writer.at, Writer.size, Writer.sizeOf, Array.back?]
  have hlast : u₁.last? = v₁.last? := by rw [hu₁]; rfl
  simp only [hback]
  rcases hp₃.twin.last.same_or with hsame | ⟨r, hleft, hright⟩
  · rw [hsame]
    split
    · next hop =>
      rw [hk'.heard (hlast ▸ hop)]
      exact callFunction_together _ _ hp₃.twin hop
    · exact callHost_together _ hp₃.twin
    · exact .ite (fun _ => callHost_together _ hp₃.twin) fun _ => .throw
    · exact .throw
  · -- a comparison on one side and a branch on the other: neither can be called
    rw [hleft, hright]
    exact .throw

/-! ### Trees -/

mutual

/-- The code of an expression, written twice. -/
theorem expr_parallel (hs : Beside split s₁ s₂) : (e : Expr) → Parallel split Speaks (expr s₁ e) (expr s₂ e)
  | .literal v => by
    rw [expr, expr]
    exact literal_parallel v
  | .template chunks parts => by
    rw [expr, expr]
    exact template_parallel chunks (exprs_parallel hs parts)
  | .name s => by
    rw [expr, expr]
    exact name_parallel hs s
  | .unary op side operand => by
    have hc := expr_parallel hs operand
    cases op <;> simp only [expr]
    case increment => exact update_parallel hs side operand (.inl rfl) hc
    case decrement => exact update_parallel hs side operand (.inr rfl) hc
    case minus => exact unary_parallel (.inl rfl) hc
    case not => exact unary_parallel (.inr rfl) hc
  | .binary op left right => by
    rw [expr, expr]
    split
    · exact logical_parallel op (expr_parallel hs left) (expr_parallel hs right)
    · next hop => exact binary_parallel (by simpa using hop) (expr_parallel hs left) (expr_parallel hs right)
  | .member object field => by
    rw [expr, expr]
    exact member_parallel (expr_parallel hs object) field
  | .index object indices => by
    rw [expr, expr]
    exact index_parallel (expr_parallel hs object) (exprs_parallel hs indices)
  | .call callee arguments => by
    rw [expr, expr]
    exact call_parallel (exprs_parallel hs arguments) (expr_parallel hs callee)
  | .assign op target v => by
    have ht := expr_parallel hs target
    have hv := expr_parallel hs v
    rw [expr, expr]
    refine assign_parallel hs target ?_ ht
    cases ho : op.binary? with
    | some o => exact binary_parallel (AssignOp.binary?_plain ho) ht hv
    | none => exact fun _ _ _ h => Together.value (hv h) _
  | .array items => by
    rw [expr, expr]
    exact collection_parallel (exprs_parallel hs items) rfl _
  | .set items => by
    rw [expr, expr]
    exact collection_parallel (exprs_parallel hs items) rfl _
  | .object fields => by
    rw [expr, expr]
    exact object_parallel (fieldExprs_parallel hs fields)
  | .ternary test yes no => by
    rw [expr, expr]
    exact ternary_parallel hs (expr_parallel hs test) (expr_parallel hs yes) (expr_parallel hs no)

theorem exprs_parallel (hs : Beside split s₁ s₂) : (es : List Expr) → Parallels split (exprs s₁ es) (exprs s₂ es)
  | [] => by
    rw [exprs, exprs]
    exact .nil
  | e :: es => by
    rw [exprs, exprs]
    exact .cons (expr_parallel hs e) (exprs_parallel hs es)

theorem fieldExprs_parallel (hs : Beside split s₁ s₂) : (fields : List (String × Expr)) →
    List.Forall₂ (fun f f' => f'.1 = f.1 ∧ Parallel split Speaks f.2 f'.2) (fieldExprs s₁ fields)
      (fieldExprs s₂ fields)
  | [] => by
    rw [fieldExprs, fieldExprs]
    exact .nil
  | (key, e) :: fields => by
    rw [fieldExprs, fieldExprs, fieldExpr, fieldExpr]
    exact .cons ⟨rfl, expr_parallel hs e⟩ (fieldExprs_parallel hs fields)

end

end Exprs

end StackScript.Assembly
