import StackScript.Proofs.StmtWriting

/-!
# Errors while code is written

That a label stands for no instruction comes up when a finished program is laid out, if at all:
nothing fails for it before (`LabelFree`).
-/

namespace StackScript.Assembly

open Typing Bytecode Host Syntax Assembly.Write

/-- Code that never fails because a label stands for no instruction. -/
def LabelFree {α : Type} (code : Write α) : Prop := ∀ w l, code w ≠ .error (.unresolvedLabel l)

namespace LabelFree

variable {α β : Type} {code : Write Unit}

theorem pure (a : α) : LabelFree (pure a : Write α) := fun _ _ h => by cases h

theorem throw {e : CompileError} (h : ∀ l, e ≠ .unresolvedLabel l) : LabelFree (throw e : Write α) :=
  fun _ l he => h l (Except.error.inj he)

theorem bind {x : Write α} {f : α → Write β} (hx : LabelFree x) (hf : ∀ a, LabelFree (f a)) :
    LabelFree (x >>= f) := by
  intro w l h
  change (x w >>= fun p => f p.1 p.2) = _ at h
  cases hxw : x w with
  | error e =>
    rw [hxw] at h
    exact hx w l (hxw.trans (congrArg _ (Except.error.inj h)))
  | ok p =>
    rw [hxw] at h
    exact hf p.1 p.2 l h

theorem map {x : Write α} (f : α → β) (hx : LabelFree x) : LabelFree (f <$> x) := by
  rw [map_eq_pure_bind]
  exact hx.bind fun _ => pure _

theorem discard {x : Write α} (hx : LabelFree x) : LabelFree (Functor.discard x) := hx.map _

theorem get : LabelFree (get : Write Writer) := fun _ _ h => by cases h

theorem modify (f : Writer → Writer) : LabelFree (modify f : Write Unit) := fun _ _ h => by cases h

theorem modifyGet (f : Writer → α × Writer) : LabelFree (modifyGet f : Write α) := fun _ _ h => by cases h

theorem ite {p : Prop} [Decidable p] {x y : Write α} (hx : LabelFree x) (hy : LabelFree y) :
    LabelFree (if p then x else y) := by
  split
  · exact hx
  · exact hy

theorem forM {f : α → Write Unit} {l : List α} (hf : ∀ a ∈ l, LabelFree (f a)) :
    LabelFree (l.forM f) := by
  induction l with
  | nil => exact pure ()
  | cons a rest ih =>
    exact (hf a List.mem_cons_self).bind fun _ => ih fun b hb => hf b (List.mem_cons_of_mem _ hb)

theorem mapM {f : α → Write β} {l : List α} (hf : ∀ a ∈ l, LabelFree (f a)) :
    LabelFree (l.mapM f) := by
  induction l with
  | nil => exact pure []
  | cons a rest ih =>
    rw [List.mapM_cons]
    exact (hf a List.mem_cons_self).bind fun _ =>
      (ih fun b hb => hf b (List.mem_cons_of_mem _ hb)).bind fun _ => pure _

/-! ### Steps -/

theorem orThrow {e : CompileError} (h : ∀ l, e ≠ .unresolvedLabel l) (o : Option α) :
    LabelFree (Write.orThrow e o) := by
  cases o with
  | none => exact throw h
  | some a => exact pure a

theorem emit (op : Opcode) (x : Operand) : LabelFree (Write.emit op x) := modifyGet _

theorem put (op : Opcode) (x : Operand) : LabelFree (Write.put op x) := (emit op x).discard

theorem openLabel : LabelFree Write.openLabel := modifyGet _

theorem patch (pt : CodePoint) (l : Label) : LabelFree (Write.patch pt l) := modify _

theorem setType (t : Ty) (a : Bool) : LabelFree (Write.setType t a) := modify _

theorem lastType : LabelFree Write.lastType := get.bind fun _ => pure _

theorem lastOpcode : LabelFree Write.lastOpcode := get.bind fun _ => pure _

theorem emitBranchIfFalse (setting : Setting) : LabelFree (Write.emitBranchIfFalse setting) := by
  refine get.bind fun w => ?_
  dsimp only
  split
  · exact (modify _).bind fun _ => pure _
  · exact emit _ _

theorem replaceLoad (f : Opcode → Option Opcode) : LabelFree (Write.replaceLoad f) :=
  lastOpcode.bind fun _ => (orThrow (by nofun) _).bind fun _ => modify _

theorem findRule (t : Ty) (o : Typing.Operation) : LabelFree (Write.findRule t o) := orThrow (by nofun) _

theorem joinTypes (l r : Ty) (u : Usage) : LabelFree (Write.joinTypes l r u) := orThrow (by nofun) _

theorem resolveType (name : String) : LabelFree (Write.resolveType name) := orThrow (by nofun) _

theorem applyRule (rule : Rule) (x : Operand) : LabelFree (Write.applyRule rule x) := by
  unfold Write.applyRule
  split
  · exact (put _ _).bind fun _ => setType _ _
  · exact (replaceLoad _).bind fun _ => setType _ _
  · exact (throw (by nofun)).bind fun _ => setType _ _

/-- The rule for an operation with branches. -/
theorem findShortCircuit (t : Ty) (o : Typing.Operation) : LabelFree (Write.findShortCircuit t o) :=
  (findRule t o).bind fun _ => ite (pure _) (throw (by nofun))

theorem inScopes {f : ScopeChain → Except CompileError α × ScopeChain}
    (h : ∀ c l, (f c).1 ≠ .error (.unresolvedLabel l)) : LabelFree (Write.inScopes f) := by
  refine get.bind fun w => ?_
  rcases hf : f w.scopes with ⟨e | a, c⟩
  · refine throw fun l he => h w.scopes l ?_
    rw [hf, he]
  · exact (modify _).bind fun _ => pure _

theorem resolveName (setting : Setting) (name : String) : LabelFree (Write.resolveName setting name) := by
  refine get.bind fun w => ?_
  cases hr : w.scopes.resolve setting.environment name with
  | ok e => exact pure _
  | error e =>
    refine throw fun l he => ?_
    rw [he, ScopeChain.resolve] at hr
    split at hr
    · cases hr
    · split at hr <;> cases hr

/-! ### Expressions -/

theorem value (hc : LabelFree code) (u : Usage) : LabelFree (Write.value code u) :=
  hc.bind fun _ => lastType.bind fun _ => ite (throw (by nofun)) (pure ())

theorem typedValue (hc : LabelFree code) (u : Usage) : LabelFree (Write.typedValue code u) :=
  (hc.value u).bind fun _ => lastType

theorem literal (v : Literal) : LabelFree (Write.literal v) := by
  cases v <;> exact (put _ _).bind fun _ => setType _ _

theorem templatePart {parts : List (Write Unit)} (hp : ∀ code ∈ parts, LabelFree code) :
    LabelFree (Write.templatePart parts).1 ∧ ∀ code ∈ (Write.templatePart parts).2, LabelFree code := by
  cases parts with
  | nil => exact ⟨pure 0, nofun⟩
  | cons code parts =>
    exact ⟨((hp code List.mem_cons_self).value _).bind fun _ => pure 1,
      fun other ho => hp other (List.mem_cons_of_mem _ ho)⟩

theorem templateParts {chunks : List String} {parts : List (Write Unit)}
    (hp : ∀ code ∈ parts, LabelFree code) : LabelFree (Write.templateParts chunks parts) := by
  induction chunks generalizing parts with
  | nil => exact pure 0
  | cons chunk chunks ih =>
    obtain ⟨hpart, hrest⟩ := templatePart hp
    have hpiece : ∀ n : Nat, LabelFree (do
        let count ← (Write.templatePart parts).1
        return n + count + (← Write.templateParts chunks (Write.templatePart parts).2)) := fun n =>
      hpart.bind fun _ => (ih hrest).bind fun _ => pure _
    exact ite (hpiece 0) ((put _ _).bind fun _ => hpiece 1)

theorem template {chunks : List String} {parts : List (Write Unit)}
    (hp : ∀ code ∈ parts, LabelFree code) : LabelFree (Write.template chunks parts) :=
  (templateParts hp).bind fun _ =>
    ite ((put _ _).bind fun _ => setType _ _) ((put _ _).bind fun _ => setType _ _)

theorem collection {items : List (Write Unit)} {op : Opcode} {t : Ty}
    (hi : ∀ code ∈ items, LabelFree code) : LabelFree (Write.collection items op t) :=
  (forM fun code hc => (hi code hc).value _).bind fun _ => (put _ _).bind fun _ => setType _ _

theorem object {fields : List (String × Write Unit)} (hf : ∀ f ∈ fields, LabelFree f.2) :
    LabelFree (Write.object fields) :=
  (forM fun f hm => (put _ _).bind fun _ => (hf f hm).value _).bind fun _ =>
    (put _ _).bind fun _ => setType _ _

theorem areaOf (e : Entity) : LabelFree (Write.areaOf e) :=
  get.bind fun _ => ite (pure _) (ite (pure _) (throw (by nofun)))

theorem name (setting : Setting) (s : String) : LabelFree (Write.name setting s) := by
  refine (resolveName setting s).bind fun e => (modify _).bind fun _ => ?_
  cases e.location with
  | external => exact (put _ _).bind fun _ => setType _ _
  | entry l => exact (put _ _).bind fun _ => (setType _ _).bind fun _ => modify _
  | slot i => exact (areaOf e).bind fun _ => (findRule _ _).bind fun _ => applyRule _ _

theorem checkAssignable (setting : Setting) (target : Expr) :
    LabelFree (Write.checkAssignable setting target) := by
  unfold Write.checkAssignable
  split
  · exact (resolveName _ _).bind fun _ => ite (throw (by simp)) (pure ())
  · split
    · exact (resolveName _ _).bind fun _ => ite (throw (by simp)) (pure ())
    · exact pure ()

theorem assignmentTarget {setting : Setting} {target : Expr} (hc : LabelFree code) :
    LabelFree (Write.assignmentTarget setting target code) :=
  (checkAssignable setting target).bind fun _ => hc.bind fun _ => get.bind fun _ =>
    ite ((throw (by nofun)).bind fun _ => lastType) lastType

theorem update {setting : Setting} {op : UnaryOp} {side : Side} {target : Expr} (hc : LabelFree code) :
    LabelFree (Write.update setting op side target code) :=
  (assignmentTarget hc).bind fun _ => (findRule _ _).bind fun _ => applyRule _ _

theorem unary {op : UnaryOp} (hc : LabelFree code) : LabelFree (Write.unary op code) :=
  (hc.typedValue _).bind fun _ => (findRule _ _).bind fun _ => applyRule _ _

variable {left right : Write Unit}

theorem binary {op : BinaryOp} (hl : LabelFree left) (hr : LabelFree right) :
    LabelFree (Write.binary op left right) :=
  (hl.typedValue _).bind fun _ => (hr.typedValue _).bind fun _ => (joinTypes _ _ _).bind fun _ =>
    (findRule _ _).bind fun _ => applyRule _ _

theorem logical {op : BinaryOp} (hl : LabelFree left) (hr : LabelFree right) :
    LabelFree (Write.logical op left right) :=
  (hl.typedValue _).bind fun _ => (emit _ _).bind fun _ => (hr.typedValue _).bind fun _ =>
    (joinTypes _ _ _).bind fun _ => (findShortCircuit _ _).bind fun _ => (emit _ _).bind fun _ =>
      openLabel.bind fun _ => (patch _ _).bind fun _ => (put _ _).bind fun _ =>
        openLabel.bind fun _ => (patch _ _).bind fun _ => setType _ _

theorem ternary {setting : Setting} {test : Write Unit} (ht : LabelFree test) (hl : LabelFree left)
    (hr : LabelFree right) : LabelFree (Write.ternary setting test left right) :=
  (ht.value _).bind fun _ => (emitBranchIfFalse setting).bind fun _ => (hl.typedValue _).bind fun _ =>
    (emit _ _).bind fun _ => openLabel.bind fun _ => (patch _ _).bind fun _ =>
      (hr.typedValue _).bind fun _ => openLabel.bind fun _ => (patch _ _).bind fun _ =>
        (joinTypes _ _ _).bind fun _ => setType _ _

theorem member (hc : LabelFree code) (field : String) : LabelFree (Write.member code field) :=
  (hc.typedValue _).bind fun _ => (orThrow (by nofun) _).bind fun _ => applyRule _ _

theorem index {indices : List (Write Unit)} (hc : LabelFree code) (hi : ∀ i ∈ indices, LabelFree i) :
    LabelFree (Write.index code indices) :=
  (hc.typedValue _).bind fun _ => (forM fun i hm => (hi i hm).value _).bind fun _ =>
    (orThrow (by nofun) _).bind fun _ => applyRule _ _

theorem assign {setting : Setting} {targetCode : Write Unit} {target : Expr} (hc : LabelFree code)
    (ht : LabelFree targetCode) : LabelFree (Write.assign setting code target targetCode) :=
  hc.bind fun _ => lastType.bind fun _ => (assignmentTarget ht).bind fun _ =>
    ite ((throw (by nofun)).bind fun _ => (replaceLoad _).bind fun _ => setType _ _)
      ((replaceLoad _).bind fun _ => setType _ _)

theorem checkArguments (function : String) : (position : Nat) → (params found : List Ty) →
    LabelFree (Write.checkArguments function position params found)
  | position, expected :: params, found :: arguments =>
    ite ((throw (by nofun)).bind fun _ => checkArguments function (position + 1) params arguments)
      (checkArguments function (position + 1) params arguments)
  | _, [], _ => pure ()
  | _, _ :: _, [] => pure ()

theorem callFunction (types : List Ty) (known : Option (String × Signature)) :
    LabelFree (Write.callFunction types known) := by
  refine (orThrow (by nofun) _).bind fun p => ?_
  have hend : LabelFree (do
      Write.put (pushReturnFor p.2.returns) .none
      Write.setType p.2.returns false) :=
    (put _ _).bind fun _ => setType _ _
  have hpush : LabelFree (do
      Write.checkArguments p.1 1 p.2.params types
      changeLast fun d => { d with opcode := .callInternal }
      if !types.isEmpty then Write.put .popStack (.int types.length)
      Write.put (pushReturnFor p.2.returns) .none
      Write.setType p.2.returns false) :=
    (checkArguments _ _ _ _).bind fun _ => (modify _).bind fun _ =>
      ite ((put _ _).bind fun _ => hend) hend
  exact ite ((throw (by nofun)).bind fun _ => hpush) hpush

theorem callHost (count : Nat) : LabelFree (Write.callHost count) :=
  (put _ _).bind fun _ => (put _ _).bind fun _ => setType _ _

theorem call {arguments : List (Write Unit)} {callee : Write Unit}
    (ha : ∀ a ∈ arguments, LabelFree a) (hc : LabelFree callee) :
    LabelFree (Write.call arguments callee) := by
  refine (mapM fun a hm => (ha a hm).typedValue _).bind fun _ => hc.bind fun _ => lastType.bind fun _ =>
    get.bind fun _ => (modify _).bind fun _ => lastOpcode.bind fun op => ?_
  split
  · exact callFunction _ _
  · exact callHost _
  · exact ite (callHost _) (throw (by nofun))
  · exact throw (by nofun)

mutual

theorem expr (setting : Setting) : (e : Expr) → LabelFree (Write.expr setting e)
  | .literal v => by
    rw [Write.expr]
    exact literal v
  | .template chunks parts => by
    rw [Write.expr]
    exact template (exprs setting parts)
  | .name s => by
    rw [Write.expr]
    exact name setting s
  | .unary op side operand => by
    have hc := expr setting operand
    cases op <;> simp only [Write.expr]
    case minus | not => exact unary hc
    case increment | decrement => exact update hc
  | .binary op left right => by
    rw [Write.expr]
    exact ite (logical (expr setting left) (expr setting right))
      (binary (expr setting left) (expr setting right))
  | .member object field => by
    rw [Write.expr]
    exact member (expr setting object) field
  | .index object indices => by
    rw [Write.expr]
    exact index (expr setting object) (exprs setting indices)
  | .call callee arguments => by
    rw [Write.expr]
    exact call (exprs setting arguments) (expr setting callee)
  | .assign op target v => by
    have ht := expr setting target
    have hv := expr setting v
    rw [Write.expr]
    split
    · exact assign (binary ht hv) ht
    · exact assign (hv.value _) ht
  | .array items => by
    rw [Write.expr]
    exact collection (exprs setting items)
  | .set items => by
    rw [Write.expr]
    exact collection (exprs setting items)
  | .object fields => by
    rw [Write.expr]
    exact object (fieldExprs setting fields)
  | .ternary test yes no => by
    rw [Write.expr]
    exact ternary (expr setting test) (expr setting yes) (expr setting no)

theorem exprs (setting : Setting) : (es : List Expr) → ∀ code ∈ Write.exprs setting es, LabelFree code
  | [] => by
    rw [Write.exprs]
    nofun
  | e :: es => by
    rw [Write.exprs]
    exact List.forall_mem_cons.2 ⟨expr setting e, exprs setting es⟩

theorem fieldExprs (setting : Setting) :
    (fields : List (String × Expr)) → ∀ f ∈ Write.fieldExprs setting fields, LabelFree f.2
  | [] => by
    rw [Write.fieldExprs]
    nofun
  | (key, e) :: fields => by
    rw [Write.fieldExprs, Write.fieldExpr]
    exact List.forall_mem_cons.2 ⟨expr setting e, fieldExprs setting fields⟩

end

/-! ### Statements -/

theorem exprStmt (hc : LabelFree code) (keep : Bool) : LabelFree (Write.exprStmt code keep) :=
  hc.bind fun _ => lastType.bind fun _ => ite (pure _) <| ite (pure _) <| (put _ _).bind fun _ => pure _

theorem dropped (hc : LabelFree code) : LabelFree (Write.dropped code) :=
  hc.bind fun _ => lastType.bind fun _ => ite (put _ _) (pure ())

theorem initialType (declared : Ty) (usage : Usage) : LabelFree (Write.initialType declared usage) := by
  refine lastType.bind fun t => ite (pure _) <| ite (pure _) ?_
  cases t.conversion? declared with
  | none => exact throw (by nofun)
  | some o => exact (put _ _).bind fun _ => pure _

theorem declareLocal {name : String} {constant : Bool} {t : Ty} :
    LabelFree (Write.inScopes fun c => c.declareLocal name constant t) := by
  refine inScopes fun c l h => ?_
  unfold ScopeChain.declareLocal at h
  split at h <;> cases h

theorem declare {d : Declaration} {initial : Option (Write Unit)}
    (hi : ∀ code ∈ initial, LabelFree code) : LabelFree (Write.declare d initial) := by
  have hstore : ∀ t i, LabelFree (do
      Write.applyRule (← Write.findRule t (.loadSlot .own)) (.int i)
      Write.replaceLoad storeFor?
      Write.setType .void false) := fun t i =>
    (findRule _ _).bind fun _ => (applyRule _ _).bind fun _ => (replaceLoad _).bind fun _ => setType _ _
  refine (resolveType _).bind fun declared => ?_
  cases initial with
  | none =>
    exact (pure _).bind fun _ => declareLocal.bind fun _ => (modify _).bind fun _ => setType _ _
  | some code =>
    refine ((hi code rfl).value _).bind fun _ => (initialType _ _).bind fun t => declareLocal.bind fun e =>
      (modify _).bind fun _ => ?_
    simp only [Option.isSome_some, if_true]
    cases e.location with
    | slot i => exact hstore t i
    | external => exact (throw (by nofun)).bind fun _ => setType _ _
    | entry => exact (throw (by nofun)).bind fun _ => setType _ _

theorem declareFunction (name : String) (params : List Param) (returns : String) :
    LabelFree (Write.declareFunction name params returns) := by
  refine (mapM fun p _ => resolveType _).bind fun _ => (resolveType _).bind fun _ =>
    (modifyGet _).bind fun l => (inScopes fun c k h => ?_).discard
  unfold ScopeChain.declareFunction at h
  split at h <;> cases h

theorem hoist (body : List Stmt) : LabelFree (Write.hoist body) := by
  induction body with
  | nil => exact pure ()
  | cons s rest ih =>
    cases s
    case function name params returns inner =>
      exact (declareFunction name params returns).bind fun _ => ih
    all_goals exact ih

theorem declareParams : (count index : Nat) → (params : List Param) → (types : List Ty) →
    LabelFree (Write.declareParams count index params types)
  | count, index, p :: params, t :: types => by
    refine (inScopes fun c l h => ?_).discard.bind fun _ => declareParams count (index + 1) params types
    unfold ScopeChain.declareParam at h
    split at h <;> cases h
  | _, _, [], _ => pure ()
  | _, _, _ :: _, [] => pure ()

theorem entryOf (name : String) (found : Option Entity) : LabelFree (Write.entryOf name found) := by
  unfold Write.entryOf
  split
  · exact pure _
  · exact throw (by nofun)
  · exact throw (by nofun)

theorem findCurrent (name : String) : LabelFree (Write.findCurrent name) := get.bind fun _ => pure _

theorem declaredFunction (name : String) (params : List Param) (returns : String) :
    LabelFree (Write.declaredFunction name params returns) :=
  have hend : LabelFree (do Write.entryOf name (← Write.findCurrent name)) :=
    (findCurrent name).bind fun _ => entryOf name _
  (findCurrent name).bind fun _ => ite ((declareFunction _ _ _).bind fun _ => hend) hend

theorem function {name : String} {params : List Param} {returns : String} (hc : LabelFree code) :
    LabelFree (Write.function name params returns code) :=
  (declaredFunction _ _ _).bind fun _ => get.bind fun _ => (modify _).bind fun _ =>
    (put _ _).bind fun _ => (declareParams _ _ _ _).bind fun _ => hc.bind fun _ =>
      (put _ _).bind fun _ => (modify _).bind fun _ => setType _ _

theorem cond {setting : Setting} {test yes : Write Unit} {no : Option (Write Unit)} (ht : LabelFree test)
    (hy : LabelFree yes) (hn : ∀ code ∈ no, LabelFree code) :
    LabelFree (Write.cond setting test yes no) := by
  refine (ht.value _).bind fun _ => (emitBranchIfFalse _).bind fun _ => hy.bind fun _ => ?_
  cases no with
  | none => exact openLabel.bind fun _ => (patch _ _).bind fun _ => setType _ _
  | some no =>
    exact (emit _ _).bind fun _ => openLabel.bind fun _ => (patch _ _).bind fun _ =>
      (hn no rfl).bind fun _ => openLabel.bind fun _ => (patch _ _).bind fun _ => setType _ _

theorem rounds (setting : Setting) {test body : Write Unit} {step : Option (Write Unit)}
    (ht : LabelFree test) (hb : LabelFree body) (hs : ∀ code ∈ step, LabelFree code) :
    LabelFree (Assembly.rounds setting test body step) := by
  refine openLabel.bind fun _ => (ht.value _).bind fun _ => (emitBranchIfFalse _).bind fun _ =>
    (modify _).bind fun _ => hb.bind fun _ => bind ?_ fun _ => (put _ _).bind fun _ =>
      openLabel.bind fun _ => (patch _ _).bind fun _ => (modifyGet _).bind fun _ =>
        forM fun _ _ => patch _ _
  cases step with
  | none => exact pure ()
  | some step => exact dropped (hs step rfl)

theorem loop {setting : Setting} {initial test body step : Option (Write Unit)}
    (hi : ∀ code ∈ initial, LabelFree code) (ht : ∀ code ∈ test, LabelFree code)
    (hb : ∀ code ∈ body, LabelFree code) (hs : ∀ code ∈ step, LabelFree code) :
    LabelFree (Write.loop setting initial test body step) := by
  cases test with
  | none => exact fun w l h => by cases h
  | some test =>
    cases body with
    | none => exact fun w l h => by cases h
    | some body =>
      have hrounds := rounds setting (ht _ rfl) (hb _ rfl) hs
      cases initial with
      | none =>
        rw [loop_none]
        exact hrounds.bind fun _ => setType _ _
      | some initial =>
        rw [loop_some]
        exact (modify _).bind fun _ => (hi _ rfl).bind fun _ => hrounds.bind fun _ =>
          (modify _).bind fun _ => setType _ _

theorem brk (level : Nat) : LabelFree (Write.brk level) :=
  get.bind fun _ => ite ((emit _ _).bind fun _ => modify _) (throw (by nofun))

theorem ret {value : Option (Write Unit)} (hv : ∀ code ∈ value, LabelFree code) :
    LabelFree (Write.ret value) := by
  have hend : ∀ op, LabelFree (do Write.put op .none; Write.setType .void false) := fun op =>
    (put _ _).bind fun _ => setType _ _
  refine get.bind fun _ => ite ?_ ?_
  · cases value with
    | none => exact (put _ _).bind fun _ => hend _
    | some code => exact ((hv code rfl).value _).bind fun _ => hend _
  · cases value with
    | none => exact hend _
    | some code =>
      exact ((hv code rfl).typedValue _).bind fun _ => get.bind fun _ =>
        (joinTypes _ _ _).discard.bind fun _ => hend _

theorem expr? (setting : Setting) (e : Option Expr) : ∀ code ∈ Write.expr? setting e, LabelFree code := by
  cases e with
  | none => nofun
  | some e =>
    rintro _ ⟨⟩
    exact expr setting e

mutual

theorem stmt (setting : Setting) (keep : Bool) : (s : Stmt) → LabelFree (Write.stmt setting keep s)
  | .expr e => by
    rw [Write.stmt]
    exact exprStmt (expr setting e) keep
  | .declare d => by
    rw [Write.stmt]
    exact (declare (expr? setting d.initial)).bind fun _ => pure _
  | .function name params returns body => by
    rw [Write.stmt]
    exact (function ((hoist body).bind fun _ => stmts setting body)).bind fun _ => pure _
  | .block body => by
    rw [Write.stmt]
    exact (modify _).bind fun _ => (hoist body).bind fun _ => (stmts setting body).bind fun _ =>
      (modify _).bind fun _ => pure _
  | .cond test yes no => by
    rw [Write.stmt]
    exact (cond (expr setting test) (stmt setting false yes).discard (stmt? setting no)).bind
      fun _ => pure _
  | .loop initial test step body => by
    rw [Write.stmt]
    exact (loop (stmt? setting initial) (expr? setting test) (stmt? setting body)
      (expr? setting step)).bind fun _ => pure _
  | .brk level => by
    rw [Write.stmt]
    exact (brk level).bind fun _ => pure _
  | .ret e => by
    rw [Write.stmt]
    exact (ret (expr? setting e)).bind fun _ => pure _
  | .empty => by
    rw [Write.stmt]
    exact pure _

theorem stmts (setting : Setting) : (body : List Stmt) → LabelFree (Write.stmts setting body)
  | [] => by
    rw [Write.stmts]
    exact pure ()
  | s :: rest => by
    rw [Write.stmts]
    exact (stmt setting false s).discard.bind fun _ => stmts setting rest

theorem stmt? (setting : Setting) : (s : Option Stmt) → ∀ code ∈ Write.stmt? setting s, LabelFree code
  | none => by
    rw [Write.stmt?]
    nofun
  | some s => by
    rw [Write.stmt?]
    rintro _ ⟨⟩
    exact (stmt setting false s).discard

end

theorem topLevel (setting : Setting) : (body : List Stmt) → LabelFree (Write.topLevel setting body)
  | [] => pure false
  | [s] => stmt setting true s
  | s :: t :: rest => (stmt setting false s).discard.bind fun _ => topLevel setting (t :: rest)

theorem program (setting : Setting) (body : List Stmt) : LabelFree (Write.program setting body) :=
  (put _ _).bind fun _ => (hoist body).bind fun _ => (topLevel setting body).bind fun _ =>
    ite ((put _ _).bind fun _ => put _ _) (put _ _)

end LabelFree

end StackScript.Assembly
