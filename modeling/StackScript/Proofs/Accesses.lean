import StackScript.Proofs.Fitting

/-!
# The instructions that access variables

The code of a function accesses variables where its tree does: the instructions that load, store or
update a slot stand in the order of the accesses, one for each of them, and name the place of its
variable (`FunctionCode.emits`).  A variable of the function is counted from its frame, and one of the
top level from the bottom of the stack.

`Emitted` says this of a stretch of code.  Code of an expression may still lack its last instruction,
which what surrounds the expression may replace: `EmittedUpTo` takes it as it was written.
-/

namespace StackScript.Assembly

open Typing Bytecode Host Syntax

/-! ### Slots -/

/-- What an instruction does to the cell of a variable. -/
inductive Touch where
  | load | store | update
deriving DecidableEq, Repr

/-- The cell that an instruction accesses: where it lies, and what is done to it. -/
structure Slot where
  touch : Touch
  area : Area
  place : Int
deriving DecidableEq

/-- The cell that an operation accesses, if it is one that accesses variables. -/
def slotOf? : Opcode → Operand → Option Slot
  | .load a _, .int i => some ⟨.load, a, i⟩
  | .store a _, .int i => some ⟨.store, a, i⟩
  | .update a _, .int i => some ⟨.update, a, i⟩
  | _, _ => none

def slotAt? (i : Instruction) : Option Slot :=
  match i.operation with
  | .known op => slotOf? op i.operand
  | .unassigned _ => none

/-- The cells that the instructions in front of an address access, in their order. -/
def slotsBefore (program : Program) (a : Nat) : List Slot :=
  (program.code.toList.take a).filterMap slotAt?

/-- What the instruction of an access does to the variable's cell. -/
def touchOf : Use → Touch
  | .read => .load
  | .assign | .declare => .store
  | .update => .update

/-- The cell of an access, in a function with so many functions around its variables. -/
def slotOfAccess (level : Nat) (a : Occurrence) : Slot :=
  ⟨touchOf a.use, if a.target.level = level then .own else .top, a.target.place⟩

/-- An access that code can make: to the function's own variables or to those of the top level, and
to a constant only by its declaration or to read it. -/
structure Lawful (level : Nat) (a : Occurrence) : Prop where
  reaches : a.target.level = level ∨ a.target.level = 0
  declares : a.use = .declare → a.target.level = level
  changes : a.use = .assign ∨ a.use = .update → a.target.constant = false

/-! ### Stretches of code -/

/-- The instructions from `p` up to `q` are those of the accesses. -/
structure Emitted (L : Layout) (level p q : Nat) (accesses : List Occurrence) : Prop where
  slots : slotsBefore L.program q = slotsBefore L.program p ++ accesses.map (slotOfAccess level)
  lawful : ∀ a ∈ accesses, Lawful level a

/-- The same for the instructions from `p` up to `q`, the last of which was written as `d`. -/
inductive EmittedUpTo (L : Layout) (level p : Nat) : Nat → Draft → List Occurrence → Prop
  | plain {q d accesses} (front : Emitted L level p q accesses)
      (last : slotOf? d.opcode d.operand = none) : EmittedUpTo L level p (q + 1) d accesses
  | access {q d accesses a} (front : Emitted L level p q accesses)
      (last : slotOf? d.opcode d.operand = some (slotOfAccess level a)) (lawful : Lawful level a) :
      EmittedUpTo L level p (q + 1) d (accesses ++ [a])

variable {L : Layout} {level p m q : Nat} {accesses more : List Occurrence} {d : Draft}

theorem slotsBefore_succ (h : L.Has p d) : slotsBefore L.program (p + 1) =
    slotsBefore L.program p ++ (slotOf? d.opcode d.operand).toList := by
  have hcode : L.program.code.toList[p]? = some ⟨.known d.opcode, d.operand⟩ := by
    rw [Array.getElem?_toList]
    exact h
  have hslot : slotAt? ⟨.known d.opcode, d.operand⟩ = slotOf? d.opcode d.operand := rfl
  unfold slotsBefore
  rw [List.take_add_one, hcode, List.filterMap_append, Option.toList_some, List.filterMap_cons, hslot]
  cases slotOf? d.opcode d.operand <;> rfl

theorem Emitted.nil : Emitted L level p p [] := ⟨(List.append_nil _).symm, nofun⟩

theorem Emitted.append (h : Emitted L level p m accesses) (h' : Emitted L level m q more) :
    Emitted L level p q (accesses ++ more) := by
  refine ⟨?_, fun a ha => (List.mem_append.1 ha).elim (h.lawful a) (h'.lawful a)⟩
  rw [h'.slots, h.slots, List.map_append, List.append_assoc]

/-- An instruction that accesses no variable. -/
theorem Emitted.skip (h : Emitted L level p q accesses) (has : L.Has q d)
    (plain : slotOf? d.opcode d.operand = none := by rfl) : Emitted L level p (q + 1) accesses := by
  refine ⟨?_, h.lawful⟩
  rw [slotsBefore_succ has, plain, h.slots, Option.toList_none, List.append_nil]

/-- An instruction that accesses a variable. -/
theorem Emitted.access {a : Occurrence} (h : Emitted L level p q accesses) (has : L.Has q d)
    (slot : slotOf? d.opcode d.operand = some (slotOfAccess level a)) (lawful : Lawful level a) :
    Emitted L level p (q + 1) (accesses ++ [a]) := by
  refine ⟨?_, fun b hb => ?_⟩
  · rw [slotsBefore_succ has, slot, h.slots, List.map_append, List.append_assoc]
    rfl
  · rcases List.mem_append.1 hb with hb | hb
    · exact h.lawful b hb
    · obtain rfl := List.mem_singleton.1 hb
      exact lawful

/-- The last instruction is in place as it was written. -/
theorem EmittedUpTo.done (h : EmittedUpTo L level p (q + 1) d accesses) (has : L.Has q d) :
    Emitted L level p (q + 1) accesses := by
  cases h with
  | plain front last => exact front.skip has last
  | access front last lawful => exact front.access has last lawful

/-- Where the last instruction accesses no variable, those in front of it access all. -/
theorem EmittedUpTo.front (h : EmittedUpTo L level p (q + 1) d accesses)
    (plain : slotOf? d.opcode d.operand = none) : Emitted L level p q accesses := by
  cases h with
  | plain front _ => exact front
  | access _ last => rw [plain] at last; cases last

/-- Code in front of an expression. -/
theorem Emitted.upTo (h : Emitted L level p m accesses) (h' : EmittedUpTo L level m q d more) :
    EmittedUpTo L level p q d (accesses ++ more) := by
  cases h' with
  | plain front last => exact .plain (h.append front) last
  | access front last lawful =>
    rw [← List.append_assoc]
    exact .access (h.append front) last lawful

/-! ### Expressions -/

theorem slotOf?_binary {op : Opcode} {x : Operand} (h : isBinary op = true) : slotOf? op x = none := by
  cases op <;> first | rfl | exact absurd h Bool.false_ne_true

theorem slotOf?_unary {op : Opcode} {x : Operand} (h : isUnary op = true) : slotOf? op x = none := by
  cases op <;> first | rfl | exact absurd h Bool.false_ne_true

/-- Code that drops values accesses no variables. -/
theorem DropCode.emits {n : Nat} (h : DropCode L n m q) (front : Emitted L level p m accesses) :
    Emitted L level p q accesses := by
  cases h with
  | none => exact front
  | some _ drop => exact front.skip drop

section Expressions

variable {r : Room} {c : ScopeChain} {e target : Expr} {t : Ty}

/-- What a function's names stand for is accessed at their places. -/
theorem accesses_variable {s : String} {e : Entity} {area : Area} {i : Int} (use : Use)
    (name : c.resolve L.environment s = .ok e) (place : e.location = .slot i)
    (own : area = .own ↔ e.frame = c.functionDepth) (shared : area = .top → e.frame = 0)
    (hdeclare : use ≠ .declare) (writable : use = .assign ∨ use = .update → e.constant = false) :
    ∃ a, c.context.uses use s = [a] ∧ slotOfAccess c.functionDepth a = ⟨touchOf use, area, i⟩ ∧
      Lawful c.functionDepth a := by
  refine ⟨⟨use, ⟨s, e.constant, e.frame, i⟩⟩, ?_, ?_, ?_, fun h => absurd h hdeclare, writable⟩
  · rw [Context.uses, ScopeChain.variableOf_slot name place]
  · cases area with
    | own => simp only [slotOfAccess, own.1 rfl, if_true]
    | top => simp only [slotOfAccess, if_neg (fun h => Area.noConfusion (own.2 h))]
  · cases area with
    | own => exact .inl (own.1 rfl)
    | top => exact .inr (shared rfl)

theorem accesses_other {s : String} {e : Entity} (use : Use)
    (name : c.resolve L.environment s = .ok e) (place : ∀ i, e.location ≠ .slot i) :
    c.context.uses use s = [] := by
  rw [Context.uses, ScopeChain.variableOf_other name place]

/-- Where no name is changed, an element or a field is. -/
theorem ExprCode.target_plain {a : Bool} (code : ExprCode L r c target p q d t a) (ha : a = true)
    (hname : ∀ s, target ≠ .name s) : slotOf? d.opcode d.operand = none := by
  cases code with
  | external | function | «variable» => exact absurd rfl (hname _)
  | update updates _ _ found _ _ assignable =>
    rw [ha, Ty.unaryRule?_updates found updates] at assignable
    cases assignable
  | unary computes _ found action => exact slotOf?_unary (isUnary_of_emit computes found action)
  | binary plain _ _ _ found action => exact slotOf?_binary (isBinary_of_emit plain found action)
  | member _ found action =>
    obtain ⟨w, rfl⟩ := loadMember_of_emit found action
    rfl
  | index _ _ found action =>
    obtain ⟨w, rfl⟩ := loadElement_of_emit found action
    rfl
  | _ => cases ha

/-- The instruction that replaces a load does what the change of a variable does. -/
theorem slotOf?_replaced {use : Use} {o o' : Opcode} {x : Operand}
    (load : (use = .assign ∧ Write.storeFor? o = some o') ∨
      (use = .update ∧ ∃ u, Write.updateFor? u o = some o')) :
    (∀ s, slotOf? o x = some s → slotOf? o' x = some { s with touch := touchOf use }) ∧
      (slotOf? o x = none → slotOf? o' x = none) := by
  rcases load with ⟨rfl, load⟩ | ⟨rfl, u, load⟩
  · rcases Write.storeFor?_eq_some load with ⟨_, _, rfl, rfl⟩ | ⟨_, rfl, rfl⟩ | ⟨_, rfl, rfl⟩
    · cases x <;> simp [slotOf?, touchOf]
    · exact ⟨nofun, fun _ => rfl⟩
    · exact ⟨nofun, fun _ => rfl⟩
  · rcases Write.updateFor?_eq_some load with ⟨_, _, rfl, rfl⟩ | ⟨_, rfl, rfl⟩ | ⟨_, rfl, rfl⟩
    · cases x <;> simp [slotOf?, touchOf]
    · exact ⟨nofun, fun _ => rfl⟩
    · exact ⟨nofun, fun _ => rfl⟩

/-- A name whose load is replaced by a change is no constant. -/
theorem EmittedUpTo.changes {use : Use} {o o' : Opcode} {x : Operand}
    (h : EmittedUpTo L c.functionDepth p q ⟨o, x⟩ (target.accesses c.context))
    (code : ExprCode L r c target p q ⟨o, x⟩ t true) (writable : Writable L.environment c target)
    (load : (use = .assign ∧ Write.storeFor? o = some o') ∨
      (use = .update ∧ ∃ u, Write.updateFor? u o = some o')) :
    EmittedUpTo L c.functionDepth p q ⟨o', x⟩ (target.changes c.context use) := by
  obtain ⟨hsome, hnone⟩ := slotOf?_replaced (x := x) load
  by_cases hname : ∀ s, target ≠ .name s
  · -- what is behind a member or an index is replaced, and it accesses no variable
    have hplain := code.target_plain rfl hname
    have hchanges : target.changes c.context use = target.accesses c.context := by
      cases target <;> first | rfl | exact absurd rfl (hname _)
    rw [hchanges]
    generalize target.accesses c.context = accesses at h
    cases h with
    | plain front _ => exact .plain front (hnone hplain)
    | access _ last => rw [hplain] at last; cases last
  · obtain ⟨s, rfl⟩ := not_forall_not.1 hname
    cases code with
    -- a function has no load to replace
    | function => rcases load with ⟨-, load⟩ | ⟨-, _, load⟩ <;> cases load
    | «variable» name place own _ _ _ shared =>
      have hdeclare : use ≠ .declare := by rcases load with ⟨rfl, -⟩ | ⟨rfl, -⟩ <;> exact nofun
      -- the load of the name becomes its store, in the same slot
      obtain ⟨f, hf, hconstant⟩ := writable
      obtain rfl := Except.ok.inj (name.symm.trans hf)
      obtain ⟨a, ha, hslot, hlawful⟩ :=
        accesses_variable use name place own shared hdeclare fun _ => hconstant
      rw [Expr.changes, ha]
      exact .access .nil ((hsome _ rfl).trans (congrArg some hslot.symm)) hlawful

theorem accesses_stored (op : AssignOp) (target value : Expr) :
    (storedExpr op target value).accesses c.context ++ target.changes c.context .assign =
      (Expr.assign op target value).accesses c.context := by
  rw [Expr.accesses_assign, storedExpr]
  cases op.binary? <;> rfl

mutual

/-- The code of an expression accesses what its tree does. -/
theorem ExprCode.emits : {e : Expr} → {p q : Nat} → {d : Draft} → {t : Ty} → {a : Bool} →
    ExprCode L r c e p q d t a → EmittedUpTo L c.functionDepth p q d (e.accesses c.context)
  | _, _, _, _, _, _, .literal (v := v) => .plain .nil (by cases v <;> rfl)
  | _, _, _, _, _, _, .template code => .plain code.emits (by unfold templateDraft; split <;> rfl)
  | _, _, _, _, _, _, .external name place => by
    rw [Expr.accesses, accesses_other .read name fun i h => by rw [place] at h; cases h]
    exact .plain .nil rfl
  | _, _, _, _, _, _, .function name place _ _ => by
    rw [Expr.accesses, accesses_other .read name fun i h => by rw [place] at h; cases h]
    exact .plain .nil rfl
  | _, _, _, _, _, _, .variable name place own _ _ _ shared => by
    obtain ⟨a, ha, hslot, hlawful⟩ := accesses_variable .read name place own shared nofun nofun
    rw [Expr.accesses, ha]
    exact .access .nil (congrArg some hslot.symm) hlawful
  | _, _, _, _, _, _, .update updates code writable _ _ load _ => by
    rw [Expr.accesses_updating (by rcases updates with rfl | rfl <;> rfl)]
    exact code.emits.changes code writable (.inr ⟨rfl, _, load⟩)
  | _, _, _, _, _, _, .unary computes code found action => by
    rw [Expr.accesses_unary (by rcases computes with rfl | rfl <;> rfl)]
    exact .plain code.emits (slotOf?_unary (isUnary_of_emit computes found action))
  | _, _, _, _, _, _, .binary plain first second _ found action =>
    .plain (first.emits.append second.emits) (slotOf?_binary (isBinary_of_emit plain found action))
  | _, _, _, _, _, _, .logical _ first branch second skip _ _ => by
    refine .plain (((first.emits.skip branch ?_).append second.emits).skip skip) rfl
    unfold skipBranch
    split <;> rfl
  | _, _, _, _, _, _, .ternary choice first skip second _ _ =>
    choice.emits.upTo ((first.emits.skip skip).upTo second.emits)
  | _, _, _, _, _, _, .member code found action => by
    obtain ⟨w, rfl⟩ := loadMember_of_emit found action
    exact .plain code.emits rfl
  | _, _, _, _, _, _, .index code rest found action => by
    obtain ⟨w, rfl⟩ := loadElement_of_emit found action
    exact .plain (code.emits.append rest.emits) rfl
  | _, _, _, _, _, _, .callFunction code target _ call drop =>
    .plain (drop.emits ((code.emits.append (target.emits.front rfl)).skip call)) rfl
  | _, _, _, _, _, _, .callHost code target load _ call =>
    .plain ((code.emits.append (target.emits.done load)).skip call) rfl
  | _, _, _, _, _, _, .assign stored code writable _ load => by
    rw [← accesses_stored]
    exact stored.emits.upTo (code.emits.changes code writable (.inl ⟨rfl, load⟩))
  | _, _, _, _, _, _, .array code => .plain code.emits rfl
  | _, _, _, _, _, _, .set code => .plain code.emits rfl
  | _, _, _, _, _, _, .object code => .plain code.emits rfl

theorem ValueCode.emits : {e : Expr} → {p q : Nat} → {t : Ty} → ValueCode L r c e p q t →
    Emitted L c.functionDepth p q (e.accesses c.context)
  | _, _, _, _, .value code last _ => code.emits.done last

theorem ValuesCode.emits : {es : List Expr} → {p q : Nat} → {types : List Ty} →
    ValuesCode L r c es p q types → Emitted L c.functionDepth p q (accessesIn c.context es)
  | _, _, _, _, .nil => .nil
  | _, _, _, _, .cons first others => first.emits.append others.emits

theorem FieldsCode.emits : {fields : List (String × Expr)} → {p q : Nat} →
    FieldsCode L r c fields p q → Emitted L c.functionDepth p q (accessesOfFields c.context fields)
  | _, _, _, .nil => .nil
  | _, _, _, .cons name first others =>
    (Emitted.nil.skip name).append (first.emits.append others.emits)

theorem PartsCode.emits : {chunks : List String} → {parts : List Expr} → {p q n : Nat} →
    PartsCode L r c chunks parts p q n → Emitted L c.functionDepth p q (accessesOfParts c.context chunks parts)
  | _, _, _, _, _, .done => by
    rw [accessesOfParts]
    · exact .nil
    · nofun
  | _, _, _, _, _, .text _ load rest => (Emitted.nil.skip load).append rest.emits
  | _, _, _, _, _, .noText _ rest => rest.emits

theorem PieceCode.emits : {chunk : String} → {chunks : List String} → {parts : List Expr} →
    {p q n : Nat} → PieceCode L r c chunks parts p q n →
    Emitted L c.functionDepth p q (accessesOfParts c.context (chunk :: chunks) parts)
  | _, chunks, _, _, _, _, .none rest => by
    have hnone := rest.emits
    rw [accessesOfParts] at hnone ⊢
    · exact hnone
    · nofun
    · nofun
  | _, _, _, _, _, _, .some code rest => code.emits.append rest.emits

theorem CondCode.emits : {e : Expr} → {p q no : Nat} → CondCode L r c e p q no →
    Emitted L c.functionDepth p q (e.accesses c.context)
  | _, _, _, _, .branch code branch => code.emits.skip branch
  | _, _, _, _, .merged _ first second _ _ _ branch => (first.emits.append second.emits).skip branch

end

theorem DroppedCode.emits (h : DroppedCode L r c e p q) :
    Emitted L c.functionDepth p q (e.accesses c.context) := by
  cases h with
  | void code last => exact code.emits.done last
  | drop code drop => exact code.emits.skip drop

theorem StepCode.emits {step : Option Expr} (h : StepCode L r c step p q) :
    Emitted L c.functionDepth p q (accesses? c.context step) := by
  cases h with
  | none => exact .nil
  | some code => exact code.emits

theorem InitialCode.emits {declared found : Ty} (h : InitialCode L declared found m q t)
    (front : Emitted L level p m accesses) : Emitted L level p q accesses := by
  cases h with
  | any => exact front
  | same => exact front
  | convert _ _ conversion code =>
    exact front.skip code (slotOf?_unary (Ty.conversion?_unary conversion))

end Expressions

/-! ### Statements -/

section Statements

variable {r : Room}

/-- A place that is not below the frame lies in it. -/
theorem lt_of_reaches {i : Nat} (h : L.Reaches r .own i) : i < r.slots := by
  rcases h with ⟨-, h⟩ | ⟨-, h⟩ <;> omega

/-- A function is declared where it stands, unless its block has done so before. -/
theorem declaredFunction_names {c c' : ScopeChain} {name : String}
    (h : c' = c ∧ c.inner.declares name = true ∨
      ∃ l s e, c.declareFunction name l s = (.ok e, c')) :
    c'.context = c.context.declareFunction name := by
  have hinner := c.isSome_lookup_inner name
  rw [Context.declareFunction]
  rcases h with ⟨rfl, htaken⟩ | ⟨_, _, _, declared⟩
  · rw [if_pos (hinner.trans htaken)]
  · rw [ScopeChain.context_declareFunction declared, if_neg]
    rw [hinner, (ScopeChain.declareFunction_eq_ok declared).1]
    exact Bool.false_ne_true

mutual

/-- Behind the code of a statement, its names are those that the statement leaves. -/
theorem StmtCode.names : {exits : List Nat} → {c : ScopeChain} → {s : Stmt} → {c' : ScopeChain} →
    {p q : Nat} → StmtCode L r exits c s c' p q → c'.context = s.after c.context
  | _, _, _, _, _, _, .expr _ => rfl
  | _, _, _, _, _, _, .declare _ _ declared _ => ScopeChain.context_declareLocal declared
  | _, _, _, _, _, _, .initial _ _ _ _ declared _ _ => ScopeChain.context_declareLocal declared
  | _, _, _, _, _, _, .function declared => declaredFunction_names declared
  | _, _, _, _, _, _, .block functions code => by
    rw [ScopeChain.context_endScope, code.names, functions.names, ScopeChain.context_beginScope]
    rfl
  | _, _, _, _, _, _, .cond _ first => first.names
  | _, _, _, _, _, _, .condElse _ first _ second => by
    rw [second.names, first.names]
    rfl
  | _, _, _, _, _, _, @StmtCode.loop _ _ _ _ _ _ initial _ _ _ _ _ _ _ _ before _ code _ _ => by
    have hbefore := before.names
    have hcode := code.names
    cases initial with
    | none =>
      rw [hbefore] at hcode
      exact hcode
    | some s =>
      show (ScopeChain.endScope _).context = _
      rw [ScopeChain.context_endScope, hcode, hbefore]
      rfl
  | _, _, _, _, _, _, .brk _ _ _ => rfl
  | _, _, _, _, _, _, .stopNull _ _ _ => rfl
  | _, _, _, _, _, _, .stop _ _ _ => rfl
  | _, _, _, _, _, _, .leaveNull _ _ => rfl
  | _, _, _, _, _, _, .leave _ _ _ => rfl
  | _, _, _, _, _, _, .empty => rfl

theorem StmtsCode.names : {exits : List Nat} → {c : ScopeChain} → {body : List Stmt} →
    {c' : ScopeChain} → {p q : Nat} → StmtsCode L r exits c body c' p q →
    c'.context = afterAll body c.context
  | _, _, _, _, _, _, .nil => rfl
  | _, _, _, _, _, _, .cons first others => by
    rw [others.names, first.names]
    rfl

theorem StartCode.names : {exits : List Nat} → {c : ScopeChain} → {s : Option Stmt} →
    {c' : ScopeChain} → {p q : Nat} → StartCode L r exits c s c' p q →
    c'.context = afterStart s c.context
  | _, _, _, _, _, _, .none => rfl
  | _, _, _, _, _, _, .some code => code.names

end

theorem Hoists.depth {c c' : ScopeChain} {body : List Stmt} (h : Hoists c body c') :
    c'.functionDepth = c.functionDepth := by
  have hlevel := c.context.level_hoist body
  rw [← h.names] at hlevel
  exact hlevel

theorem StmtCode.depth {exits : List Nat} {c c' : ScopeChain} {s : Stmt}
    (h : StmtCode L r exits c s c' p q) : c'.functionDepth = c.functionDepth := by
  have hlevel := (s.after_counts c.context).1
  rw [← h.names] at hlevel
  exact hlevel

theorem StartCode.depth {exits : List Nat} {c c' : ScopeChain} {s : Option Stmt}
    (h : StartCode L r exits c s c' p q) : c'.functionDepth = c.functionDepth := by
  cases h with
  | none => rfl
  | some code => exact code.depth

mutual

/-- The code of a statement accesses what its tree does. -/
theorem StmtCode.emits : {exits : List Nat} → {c : ScopeChain} → {s : Stmt} → {c' : ScopeChain} →
    {p q : Nat} → StmtCode L r exits c s c' p q →
    Emitted L c.functionDepth p q (s.accesses c.context)
  | _, _, _, _, _, _, .expr code => code.emits
  | _, _, _, _, _, _, .declare missing _ _ _ => by
    rw [Stmt.accesses, Declaration.accesses, missing]
    exact .nil
  | _, c, _, _, _, _, .initial given _ code converted _ _ store => by
    rw [Stmt.accesses, Declaration.accesses, given]
    refine (converted.emits code.emits).access store ?_
      ⟨.inl rfl, fun _ => rfl, by rintro (h | h) <;> cases h⟩
    simp only [slotOf?, slotOfAccess, touchOf]
    rw [if_pos (show c.context.level = c.functionDepth from rfl)]
    rfl
  | _, _, _, _, _, _, .function _ => .nil
  | _, _, _, _, _, _, .block functions code => by
    have hcode := code.emits
    rw [functions.depth, functions.names] at hcode
    exact hcode
  | _, _, _, _, _, _, .cond choice first => choice.emits.append (first.emits.append .nil)
  | _, _, _, _, _, _, .condElse choice first skip second => by
    -- the second arm knows the names that the first one has left
    have hsecond := second.emits
    rw [first.depth, first.names] at hsecond
    exact choice.emits.append ((first.emits.skip skip).append hsecond)
  | _, _, _, _, _, _, .loop before choice code after back => by
    have hchoice := choice.emits
    have hcode := code.emits
    have hafter := after.emits
    rw [code.depth, code.names] at hafter
    rw [before.depth, before.names] at hchoice hcode hafter
    exact before.emits.append (hchoice.append (hcode.append (hafter.skip back)))
  | _, _, _, _, _, _, .brk _ _ jump => .skip .nil jump
  | _, _, _, _, _, _, .stopNull _ null stop => (Emitted.nil.skip null).skip stop
  | _, _, _, _, _, _, .stop _ code stop => code.emits.skip stop
  | _, _, _, _, _, _, .leaveNull _ leave => .skip .nil leave
  | _, _, _, _, _, _, .leave _ code leave => code.emits.skip leave
  | _, _, _, _, _, _, .empty => .nil

theorem StmtsCode.emits : {exits : List Nat} → {c : ScopeChain} → {body : List Stmt} →
    {c' : ScopeChain} → {p q : Nat} → StmtsCode L r exits c body c' p q →
    Emitted L c.functionDepth p q (accessesOfAll c.context body)
  | _, _, _, _, _, _, .nil => .nil
  | _, _, _, _, _, _, .cons first others => by
    have hothers := others.emits
    rw [first.depth, first.names] at hothers
    exact first.emits.append hothers

theorem StartCode.emits : {exits : List Nat} → {c : ScopeChain} → {s : Option Stmt} →
    {c' : ScopeChain} → {p q : Nat} → StartCode L r exits c s c' p q →
    Emitted L c.functionDepth p q (accessesOf? c.context.openBlock s)
  | _, _, _, _, _, _, .none => .nil
  | _, _, _, _, _, _, .some code => code.emits

end

mutual

/-- There is room for all variables that a statement declares. -/
theorem StmtCode.declared : {exits : List Nat} → {c : ScopeChain} → {s : Stmt} → {c' : ScopeChain} →
    {p q : Nat} → StmtCode L r exits c s c' p q → c.context.count ≤ r.slots →
    c'.context.count ≤ r.slots
  | _, _, _, _, _, _, .expr _, h => h
  | _, _, _, _, _, _, .declare _ _ declared reached, _ => by
    rw [ScopeChain.context_declareLocal declared]
    exact lt_of_reaches reached
  | _, _, _, _, _, _, .initial _ _ _ _ declared reached _, _ => by
    rw [ScopeChain.context_declareLocal declared]
    exact lt_of_reaches reached
  | _, _, _, _, _, _, .function declared, h => by
    rw [declaredFunction_names declared, Context.count_declareFunction]
    exact h
  | _, _, _, _, _, _, .block functions code, h => by
    rw [ScopeChain.context_endScope, Context.count_closeBlock]
    refine code.declared ?_
    rw [functions.names, Context.count_hoist]
    exact h
  | _, _, _, _, _, _, .cond _ first, h => first.declared h
  | _, _, _, _, _, _, .condElse _ first _ second, h => second.declared (first.declared h)
  | _, _, _, _, _, _, @StmtCode.loop _ _ _ _ _ _ initial _ _ _ _ _ _ _ _ before _ code _ _, h => by
    have hcode := code.declared (before.declared h)
    cases initial with
    | none => exact hcode
    | some s =>
      show (ScopeChain.endScope _).context.count ≤ _
      rw [ScopeChain.context_endScope, Context.count_closeBlock]
      exact hcode
  | _, _, _, _, _, _, .brk _ _ _, h => h
  | _, _, _, _, _, _, .stopNull _ _ _, h => h
  | _, _, _, _, _, _, .stop _ _ _, h => h
  | _, _, _, _, _, _, .leaveNull _ _, h => h
  | _, _, _, _, _, _, .leave _ _ _, h => h
  | _, _, _, _, _, _, .empty, h => h

theorem StmtsCode.declared : {exits : List Nat} → {c : ScopeChain} → {body : List Stmt} →
    {c' : ScopeChain} → {p q : Nat} → StmtsCode L r exits c body c' p q →
    c.context.count ≤ r.slots → c'.context.count ≤ r.slots
  | _, _, _, _, _, _, .nil, h => h
  | _, _, _, _, _, _, .cons first others, h => others.declared (first.declared h)

theorem StartCode.declared : {exits : List Nat} → {c : ScopeChain} → {s : Option Stmt} →
    {c' : ScopeChain} → {p q : Nat} → StartCode L r exits c s c' p q →
    c.context.count ≤ r.slots → c'.context.count ≤ r.slots
  | _, _, _, _, _, _, .none, h => h
  | _, _, _, _, _, _, .some code, h => code.declared h

end

section TopLevel

variable {c c' : ScopeChain} {s : Stmt} {body : List Stmt} {kept : Bool}

theorem LastCode.emits (h : LastCode L r c s c' p q kept) :
    Emitted L c.functionDepth p q (s.accesses c.context) := by
  cases h with
  | value code => exact code.emits
  | void code last => exact code.emits.done last
  | other _ code => exact code.emits

theorem LastCode.names (h : LastCode L r c s c' p q kept) : c'.context = s.after c.context := by
  cases h with
  | value => rfl
  | void => rfl
  | other _ code => exact code.names

theorem LastCode.declared (h : LastCode L r c s c' p q kept) (hc : c.context.count ≤ r.slots) :
    c'.context.count ≤ r.slots := by
  cases h with
  | value => exact hc
  | void => exact hc
  | other _ code => exact code.declared hc

theorem TopCode.emits (h : TopCode L r c body p q kept) :
    Emitted L c.functionDepth p q (accessesOfAll c.context body) := by
  induction h with
  | nil => exact .nil
  | last code => exact code.emits.append .nil
  | cons first _ ih =>
    rw [first.depth, first.names] at ih
    exact first.emits.append ih

theorem TopCode.declared (h : TopCode L r c body p q kept) (hc : c.context.count ≤ r.slots) :
    c.context.count + (declarationsAll body).length ≤ r.slots := by
  induction h with
  | nil => exact hc
  | @last c _ s _ _ _ code =>
    have hcount := (s.after_counts c.context).2
    rw [← code.names] at hcount
    have := code.declared hc
    simp only [declarationsAll, List.append_nil]
    omega
  | @cons c _ s _ _ _ _ _ _ first _ ih =>
    have hcount := (s.after_counts c.context).2
    rw [← first.names] at hcount
    have := ih (first.declared hc)
    rw [declarationsAll, List.length_append]
    omega

end TopLevel

end Statements

/-! ### Functions -/

/-- The code of the `i`th function: it makes room for all variables that the function declares, and
accesses what the function's tree does. -/
structure Accessing (L : Layout) (f : Function) (i slots : Nat) : Prop where
  room : L.Has (L.start i) ⟨.allocStack, .int (slots : Nat)⟩
  declared : (declarationsAll f.body).length ≤ slots
  emitted : Emitted L f.level (L.start i) (L.stop i) f.accesses

theorem FunctionCode.accessing {f : Function} {i : Nat} (h : FunctionCode L f i)
    (hf : f.context.count = 0) : ∃ slots, Accessing L f i slots := by
  cases h with
  | @function slots c c₁ c' q names room functions code leave stop _ =>
    refine ⟨slots, room, ?_, ?_⟩
    · have hstart : c₁.context.count = 0 := by rw [functions.names, Context.count_hoist, names, hf]
      have hdeclared := code.declared (by omega)
      have hcount := (afterAll_counts f.body c₁.context).2
      rw [← code.names] at hcount
      dsimp only at hdeclared
      omega
    · have hcode := code.emits
      have hdepth : c.functionDepth = f.level := congrArg Context.level names
      rw [functions.depth, functions.names, names, hdepth] at hcode
      rw [stop]
      exact (Emitted.nil.skip room).append (hcode.skip leave)

/-- All functions of a program access the variables that their trees do, and so does the top level. -/
theorem ProgramCode.accessing {body : List Stmt} (h : ProgramCode L body) {f : Function} {i : Nat}
    (hf : (programFunctions body)[i]? = some f) : ∃ slots, Accessing L f i slots := by
  by_cases hi : i = 0
  · subst hi
    obtain rfl := Option.some.inj hf
    obtain ⟨c, q, kept, functions, code, -, hend⟩ := h.main
    have hstart : c.context.count = 0 := by rw [functions.names, Context.count_hoist]; rfl
    have hcode := code.emits
    rw [functions.depth, functions.names] at hcode
    refine ⟨L.top, by rw [h.start]; exact h.room, ?_, ?_⟩
    · have hdeclared := code.declared (by omega)
      rwa [hstart, Nat.zero_add] at hdeclared
    · have hfront := (Emitted.nil.skip h.room).append hcode
      rw [h.start]
      rcases hend with ⟨-, term, stop⟩ | ⟨-, null, term, -, stop⟩
      · rw [stop]
        exact hfront.skip term
      · rw [stop]
        exact (hfront.skip null).skip term
  · exact (h.functions i f hi hf).2.accessing (start_of_mem (List.mem_of_getElem? hf))

end StackScript.Assembly
