import StackScript.Assembly.Compile
import StackScript.Proofs.Placement
import StackScript.Proofs.Scopes

/-!
# The shape of code

What the code of a tree looks like in a finished program: a relation between a tree and the stretch
of instructions from `p` up to `q` that was written for it.  The relations are built along the tree,
one constructor for each kind of node, and say where the code of each part lies.

The last instruction of an expression is special.  What surrounds the expression may have replaced
it: a load becomes a store, the load of a function becomes a call, and a comparison becomes a
branch.  `ExprCode` therefore only says as what the last instruction was written, and claims nothing
about the program there; `ValueCode` adds that the instruction is still in place.
-/

namespace StackScript.Assembly

open Typing Bytecode Host Syntax

/-- The variables of a function: its parameters, and the slots of its frame. -/
structure Room where
  params : Nat
  slots : Nat

/-- A finished program, the host that it was compiled for, and what its code relies on. -/
structure Layout where
  program : Program
  environment : Environment
  /-- The number of variables of the top level. -/
  top : Nat
  /-- The number of functions, and one for the main stream, which comes first. -/
  count : Nat
  /-- The number of parameters of each function. -/
  params : Nat → Nat
  /-- The index of the first instruction of each function. -/
  start : Nat → Nat
  /-- The index behind the last instruction of each function. -/
  stop : Nat → Nat
  /-- The index that a label stands for. -/
  address : Label → Option Nat
  /-- The variables of the function that the instruction belongs to. -/
  roomOf : Nat → Room

namespace Layout

/-- An instruction of the program. -/
def Has (L : Layout) (a : Nat) (d : Draft) : Prop :=
  L.program.code[a]? = some ⟨.known d.opcode, d.operand⟩

/-- Does a function with so many parameters start at this index? -/
def Entry (L : Layout) (n t : Nat) : Prop :=
  ∃ i, i ≠ 0 ∧ i < L.count ∧ L.params i = n ∧ L.start i = t

/-- Is there a variable at this offset?  The parameters lie below the two cells that a call saves. -/
def Reaches (L : Layout) (r : Room) : Area → Int → Prop
  | .own, i => (0 ≤ i ∧ i < r.slots) ∨ (-2 - r.params ≤ i ∧ i < -2)
  | .top, i => 0 ≤ i ∧ i < L.top

end Layout

def literalDraft : Literal → Draft
  | .int n => ⟨.loadConst .w32, .int n.toInt⟩
  | .float x => ⟨.loadConst .w64, .float x⟩
  | .string s => ⟨.loadConst .w64, .str s⟩
  | .bool b => ⟨.loadConst .w8, .bool b⟩
  | .null => ⟨.loadNull, .none⟩

def literalType : Literal → Ty
  | .int _ => .int
  | .float _ => .float
  | .string _ => .string
  | .bool _ => .bool
  | .null => .null

/-- The end of a template with so many parts. -/
def templateDraft (count : Nat) : Draft :=
  if count = 0 then ⟨.loadConst .w64, .str ""⟩ else ⟨.buildString, .int count⟩

/-- The branch of `&&` or `||` that skips the right operand. -/
def skipBranch (op : BinaryOp) : Opcode := if op = .either then .branchTrue else .branchFalse

def fieldRule? (t : Ty) (field : String) : Option Rule :=
  (t.namedMemberRule? field).or t.memberRule?

/-- The value that an assignment stores, as an expression: `a op= b` stores `a op b`. -/
def storedExpr (op : AssignOp) (target value : Expr) : Expr :=
  match op.binary? with
  | some o => .binary o target value
  | none => value

/-- May the target be assigned to?  It is no constant, and no part of a binding of the host. -/
def Writable (env : Environment) (c : ScopeChain) : Expr → Prop
  | .name s => ∃ e, c.resolve env s = .ok e ∧ e.constant = false
  | target => ∀ s, Write.baseOf target = .name s →
      ∃ e, c.resolve env s = .ok e ∧ e.location ≠ .external

/-- The code that drops `n` values. -/
inductive DropCode (L : Layout) : Nat → Nat → Nat → Prop
  | none {p} : DropCode L 0 p p
  | some {n p : Nat} (some : n ≠ 0) (drop : L.Has p ⟨.popStack, .int n⟩) : DropCode L n p (p + 1)

/-! ### Expressions -/

section Expressions

variable (L : Layout) (r : Room) (c : ScopeChain)

mutual

/-- The code of an expression: it starts at `p` and ends before `q`, its last instruction was
written as `d`, and `t` and `a` are its static type and whether it can be assigned to. -/
inductive ExprCode : Expr → Nat → Nat → Draft → Ty → Bool → Prop
  | literal {v p} : ExprCode (.literal v) p (p + 1) (literalDraft v) (literalType v) false
  | template {chunks parts p q n} (code : PartsCode chunks parts p q n) :
      ExprCode (.template chunks parts) p (q + 1) (templateDraft n) .string false
  | external {s e p} (name : c.resolve L.environment s = .ok e) (place : e.location = .external) :
      ExprCode (.name s) p (p + 1) ⟨.loadExternal, .str s⟩ e.type false
  | function {s e l n p t} (name : c.resolve L.environment s = .ok e)
      (place : e.location = .entry l) (found : L.address l = some t) (entry : L.Entry n t) :
      ExprCode (.name s) p (p + 1) ⟨.loadFunction, .int (t : Nat)⟩ .function true
  | variable {s e area i p} (name : c.resolve L.environment s = .ok e)
      (place : e.location = .slot i) (own : area = .own ↔ e.frame = c.functionDepth)
      (typed : e.type ≠ .void) (placed : c.Placed r.params s area i)
      (reached : L.Reaches r area i) (shared : area = .top → e.frame = 0) :
      ExprCode (.name s) p (p + 1) ⟨.load area e.type.width, .int i⟩ e.type true
  | update {op side target p q o o' x t a} {u : Bytecode.Update} {rule : Rule}
      (updates : op = .increment ∨ op = .decrement) (code : ExprCode target p q ⟨o, x⟩ t true)
      (writable : Writable L.environment c target) (found : t.unaryRule? op side = some rule)
      (action : rule.action = .update u) (load : Write.updateFor? u o = some o')
      (assignable : a = rule.assignable) :
      ExprCode (.unary op side target) p q ⟨o', x⟩ rule.result a
  | unary {op side operand p q o t} {rule : Rule} (computes : op = .minus ∨ op = .not)
      (code : ValueCode operand p q t) (found : t.unaryRule? op .before = some rule)
      (action : rule.action = .emit o) :
      ExprCode (.unary op side operand) p (q + 1) ⟨o, .none⟩ rule.result rule.assignable
  | binary {op left right p m q o tl tr t} {rule : Rule} (plain : op.isLogical = false)
      (first : ValueCode left p m tl) (second : ValueCode right m q tr)
      (joined : Ty.join? tl tr = some t) (found : t.binaryRule? op = some rule)
      (action : rule.action = .emit o) :
      ExprCode (.binary op left right) p (q + 1) ⟨o, .none⟩ rule.result rule.assignable
  | logical {op left right p m q tl tr t} {rule : Rule} (decides : op.isLogical = true)
      (first : ValueCode left p m tl) (branch : L.Has m ⟨skipBranch op, .int (q + 1 : Nat)⟩)
      (second : ValueCode right (m + 1) q tr) (skip : L.Has q ⟨.jump, .int (q + 2 : Nat)⟩)
      (joined : Ty.join? tl tr = some t) (found : t.binaryRule? op = some rule) :
      ExprCode (.binary op left right) p (q + 2) ⟨.loadConst .w8, .bool (op == .either)⟩ rule.result
        false
  | ternary {test yes no p m k q d ty tn t a} (choice : CondCode test p m (k + 1))
      (first : ValueCode yes m k ty) (skip : L.Has k ⟨.jump, .int (q : Nat)⟩)
      (second : ExprCode no (k + 1) q d tn a) (leaves : tn ≠ .void)
      (joined : Ty.join? ty tn = some t) :
      ExprCode (.ternary test yes no) p q d t false
  | member {object field p q o t} {rule : Rule} (code : ValueCode object p q t)
      (found : fieldRule? t field = some rule) (action : rule.action = .emit o) :
      ExprCode (.member object field) p (q + 1) ⟨o, .str field⟩ rule.result rule.assignable
  | index {object indices p m q o t types} {rule : Rule} (code : ValueCode object p m t)
      (rest : ValuesCode indices m q types) (found : t.elementRule? = some rule)
      (action : rule.action = .emit o) :
      ExprCode (.index object indices) p (q + 1) ⟨o, .int indices.length⟩ rule.result
        rule.assignable
  | callFunction {callee arguments p m q k t types tc a returns}
      (code : ValuesCode arguments p m types)
      (target : ExprCode callee m (q + 1) ⟨.loadFunction, .int (t : Nat)⟩ tc a)
      (entry : L.Entry arguments.length t) (call : L.Has q ⟨.callInternal, .int (t : Nat)⟩)
      (drop : DropCode L arguments.length (q + 1) k) :
      ExprCode (.call callee arguments) p (k + 1) ⟨Write.pushReturnFor returns, .none⟩ returns false
  | callHost {callee arguments p m q o x types tc a} (code : ValuesCode arguments p m types)
      (target : ExprCode callee m (q + 1) ⟨o, x⟩ tc a) (load : L.Has q ⟨o, x⟩)
      (host : o = .loadExternal ∨
        (Write.leavesHostFunction o = true ∧ (tc = .any ∨ tc = .function)))
      (call : L.Has (q + 1) ⟨.callExternal, .int arguments.length⟩) :
      ExprCode (.call callee arguments) p (q + 3) ⟨.pushReturn .w64, .none⟩ .any false
  | assign {op target value p m q o o' x tv t} (stored : ValueCode (storedExpr op target value) p m tv)
      (code : ExprCode target m q ⟨o, x⟩ t true) (writable : Writable L.environment c target)
      (accepted : t.accepts tv = true) (load : Write.storeFor? o = some o') :
      ExprCode (.assign op target value) p q ⟨o', x⟩ .void false
  | array {items p q types} (code : ValuesCode items p q types) :
      ExprCode (.array items) p (q + 1) ⟨.newArray, .int items.length⟩ .array false
  | set {items p q types} (code : ValuesCode items p q types) :
      ExprCode (.set items) p (q + 1) ⟨.newSet, .int items.length⟩ .set false
  | object {fields p q} (code : FieldsCode fields p q) :
      ExprCode (.object fields) p (q + 1) ⟨.newObject, .int fields.length⟩ .object false

/-- The code of an expression that leaves a value, with its last instruction in place. -/
inductive ValueCode : Expr → Nat → Nat → Ty → Prop
  | value {e p q d t a} (code : ExprCode e p (q + 1) d t a) (last : L.Has q d)
      (leaves : t ≠ .void) : ValueCode e p (q + 1) t

/-- The code of values, one behind the other. -/
inductive ValuesCode : List Expr → Nat → Nat → List Ty → Prop
  | nil {p} : ValuesCode [] p p []
  | cons {e rest p m q t types} (first : ValueCode e p m t) (others : ValuesCode rest m q types) :
      ValuesCode (e :: rest) p q (t :: types)

/-- The code of the fields of an object: for each one its name and its value. -/
inductive FieldsCode : List (String × Expr) → Nat → Nat → Prop
  | nil {p} : FieldsCode [] p p
  | cons {key e rest p m q t} (name : L.Has p ⟨.loadConst .w64, .str key⟩)
      (first : ValueCode e (p + 1) m t) (others : FieldsCode rest m q) :
      FieldsCode ((key, e) :: rest) p q

/-- The code of the parts of a template, of which there are `n`. -/
inductive PartsCode : List String → List Expr → Nat → Nat → Nat → Prop
  | done {parts p} : PartsCode [] parts p p 0
  | text {chunk chunks parts p q n} (some : chunk.isEmpty = false)
      (load : L.Has p ⟨.loadConst .w64, .str chunk⟩) (rest : PieceCode chunks parts (p + 1) q n) :
      PartsCode (chunk :: chunks) parts p q (n + 1)
  | noText {chunk chunks parts p q n} (none : chunk.isEmpty = true)
      (rest : PieceCode chunks parts p q n) : PartsCode (chunk :: chunks) parts p q n

/-- The code of the parts of a template from the expression behind a text on. -/
inductive PieceCode : List String → List Expr → Nat → Nat → Nat → Prop
  | none {chunks p q n} (rest : PartsCode chunks [] p q n) : PieceCode chunks [] p q n
  | some {chunks e parts p m q n t} (code : ValueCode e p m t)
      (rest : PartsCode chunks parts m q n) : PieceCode chunks (e :: parts) p q (n + 1)

/-- The code of a condition: it goes on behind its end if the condition holds, else at `no`.  A
comparison of integers can be one with the branch. -/
inductive CondCode : Expr → Nat → Nat → Nat → Prop
  | branch {e p q no t} (code : ValueCode e p q t)
      (branch : L.Has q ⟨.branchFalse, .int (no : Nat)⟩) : CondCode e p (q + 1) no
  | merged {op rel left right p m q no tl tr t} {rule : Rule} (plain : op.isLogical = false)
      (first : ValueCode left p m tl) (second : ValueCode right m q tr)
      (joined : Ty.join? tl tr = some t) (found : t.binaryRule? op = some rule)
      (action : rule.action = .emit (.compare .int rel))
      (branch : L.Has q ⟨.branchInt (Write.negation rel), .int (no : Nat)⟩) :
      CondCode (.binary op left right) p (q + 1) no

end

/-- The code of an expression that leaves nothing behind: a value is dropped. -/
inductive DroppedCode : Expr → Nat → Nat → Prop
  | void {e p q d a} (code : ExprCode L r c e p (q + 1) d .void a) (last : L.Has q d) :
      DroppedCode e p (q + 1)
  | drop {e p q t} (code : ValueCode L r c e p q t) (drop : L.Has q ⟨.popStack, .int (1 : Nat)⟩) :
      DroppedCode e p (q + 1)

end Expressions

/-! ### Statements -/

/-- What the functions of a statement list add to the scopes. -/
inductive Hoists : ScopeChain → List Stmt → ScopeChain → Prop
  | nil {c} : Hoists c [] c
  | function {c c₁ c' name params returns body rest l s e}
      (declared : c.declareFunction name l s = (.ok e, c₁)) (others : Hoists c₁ rest c') :
      Hoists c (.function name params returns body :: rest) c'
  | other {c c' s rest} (plain : ∀ name params returns body, s ≠ .function name params returns body)
      (others : Hoists c rest c') : Hoists c (s :: rest) c'

theorem Hoists.names {c c' : ScopeChain} {body : List Stmt} (h : Hoists c body c') :
    c'.context = c.context.hoist body := by
  induction h with
  | nil => rfl
  | function declared _ ih => rw [ih, ScopeChain.context_declareFunction declared, Context.hoist]
  | other plain _ ih =>
    rw [ih, Context.hoist]
    exact plain

/-- The code that a declaration adds behind the initial value, whose type is `found`: a conversion
that makes it fit.  The variable gets the type `t`. -/
inductive InitialCode (L : Layout) : Ty → Ty → Nat → Nat → Ty → Prop
  | any {found p} : InitialCode L .any found p p (if found == .null then .any else found)
  | same {declared found p} (typed : declared ≠ .any) (accepted : declared.accepts found = true) :
      InitialCode L declared found p p declared
  | convert {declared found p o} (typed : declared ≠ .any)
      (refused : declared.accepts found = false) (conversion : found.conversion? declared = some o)
      (code : L.Has p ⟨o, .none⟩) : InitialCode L declared found p (p + 1) declared

/-- The code of a loop's step. -/
inductive StepCode (L : Layout) (r : Room) (c : ScopeChain) : Option Expr → Nat → Nat → Prop
  | none {p} : StepCode L r c none p p
  | some {e p q} (code : DroppedCode L r c e p q) : StepCode L r c (some e) p q

section Statements

variable (L : Layout) (r : Room)

mutual

/-- The code of a statement, which turns the scopes `c` into `c'`.  `exits` are the ends of the open
loops, innermost first. -/
inductive StmtCode : List Nat → ScopeChain → Stmt → ScopeChain → Nat → Nat → Prop
  | expr {exits c e p q} (code : DroppedCode L r c e p q) : StmtCode exits c (.expr e) c p q
  | declare {exits c c' d p t e} (missing : d.initial = none) (typed : Ty.ofText? d.typeName = some t)
      (declared : c.declareLocal d.name d.constant t = (.ok e, c'))
      (reached : L.Reaches r .own c.frame.size) : StmtCode exits c (.declare d) c' p p
  | initial {exits c c' d init p m q t found t' e} (given : d.initial = some init)
      (typed : Ty.ofText? d.typeName = some t) (code : ValueCode L r c init p m found)
      (converted : InitialCode L t found m q t')
      (declared : c.declareLocal d.name d.constant t' = (.ok e, c'))
      (reached : L.Reaches r .own c.frame.size)
      (store : L.Has q ⟨.store .own t'.width, .int c.frame.size⟩) :
      StmtCode exits c (.declare d) c' p (q + 1)
  | function {exits c c' name params returns body p}
      (declared : c' = c ∧ c.inner.declares name = true ∨
        ∃ l s e, c.declareFunction name l s = (.ok e, c')) :
      StmtCode exits c (.function name params returns body) c' p p
  | block {exits c c₁ c₂ body p q} (functions : Hoists c.beginScope body c₁)
      (code : StmtsCode exits c₁ body c₂ p q) : StmtCode exits c (.block body) c₂.endScope p q
  | cond {exits c c' test yes p m q} (choice : CondCode L r c test p m q)
      (first : StmtCode exits c yes c' m q) : StmtCode exits c (.cond test yes none) c' p q
  | condElse {exits c c₁ c' test yes no p m k q} (choice : CondCode L r c test p m (k + 1))
      (first : StmtCode exits c yes c₁ m k) (skip : L.Has k ⟨.jump, .int (q : Nat)⟩)
      (second : StmtCode exits c₁ no c' (k + 1) q) :
      StmtCode exits c (.cond test yes (some no)) c' p q
  | loop {exits c c₁ c₂ initial test step body p start m k q} (before : StartCode exits c initial c₁ p start)
      (choice : CondCode L r c₁ test start m (q + 1))
      (code : StmtCode ((q + 1) :: exits) c₁ body c₂ m k) (after : StepCode L r c₂ step k q)
      (back : L.Has q ⟨.jump, .int (start : Nat)⟩) :
      StmtCode exits c (.loop initial (some test) step (some body))
        (if initial.isSome then c₂.endScope else c₂) p (q + 1)
  | brk {exits c level p exit} (positive : level ≠ 0) (target : exits[level - 1]? = some exit)
      (jump : L.Has p ⟨.jump, .int (exit : Nat)⟩) : StmtCode exits c (.brk level) c p (p + 1)
  | stopNull {exits c p} (outside : c.functionDepth = 0) (null : L.Has p ⟨.loadNull, .none⟩)
      (stop : L.Has (p + 1) ⟨.term, .none⟩) : StmtCode exits c (.ret none) c p (p + 2)
  | stop {exits c e p q t} (outside : c.functionDepth = 0) (code : ValueCode L r c e p q t)
      (stop : L.Has q ⟨.term, .none⟩) : StmtCode exits c (.ret (some e)) c p (q + 1)
  | leaveNull {exits c p} (inside : c.functionDepth ≠ 0) (leave : L.Has p ⟨.ret, .none⟩) :
      StmtCode exits c (.ret none) c p (p + 1)
  | leave {exits c e p q t} (inside : c.functionDepth ≠ 0) (code : ValueCode L r c e p q t)
      (leave : L.Has q ⟨.retWith t.width, .none⟩) : StmtCode exits c (.ret (some e)) c p (q + 1)
  | empty {exits c p} : StmtCode exits c .empty c p p

/-- The code of statements, one behind the other. -/
inductive StmtsCode : List Nat → ScopeChain → List Stmt → ScopeChain → Nat → Nat → Prop
  | nil {exits c p} : StmtsCode exits c [] c p p
  | cons {exits c c₁ c' s rest p m q} (first : StmtCode exits c s c₁ p m)
      (others : StmtsCode exits c₁ rest c' m q) : StmtsCode exits c (s :: rest) c' p q

/-- The code of a loop's first part.  If there is one, it stands in a block of its own. -/
inductive StartCode : List Nat → ScopeChain → Option Stmt → ScopeChain → Nat → Nat → Prop
  | none {exits c p} : StartCode exits c none c p p
  | some {exits c c' s p q} (code : StmtCode exits c.beginScope s c' p q) :
      StartCode exits c (some s) c' p q

end

/-- The code of a program's last statement, and whether it leaves a value. -/
inductive LastCode : ScopeChain → Stmt → ScopeChain → Nat → Nat → Bool → Prop
  | value {c e p q t} (code : ValueCode L r c e p q t) : LastCode c (.expr e) c p q true
  | void {c e p q d a} (code : ExprCode L r c e p (q + 1) d .void a) (last : L.Has q d) :
      LastCode c (.expr e) c p (q + 1) false
  | other {c c' s p q} (plain : ∀ e, s ≠ .expr e) (code : StmtCode L r [] c s c' p q) :
      LastCode c s c' p q false

/-- The code of a program's statements, and whether the last one leaves a value. -/
inductive TopCode : ScopeChain → List Stmt → Nat → Nat → Bool → Prop
  | nil {c p} : TopCode c [] p p false
  | last {c c' s p q kept} (code : LastCode L r c s c' p q kept) : TopCode c [s] p q kept
  | cons {c c' s next rest p m q kept} (first : StmtCode L r [] c s c' p m)
      (others : TopCode c' (next :: rest) m q kept) : TopCode c (s :: next :: rest) p q kept

end Statements

/-! ### Functions and programs -/

/-- The code of the `i`th function: room for its variables, its body, and a return. -/
inductive FunctionCode (L : Layout) (f : Function) (i : Nat) : Prop
  | function {slots c c₁ c' q} (names : c.context = f.context)
      (room : L.Has (L.start i) ⟨.allocStack, .int (slots : Nat)⟩) (functions : Hoists c f.body c₁)
      (code : StmtsCode L ⟨f.params.length, slots⟩ [] c₁ f.body c' (L.start i + 1) q)
      (leave : L.Has q ⟨.ret, .none⟩) (stop : L.stop i = q + 1)
      (owned : ∀ a, L.start i ≤ a → a ≤ q → L.roomOf a = ⟨f.params.length, slots⟩)

/-- The code of a program: the main stream, and the functions. -/
structure ProgramCode (L : Layout) (body : List Stmt) : Prop where
  version : L.program.version = currentVersion
  room : L.Has 0 ⟨.allocStack, .int L.top⟩
  main : ∃ c q kept, Hoists .empty body c ∧ TopCode L ⟨0, L.top⟩ c body 1 q kept ∧
    (∀ a ≤ q, L.roomOf a = ⟨0, L.top⟩) ∧
    (kept = true ∧ L.Has q ⟨.term, .none⟩ ∧ L.stop 0 = q + 1 ∨
      kept = false ∧ L.Has q ⟨.loadNull, .none⟩ ∧ L.Has (q + 1) ⟨.term, .none⟩ ∧
        L.roomOf (q + 1) = ⟨0, L.top⟩ ∧ L.stop 0 = q + 2)
  start : L.start 0 = 0
  count : L.count = (programFunctions body).length
  /-- All functions of the program are there. -/
  functions : ∀ i f, i ≠ 0 → (programFunctions body)[i]? = some f →
    L.params i = f.params.length ∧ FunctionCode L f i

/-- Where a function is said to start, there is one. -/
theorem ProgramCode.entry {L : Layout} {body : List Stmt} (h : ProgramCode L body) {n t : Nat}
    (he : L.Entry n t) : ∃ i f, i ≠ 0 ∧ i < L.count ∧ (programFunctions body)[i]? = some f ∧
      f.params.length = n ∧ L.start i = t ∧ FunctionCode L f i := by
  obtain ⟨i, hi, hlt, hn, ht⟩ := he
  have hf := List.getElem?_eq_getElem (h.count ▸ hlt)
  obtain ⟨hparams, hcode⟩ := h.functions i _ hi hf
  exact ⟨i, _, hi, hlt, hf, hparams.symm.trans hn, ht, hcode⟩

end StackScript.Assembly
