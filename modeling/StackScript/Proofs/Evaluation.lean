import StackScript.Proofs.CodeShape
import StackScript.Proofs.Effects

/-!
# Direct evaluation

What a program without calls means, read off its tree.

* `typeOf?`: the static type of an expression, from the rules for the operators.
* `expr`: the value of an expression.  An operator computes what the operation computes that the rule
  for the static types of its operands names.
* `stmt`: what a statement does.  A loop that is left and a return end an evaluation early (`Exit`).
* `evaluate`: the end of a program, if no loop in it goes round more than so many times.

No name is declared twice in a frame, so the variables of a program without functions are known by
their names.  They are there from the start: a declaration without an initial value does nothing.
-/

namespace StackScript.Machine

/-- The fault without the place in a program at which it came up. -/
def Fault.unplaced : Fault → Fault
  | .stackUnderflow _ => .stackUnderflow 0
  | .invalidOperand op _ => .invalidOperand op 0
  | .invalidSlot slot _ => .invalidSlot slot 0
  | .outOfBounds _ => .outOfBounds 0
  | f => f

end StackScript.Machine

namespace StackScript.Evaluation

open Typing Bytecode Host Syntax Machine Assembly

/-- The variables that are visible, with their static types: those of each open block, innermost
first. -/
abbrev Names := List (List (String × Ty))

namespace Names

def find? (Γ : Names) (name : String) : Option Ty := Γ.findSome? (·.lookup name)

def declare (Γ : Names) (name : String) (type : Ty) : Names :=
  match Γ with
  | [] => [[(name, type)]]
  | block :: rest => ((name, type) :: block) :: rest

end Names

/-- What an evaluation works on: the values of the variables, and all that is not on the machine's
stack. -/
structure Memory where
  vars : String → Value
  world : World

/-- Why an evaluation ends early. -/
inductive Exit where
  | fault (f : Fault)
  /-- A loop is left, and so many around it. -/
  | leave (more : Nat)
  | stop (v : Value)
  /-- There is no rule for an operation. -/
  | illTyped
  /-- A loop goes round too often. -/
  | unfinished

/-- Evaluations. -/
abbrev Eval := EStateM Exit Memory

def readVariable (name : String) : Eval Value := return (← get).vars name

def setVariable (name : String) (v : Value) : Eval Unit := modify fun μ =>
  { μ with vars := fun other => if other = name then v else μ.vars other }

def orFault {α : Type} : Except Fault α → Eval α
  | .ok a => return a
  | .error f => throw (.fault f.unplaced)

def literalValue : Literal → Value
  | .int n => .int n
  | .float x => .float x
  | .string s => .str s
  | .bool b => .bool b
  | .null => .null

/-! ### Static types -/

def opcode? (rule : Rule) : Option Opcode :=
  match rule.action with
  | .emit op => some op
  | _ => none

/-- The operation of an operator on one operand of a type. -/
def unaryOpcode? (op : UnaryOp) (type : Option Ty) : Option Opcode := do
  opcode? (← (← type).unaryRule? op .before)

/-- The operation of an operator between operands of two types. -/
def binaryOpcode? (op : BinaryOp) (left right : Option Ty) : Option Opcode := do
  opcode? (← (← Ty.join? (← left) (← right)).binaryRule? op)

def memberOpcode? (type : Option Ty) (field : String) : Option Opcode := do
  opcode? (← fieldRule? (← type) field)

def elementOpcode? (type : Option Ty) : Option Opcode := do
  opcode? (← (← type).elementRule?)

section

variable (environment : Environment)

def typeOf? (Γ : Names) : Expr → Option Ty
  | .literal v => some (literalType v)
  | .template _ _ => some .string
  | .name s => (Γ.find? s).or ((environment.get? s).map (·.type))
  | .unary op _ operand => do return (← (← typeOf? Γ operand).unaryRule? op .before).result
  | .binary op left right => do
    return (← (← Ty.join? (← typeOf? Γ left) (← typeOf? Γ right)).binaryRule? op).result
  | .member object field => do return (← fieldRule? (← typeOf? Γ object) field).result
  | .index object _ => do return (← (← typeOf? Γ object).elementRule?).result
  | .call _ _ => none
  | .assign _ _ _ => some .void
  | .array _ => some .array
  | .set _ => some .set
  | .object _ => some .object
  | .ternary _ yes no => do Ty.join? (← typeOf? Γ yes) (← typeOf? Γ no)

/-- The type of the variable that a declaration makes. -/
def declaredType? (Γ : Names) (d : Declaration) : Option Ty := do
  let declared ← Ty.ofText? d.typeName
  match d.initial with
  | none => return declared
  | some initial =>
    let found ← typeOf? environment Γ initial
    return if declared == .any then if found == .null then .any else found else declared

mutual

/-- The names that are visible behind a statement. -/
def after (Γ : Names) : Stmt → Names
  | .declare d =>
    match declaredType? environment Γ d with
    | some t => Γ.declare d.name t
    | none => Γ
  | .cond _ yes no => after? (after Γ yes) no
  | .loop none _ _ body => after? Γ body
  | _ => Γ

def after? (Γ : Names) : Option Stmt → Names
  | none => Γ
  | some s => after Γ s

end

end

/-! ### Expressions -/

section

variable (limits : Limits) (environment : Environment)

/-- What an operation makes of operands: the value that it leaves, or null if it leaves none. -/
def operate (op : Option Opcode) (x : Operand) (operands : List Value) : Eval Value := fun μ =>
  match op with
  | none => .error .illTyped μ
  | some op =>
    match Exec.perform limits environment op x (μ.world.state operands.toArray 0 0) with
    | .ok _ s => .ok (s.stack.back?.getD .null) { μ with world := s.world }
    | .error f s => .error (.fault f.unplaced) { μ with world := s.world }

mutual

/-- The value of an expression; null for an assignment or an update, which leaves none. -/
def expr (Γ : Names) : Expr → Eval Value
  | .literal v => return literalValue v
  | .template chunks parts => do
    let vs ← pieces Γ chunks parts
    operate limits environment (some .buildString) (.int vs.length) vs
  | .name s =>
    match Γ.find? s with
    | some _ => readVariable s
    | none => operate limits environment (some .loadExternal) (.str s) []
  | .unary op _ operand =>
    match op with
    | .increment => update Γ .increment operand
    | .decrement => update Γ .decrement operand
    | .minus | .not => do
      let v ← expr Γ operand
      operate limits environment (unaryOpcode? op (typeOf? environment Γ operand)) .none [v]
  | .binary op left right => do
    let a ← expr Γ left
    match op with
    | .both => if a.isTruthy then expr Γ right else return .bool false
    | .either => if a.isTruthy then return .bool true else expr Γ right
    | op =>
      let b ← expr Γ right
      operate limits environment
        (binaryOpcode? op (typeOf? environment Γ left) (typeOf? environment Γ right)) .none [a, b]
  | .member object field => do
    let v ← expr Γ object
    operate limits environment (memberOpcode? (typeOf? environment Γ object) field) (.str field) [v]
  | .index object indices => do
    let v ← expr Γ object
    let is ← exprs Γ indices
    operate limits environment (elementOpcode? (typeOf? environment Γ object)) (.int indices.length)
      (v :: is)
  | .call _ _ => throw .illTyped
  | .assign op target value => do
    match op.binary? with
    | none => store Γ target (← expr Γ value)
    | some op =>
      let old ← expr Γ target
      let amount ← expr Γ value
      let new ← operate limits environment
        (binaryOpcode? op (typeOf? environment Γ target) (typeOf? environment Γ value)) .none [old, amount]
      store Γ target new
  | .array items => do
    let vs ← exprs Γ items
    operate limits environment (some .newArray) (.int items.length) vs
  | .set items => do
    let vs ← exprs Γ items
    operate limits environment (some .newSet) (.int items.length) vs
  | .object fields => do
    let vs ← fieldValues Γ fields
    operate limits environment (some .newObject) (.int fields.length) vs
  | .ternary test yes no => do
    if (← expr Γ test).isTruthy then expr Γ yes else expr Γ no

def exprs (Γ : Names) : List Expr → Eval (List Value)
  | [] => return []
  | e :: rest => do
    let v ← expr Γ e
    let vs ← exprs Γ rest
    return v :: vs

/-- The names and values of some fields, by turns. -/
def fieldValues (Γ : Names) : List (String × Expr) → Eval (List Value)
  | [] => return []
  | f :: rest => do
    let v ← fieldValue Γ f
    let vs ← fieldValues Γ rest
    return .str f.1 :: v :: vs

def fieldValue (Γ : Names) : String × Expr → Eval Value
  | (_, e) => expr Γ e

/-- The parts of a template: each text, if it is not empty, and the value behind it. -/
def pieces (Γ : Names) : List String → List Expr → Eval (List Value)
  | [], _ => return []
  | chunks, [] => return (chunks.filter fun chunk => !chunk.isEmpty).map .str
  | chunk :: chunks, e :: parts => do
    let v ← expr Γ e
    let vs ← pieces Γ chunks parts
    return if chunk.isEmpty then v :: vs else .str chunk :: v :: vs

/-- Stores a value: first the container and the indices of the target are evaluated. -/
def store (Γ : Names) : Expr → Value → Eval Value
  | .name s, v => do
    setVariable s v
    return .null
  | .member object field, v => do
    let container ← expr Γ object
    operate limits environment (some (.storeMember .w64)) (.str field) [v, container]
  | .index object indices, v => do
    let container ← expr Γ object
    let is ← exprs Γ indices
    operate limits environment (some (.storeElement .w64)) (.int indices.length) (v :: container :: is)
  | _, _ => throw .illTyped

/-- Updates a variable, a field or an element in place. -/
def update (Γ : Names) (u : Bytecode.Update) : Expr → Eval Value
  | .name s => do
    let v ← readVariable s
    setVariable s (← orFault (bump u v))
    return .null
  | .member object field => do
    let container ← expr Γ object
    operate limits environment (some (.updateMember u)) (.str field) [container]
  | .index object indices => do
    let container ← expr Γ object
    let is ← exprs Γ indices
    operate limits environment (some (.updateElement u)) (.int indices.length) (container :: is)
  | _ => throw .illTyped

end

/-! ### Statements -/

/-- Converts the initial value of a variable, where only that makes it fit. -/
def convert (declared found : Ty) (v : Value) : Eval Value :=
  if declared == .any || declared.accepts found then return v
  else operate limits environment (found.conversion? declared) .none [v]

/-- Goes round so many times at most; a round answers whether there is another one. -/
def rounds (round : Eval Bool) : Nat → Eval Unit
  | 0 => throw .unfinished
  | n + 1 => do if ← round then rounds round n

/-- The edge of a loop: who leaves it goes on behind it, or leaves the loops around it. -/
def edge (loop : Eval Unit) : Eval Unit := fun μ =>
  match loop μ with
  | .error (.leave 0) μ => .ok () μ
  | .error (.leave (more + 1)) μ => .error (.leave more) μ
  | r => r

def loop (n : Nat) (test : Eval Value) (body step : Eval Unit) : Eval Unit :=
  edge (rounds (do
    if (← test).isTruthy then
      body
      step
      return true
    else return false) n)

/-- An expression that may be missing; its value is dropped. -/
def expr? (Γ : Names) : Option Expr → Eval Unit
  | none => return
  | some e => discard (expr limits environment Γ e)

variable (n : Nat)

mutual

/-- Carries out a statement, in which no loop goes round more than `n` times. -/
def stmt (Γ : Names) : Stmt → Eval Unit
  | .expr e => discard (expr limits environment Γ e)
  | .declare d =>
    match d.initial, Ty.ofText? d.typeName with
    | none, _ => return
    | some initial, some declared => do
      let v ← expr limits environment Γ initial
      match typeOf? environment Γ initial with
      | some found => setVariable d.name (← convert limits environment declared found v)
      | none => throw .illTyped
    | _, _ => throw .illTyped
  | .function _ _ _ _ => return
  | .block body => stmts ([] :: Γ) body
  | .cond test yes no => do
    if (← expr limits environment Γ test).isTruthy then stmt Γ yes
    else stmt? (after environment Γ yes) no
  | .loop none (some test) step (some body) =>
    loop n (expr limits environment Γ test) (stmt Γ body)
      (expr? limits environment (after environment Γ body) step)
  | .loop (some initial) (some test) step (some body) => do
    stmt ([] :: Γ) initial
    let Γ := after environment ([] :: Γ) initial
    loop n (expr limits environment Γ test) (stmt Γ body)
      (expr? limits environment (after environment Γ body) step)
  | .loop _ _ _ _ => throw .illTyped
  | .brk level => throw (.leave (level - 1))
  | .ret none => throw (.stop .null)
  | .ret (some e) => do throw (.stop (← expr limits environment Γ e))
  | .empty => return

def stmts (Γ : Names) : List Stmt → Eval Unit
  | [] => return
  | s :: rest => do
    stmt Γ s
    stmts (after environment Γ s) rest

def stmt? (Γ : Names) : Option Stmt → Eval Unit
  | none => return
  | some s => stmt Γ s

end

/-- The value of a program: that of its last statement if it is an expression that has one, else
null. -/
def program (Γ : Names) : List Stmt → Eval Value
  | [] => return .null
  | [.expr e] => do
    let v ← expr limits environment Γ e
    return if typeOf? environment Γ e = some .void then .null else v
  | s :: rest => do
    stmt limits environment n Γ s
    program (after environment Γ s) rest

/-- How an evaluation ends. -/
inductive Ending where
  /-- With a value or a fault, and what the program leaves of the world. -/
  | ended (result : Except Fault Value) (world : World)
  /-- Some loop goes round too often. -/
  | unfinished
  /-- Some operation has no rule, or a loop is left where there is none. -/
  | meaningless

/-- Evaluates a program, in which no loop goes round more than `n` times.  All variables are null at
first. -/
def evaluate (body : List Stmt) (world : World) : Ending :=
  match program limits environment n [[]] body ⟨fun _ => .null, world⟩ with
  | .ok v μ | .error (.stop v) μ => .ended (.ok v) μ.world
  | .error (.fault f) μ => .ended (.error f) μ.world
  | .error .unfinished _ => .unfinished
  | .error (.leave _) _ | .error .illTyped _ => .meaningless

end

end StackScript.Evaluation
