import StackScript.Assembly.Writer

/-!
# The code of expressions

The code of an expression leaves one value on the stack; assignments and updates, whose type is
`void`, leave none.  Each kind of expression has a function that puts its code together from the
code of its parts; `writeExpr` applies them down the tree.

An assignment writes the value first and then the target as if it were read; the load at its end
becomes the store.  `a op= b` is written as `a = a op b`, so the target of a compound assignment is
evaluated twice.
-/

namespace StackScript.Assembly

open Typing Bytecode Host Syntax

namespace Write

def value (code : Write Unit) (usage : Usage) : Write Unit := do
  code
  if (← lastType) == .void then throw (.noValue usage)

def typedValue (code : Write Unit) (usage : Usage) : Write Ty := do
  value code usage
  lastType

/-! ### Constants, templates and collections -/

def literal : Literal → Write Unit
  | .int n => do put (.loadConst .w32) (.int n.toInt); setType .int false
  | .float x => do put (.loadConst .w64) (.float x); setType .float false
  | .string s => do put (.loadConst .w64) (.str s); setType .string false
  | .bool b => do put (.loadConst .w8) (.bool b); setType .bool false
  | .null => do put .loadNull .none; setType .null false

/-- What is written for the expression behind a text, if there is one, and the later expressions. -/
def templatePart : List (Write Unit) → Write Nat × List (Write Unit)
  | [] => (pure 0, [])
  | code :: parts => (do value code .interpolation; return 1, parts)

/-- The texts of a template, each with the expression behind it; an empty text is left out, and so
are expressions behind the last text.  The answer is the number of parts. -/
def templateParts : List String → List (Write Unit) → Write Nat
  | [], _ => return 0
  | chunk :: chunks, parts => do
    let text ← if chunk.isEmpty then pure 0 else do put (.loadConst .w64) (.str chunk); pure 1
    let (part, parts) := templatePart parts
    let count ← part
    return text + count + (← templateParts chunks parts)

def template (chunks : List String) (parts : List (Write Unit)) : Write Unit := do
  let count ← templateParts chunks parts
  if count == 0 then put (.loadConst .w64) (.str "") else put .buildString (.int count)
  setType .string false

def collection (items : List (Write Unit)) (op : Opcode) (type : Ty) : Write Unit := do
  items.forM fun item => value item .collectionElement
  put op (.int items.length)
  setType type false

def object (fields : List (String × Write Unit)) : Write Unit := do
  fields.forM fun (name, code) => do
    put (.loadConst .w64) (.str name)
    value code .objectField
  put .newObject (.int fields.length)
  setType .object false

/-! ### Names -/

/-- The frame that holds a variable: that of the running function or that of the top level.  The
variables of a function in between cannot be reached. -/
def areaOf (e : Entity) : Write Area := do
  if e.frame == (← get).scopes.functionDepth then return .own
  else if e.frame == 0 then return .top
  else throw (.unsupportedCapture e.name)

def name (setting : Setting) (s : String) : Write Unit := do
  let e ← resolveName setting s
  modify fun w => { w with callee := none }
  match e.location with
  | .external =>
    put .loadExternal (.str s)
    setType e.type false
  | .entry l =>
    put .loadFunction (.label l)
    setType .function true
    modify fun w => { w with callee := e.signature.map fun signature => (e.name, signature) }
  | .slot offset =>
    let area ← areaOf e
    applyRule (← findRule e.type (.loadSlot area)) (.int offset)

/-- The expression that members and indices are taken of. -/
def baseOf : Expr → Expr
  | .member object _ => baseOf object
  | .index object _ => baseOf object
  | e => e

/-- Fails if a target is a constant, or a part of a binding of the host. -/
def checkAssignable (setting : Setting) (target : Expr) : Write Unit := do
  match target with
  | .name s =>
    if (← resolveName setting s).constant then throw (.assignToConstant s)
  | _ =>
    match baseOf target with
    | .name s =>
      if (← resolveName setting s).location == .external then throw (.assignToConstant s)
    | _ => pure ()

/-- A target, written as if it were read; its type is the answer. -/
def assignmentTarget (setting : Setting) (target : Expr) (code : Write Unit) : Write Ty := do
  checkAssignable setting target
  code
  if !(← get).assignable then throw .invalidAssignmentTarget
  lastType

/-! ### Operators -/

def update (setting : Setting) (op : UnaryOp) (side : Side) (target : Expr) (code : Write Unit) :
    Write Unit := do
  let type ← assignmentTarget setting target code
  applyRule (← findRule type (.unary op side)) .none

def unary (op : UnaryOp) (code : Write Unit) : Write Unit := do
  let type ← typedValue code .unaryOperand
  applyRule (← findRule type (.unary op .before)) .none

/-- An operator between two operands, both of which are evaluated. -/
def binary (op : BinaryOp) (left right : Write Unit) : Write Unit := do
  let usage := Usage.operandOf op.text
  let leftType ← typedValue left usage
  let rightType ← typedValue right usage
  let type ← joinTypes leftType rightType usage
  applyRule (← findRule type (.binary op)) .none

/-- `&&` and `||`: a branch skips the right operand when the left one decides, and the result is the
constant that it decides. -/
def logical (op : BinaryOp) (left right : Write Unit) : Write Unit := do
  let usage := Usage.operandOf op.text
  let isEither := op == .either
  let leftType ← typedValue left usage
  let branch ← emit (if isEither then .branchTrue else .branchFalse) .none
  let rightType ← typedValue right usage
  let type ← joinTypes leftType rightType usage
  let rule ← findShortCircuit type (.binary op)
  let skip ← emit .jump .none
  patch branch (← openLabel)
  put (.loadConst .w8) (.bool isEither)
  patch skip (← openLabel)
  setType rule.result false

def ternary (setting : Setting) (test yes no : Write Unit) : Write Unit := do
  value test .ternaryTest
  let branch ← emitBranchIfFalse setting
  let yesType ← typedValue yes .ternaryArm
  let skip ← emit .jump .none
  patch branch (← openLabel)
  let noType ← typedValue no .ternaryArm
  patch skip (← openLabel)
  setType (← joinTypes yesType noType .ternaryArms) false

/-! ### Members and elements -/

def member (code : Write Unit) (field : String) : Write Unit := do
  let type ← typedValue code .memberAccess
  let rule ← orThrow (.unknownOperator (type.name ++ "." ++ field))
    ((type.namedMemberRule? field).or type.memberRule?)
  applyRule rule (.str field)

def index (code : Write Unit) (indices : List (Write Unit)) : Write Unit := do
  let type ← typedValue code .indexedAccess
  indices.forM fun i => value i .index
  let rule ← orThrow (.unknownOperator (type.name ++ "[]")) type.elementRule?
  applyRule rule (.int indices.length)

/-! ### Assignments -/

/-- An assignment of the value that `code` leaves. -/
def assign (setting : Setting) (code : Write Unit) (target : Expr) (targetCode : Write Unit) :
    Write Unit := do
  code
  let found ← lastType
  let expected ← assignmentTarget setting target targetCode
  if !expected.accepts found then throw (.typeMismatch expected found .assignment)
  replaceLoad storeFor?
  setType .void false

/-! ### Calls -/

/-- The operation that brings back the result of a call. -/
def pushReturnFor (type : Ty) : Opcode := .pushReturn type.width

/-- Checks arguments against a signature, from the given position on. -/
def checkArguments (function : String) : Nat → List Ty → List Ty → Write Unit
  | position, expected :: params, found :: arguments => do
    if !expected.accepts found then
      throw (.typeMismatch expected found (.argumentOf position function))
    checkArguments function (position + 1) params arguments
  | _, _, _ => return ()

/-- Turns the load of a function written last into a call of it. -/
def callFunction (arguments : List Ty) (callee : Option (String × Signature)) : Write Unit := do
  let (function, signature) ← orThrow .calleeWithoutSignature callee
  if signature.params.length != arguments.length then
    throw (.arityMismatch function signature.params.length arguments.length)
  checkArguments function 1 signature.params arguments
  changeLast fun d => { d with opcode := .callInternal }
  if !arguments.isEmpty then put .popStack (.int arguments.length)
  put (pushReturnFor signature.returns) .none
  setType signature.returns false

/-- Calls the value on the stack as a function of the host. -/
def callHost (count : Nat) : Write Unit := do
  put .callExternal (.int count)
  put (.pushReturn .w64) .none
  setType .any false

/-- Can a value that this operation leaves be a function of the host? -/
def leavesHostFunction : Opcode → Bool
  | .load _ .w64 | .loadMember .w64 | .loadElement .w64 => true
  | _ => false

/-- A call: the arguments, then the callee.  The operation at the end of the callee's code decides
what kind of call it is. -/
def call (arguments : List (Write Unit)) (callee : Write Unit) : Write Unit := do
  let types ← arguments.mapM fun a => typedValue a .argument
  callee
  let type ← lastType
  let known := (← get).callee
  modify fun w => { w with callee := none }
  match ← lastOpcode with
  | some .loadFunction => callFunction types known
  | some .loadExternal => callHost types.length
  | some op =>
    if leavesHostFunction op && (type == .any || type == .function) then callHost types.length
    else throw (.notCallable type)
  | none => throw (.notCallable type)

/-! ### Trees -/

mutual

def expr (setting : Setting) : Expr → Write Unit
  | .literal v => literal v
  | .template chunks parts => template chunks (exprs setting parts)
  | .name s => name setting s
  | .unary op side operand =>
    match op with
    | .increment | .decrement => update setting op side operand (expr setting operand)
    | .minus | .not => unary op (expr setting operand)
  | .binary op left right =>
    if op.isLogical then logical op (expr setting left) (expr setting right)
    else binary op (expr setting left) (expr setting right)
  | .member object field => member (expr setting object) field
  | .index object indices => index (expr setting object) (exprs setting indices)
  | .call callee arguments => call (exprs setting arguments) (expr setting callee)
  | .assign op target v =>
    let code := match op.binary? with
      | some op => binary op (expr setting target) (expr setting v)
      | none => value (expr setting v) .assignment
    assign setting code target (expr setting target)
  | .array items => collection (exprs setting items) .newArray .array
  | .set items => collection (exprs setting items) .newSet .set
  | .object fields => object (fieldExprs setting fields)
  | .ternary test yes no => ternary setting (expr setting test) (expr setting yes) (expr setting no)

def exprs (setting : Setting) : List Expr → List (Write Unit)
  | [] => []
  | e :: es => expr setting e :: exprs setting es

def fieldExprs (setting : Setting) : List (String × Expr) → List (String × Write Unit)
  | [] => []
  | f :: fs => fieldExpr setting f :: fieldExprs setting fs

def fieldExpr (setting : Setting) : String × Expr → String × Write Unit
  | (key, e) => (key, expr setting e)

end

end Write

end StackScript.Assembly
