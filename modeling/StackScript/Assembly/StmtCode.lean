import StackScript.Assembly.ExprCode

/-!
# The code of statements

The code of a statement leaves the stack as high as it was, but for an expression statement that is
to keep its value.  The functions of a statement list are declared before any of its statements is
written, so they can call each other whatever their order.  Each function body goes into a buffer of
its own.
-/

namespace StackScript.Assembly

open Typing Bytecode Host Syntax

namespace Write

/-! ### Declarations -/

/-- The type of a new variable whose declaration gives a type and an initial value, the value just
written.  Where only a conversion makes the value fit, it is added. -/
def initialType (declared : Ty) (usage : Usage) : Write Ty := do
  let found ← lastType
  if declared == .any then return if found == .null then .any else found
  else if declared.accepts found then return declared
  else
    match found.conversion? declared with
    | some op => put op .none; return declared
    | none => throw (.typeMismatch declared found usage)

/-- The declaration of a variable or constant, with the code of its initial value. -/
def declare (d : Declaration) (initial : Option (Write Unit)) : Write Unit := do
  let declared ← resolveType d.typeName
  let usage := Usage.initialValueOf d.name
  let type ← match initial with
    | some code => do value code usage; initialType declared usage
    | none => pure declared
  let e ← inScopes fun c => c.declareLocal d.name d.constant type
  reserveSlot
  if initial.isSome then
    match e.location with
    | .slot offset =>
      applyRule (← findRule type (.loadSlot .own)) (.int offset)
      replaceLoad storeFor?
    | _ => throw .invalidAssignmentTarget
  setType .void false

/-- Declares a function; its label is opened when the body is written. -/
def declareFunction (name : String) (params : List Param) (returns : String) : Write Unit := do
  let types ← params.mapM fun p => resolveType p.typeName
  let signature : Signature := ⟨types, ← resolveType returns⟩
  let entry ← modifyGet fun w => let (l, labels) := w.labels.reserve; (l, { w with labels })
  discard <| inScopes fun c => c.declareFunction name entry signature

def hoist : List Stmt → Write Unit
  | [] => return ()
  | .function name params returns _ :: rest => do declareFunction name params returns; hoist rest
  | _ :: rest => hoist rest

def declareParams (count : Nat) : Nat → List Param → List Ty → Write Unit
  | index, p :: params, t :: types => do
    discard <| inScopes fun c => c.declareParam p.name index count t
    declareParams count (index + 1) params types
  | _, _, _ => return ()

def findCurrent (name : String) : Write (Option Entity) := return (← get).scopes.findCurrent? name

/-- The label and the signature of the function that a block declares under a name. -/
def entryOf (name : String) : Option Entity → Write (Label × Signature)
  | some { location := .entry entry, signature := some signature, .. } => return (entry, signature)
  | some _ => throw (.duplicateDeclaration name)
  | none => throw (.unknownIdentifier name)

/-- The label and the signature of a function whose body is about to be written; a function that was
not declared with its statement list is declared now. -/
def declaredFunction (name : String) (params : List Param) (returns : String) :
    Write (Label × Signature) := do
  if (← findCurrent name).isNone then declareFunction name params returns
  entryOf name (← findCurrent name)

/-- A function: its body goes into a new buffer, in a new frame. -/
def function (name : String) (params : List Param) (returns : String) (body : Write Unit) :
    Write Unit := do
  let (entry, signature) ← declaredFunction name params returns
  let outside ← get
  let buffer := outside.buffers.size
  modify fun w =>
    { w with
      buffers := w.buffers.push #[]
      buffer
      breaks := []
      returns := signature.returns
      labels := w.labels.openReserved entry buffer
      scopes := w.scopes.beginFunction }
  put .allocStack (.int 0)
  declareParams params.length 0 params signature.params
  body
  put .ret .none
  modify fun w =>
    { w with
      scopes := w.scopes.endFunction.2
      buffer := outside.buffer
      breaks := outside.breaks
      returns := outside.returns }
  setType .void false

/-! ### Control flow -/

def cond (setting : Setting) (test yes : Write Unit) (no : Option (Write Unit)) : Write Unit := do
  value test .ifTest
  let branch ← emitBranchIfFalse setting
  yes
  match no with
  | some no =>
    let skip ← emit .jump .none
    patch branch (← openLabel)
    no
    patch skip (← openLabel)
  | none => patch branch (← openLabel)
  setType .void false

/-- An expression whose value, if it leaves one, is dropped. -/
def dropped (code : Write Unit) : Write Unit := do
  code
  if (← lastType) != .void then put .popStack (.int 1)

/-- A loop: its test comes first, then its body and its step, and a jump back. -/
def loop (setting : Setting) (initial : Option (Write Unit)) (test body : Option (Write Unit))
    (step : Option (Write Unit)) : Write Unit := do
  let test ← orThrow (.missingLoopClause .condition) test
  let body ← orThrow (.missingLoopClause .body) body
  match initial with
  | some initial => do beginScope; initial
  | none => pure ()
  let start ← openLabel
  value test .loopTest
  let exit ← emitBranchIfFalse setting
  modify fun w => { w with breaks := [] :: w.breaks }
  body
  match step with
  | some step => dropped step
  | none => pure ()
  put .jump (.label start)
  let behind ← openLabel
  patch exit behind
  let jumps ← modifyGet fun w => (w.breaks.headD [], { w with breaks := w.breaks.tail })
  jumps.forM fun jump => patch jump behind
  if initial.isSome then endScope
  setType .void false

/-- A jump out of the innermost `level` loops. -/
def brk (level : Nat) : Write Unit := do
  let depth := (← get).breaks.length
  if 1 ≤ level ∧ level ≤ depth then
    let jump ← emit .jump .none
    modify fun w => { w with breaks := w.breaks.modify (level - 1) (jump :: ·) }
  else throw (.invalidBreakLevel level depth)

/-- A return.  At the top level it ends the program with a value. -/
def ret (code : Option (Write Unit)) : Write Unit := do
  if (← get).scopes.functionDepth == 0 then
    match code with
    | some code => value code .returnValue
    | none => put .loadNull .none
    put .term .none
  else
    match code with
    | some code =>
      let found ← typedValue code .returnValue
      discard <| joinTypes (← get).returns found .returnValue
      put (.retWith found.width) .none
    | none => put .ret .none
  setType .void false

/-! ### Trees -/

def expr? (setting : Setting) (e : Option Expr) : Option (Write Unit) := e.map (expr setting)

/-- An expression statement; the answer is whether it left a value. -/
def exprStmt (code : Write Unit) (keep : Bool) : Write Bool := do
  code
  if (← lastType) == .void then return false
  else if keep then return true
  else put .popStack (.int 1); return false

mutual

/-- The code of a statement.  With `keep`, an expression statement leaves its value; the answer is
whether one was left. -/
def stmt (setting : Setting) (keep : Bool) : Stmt → Write Bool
  | .expr e => exprStmt (expr setting e) keep
  | .declare d => do declare d (expr? setting d.initial); return false
  | .function name params returns body => do
    function name params returns (do hoist body; stmts setting body)
    return false
  | .block body => do
    beginScope
    hoist body
    stmts setting body
    endScope
    return false
  | .cond test yes no => do
    cond setting (expr setting test) (discard (stmt setting false yes)) (stmt? setting no)
    return false
  | .loop initial test step body => do
    loop setting (stmt? setting initial) (expr? setting test) (stmt? setting body)
      (expr? setting step)
    return false
  | .brk level => do brk level; return false
  | .ret e => do ret (expr? setting e); return false
  | .empty => return false

def stmts (setting : Setting) : List Stmt → Write Unit
  | [] => return ()
  | s :: rest => do
    discard (stmt setting false s)
    stmts setting rest

def stmt? (setting : Setting) : Option Stmt → Option (Write Unit)
  | none => none
  | some s => some (discard (stmt setting false s))

end

/-- The code of a program's statements; the last one keeps its value.  The answer is whether it left
one. -/
def topLevel (setting : Setting) : List Stmt → Write Bool
  | [] => return false
  | [last] => stmt setting true last
  | s :: rest => do
    discard (stmt setting false s)
    topLevel setting rest

/-- The main stream: room for variables, the statements, the value of the last one or null, and the
end. -/
def program (setting : Setting) (body : List Stmt) : Write Unit := do
  put .allocStack (.int 0)
  hoist body
  if !(← topLevel setting body) then put .loadNull .none
  put .term .none

end Write

end StackScript.Assembly
