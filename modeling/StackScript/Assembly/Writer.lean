import StackScript.Assembly.LabelTable
import StackScript.Assembly.Scope
import StackScript.Typing.Rule

/-!
# Writing code

Code is written into buffers: the first is the main stream, and each function body has its own.
Instructions are only added at the end of a buffer, and only the last one is ever replaced, so
positions do not move.  `Writer` holds the buffers, the labels and the scopes, and what is known
about the expression written last.
-/

namespace StackScript.Assembly

open Typing Bytecode Host

/-- An instruction whose operand may still be a label. -/
structure Draft where
  opcode : Opcode
  operand : Operand
deriving DecidableEq

/-- What is fixed while a program is written: the host's names, and whether a comparison of integers
at the end of a condition is merged with the branch behind it. -/
structure Setting where
  environment : Environment
  merge : Bool

/-- The state of writing. -/
structure Writer where
  /-- The type of the expression written last. -/
  type : Ty
  /-- Is the instruction written last a load that can become a store? -/
  assignable : Bool
  scopes : ScopeChain
  /-- For each open loop, innermost first, the jumps out of it. -/
  breaks : List (List CodePoint)
  /-- The buffer in use. -/
  buffer : Nat
  /-- The declared result of the function being written. -/
  returns : Ty
  /-- Name and signature of the function that the name written last stands for. -/
  callee : Option (String × Signature)
  labels : LabelTable
  buffers : Array (Array Draft)

def Writer.empty : Writer :=
  { type := .void, assignable := false, scopes := .empty, breaks := [], buffer := 0, returns := .any
    callee := none, labels := .empty, buffers := #[#[]] }

/-- Steps of writing; the first error ends them. -/
abbrev Write := StateT Writer (Except CompileError)

namespace Write

/-- Sets what is known about the expression written last. -/
def setType (type : Ty) (assignable : Bool) : Write Unit :=
  modify fun w => { w with type, assignable }

def lastType : Write Ty := return (← get).type

/-- Stops if the answer is missing. -/
def orThrow {α : Type} (e : CompileError) : Option α → Write α
  | some a => return a
  | none => throw e

/-! ### Instructions -/

def currentCode (w : Writer) : Array Draft := w.buffers.getD w.buffer #[]

/-- Adds an instruction, binds the open labels of the buffer to it, and answers its place. -/
def emit (op : Opcode) (operand : Operand) : Write CodePoint := modifyGet fun w =>
  let point : CodePoint := ⟨w.buffer, (currentCode w).size⟩
  (point, { w with
    buffers := w.buffers.modify w.buffer (·.push ⟨op, operand⟩)
    labels := w.labels.close point })

def put (op : Opcode) (operand : Operand) : Write Unit := discard (emit op operand)

def lastOpcode : Write (Option Opcode) := return (currentCode (← get)).back?.map (·.opcode)

def changeLast (f : Draft → Draft) : Write Unit := modify fun w =>
  { w with buffers := w.buffers.modify w.buffer fun code => code.modify (code.size - 1) f }

def openLabel : Write Label := modifyGet fun w =>
  let (l, labels) := w.labels.fresh w.buffer
  (l, { w with labels })

def patch (point : CodePoint) (l : Label) : Write Unit := modify fun w =>
  { w with buffers := w.buffers.modify point.buffer fun code =>
      code.modify point.position fun d => { d with operand := .label l } }

/-- Makes room for one variable more where the frame of the buffer in use is made. -/
def reserveSlot : Write Unit := modify fun w =>
  { w with buffers := w.buffers.modify w.buffer fun code =>
      code.modify 0 fun d =>
        match d with
        | ⟨.allocStack, .int n⟩ => ⟨.allocStack, .int (n + 1)⟩
        | d => d }

/-! ### Branches -/

/-- The comparison that holds when `r` does not. -/
def negation : Relation → Relation
  | .eq => .ne
  | .ne => .eq
  | .lt => .ge
  | .le => .gt
  | .gt => .le
  | .ge => .lt

/-- The branch that is taken when a comparison of integers does not hold. -/
def inverseBranch? : Opcode → Option Opcode
  | .compare .int r => some (.branchInt (negation r))
  | _ => none

/-- Adds a branch that is taken when the condition written last is false.  A comparison of integers
becomes the inverse branch itself, unless a label is open: that label has to be bound behind the
condition. -/
def emitBranchIfFalse (setting : Setting) : Write CodePoint := do
  let w ← get
  let code := currentCode w
  let merged :=
    if setting.merge && !w.labels.hasWaiting w.buffer then
      code.back?.bind fun d => inverseBranch? d.opcode
    else none
  match merged with
  | some op =>
    changeLast fun _ => ⟨op, .none⟩
    return ⟨w.buffer, code.size - 1⟩
  | none => emit .branchFalse .none

/-! ### Loads that become stores -/

/-- The store to the place that a load reads. -/
def storeFor? : Opcode → Option Opcode
  | .load a w => some (.store a w)
  | .loadMember w => some (.storeMember w)
  | .loadElement w => some (.storeElement w)
  | _ => none

/-- The update in place of what a load reads. -/
def updateFor? (u : Update) : Opcode → Option Opcode
  | .load a _ => some (.update a u)
  | .loadMember _ => some (.updateMember u)
  | .loadElement _ => some (.updateElement u)
  | _ => none

/-- Replaces the load written last, by what `f` finds for it. -/
def replaceLoad (f : Opcode → Option Opcode) : Write Unit := do
  let last ← lastOpcode
  let op ← orThrow (.notALoad last) (last.bind f)
  changeLast fun d => { d with opcode := op }

/-! ### Rules -/

/-- The rule for an operation, or an error that names its key. -/
def findRule (t : Ty) (o : Typing.Operation) : Write Rule :=
  orThrow (.unknownOperator (o.key t)) (t.rule? o)

/-- The rule for an operation whose second operand is evaluated only when the first does not
decide. -/
def findShortCircuit (t : Ty) (o : Typing.Operation) : Write Rule := do
  let rule ← findRule t o
  if rule.action == .shortCircuit then return rule else throw (.unknownOperator (o.key t))

/-- Writes what a rule says, and notes the type of the result. -/
def applyRule (rule : Rule) (operand : Operand) : Write Unit := do
  match rule.action with
  | .emit op => put op operand
  | .update u => replaceLoad (updateFor? u)
  | .shortCircuit => throw (.unknownOperator "short-circuit rule applied directly")
  setType rule.result rule.assignable

/-- The common type of two types, or an error. -/
def joinTypes (left right : Ty) (usage : Usage) : Write Ty :=
  orThrow (.typeMismatch left right usage) (Ty.join? left right)

def resolveType (name : String) : Write Ty := orThrow (.unknownType name) (Ty.ofText? name)

def resolveName (setting : Setting) (name : String) : Write Entity := do
  match (← get).scopes.resolve setting.environment name with
  | .ok e => return e
  | .error e => throw e

/-- Takes a step that changes the scopes, or fails. -/
def inScopes {α : Type} (f : ScopeChain → Except CompileError α × ScopeChain) : Write α := do
  match f (← get).scopes with
  | (.ok a, scopes) => modify fun w => { w with scopes }; return a
  | (.error e, _) => throw e

def beginScope : Write Unit := modify fun w => { w with scopes := w.scopes.beginScope }

def endScope : Write Unit := modify fun w => { w with scopes := w.scopes.endScope }

end Write

end StackScript.Assembly
