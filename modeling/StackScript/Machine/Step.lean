import StackScript.Host.Environment
import StackScript.Machine.Collections

/-!
# One instruction

The machine has one stack of values.  A function call puts the frame pointer of the caller and the
index of the next instruction on it, as integers, and the frame pointer points behind them;
variables are found at an offset from it.  `step` carries out one instruction; when it fails, what
it took off the stack stays off.
-/

namespace StackScript.Machine

open Bytecode Host

/-- What a run may use up. -/
structure Limits where
  /-- The number of instructions; none means any number. -/
  fuel : Option Nat
  /-- The height of the stack. -/
  maxStack : Nat
  /-- The length that a write behind its end may give a list. -/
  maxListLen : Nat
deriving DecidableEq, Repr

/-- The limits of an engine that is given none. -/
def Limits.standard : Limits := ⟨none, 0x100000, 0x1000000⟩

/-- The state of the machine. -/
structure State where
  stack : Array Value
  /-- The index of the instruction being carried out. -/
  ip : Nat
  /-- The frame pointer: the place on the stack of the first variable of the running function. -/
  fp : Nat
  /-- The value of the last return or call of the host. -/
  returned : Value
  heap : Heap
  output : String
deriving DecidableEq

/-- What follows an instruction. -/
inductive Flow where
  | next
  | jump (target : Nat)
  | halt
deriving DecidableEq, Repr

/-- Steps of the machine.  A fault leaves the state as it was when it came up. -/
abbrev Exec := EStateM Fault State

namespace Exec

/-! ### The stack -/

def push (v : Value) : Exec Unit := modify fun s => { s with stack := s.stack.push v }

/-- Stops if there is a fault. -/
def lift {α : Type} : Except Fault α → Exec α
  | .ok a => pure a
  | .error f => throw f

def pop : Exec Value := fun s =>
  match s.stack.back? with
  | some v => .ok v { s with stack := s.stack.pop }
  | none => .error (.stackUnderflow s.ip) s

/-- Takes the `count` values on top of the stack, in the order in which they were put there. -/
def popMany (count : Nat) : Exec (Array Value) := fun s =>
  if count ≤ s.stack.size then
    let start := s.stack.size - count
    let taken := s.stack.extract start s.stack.size
    .ok taken { s with stack := s.stack.shrink start }
  else .error (.stackUnderflow s.ip) s

/-- A fault about a value that does not fit. -/
def mistaken {α : Type} (task : Task) (v : Value) : Exec α :=
  throw (.typeError task (.one v.typeName))

/-- A fault about two values that do not fit. -/
def mistakenPair {α : Type} (task : Task) (a b : Value) : Exec α :=
  throw (.typeError task (.two a.typeName b.typeName))

def popInt (task : Task) : Exec Int32 := do
  match ← pop with
  | .int n => return n
  | v => mistaken task v

def popFloat (task : Task) : Exec Float := do
  let v ← pop
  match number? v with
  | some x => return x
  | none => mistaken task v

def popAddress : Exec Nat := do
  match ← pop with
  | .int n => if 0 ≤ n then return n.toInt.toNat else throw (.invalidSlot (-1) (← get).ip)
  | _ => throw (.invalidSlot (-1) (← get).ip)

/-- Saves an address.  Addresses that do not fit in an integer overflow the stack. -/
def encodeAddress (limits : Limits) (address : Nat) : Exec Value :=
  if address < 0x80000000 then return .int (Int32.ofNat address)
  else throw (.stackOverflow limits.maxStack)

def withHeap {α : Type} (f : Heap → α × Heap) : Exec α := modifyGet fun s =>
  match s with
  | ⟨stack, ip, fp, returned, heap, output⟩ =>
    let (a, heap) := f heap
    (a, ⟨stack, ip, fp, returned, heap, output⟩)

def readHeap {α : Type} (f : Heap → α) : Exec α := return f (← get).heap

/-- Carries out a write, unless there is a fault. -/
def store (plan : Heap → Except Fault (Ref × Write)) : Exec Unit := do
  let (r, w) ← lift (plan (← get).heap)
  withHeap fun h => ((), h.write r w)

/-! ### Operands -/

/-- The fault of an operand that does not fit. -/
def invalidOperand {α : Type} (op : Opcode) : Exec α := do throw (.invalidOperand op (← get).ip)

def intOperand (op : Opcode) : Operand → Exec Int
  | .int n => return n
  | _ => invalidOperand op

/-- An operand that counts something, or that names an instruction. -/
def countOperand (op : Opcode) (operand : Operand) : Exec Nat := do
  let n ← intOperand op operand
  if 0 ≤ n then return n.toNat else invalidOperand op

def textOperand (op : Opcode) : Operand → Exec String
  | .str s => return s
  | _ => invalidOperand op

/-- The first integer that does not fit in 64 bits. -/
def addressLimit : Int := 0x8000000000000000

/-- The place on the stack that a slot operand names, counted from `base`. -/
def slot (base : Nat) (op : Opcode) (operand : Operand) : Exec Nat := do
  let offset ← intOperand op operand
  let place := Int.ofNat base + offset
  let s ← get
  if addressLimit ≤ place then throw .addressOverflow
  else if 0 ≤ place ∧ place < s.stack.size then return place.toNat
  else throw (.invalidSlot offset s.ip)

/-- The place from which an area's slots are counted. -/
def baseOf : Area → Exec Nat
  | .own => return (← get).fp
  | .top => return 0

def variablePlace (a : Area) (op : Opcode) (operand : Operand) :
    Exec Nat := do slot (← baseOf a) op operand

/-! ### Arithmetic and comparison -/

def intArith (op : Arith) (a b : Int32) : Except Fault Int32 :=
  match op with
  | .add => .ok (a + b)
  | .sub => .ok (a - b)
  | .mul => .ok (a * b)
  | .div => if b == 0 then .error .divisionByZero else .ok (a / b)
  | .mod => if b == 0 then .error .divisionByZero else .ok (a % b)
  | .pow => .ok (Decimal.intPow a b)

def floatArith (op : Arith) (a b : Float) : Float :=
  match op with
  | .add => a + b
  | .sub => a - b
  | .mul => a * b
  | .div => a / b
  | .mod => Decimal.remainder a b
  | .pow => a.pow b

def intHolds (r : Relation) (a b : Int32) : Bool :=
  match r with
  | .eq => a == b
  | .ne => a != b
  | .lt => a < b
  | .le => a ≤ b
  | .gt => b < a
  | .ge => b ≤ a

/-- Does a relation hold between floats?  Of what is no number, only that it is not equal. -/
def floatHolds (r : Relation) (a b : Float) : Bool :=
  match r with
  | .eq => a == b
  | .ne => !(a == b)
  | .lt => a < b
  | .le => a ≤ b
  | .gt => b < a
  | .ge => b ≤ a

/-- Does a relation hold between texts, in the order of their characters? -/
def textHolds (r : Relation) (a b : String) : Bool :=
  match r with
  | .eq => a == b
  | .ne => a != b
  | .lt => a < b
  | .le => !(b < a)
  | .gt => b < a
  | .ge => !(a < b)

/-- Arithmetic on the two values on top of the stack, whatever they are: integers, numbers, or for a
sum also a string and anything. -/
def anyArith (op : Arith) (a b : Value) : Exec Value := do
  let joined : Exec Value := do
    let h := (← get).heap
    return .str (h.display a ++ h.display b)
  match op, a, b with
  | op, .int x, .int y => return .int (← lift (intArith op x y))
  | .add, .str _, _ => joined
  | .add, _, .str _ => joined
  | op, a, b =>
    match number? a, number? b with
    | some x, some y => return .float (floatArith op x y)
    | _, _ => mistakenPair (.arith op) a b

def arith (d : Domain) (op : Arith) : Exec Unit := do
  match d with
  | .int =>
    let b ← popInt (.arith op)
    let a ← popInt (.arith op)
    push (.int (← lift (intArith op a b)))
  | .float =>
    let b ← popFloat (.arith op)
    let a ← popFloat (.arith op)
    push (.float (floatArith op a b))
  | .any =>
    let b ← pop
    let a ← pop
    push (← anyArith op a b)

/-- The order of two values, whatever they are: integers, strings or numbers. -/
def anyHolds (r : Relation) (a b : Value) : Exec Bool :=
  match a, b with
  | .int x, .int y => return intHolds r x y
  | .str x, .str y => return textHolds r x y
  | a, b =>
    match number? a, number? b with
    | some x, some y => return floatHolds r x y
    | _, _ => mistakenPair .comparison a b

/-- Are the two values on top of the stack equal? -/
def popEqual : Exec Bool := do
  let b ← pop
  let a ← pop
  readHeap fun h => h.equal a b

/-- Comparison.  Any two values can be tested for equality. -/
def compare (d : Domain) (r : Relation) : Exec Unit := do
  match d, r with
  | .int, r =>
    let b ← popInt .comparison
    let a ← popInt .comparison
    push (.bool (intHolds r a b))
  | .float, r =>
    let b ← popFloat .comparison
    let a ← popFloat .comparison
    push (.bool (floatHolds r a b))
  | .any, .eq => push (.bool (← popEqual))
  | .any, .ne => push (.bool !(← popEqual))
  | .any, r =>
    let b ← pop
    let a ← pop
    push (.bool (← anyHolds r a b))

def negate (d : Domain) : Exec Unit := do
  match d with
  | .int => push (.int (-(← popInt .negation)))
  | .float => push (.float (-(← popFloat .negation)))
  | .any =>
    match ← pop with
    | .int n => push (.int (-n))
    | .float x => push (.float (-x))
    | v => mistaken .negation v

def concat : Exec Unit := do
  let b ← pop
  let a ← pop
  match a, b with
  | .str x, .str y => push (.str (x ++ y))
  | a, b => mistakenPair (.arith .add) a b

/-- A float rounded down to an integer, if it fits. -/
def floatToInt : Exec Unit := do
  let x ← popFloat .floatToInt
  match Decimal.floorToInt? x with
  | some n => push (.int n)
  | none => throw (.invalidConversion x)

/-! ### Variables, members and elements -/

def loadVariable (place : Nat) : Exec Unit := modify fun s =>
  let v := s.stack.getD place .null
  { s with stack := s.stack.push v }

def storeVariable (place : Nat) (v : Value) : Exec Unit := modify fun s =>
  { s with stack := s.stack.setIfInBounds place v }

def updateVariable (place : Nat) (u : Update) : Exec Unit := do
  storeVariable place (← lift (bump u ((← get).stack.getD place .null)))

/-- Takes a container and some indices, and follows all of them but the last one. -/
def elementTarget (op : Opcode) (operand : Operand) : Exec (Value × Value) := do
  let count ← countOperand op operand
  let indices ← popMany count
  let container ← pop
  match indices.back? with
  | none => invalidOperand op
  | some last =>
    let h := (← get).heap
    let container ← lift (loadPath h container indices.pop.toList)
    return (container, last)

/-! ### Collections -/

/-- Names and values that stand by turns. -/
def pairUp : List Value → Except Fault (List (String × Value))
  | .str name :: v :: rest => do return (name, v) :: (← pairUp rest)
  | key :: _ :: _ => .error (.typeError .objectKey (.one key.typeName))
  | _ => .ok []

def pushNew (shape : Shape) (cell : Heap → Cell) : Exec Unit := do
  let v ← withHeap fun h => let c := cell h; h.new shape c
  push v

/-! ### Calls -/

/-- Leaves a function: its frame goes, and the caller's frame is in use again.  At the top level the
run ends. -/
def leave (v : Value) : Exec Flow := do
  modify fun s => { s with returned := v }
  let s ← get
  if s.fp == 0 then
    push v
    return .halt
  else
    modify fun s => { s with stack := s.stack.shrink s.fp }
    let target ← popAddress
    let fp ← popAddress
    modify fun s => { s with fp }
    return .jump target

def enter (limits : Limits) (target : Nat) : Exec Flow := do
  let s ← get
  let savedFp ← encodeAddress limits s.fp
  let address ← encodeAddress limits (s.ip + 1)
  push savedFp
  push address
  modify fun s => { s with fp := s.stack.size }
  return .jump target

/-- Calls a function of the host.  What it changes stays changed when it fails. -/
def callHost (environment : Environment) (callee : Value) (arguments : List Value) : Exec Unit :=
  fun s =>
    match callee with
    | .host f =>
      match s with
      | ⟨stack, ip, fp, returned, heap, output⟩ =>
        match environment.call f arguments heap output with
        | ⟨.ok v, heap, output⟩ => .ok () ⟨stack, ip, fp, v, heap, output⟩
        | ⟨.error e, heap, output⟩ =>
          .error (.hostFailure f.name e) ⟨stack, ip, fp, returned, heap, output⟩
    | v => .error (.notCallable v.typeName) s

/-! ### All operations -/

/-- A branch that is taken when a condition holds. -/
def branch (target : Nat) (taken : Bool) : Flow := if taken then .jump target else .next

/-- Carries out an operation that does not change the order of instructions. -/
def perform (limits : Limits) (environment : Environment) (op : Opcode) (operand : Operand) :
    Exec Unit := do
  match op with
  | .allocStack =>
    let count ← countOperand op operand
    if limits.maxStack < (← get).stack.size + count then throw (.stackOverflow limits.maxStack)
    modify fun s => { s with stack := s.stack ++ Array.replicate count .null }
  | .popStack => discard (popMany (← countOperand op operand))
  | .loadNull => push .null
  | .loadConst .w8 =>
    match operand with
    | .bool b => push (.bool b)
    | _ => invalidOperand op
  | .loadConst .w32 =>
    match Decimal.int32OfInt? (← intOperand op operand) with
    | some n => push (.int n)
    | none => invalidOperand op
  | .loadConst .w64 =>
    match operand with
    | .float x => push (.float x)
    | .str s => push (.str s)
    | _ => invalidOperand op
  | .arith d a => arith d a
  | .negate d => negate d
  | .notAny | .notBool => push (.bool !(← pop).isTruthy)
  | .concat => concat
  | .compare d r => compare d r
  | .equal _ => push (.bool (← popEqual))
  | .notEqual _ => push (.bool !(← popEqual))
  | .intToFloat => push (.float (Decimal.floatOfInt (← popInt .intToFloat)))
  | .floatToInt => floatToInt
  | .intToString | .floatToString =>
    let v ← pop
    push (.str (← readHeap fun h => h.display v))
  | .load a _ => loadVariable (← variablePlace a op operand)
  | .store a _ =>
    let v ← pop
    storeVariable (← variablePlace a op operand) v
  | .update a u => updateVariable (← variablePlace a op operand) u
  | .loadMember _ =>
    let name ← textOperand op operand
    let v ← pop
    push (← lift (loadMember (← get).heap v name))
  | .storeMember _ =>
    let name ← textOperand op operand
    let v ← pop
    let new ← pop
    store fun _ => storeMember v name new
  | .updateMember u =>
    let name ← textOperand op operand
    let v ← pop
    store fun h => do storeMember v name (← bump u (← loadMember h v name))
  | .loadElement _ =>
    let indices ← popMany (← countOperand op operand)
    let v ← pop
    push (← lift (loadPath (← get).heap v indices.toList))
  | .storeElement _ =>
    let (v, index) ← elementTarget op operand
    let new ← pop
    store fun h => storeElement h limits.maxListLen v index new
  | .updateElement u =>
    let (v, index) ← elementTarget op operand
    store fun h => do
      storeElement h limits.maxListLen v index (← bump u (← loadElement h v index))
  | .newArray =>
    let items ← popMany (← countOperand op operand)
    pushNew .list fun _ => .items items
  | .newSet =>
    let members ← popMany (← countOperand op operand)
    pushNew .set fun h => .items (h.distinct members.toList)
  | .newObject =>
    let flat ← popMany (2 * (← countOperand op operand))
    let pairs ← lift (pairUp flat.toList)
    pushNew .object fun _ => .fields (Fields.ofList pairs)
  | .buildString =>
    let parts ← popMany (← countOperand op operand)
    push (.str (← readHeap fun h => String.join (parts.toList.map h.display)))
  | .loadFunction => push (.function (← countOperand op operand))
  | .callExternal =>
    let count ← countOperand op operand
    let callee ← pop
    callHost environment callee (← popMany count).toList
  | .loadExternal =>
    let name ← textOperand op operand
    match environment.get? name with
    | some b => push (← withHeap fun h => h.deepCopy b.value)
    | none => throw (.unboundName name)
  | .pushReturn _ => push (← get).returned
  | .term | .jump | .branchFalse | .branchTrue | .branchInt _ | .callInternal | .ret | .retWith _ =>
    pure ()

def step (limits : Limits) (environment : Environment) (op : Opcode) (operand : Operand) :
    Exec Flow := do
  match op with
  | .term => return .halt
  | .jump => return .jump (← countOperand op operand)
  | .branchFalse =>
    let target ← countOperand op operand
    return branch target (!(← pop).isTruthy)
  | .branchTrue =>
    let target ← countOperand op operand
    return branch target (← pop).isTruthy
  | .branchInt r =>
    let target ← countOperand op operand
    let b ← popInt .comparison
    let a ← popInt .comparison
    return branch target (intHolds r a b)
  | .callInternal => enter limits (← countOperand op operand)
  | .ret => leave .null
  | .retWith _ => leave (← pop)
  | op =>
    perform limits environment op operand
    return .next

end Exec

end StackScript.Machine
