import StackScript.Bytecode.Opcode
import StackScript.Syntax.Tree
import StackScript.Typing.Ty

/-!
# Typing rules

What an operation on operands of a static type compiles to, and the type of its result.  Both
operands of a binary operation have the same type here; `Ty.join?` finds it.  A rule that is missing
makes the operation an error, which names the operation by its key, such as `int+int`.
-/

namespace StackScript.Typing

open Syntax Bytecode

/-- How the code of an operation is made. -/
inductive Action where
  /-- One instruction is added. -/
  | emit (op : Opcode)
  /-- The load written last becomes an update in place. -/
  | update (u : Update)
  /-- Branches decide whether the second operand is evaluated. -/
  | shortCircuit
deriving DecidableEq, Repr

/-- A rule: how the code is made, the type of the result, and whether the code is a load that could
become a store. -/
structure Rule where
  action : Action
  result : Ty
  assignable : Bool
deriving DecidableEq, Repr

namespace Rule

def emit (op : Opcode) (result : Ty) : Rule := ⟨.emit op, result, false⟩

def load (op : Opcode) (result : Ty) : Rule := ⟨.emit op, result, true⟩

/-- Updates a variable in place and leaves no value. -/
def update (u : Update) : Rule := ⟨.update u, .void, false⟩

/-- Evaluates the second operand only when the first does not decide. -/
def shortCircuit (result : Ty) : Rule := ⟨.shortCircuit, result, false⟩

end Rule

/-- What rules are about. -/
inductive Operation where
  | binary (op : BinaryOp)
  | unary (op : UnaryOp) (side : Side)
  | loadSlot (area : Area)
  | loadMember
  | loadElement
deriving DecidableEq, Repr

def binaryKey (left op right : String) : String := left ++ op ++ right

def unaryKey (op operand : String) (side : Side) : String :=
  match side with
  | .before => op ++ operand
  | .after => operand ++ op

namespace Operation

/-- The key of an operation on operands of type `t`. -/
def key (t : Ty) : Operation → String
  | binary op => binaryKey t.name op.text t.name
  | unary op side => unaryKey op.text t.name side
  | loadSlot .own => "load_local"
  | loadSlot .top => "load_global"
  | loadMember => "load_member"
  | loadElement => "load_element"

def all : List Operation :=
  BinaryOp.all.map binary ++ UnaryOp.all.flatMap (fun op => [unary op .before, unary op .after])
  ++ [loadSlot .own, loadSlot .top, loadMember, loadElement]

end Operation

/-- The arithmetic or comparison that an operator stands for. -/
inductive Meaning where
  | arith (op : Arith)
  | compare (r : Relation)
  | logical
deriving DecidableEq, Repr

def Meaning.ofOp : BinaryOp → Meaning
  | .add => arith .add
  | .sub => arith .sub
  | .mul => arith .mul
  | .div => arith .div
  | .mod => arith .mod
  | .pow => arith .pow
  | .equal => compare .eq
  | .notEqual => compare .ne
  | .less => compare .lt
  | .lessEqual => compare .le
  | .greater => compare .gt
  | .greaterEqual => compare .ge
  | .both | .either => logical

namespace Ty

/-- The numbers that arithmetic on a type works on. -/
def domain? : Ty → Option Domain
  | int => some .int
  | float => some .float
  | any => some .any
  | _ => none

def shape? : Ty → Option Bytecode.Shape
  | string => some .string
  | bool => some .bool
  | array | object | set | null | function => some .object
  | _ => none

def width : Ty → Width
  | bool => .w8
  | int => .w32
  | _ => .w64

def binaryRule? (t : Ty) (op : BinaryOp) : Option Rule :=
  match Meaning.ofOp op, t.domain? with
  | .arith a, some d => some (.emit (.arith d a) t)
  | .compare r, some d => some (.emit (.compare d r) bool)
  | .arith .add, none => if t == string then some (.emit .concat string) else none
  | .compare .eq, none => t.shape?.map fun s => .emit (.equal s) bool
  | .compare .ne, none => t.shape?.map fun s => .emit (.notEqual s) bool
  | .logical, _ => if t == bool || t == any then some (.shortCircuit t) else none
  | _, none => none

def unaryRule? (t : Ty) : UnaryOp → Side → Option Rule
  | .minus, .before => t.domain?.map fun d => .emit (.negate d) t
  | .not, .before =>
    match t with
    | bool => some (.emit .notBool bool)
    | any => some (.emit .notAny bool)
    | _ => none
  | .increment, _ => t.domain?.map fun _ => .update .increment
  | .decrement, _ => t.domain?.map fun _ => .update .decrement
  | _, .after => none

def slotRule? (t : Ty) (area : Area) : Option Rule :=
  if t == void then none else some (.load (.load area t.width) t)

/-- The rule for reading a field whose name says nothing. -/
def memberRule? : Ty → Option Rule
  | any | object => some (.load (.loadMember .w64) any)
  | _ => none

/-- The rule for reading a field with a name of its own. -/
def namedMemberRule? (t : Ty) (field : String) : Option Rule :=
  match t with
  | string | array => if field == "length" then some (.emit (.loadMember .w32) int) else none
  | set => if field == "size" then some (.emit (.loadMember .w32) int) else none
  | _ => none

def elementRule? : Ty → Option Rule
  | string => some (.emit (.loadElement .w64) string)
  | any | array | object => some (.load (.loadElement .w64) any)
  | set => some (.emit (.loadElement .w8) bool)
  | _ => none

/-- The rule for an operation on operands of a type. -/
def rule? (t : Ty) : Operation → Option Rule
  | .binary op => t.binaryRule? op
  | .unary op side => t.unaryRule? op side
  | .loadSlot area => t.slotRule? area
  | .loadMember => t.memberRule?
  | .loadElement => t.elementRule?

def ruleOfKey? (t : Ty) (key : String) : Option Rule :=
  (Operation.all.find? fun o => o.key t == key).bind t.rule?

/-- The conversion that makes a value of one type the initial value of a variable of another. -/
def conversion? : Ty → Ty → Option Opcode
  | int, float => some .intToFloat
  | int, string => some .intToString
  | float, int => some .floatToInt
  | float, string => some .floatToString
  | _, _ => none

end Ty

end StackScript.Typing
