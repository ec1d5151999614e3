import StackScript.Bytecode.Program
import StackScript.Host.Answer

/-!
# Faults

Why a run stops before its end.
-/

namespace StackScript.Machine

open Bytecode

/-- What the machine was about to do with a value. -/
inductive Task where
  | negation
  | arith (op : Arith)
  | comparison
  | update (u : Update)
  | intToFloat
  | floatToInt
  | objectKey
  | member (name : String)
  | memberStore (name : String)
  | listIndex
  | objectIndex
  | indexing
  | elementStore
deriving DecidableEq, Repr

def arithText : Arith → String
  | .add => "+"
  | .sub => "-"
  | .mul => "*"
  | .div => "/"
  | .mod => "%"
  | .pow => "**"

def Task.text : Task → String
  | negation => "unary '-'"
  | arith op => "'" ++ arithText op ++ "'"
  | comparison => "comparison"
  | update .increment => "'++'"
  | update .decrement => "'--'"
  | intToFloat => "int to float"
  | floatToInt => "float to int"
  | objectKey => "object key"
  | member name => "member '" ++ name ++ "'"
  | memberStore name => "member store '" ++ name ++ "'"
  | listIndex => "list index"
  | objectIndex => "object index"
  | indexing => "indexing"
  | elementStore => "element store"

/-- What the machine found instead of a fitting value. -/
inductive Found where
  | one (typeName : String)
  | two (left right : String)
  | negativeIndex (n : Int32)
deriving DecidableEq, Repr

def Found.text : Found → String
  | one typeName => typeName
  | two left right => left ++ " and " ++ right
  | negativeIndex n => "negative index " ++ toString n.toInt

/-- Faults.  `ip` is the index of the instruction that fails. -/
inductive Fault where
  | invalidOpcode (number : Nat)
  | stackUnderflow (ip : Nat)
  | hostFailure (name : String) (cause : Host.CallError)
  | unboundName (name : String)
  | typeError (task : Task) (found : Found)
  | divisionByZero
  | invalidOperand (op : Opcode) (ip : Nat)
  | invalidSlot (slot : Int) (ip : Nat)
  | outOfBounds (ip : Nat)
  | stackOverflow (limit : Nat)
  | listTooLong (index limit : Nat)
  | outOfFuel (limit : Nat)
  | notCallable (typeName : String)
  | invalidConversion (x : Float)
  | incompatibleProgram (expected found : String)
  /-- The place of a slot, frame and offset together, does not fit in 64 bits.  The machine panics
  over this one (`Progress.stopped`); no run ends with it. -/
  | addressOverflow
deriving DecidableEq

def Fault.message : Fault → String
  | invalidOpcode n =>
    "Invalid opcode 0x" ++ String.ofList ((Operation.hex n 2).map Char.toUpper)
  | stackUnderflow ip => "Stack underflow at instruction " ++ toString ip
  | hostFailure name cause => "External call to '" ++ name ++ "' failed: " ++ cause.message
  | unboundName name => "External call to '" ++ name ++ "' failed: binding is not defined"
  | typeError task found => "Cannot apply " ++ task.text ++ " to " ++ found.text
  | divisionByZero => "Division by zero"
  | invalidOperand op ip =>
    "Invalid operand for " ++ op.mnemonic ++ " at instruction " ++ toString ip
  | invalidSlot slot ip =>
    "Invalid stack slot " ++ toString slot ++ " at instruction " ++ toString ip
  | outOfBounds ip => "Instruction pointer " ++ toString ip ++ " is out of bounds"
  | stackOverflow limit => "Stack overflow (limit " ++ toString limit ++ " slots)"
  | listTooLong index limit =>
    "Index " ++ toString index ++ " is past the list length limit of " ++ toString limit
  | outOfFuel limit => "Out of fuel after " ++ toString limit ++ " instructions"
  | notCallable typeName => "Value of type " ++ typeName ++ " is not callable"
  | invalidConversion x => "Cannot convert " ++ Decimal.Layout.display.format x ++ " to int"
  | incompatibleProgram expected found =>
    "Program built for engine " ++ found ++ ", this is " ++ expected
  | addressOverflow => "Slot address out of range"

end StackScript.Machine
