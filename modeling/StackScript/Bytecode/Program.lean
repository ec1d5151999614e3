import StackScript.Bytecode.Opcode
import StackScript.Decimal.Layout
import StackScript.Text.Quoted

/-!
# Programs

A program is a sequence of instructions, the main stream first and the bodies of functions behind
it.  The operand of a branch is the index of an instruction; while a program is being written it may
be a label instead.  A listing shows one instruction a line.
-/

namespace StackScript.Bytecode

/-- A place in a program that is still being written. -/
structure Label where
  id : Nat
deriving DecidableEq, Repr

def Label.text (l : Label) : String := "L" ++ toString l.id

/-- What an instruction works with, apart from the stack. -/
inductive Operand where
  | none
  | int (n : Int)
  | float (x : Float)
  | bool (b : Bool)
  | str (s : String)
  | label (l : Label)
deriving DecidableEq

def Operand.text : Operand → String
  | none => ""
  | int n => toString n
  | float x => Decimal.Layout.exact.format x
  | bool b => toString b
  | str s => Text.quoted s
  | label l => l.text

/-- What an instruction does: one of the operations, or nothing that the machine knows. -/
inductive Operation where
  | known (op : Opcode)
  | unassigned (number : Nat)
deriving DecidableEq, Repr

namespace Operation

def ofNumber (n : Nat) : Operation :=
  match Opcode.ofNumber? n with
  | some op => known op
  | none => unassigned n

def number : Operation → Nat
  | known op => op.number
  | unassigned n => n

def opcode? : Operation → Option Opcode
  | known op => some op
  | unassigned _ => none

/-- `n` in hexadecimal with at least `width` digits. -/
def hex (n width : Nat) : List Char :=
  let digits := Nat.toDigits 16 n
  List.replicate (width - digits.length) '0' ++ digits

def mnemonic : Operation → String
  | known op => op.mnemonic
  | unassigned n => "<invalid 0x" ++ String.ofList (hex n 4) ++ ">"

end Operation

/-- An operation and its operand. -/
structure Instruction where
  operation : Operation
  operand : Operand
deriving DecidableEq

/-- The column of a listing at which operands start, counted from the operation. -/
def operandColumn : Nat := 26

def Instruction.text (i : Instruction) : String :=
  let name := i.operation.mnemonic
  name ++ String.ofList (List.replicate (operandColumn - name.length) ' ') ++ i.operand.text

/-- The version of the language that is written into programs. -/
def currentVersion : String := "0.1.0"

/-- A program and the version it was written for. -/
structure Program where
  version : String
  code : Array Instruction
deriving DecidableEq

namespace Program

def ofCode (code : Array Instruction) : Program := ⟨currentVersion, code⟩

/-- The index of an instruction in a listing, with at least four digits. -/
def indexText (n : Nat) : String :=
  let digits := Nat.toDigits 10 n
  String.ofList (List.replicate (4 - digits.length) '0' ++ digits)

def listing (p : Program) : List String :=
  ("; tern " ++ p.version) :: p.code.toList.mapIdx fun n i => indexText n ++ "  " ++ i.text

/-- The whole listing; every line ends with a line break. -/
def text (p : Program) : String := String.join (p.listing.map (· ++ "\n"))

/-- The operations, without the instructions that have none. -/
def opcodes (p : Program) : List Opcode := p.code.toList.filterMap (·.operation.opcode?)

/-- Major and minor version: what stands before the second point. -/
def release (version : String) : List String := (version.splitOn ".").take 2

/-- Can a program of this version run?  Versions that agree up to the second point are
compatible. -/
def isCompatible (version : String) : Bool :=
  version == currentVersion || release version == release currentVersion

end Program

end StackScript.Bytecode
