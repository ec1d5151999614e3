import StackScript.Bytecode.Program
import StackScript.Typing.Ty

/-!
# Errors in programs

Why a program that can be read cannot be compiled.
-/

namespace StackScript.Assembly

open Typing Bytecode

/-- A clause that a loop needs. -/
inductive LoopClause where
  | condition | body
deriving DecidableEq, Repr

def LoopClause.text : LoopClause → String
  | condition => "condition"
  | body => "body"

/-- Where a value is used, in the words of a message. -/
inductive Usage where
  | operandOf (operator : String)
  | unaryOperand
  | interpolation
  | ternaryTest
  | ternaryArm
  | ternaryArms
  | memberAccess
  | indexedAccess
  | index
  | assignment
  | argument
  | argumentOf (position : Nat) (function : String)
  | collectionElement
  | objectField
  | initialValueOf (name : String)
  | ifTest
  | loopTest
  | returnValue
deriving DecidableEq, Repr

def Usage.text : Usage → String
  | operandOf operator => "binary '" ++ operator ++ "'"
  | unaryOperand => "unary operand"
  | interpolation => "template interpolation"
  | ternaryTest => "ternary condition"
  | ternaryArm => "ternary branch"
  | ternaryArms => "ternary branches"
  | memberAccess => "member access"
  | indexedAccess => "indexed access"
  | index => "index"
  | assignment => "assignment"
  | argument => "argument"
  | argumentOf position function => "argument " ++ toString position ++ " of '" ++ function ++ "'"
  | collectionElement => "collection element"
  | objectField => "object property"
  | initialValueOf name => "initializer of '" ++ name ++ "'"
  | ifTest => "if condition"
  | loopTest => "loop condition"
  | returnValue => "return value"

/-- Errors in programs. -/
inductive CompileError where
  | unknownIdentifier (name : String)
  | duplicateDeclaration (name : String)
  | typeMismatch (left right : Ty) (usage : Usage)
  | unknownOperator (key : String)
  | unknownType (name : String)
  | invalidAssignmentTarget
  /-- The code of an assignment target ends with an operation that cannot become a store. -/
  | notALoad (op : Option Opcode)
  | assignToConstant (name : String)
  | invalidBreakLevel (level depth : Nat)
  | missingLoopClause (clause : LoopClause)
  | arityMismatch (name : String) (expected found : Nat)
  | noValue (usage : Usage)
  | unsupportedCapture (name : String)
  /-- The callee is a function, but not one that is known by name here. -/
  | calleeWithoutSignature
  | notCallable (type : Ty)
  | unresolvedLabel (label : Label)
deriving DecidableEq, Repr

def CompileError.message : CompileError → String
  | unknownIdentifier name => "Unknown identifier '" ++ name ++ "'"
  | duplicateDeclaration name => "'" ++ name ++ "' is already declared"
  | typeMismatch left right usage =>
    "Type mismatch in " ++ usage.text ++ ": " ++ left.name ++ " vs " ++ right.name
  | unknownOperator key => "Unknown operator '" ++ key ++ "'"
  | unknownType name => "Unknown type '" ++ name ++ "'"
  | invalidAssignmentTarget => "Invalid assignment target"
  | notALoad op =>
    "Cannot rewrite " ++ ((op.map Opcode.mnemonic).getD "an empty buffer")
      ++ " into a store or update"
  | assignToConstant name => "Cannot assign to constant '" ++ name ++ "'"
  | invalidBreakLevel level depth =>
    "Invalid break level " ++ toString level ++ " (loop depth " ++ toString depth ++ ")"
  | missingLoopClause clause => "Loop is missing its " ++ clause.text
  | arityMismatch name expected found =>
    "'" ++ name ++ "' expects " ++ toString expected ++ " argument(s), got " ++ toString found
  | noValue usage => usage.text ++ " does not produce a value"
  | unsupportedCapture name =>
    "'" ++ name ++ "' belongs to an enclosing function and cannot be captured"
  | calleeWithoutSignature => "function reference is not callable"
  | notCallable type => "a value of type " ++ type.name ++ " is not callable"
  | unresolvedLabel label => "Unresolved label " ++ label.text

end StackScript.Assembly
