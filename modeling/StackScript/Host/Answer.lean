import StackScript.Decimal.Layout
import StackScript.Value.Basic

/-!
# Answers of host functions

A call of a host function sees its arguments, the heap and what has been printed.  It answers a value
or fails, and may change heap and output in both cases.
-/

namespace StackScript.Host

/-- Why a function of the host fails. -/
inductive CallError where
  | argumentCount (expected found : Nat)
  | noLength (typeName : String)
  | lengthTooLarge (length : Nat)
  | cannotConvert (typeName target : String)
  | cannotRead (text target : String)
  | tooLargeForInt (x : Float)
  | cannotPush (typeName : String)
  | noKeys (typeName : String)
  | cannotSearch (typeName : String)
  | notANumber (typeName : String)
  | noArguments (function : String)
  /-- What a function of the host's own says. -/
  | own (message : String)
deriving DecidableEq

def CallError.message : CallError → String
  | argumentCount expected found =>
    "expected " ++ toString expected ++ " argument(s), got " ++ toString found
  | noLength typeName => typeName ++ " has no length"
  | lengthTooLarge length => "length " ++ toString length ++ " does not fit in an int"
  | cannotConvert typeName target => "cannot convert " ++ typeName ++ " to " ++ target
  | cannotRead text target => "cannot convert \"" ++ text ++ "\" to " ++ target
  | tooLargeForInt x => Decimal.Layout.display.format x ++ " does not fit in an int"
  | cannotPush typeName => "cannot push onto " ++ typeName
  | noKeys typeName => typeName ++ " has no keys"
  | cannotSearch typeName => "cannot search " ++ typeName
  | notANumber typeName => "expected a number, found " ++ typeName
  | noArguments function => function ++ " needs at least one argument"
  | own message => message

/-- The value of a call, if it does not fail, with the heap and the output behind it. -/
structure Answer where
  value : Except CallError Value
  heap : Heap
  output : String

/-- What a host function does with its arguments, the heap and the output. -/
abbrev Body := List Value → Heap → String → Answer

/-- Fails, and changes nothing. -/
def Body.refuse (message : String) : Body := fun _ h output => ⟨.error (.own message), h, output⟩

end StackScript.Host
