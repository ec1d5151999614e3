/-!
# Static types

The types a declaration can name, each with its other spellings, and `void`, the type of an
expression that leaves no value, which no declaration can name.
-/

namespace StackScript.Typing

/-- The static types. -/
inductive Ty where
  | int | float | string | bool | null | any | array | object | set | function | void
deriving DecidableEq, Repr

namespace Ty

def name : Ty → String
  | int => "int"
  | float => "float"
  | string => "string"
  | bool => "bool"
  | null => "null"
  | any => "any"
  | array => "array"
  | object => "object"
  | set => "set"
  | function => "function"
  | void => "void"

def aliases : Ty → List String
  | int => ["integer", "i32"]
  | float => ["double", "f64", "number"]
  | string => ["str"]
  | bool => ["boolean"]
  | array => ["list"]
  | object => ["map"]
  | _ => []

def declarable : List Ty := [int, float, string, bool, null, any, array, object, set, function]

def ofName? (s : String) : Option Ty := declarable.find? fun t => t.name == s

/-- The declarable type with this name or other spelling. -/
def ofText? (s : String) : Option Ty :=
  declarable.find? fun t => t.name == s || t.aliases.contains s

/-- May a value of type `found` be stored where `expected` is declared? -/
def accepts (expected found : Ty) : Bool := expected == found || expected == any || found == any

/-- The common type of two types; `any` absorbs the other, and two different types have none. -/
def join? (left right : Ty) : Option Ty :=
  if left == any || right == any then some any else if left == right then some left else none

end Ty

end StackScript.Typing
