import StackScript.Decimal.Layout
import StackScript.Text.Quoted
import StackScript.Value.Basic

/-!
# The printed form of values

A string is printed as it is, but quoted inside a collection; below a fixed depth, collections are
left out.
-/

namespace StackScript

/-- How many collections inside each other are printed. -/
def displayDepth : Nat := 16

def commaSeparated (texts : List String) : String := ", ".intercalate texts

namespace Heap

/-- The printed form of a value that stands inside a collection, with so many collections still to
be printed. -/
def displayInside (h : Heap) : Nat → Value → String
  | _, .null => "null"
  | _, .bool b => toString b
  | _, .int n => toString n.toInt
  | _, .float x => Decimal.Layout.display.format x
  | _, .str s => Text.quoted s
  | _, .function entry => "<function @" ++ toString entry ++ ">"
  | _, .host f => "<native " ++ f.name ++ ">"
  | 0, .ref _ _ => "..."
  | depth + 1, .ref .list r =>
    "[" ++ commaSeparated ((h.items r).toList.map (displayInside h depth)) ++ "]"
  | depth + 1, .ref .set r =>
    "#\x7b" ++ commaSeparated ((h.items r).toList.map (displayInside h depth)) ++ "\x7d"
  | depth + 1, .ref .object r =>
    let shown := (h.fields r).entries.toList.map fun f => f.1 ++ ": " ++ displayInside h depth f.2
    "\x7b" ++ commaSeparated shown ++ "\x7d"

def display (h : Heap) : Value → String
  | .str s => s
  | v => h.displayInside displayDepth v

end Heap

end StackScript
