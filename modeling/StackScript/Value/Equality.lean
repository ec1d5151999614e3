import StackScript.Decimal.Numeric
import StackScript.Value.Basic

/-!
# Equality of values

Numbers are equal when they are numerically, collections when they are of one kind and have equal
members at equal places, or equal fields of equal names.  Collections may contain themselves: a pair
of collections that is met again while it is being compared counts as equal.
-/

namespace StackScript

/-- Are two lists equally long, with `eq` members at equal places? -/
def allPairs (eq : Value → Value → Option Bool) : List Value → List Value → Option Bool
  | [], [] => some true
  | x :: xs, y :: ys => do if ← eq x y then allPairs eq xs ys else return false
  | _, _ => some false

/-- Has each of the fields a counterpart of the same name that is `eq`? -/
def allFields (eq : Value → Value → Option Bool) (others : Fields) :
    List (String × Value) → Option Bool
  | [] => some true
  | (name, x) :: rest =>
    match others.get? name with
    | some y => do if ← eq x y then allFields eq others rest else return false
    | none => some false

/-- Are two cells of one type equally large, with `eq` values? -/
def Cell.equalBy (eq : Value → Value → Option Bool) : Cell → Cell → Option Bool
  | .items xs, .items ys => if xs.size == ys.size then allPairs eq xs.toList ys.toList else some false
  | .fields xs, .fields ys =>
    if xs.size == ys.size then allFields eq ys xs.entries.toList else some false
  | _, _ => some false

namespace Heap

/-- Equality below the pairs of collections on `path`, which are being compared; there is no answer
where collections lie deeper inside each other than `depth`. -/
def equalWithin (h : Heap) : Nat → List (Address × Address) → Value → Value → Option Bool
  | 0, _, _, _ => none
  | depth + 1, path, a, b =>
    match a, b with
    | .null, .null => some true
    | .bool a, .bool b => some (a == b)
    | .int a, .int b => some (a == b)
    | .float a, .float b => some (a == b)
    | .int a, .float b => some (Decimal.floatOfInt a == b)
    | .float a, .int b => some (Decimal.floatOfInt b == a)
    | .str a, .str b => some (a == b)
    | .ref s a, .ref t b =>
      if s != t then some false
      else if a == b || path.contains (s.address a, t.address b) then some true
      else
        let path := (s.address a, t.address b) :: path
        Cell.equalBy (equalWithin h depth path) (h.stored s a) (h.stored t b)
    | .function a, .function b => some (a == b)
    | .host f, .host g => some (f.serial == g.serial)
    | _, _ => some false

/-- Are two values equal?  The path never holds a pair of addresses twice, and there are two addresses
for each cell, so this depth always gives an answer. -/
def equal? (h : Heap) (a b : Value) : Option Bool :=
  h.equalWithin ((2 * h.cells.size) * (2 * h.cells.size) + 1) [] a b

/-- Are two values equal? -/
def equal (h : Heap) (a b : Value) : Bool := h.equal? a b == some true

def contains (h : Heap) (values : Array Value) (v : Value) : Bool := values.any fun w => h.equal w v

/-- The values without those that equal an earlier one. -/
def distinct (h : Heap) (values : List Value) : Array Value :=
  values.foldl (fun kept v => if h.contains kept v then kept else kept.push v) #[]

end Heap

end StackScript
