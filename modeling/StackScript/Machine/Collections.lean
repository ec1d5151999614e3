import StackScript.Machine.Fault
import StackScript.Value.Copy
import StackScript.Value.Equality
import StackScript.Value.Write

/-!
# Members and elements

Reading and writing the parts of collections.  What is not there reads as null, in lists also before
the start; strings have a length and characters, and a set answers whether it has a member.  What is
to be stored is a write to one collection, or a fault; a list that is written behind its end grows,
up to a limit.
-/

namespace StackScript.Machine

open Host

/-- A length, as far as it fits in an integer. -/
def lengthOf (n : Nat) : Value := .int ((Decimal.int32OfNat? n).getD Int32.maxValue)

def loadMember (h : Heap) (v : Value) (name : String) : Except Fault Value :=
  let mistaken : Except Fault Value := .error (.typeError (.member name) (.one v.typeName))
  match v with
  | .str s => if name == "length" then .ok (lengthOf s.length) else mistaken
  | .ref .object r => .ok (((h.fields r).get? name).getD .null)
  | .ref .list r => if name == "length" then .ok (lengthOf (h.items r).size) else mistaken
  | .ref .set r => if name == "size" then .ok (lengthOf (h.items r).size) else mistaken
  | _ => mistaken

/-- The write that stores a member of an object. -/
def storeMember (v : Value) (name : String) (new : Value) : Except Fault (Ref × Write) :=
  match v with
  | .ref .object r => .ok (r, .field name new)
  | _ => .error (.typeError (.memberStore name) (.one v.typeName))

/-- The place in a list that an index names; a negative index names none. -/
def placeOf : Value → Except Fault (Option Nat)
  | .int n => .ok (if 0 ≤ n then some n.toInt.toNat else none)
  | v => .error (.typeError .listIndex (.one v.typeName))

/-- The name of a field that an index names. -/
def fieldOf : Value → Except Fault String
  | .str name => .ok name
  | v => .error (.typeError .objectIndex (.one v.typeName))

def loadElement (h : Heap) (v index : Value) : Except Fault Value :=
  match v with
  | .str s => do
    let place ← placeOf index
    return ((place.bind fun i => s.toList[i]?).map fun c => .str c.toString).getD .null
  | .ref .list r => do
    let place ← placeOf index
    return (place.bind fun i => (h.items r)[i]?).getD .null
  | .ref .set r => .ok (.bool (h.contains (h.items r) index))
  | .ref .object r => do return ((h.fields r).get? (← fieldOf index)).getD .null
  | _ => .error (.typeError .indexing (.one v.typeName))

/-- Reads an element of an element, and so on. -/
def loadPath (h : Heap) : Value → List Value → Except Fault Value
  | v, [] => .ok v
  | v, index :: rest => do loadPath h (← loadElement h v index) rest

/-- The write that stores an element of a list or an object. -/
def storeElement (h : Heap) (maxListLen : Nat) (v index new : Value) : Except Fault (Ref × Write) :=
  match v with
  | .ref .list r => do
    match ← placeOf index, index with
    | some place, _ =>
      if (h.items r).size ≤ place ∧ maxListLen ≤ place then throw (.listTooLong place maxListLen)
      else return (r, .item place new)
    | none, .int n => throw (.typeError .elementStore (.negativeIndex n))
    | none, other => throw (.typeError .elementStore (.one other.typeName))
  | .ref .object r => do return (r, .field (← fieldOf index) new)
  | _ => .error (.typeError .elementStore (.one v.typeName))

def bump (u : Bytecode.Update) : Value → Except Fault Value
  | .int n => .ok (.int (match u with | .increment => n + 1 | .decrement => n - 1))
  | .float x => .ok (.float (match u with | .increment => x + 1.0 | .decrement => x + -1.0))
  | v => .error (.typeError (.update u) (.one v.typeName))

end StackScript.Machine
