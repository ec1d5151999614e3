import StackScript.Decimal.Numeric
import StackScript.Decimal.Reading
import StackScript.Host.Answer
import StackScript.Text.Blank
import StackScript.Value.Display
import StackScript.Value.Equality
import StackScript.Value.Write

/-!
# What the builtins do

`Builtin.plan` finds the effect of a call without changing anything: a value, a new collection, a
write to one, or a line of output.  `Effect.carryOut` gives the answer, with the heap and the output
behind the call.
-/

namespace StackScript.Host

/-- A value, unless the call fails. -/
abbrev Pure := Except CallError Value

/-- What a call does. -/
inductive Effect where
  /-- Answers a value. -/
  | give (v : Value)
  /-- Answers a new collection. -/
  | create (shape : Shape) (c : Cell)
  /-- Changes a collection, and answers a value or fails behind that. -/
  | write (v : Pure) (r : Ref) (w : Write)
  /-- Adds a line to the output and answers null. -/
  | print (line : String)

def Effect.carryOut (e : Effect) (h : Heap) (output : String) : Answer :=
  match e with
  | give v => ⟨.ok v, h, output⟩
  | create shape c =>
    let (v, h) := h.new shape c
    ⟨.ok v, h, output⟩
  | write v r w => ⟨v, h.write r w, output⟩
  | print line => ⟨.ok .null, h, output ++ line ++ "\n"⟩

def lengthValue (n : Nat) : Pure :=
  match Decimal.int32OfNat? n with
  | some k => .ok (.int k)
  | none => .error (.lengthTooLarge n)

def floorValue (x : Float) : Pure :=
  match Decimal.floorToInt? x with
  | some n => .ok (.int n)
  | none => .error (.tooLargeForInt x)

def number? : Value → Option Float
  | .int n => some (Decimal.floatOfInt n)
  | .float x => some x
  | _ => none

def number (v : Value) : Except CallError Float :=
  match number? v with
  | some x => .ok x
  | none => .error (.notANumber v.typeName)

def len (h : Heap) : Value → Pure
  | .str s => lengthValue s.length
  | .ref shape r => lengthValue (h.stored shape r).size
  | v => .error (.noLength v.typeName)

def trimmed (s : String) : String := String.ofList (Text.trim s.toList)

/-- Conversion to an integer: floats are rounded down, strings are read. -/
def toInt : Value → Pure
  | .int n => .ok (.int n)
  | .bool b => .ok (.int (if b then 1 else 0))
  | .float x => floorValue x
  | .str s =>
    let text := trimmed s
    match (Decimal.readInt? text).bind Decimal.int32OfInt? with
    | some n => .ok (.int n)
    | none =>
      match Decimal.readFloat? text with
      | some x => floorValue x
      | none => .error (.cannotRead s "int")
  | v => .error (.cannotConvert (v.typeName) "int")

def toFloat : Value → Pure
  | .int n => .ok (.float (Decimal.floatOfInt n))
  | .float x => .ok (.float x)
  | .bool b => .ok (.float (if b then 1.0 else 0.0))
  | .str s =>
    match Decimal.readFloat? (trimmed s) with
    | some x => .ok (.float x)
    | none => .error (.cannotRead s "float")
  | v => .error (.cannotConvert (v.typeName) "float")

/-- Does the second text stand somewhere in the first? -/
def holdsText : List Char → List Char → Bool
  | [], part => part.isEmpty
  | c :: rest, part => part.isPrefixOf (c :: rest) || holdsText rest part

/-- Membership in a list or set, a field of an object, or a part of a string. -/
def contains (h : Heap) (collection needle : Value) : Pure :=
  match collection with
  | .str s =>
    match needle with
    | .str part => .ok (.bool (holdsText s.toList part.toList))
    | _ => .ok (.bool false)
  | .ref .object r =>
    match needle with
    | .str name => .ok (.bool ((h.fields r).get? name).isSome)
    | _ => .ok (.bool false)
  | .ref _ r => .ok (.bool (h.contains (h.items r) needle))
  | v => .error (.cannotSearch (v.typeName))

/-- The absolute value; an integer stays one. -/
def abs : Value → Pure
  | .int n => .ok (.int (if n < 0 then -n else n))
  | .float x => .ok (.float x.abs)
  | v => .error (.notANumber (v.typeName))

def floor : Value → Pure
  | .int n => .ok (.int n)
  | .float x => floorValue x
  | v => .error (.notANumber (v.typeName))

/-- The best of some numbers: each that wins over the best before it, or is no number, takes its
place. -/
def best (wins : Float → Float → Bool) : Value → Float → List Value → Pure
  | champion, _, [] => .ok champion
  | champion, x, v :: rest => do
    let y ← number v
    if wins y x || y.isNaN then best wins v y rest else best wins champion x rest

def extremum (function : String) (wins : Float → Float → Bool) : List Value → Pure
  | [] => .error (.noArguments function)
  | first :: rest => do
    let x ← number first
    best wins first x rest

/-- Adds a value at the end of a list, or to a set that has no equal one; the answer is the new
length, which need not fit. -/
def push (h : Heap) (collection v : Value) : Except CallError Effect :=
  match collection with
  | .ref .list r => .ok (.write (lengthValue ((h.items r).size + 1)) r (.last v))
  | .ref .set r =>
    let members := h.items r
    if h.contains members v then (lengthValue members.size).map .give
    else .ok (.write (lengthValue (members.size + 1)) r (.last v))
  | v => .error (.cannotPush v.typeName)

def keys (h : Heap) (v : Value) : Except CallError Effect :=
  match v with
  | .ref .object r => .ok (.create .list (.items ((h.fields r).entries.map fun f => .str f.1)))
  | v => .error (.noKeys v.typeName)

end Host

namespace Builtin

open Host

def plan (b : Builtin) (arguments : List Value) (h : Heap) : Except CallError Effect :=
  let first := arguments.headD .null
  let second := (arguments.drop 1).headD .null
  match b with
  | .print => .ok (.print (" ".intercalate (arguments.map h.display)))
  | .len => (Host.len h first).map .give
  | .str => .ok (.give (.str (h.display first)))
  | .int => (toInt first).map .give
  | .float => (toFloat first).map .give
  | .typeOf => .ok (.give (.str first.typeName))
  | .push => Host.push h first second
  | .keys => Host.keys h first
  | .contains => (Host.contains h first second).map .give
  | .abs => (Host.abs first).map .give
  | .sqrt => (number first).map fun x => .give (.float x.sqrt)
  | .floor => (Host.floor first).map .give
  | .max => (extremum "max" (fun y x => decide (x < y)) arguments).map .give
  | .min => (extremum "min" (fun y x => decide (y < x)) arguments).map .give

def answer (b : Builtin) : Body := fun arguments h output =>
  match b.plan arguments h with
  | .ok e => e.carryOut h output
  | .error e => ⟨.error e, h, output⟩

end Builtin

end StackScript
