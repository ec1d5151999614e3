import StackScript.Host.Environment

/-!
# The functions of every host

The environment that every engine starts with: functions for output, conversion and collections, and
the object `math`.
-/

namespace StackScript.Host

/-- The functions that are bound to a name of their own. -/
def builtins : List (String × Option Nat × Builtin) :=
  [("print", none, .print), ("len", some 1, .len), ("str", some 1, .str), ("int", some 1, .int),
   ("float", some 1, .float), ("type_of", some 1, .typeOf), ("push", some 2, .push),
   ("keys", some 1, .keys), ("contains", some 2, .contains), ("abs", some 1, .abs),
   ("sqrt", some 1, .sqrt), ("floor", some 1, .floor)]

/-- The functions that are fields of `math`, with the names they have as functions. -/
def mathFunctions : List (String × String × Option Nat × Builtin) :=
  [("sqrt", "math.sqrt", some 1, .sqrt), ("max", "math.max", none, .max),
   ("min", "math.min", none, .min)]

/-- The ratio of a circle's circumference to its diameter. -/
def pi : Float := 3.141592653589793

/-- The object `math`. -/
def newMath (h : Heap) : Value × Heap :=
  let (fields, h) := mathFunctions.foldl
    (fun (fields, h) (field, name, arity, builtin) =>
      let (f, h) := Heap.newHostFunction h name arity (some builtin)
      (Fields.insert fields field (.host f), h))
    (Fields.empty.insert "pi" (.float pi), h)
  h.new .object (.fields fields)

/-- The environment with all of them, and the heap they live in. -/
def standard : Environment × Heap :=
  let (e, h) := builtins.foldl
    (fun (e, h) (name, arity, builtin) => Environment.insertBuiltin e h name arity builtin)
    (Environment.empty, Heap.empty)
  let (math, h) := newMath h
  (e.insertConstant "math" math, h)

end StackScript.Host
