import StackScript.Host.Call
import StackScript.Typing.Ty

/-!
# The host environment

The names that the host gives to every program, each with a kind, the name of a static type and a
value.  A name that the host binds again gets the new binding.  Host functions that are no builtins
do what the environment says (`Environment.own`).
-/

namespace StackScript.Host

/-- What a name stands for. -/
inductive Kind where
  | function | object | type | constant | var
deriving DecidableEq, Repr

namespace Kind

def name : Kind → String
  | function => "Function"
  | object => "Object"
  | type => "Class"
  | constant => "Constant"
  | var => "Variable"

def all : List Kind := [function, object, type, constant, var]

def ofName? (s : String) : Option Kind := all.find? fun k => k.name == s

end Kind

/-- A binding of the host.  A type name that is unknown stands for `any`. -/
structure Binding where
  kind : Kind
  typeName : String
  value : Value

def Binding.type (b : Binding) : Typing.Ty := (Typing.Ty.ofText? b.typeName).getD .any

/-- The bindings of the host, one for each name, and what its own functions do. -/
structure Environment where
  bindings : List (String × Binding)
  own : HostFunction → Body

namespace Environment

/-- Own functions of a host that has none. -/
def noOwn : HostFunction → Body := fun f => .refuse (f.name ++ " is not defined")

def empty : Environment := ⟨[], noOwn⟩

def get? (e : Environment) (name : String) : Option Binding := e.bindings.lookup name

def erase (e : Environment) (name : String) : Environment :=
  { e with bindings := e.bindings.filter fun b => b.1 != name }

/-- Binds a name, in place of what it was bound to. -/
def insert (e : Environment) (name : String) (b : Binding) : Environment :=
  { e with bindings := (name, b) :: (e.erase name).bindings }

def contains (e : Environment) (name : String) : Bool := (e.get? name).isSome

def names (e : Environment) : List String :=
  (e.bindings.map (·.1)).mergeSort fun a b => decide (a ≤ b)

/-- Binds a name to a value; kind and type follow from the value. -/
def insertConstant (e : Environment) (name : String) (v : Value) : Environment :=
  let kind := match v with
    | .host _ => .function
    | .ref .object _ => .object
    | _ => .constant
  e.insert name ⟨kind, v.typeName, v⟩

def insertBuiltin (e : Environment) (h : Heap) (name : String) (arity : Option Nat)
    (builtin : Builtin) : Environment × Heap :=
  let (f, h) := h.newHostFunction name arity (some builtin)
  (e.insert name ⟨.function, "function", .host f⟩, h)

/-- Binds a name to a function of the host's own. -/
def insertFunction (e : Environment) (h : Heap) (name : String) (arity : Option Nat)
    (body : Body) : Environment × Heap :=
  let (f, h) := h.newHostFunction name arity none
  let own g := if g.serial == f.serial then body else e.own g
  ({ e with own }.insert name ⟨.function, "function", .host f⟩, h)

/-- What a function of the host does when the number of arguments is right. -/
def body (e : Environment) (f : HostFunction) : Body :=
  match f.builtin with
  | some b => b.answer
  | none => e.own f

/-- Calls a function of the host.  The number of arguments is checked first. -/
def call (e : Environment) (f : HostFunction) : Body := fun arguments h output =>
  match f.arity with
  | some n =>
    if n == arguments.length then e.body f arguments h output
    else ⟨.error (.argumentCount n arguments.length), h, output⟩
  | none => e.body f arguments h output

end Environment

end StackScript.Host
