/-!
# Values and the heap

A value is a scalar, a function or a handle of a collection.  What collections hold lives in the
heap, a growing sequence of cells; a handle says where, and whether it is a list, a set or an object.
Two handles of one cell share what is stored there.  `Heap.cell` looks at a cell, `Heap.alloc` adds
one and `Heap.modify` changes one in place.
-/

namespace StackScript

/-- The functions that every host has. -/
inductive Builtin where
  | print | len | str | int | float | typeOf | push | keys | contains
  | abs | sqrt | floor | max | min
deriving DecidableEq, Repr

/-- A function of the host.  Two functions are the same when their serial numbers are; an arity is
the number of arguments that a call must have. -/
structure HostFunction where
  serial : Nat
  name : String
  arity : Option Nat
  /-- What it does, unless it is one of the host's own. -/
  builtin : Option Builtin
deriving DecidableEq, Repr

/-- The place of a cell in the heap. -/
abbrev Ref := Nat

/-- The kinds of collections. -/
inductive Shape where
  | list | set | object
deriving DecidableEq, Repr

/-- Values. -/
inductive Value where
  | null
  | bool (b : Bool)
  | int (n : Int32)
  | float (x : Float)
  | str (s : String)
  | ref (shape : Shape) (r : Ref)
  /-- A function of the program, by the index of its first instruction. -/
  | function (entry : Nat)
  | host (f : HostFunction)
deriving DecidableEq, Inhabited

namespace Value

/-- Does a value count as true where a condition is wanted? -/
def isTruthy : Value → Bool
  | null => false
  | bool b => b
  | int n => n != 0
  | float x => !x.isNaN && x != 0
  | str s => !s.isEmpty
  | ref _ _ | function _ | host _ => true

def typeName : Value → String
  | null => "null"
  | bool _ => "bool"
  | int _ => "int"
  | float _ => "float"
  | str _ => "string"
  | ref .list _ => "array"
  | ref .set _ => "set"
  | ref .object _ => "object"
  | function _ | host _ => "function"

end Value

/-- The fields of an object, in the order in which their names first came. -/
structure Fields where
  entries : Array (String × Value)
  nodup : (entries.toList.map (·.1)).Nodup
deriving DecidableEq

namespace Fields

def empty : Fields := ⟨#[], List.nodup_nil⟩

def size (fields : Fields) : Nat := fields.entries.size

def names (fields : Fields) : List String := fields.entries.toList.map (·.1)

def values (fields : Fields) : List Value := fields.entries.toList.map (·.2)

def get? (fields : Fields) (name : String) : Option Value :=
  (fields.entries.find? fun f => f.1 == name).map (·.2)

theorem nodup_setIfInBounds (fields : Fields) {name : String} (value : Value) {i : Nat}
    (h : fields.entries.findIdx? (fun f => f.1 == name) = some i) :
    ((fields.entries.setIfInBounds i (name, value)).toList.map (·.1)).Nodup := by
  obtain ⟨hi, hname, -⟩ := Array.findIdx?_eq_some_iff_getElem.1 h
  have hi' : i < (fields.entries.toList.map (·.1)).length := by simpa using hi
  have hsame : (fields.entries.toList.map (·.1))[i] = name := by simpa using hname
  rw [Array.toList_setIfInBounds, List.map_set, ← hsame, List.set_getElem_self]
  exact fields.nodup

theorem nodup_push (fields : Fields) {name : String} (value : Value)
    (h : fields.entries.findIdx? (fun f => f.1 == name) = none) :
    ((fields.entries.push (name, value)).toList.map (·.1)).Nodup := by
  rw [Array.toList_push, List.map_append, List.nodup_append]
  refine ⟨fields.nodup, by simp, ?_⟩
  rintro _ hold _ hnew rfl
  obtain ⟨f, hf, hname⟩ := List.mem_map.1 hold
  obtain rfl := List.mem_singleton.1 hnew
  have hother := Array.findIdx?_eq_none_iff.1 h f (Array.mem_toList_iff.1 hf)
  simp [hname] at hother

/-- Gives a field a value; a new field comes last. -/
def insert (fields : Fields) (name : String) (value : Value) : Fields :=
  match h : fields.entries.findIdx? fun f => f.1 == name with
  | some i => ⟨fields.entries.setIfInBounds i (name, value), fields.nodup_setIfInBounds value h⟩
  | none => ⟨fields.entries.push (name, value), fields.nodup_push value h⟩

/-- The fields of a list of names and values; of two with one name, the first gives the place and
the last the value. -/
def ofList (pairs : List (String × Value)) : Fields :=
  pairs.foldl (fun fields p => fields.insert p.1 p.2) empty

end Fields

/-- What is stored for a collection: a sequence of values, for lists and sets, or fields. -/
inductive Cell where
  | items (values : Array Value)
  | fields (named : Fields)
deriving DecidableEq

instance : Inhabited Cell := ⟨.items #[]⟩

namespace Cell

def size : Cell → Nat
  | items values => values.size
  | fields named => named.size

def values : Cell → List Value
  | items values => values.toList
  | fields named => named.values

def blank : Cell → Cell
  | items _ => items #[]
  | fields _ => fields .empty

end Cell

/-- All cells, and the serial number of the next function of the host. -/
structure Heap where
  cells : Array Cell
  nextSerial : Nat
deriving DecidableEq

namespace Heap

def empty : Heap := ⟨#[], 0⟩

/-- The cell at a place. -/
def cell (h : Heap) (r : Ref) : Cell := h.cells.getD r default

/-- The items of the list or the members of the set at a place. -/
def items (h : Heap) (r : Ref) : Array Value :=
  match h.cell r with
  | .items values => values
  | .fields _ => #[]

def fields (h : Heap) (r : Ref) : Fields :=
  match h.cell r with
  | .fields named => named
  | .items _ => .empty

/-- What is stored for a collection. -/
def stored (h : Heap) (shape : Shape) (r : Ref) : Cell :=
  match shape with
  | .list | .set => .items (h.items r)
  | .object => .fields (h.fields r)

def alloc (h : Heap) (c : Cell) : Ref × Heap := (h.cells.size, { h with cells := h.cells.push c })

def modify (h : Heap) (r : Ref) (f : Cell → Cell) : Heap := { h with cells := h.cells.modify r f }

def new (h : Heap) (shape : Shape) (c : Cell) : Value × Heap :=
  let (r, h) := h.alloc c
  (.ref shape r, h)

/-- Makes a function of the host that differs from all others. -/
def newHostFunction (h : Heap) (name : String) (arity : Option Nat) (builtin : Option Builtin) :
    HostFunction × Heap :=
  (⟨h.nextSerial, name, arity, builtin⟩, { h with nextSerial := h.nextSerial + 1 })

end Heap

/-- Where something is stored: are there fields, and at which place?  Sequences and fields never share
what they store. -/
abbrev Address := Bool × Ref

def Shape.address (shape : Shape) (r : Ref) : Address := (shape == .object, r)

end StackScript
