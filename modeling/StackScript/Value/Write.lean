import StackScript.Value.Basic

/-!
# Writes

A write changes what one collection holds.  It is decided upon before it is carried out, so what
cannot be written changes nothing.
-/

namespace StackScript

/-- A list with a new value at a place, and nulls up to it. -/
def padTo (items : Array Value) (place : Nat) (new : Value) : Array Value :=
  if place < items.size then items.setIfInBounds place new
  else (items ++ Array.replicate (place - items.size) Value.null).push new

/-- Changes of what is stored. -/
inductive Write where
  /-- Gives a field of an object a value. -/
  | field (name : String) (new : Value)
  /-- Gives an element of a list a value, and puts nulls in front of it if the list ends before. -/
  | item (place : Nat) (new : Value)
  /-- Adds a value at the end of a list or set. -/
  | last (new : Value)
deriving DecidableEq

/-- The cell behind a write; one that the write does not fit stays as it is. -/
def Write.apply : Write → Cell → Cell
  | .field name new, .fields fields => .fields (fields.insert name new)
  | .item place new, .items items => .items (padTo items place new)
  | .last new, .items items => .items (items.push new)
  | _, c => c

/-- Carries out a write. -/
def Heap.write (h : Heap) (r : Ref) (w : Write) : Heap := h.modify r w.apply

end StackScript
