import StackScript.Bytecode.Program

/-!
# Labels

While code is written, the target of a branch is a label.  A label is open from the moment it is
made until the next instruction is written into its buffer, and is bound to that instruction then;
several labels can be open at once, and all are bound together.  A label can also be made first and
opened later, once or more often; it stays bound to the last instruction it met.
-/

namespace StackScript.Assembly

open Bytecode

/-- A place in the code: a buffer, and a position in it. -/
structure CodePoint where
  buffer : Nat
  position : Nat
deriving DecidableEq, Repr

/-- The labels made so far, by number, with the instruction each one is bound to; and the labels
that are open. -/
structure LabelTable where
  next : Nat
  bound : Array (Option CodePoint)
  waiting : List (Label × Nat)
deriving Repr

namespace LabelTable

def empty : LabelTable := ⟨0, #[], []⟩

def reserve (t : LabelTable) : Label × LabelTable := (⟨t.next⟩, { t with next := t.next + 1 })

/-- Opens a label in a buffer. -/
def openReserved (t : LabelTable) (l : Label) (buffer : Nat) : LabelTable :=
  { t with waiting := t.waiting ++ [(l, buffer)] }

/-- Makes a label and opens it in a buffer. -/
def fresh (t : LabelTable) (buffer : Nat) : Label × LabelTable :=
  let (l, t) := t.reserve
  (l, t.openReserved l buffer)

def bind (bound : Array (Option CodePoint)) (l : Label) (point : CodePoint) :
    Array (Option CodePoint) :=
  let room := bound ++ Array.replicate (l.id + 1 - bound.size) none
  room.setIfInBounds l.id (some point)

/-- Binds the labels that are open in the buffer of an instruction to that instruction. -/
def close (t : LabelTable) (point : CodePoint) : LabelTable :=
  let (here, elsewhere) := t.waiting.partition fun w => w.2 == point.buffer
  { t with bound := here.foldl (fun bound w => bind bound w.1 point) t.bound, waiting := elsewhere }

/-- Is a label open in this buffer? -/
def hasWaiting (t : LabelTable) (buffer : Nat) : Bool := t.waiting.any fun w => w.2 == buffer

def get? (t : LabelTable) (l : Label) : Option CodePoint := (t.bound[l.id]?).join

def size (t : LabelTable) : Nat := (t.bound.filter (·.isSome)).size

def isEmpty (t : LabelTable) : Bool := t.size == 0

end LabelTable

end StackScript.Assembly
