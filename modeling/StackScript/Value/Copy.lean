import StackScript.Value.Basic

/-!
# Deep copies

A deep copy of a value has new collections in place of all that can be reached from it; where the
value shares a collection, or contains itself, so does the copy.
-/

namespace StackScript

/-- The heap during a copy, and the copy of what is stored at each address met so far. -/
structure Copying where
  heap : Heap
  copies : List (Address × Value)

/-- Applies a step that carries a state to each value in a cell, in order. -/
def Cell.mapValues {σ : Type} (f : σ → Value → Value × σ) (s : σ) : Cell → Cell × σ
  | .items values =>
    let (out, s) := values.foldl (fun (out, s) v => let (v, s) := f s v; (out.push v, s)) (#[], s)
    (.items out, s)
  | .fields named =>
    let (out, s) := named.entries.foldl
      (fun (out, s) p => let (v, s) := f s p.2; (Fields.insert out p.1 v, s)) (.empty, s)
    (.fields out, s)

namespace Heap

/-- Copies a value, and every collection on the way that has no copy yet.  The copy of a collection
is made empty, so that a collection that contains itself finds it, and filled at the end.  Copies are
looked up by the address alone, so a list and a set that share what they store get one copy, of the
kind that is met first.  Each step down meets an address for the first time, and there are two for
each cell, so `depth` need not be greater. -/
def copyWithin : Nat → Copying → Value → Value × Copying
  | depth + 1, s, .ref shape r =>
    match s.copies.lookup (shape.address r) with
    | some copy => (copy, s)
    | none =>
      let cell := s.heap.stored shape r
      let (place, heap) := s.heap.alloc cell.blank
      let (filled, s) := cell.mapValues (copyWithin depth)
        ⟨heap, (shape.address r, .ref shape place) :: s.copies⟩
      (.ref shape place, { s with heap := s.heap.modify place fun _ => filled })
  | _, s, v => (v, s)

/-- A deep copy of a value. -/
def deepCopy (h : Heap) (v : Value) : Value × Heap :=
  let (copy, s) := copyWithin (2 * h.cells.size + 1) ⟨h, []⟩ v
  (copy, s.heap)

end Heap

end StackScript
