import Mathlib.Tactic.Common
import StackScript.Assembly.LabelTable

/-!
# What labels are bound to

The effect of each operation of a label table on `get?`, the instruction a label is bound to, and on
the labels that wait.  Later proofs look at a table through these two only.
-/

namespace StackScript.Assembly.LabelTable

open Bytecode

theorem bind_get (bound : Array (Option CodePoint)) (l m : Label) (pt : CodePoint) :
    ((bind bound l pt)[m.id]?).join = if m = l then some pt else (bound[m.id]?).join := by
  unfold bind
  simp only [Array.getElem?_setIfInBounds, Array.size_append, Array.size_replicate]
  by_cases hm : m = l
  · subst hm
    rw [if_pos rfl, if_pos rfl, if_pos (by omega)]
    rfl
  · have hid : l.id ≠ m.id := fun h => hm (by cases m; cases l; simp_all)
    rw [if_neg hid, if_neg hm, Array.getElem?_append]
    split
    · rfl
    · rw [Array.getElem?_eq_none (show bound.size ≤ m.id by omega), Array.getElem?_replicate]
      split <;> rfl

/-- Binding labels one after the other binds exactly these. -/
theorem foldl_bind_get (labels : List (Label × Nat)) (bound : Array (Option CodePoint)) (m : Label)
    (pt : CodePoint) :
    ((labels.foldl (fun bound w => bind bound w.1 pt) bound)[m.id]?).join =
      if m ∈ labels.map (·.1) then some pt else (bound[m.id]?).join := by
  induction labels generalizing bound with
  | nil => simp
  | cons w rest ih =>
    rw [List.foldl_cons, ih, bind_get]
    by_cases hr : m ∈ rest.map (·.1) <;> by_cases hw : m = w.1 <;> simp [hr, hw]

/-- Closing binds the labels that wait in the buffer of the instruction, and no others. -/
theorem close_get (t : LabelTable) (pt : CodePoint) (l : Label) :
    (t.close pt).get? l = if (l, pt.buffer) ∈ t.waiting then some pt else t.get? l := by
  unfold close get?
  simp only [List.partition_eq_filter_filter, foldl_bind_get]
  congr 1
  simp

theorem close_waiting (t : LabelTable) (pt : CodePoint) (w : Label × Nat) :
    w ∈ (t.close pt).waiting ↔ w ∈ t.waiting ∧ w.2 ≠ pt.buffer := by
  simp [close, List.partition_eq_filter_filter]

@[simp] theorem close_next (t : LabelTable) (pt : CodePoint) : (t.close pt).next = t.next := rfl

@[simp] theorem openReserved_get (t : LabelTable) (l m : Label) (b : Nat) :
    (t.openReserved l b).get? m = t.get? m := rfl

@[simp] theorem openReserved_next (t : LabelTable) (l : Label) (b : Nat) :
    (t.openReserved l b).next = t.next := rfl

theorem openReserved_waiting (t : LabelTable) (l : Label) (b : Nat) (w : Label × Nat) :
    w ∈ (t.openReserved l b).waiting ↔ w ∈ t.waiting ∨ w = (l, b) := by
  simp [openReserved]

theorem hasWaiting_iff (t : LabelTable) (b : Nat) :
    t.hasWaiting b = true ↔ ∃ l, (l, b) ∈ t.waiting := by
  simp [hasWaiting]

end StackScript.Assembly.LabelTable
