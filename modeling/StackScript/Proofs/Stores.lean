import StackScript.Proofs.HeapChanges
import StackScript.Proofs.Places

/-!
# Stores change one place

A store or an update follows indices through collections that may be shared and may contain themselves,
and then writes to one collection.

* `Heap.Changes`: two heaps that differ in one collection.
* `Padded`: a list behind a store, which may lie behind its end.
* `Cell.Replaces`: two collections that differ in the value of one element or field.
* `stores_exact`: a store or an update that succeeds changes what it names and nothing else, and an
  instruction that fails changes nothing.
-/

namespace StackScript

/-! ### One collection changes -/

/-- The heap `h'` is `h` but for the collection at `r`, which was `c` and is `c'`. -/
structure Heap.Changes (h : Heap) (r : Ref) (c c' : Cell) (h' : Heap) : Prop where
  before : h.cells[r]? = some c
  after : h'.cells[r]? = some c'
  others : ∀ q ≠ r, h'.cells[q]? = h.cells[q]?

/-- The list `items'` is `items` with a new value at a place, and nulls in front of it if the list ended
before. -/
structure Padded (items items' : Array Value) (place : Nat) (new : Value) : Prop where
  size : items'.size = max items.size (place + 1)
  stored : items'[place]? = some new
  nulls : ∀ j, items.size ≤ j → j < place → items'[j]? = some .null
  kept : ∀ j < items.size, j ≠ place → items'[j]? = items[j]?

/-- The collection `c'` is `c` with `new` in place of `old`: in the element of a list, or in the field of
an object, that the index names. -/
inductive Cell.Replaces : Shape → Cell → Value → Value → Value → Cell → Prop where
  | item {items : Array Value} {i : Int32} (new : Value) (hi : 0 ≤ i) (hlt : i.toInt.toNat < items.size) :
      Replaces .list (.items items) (.int i) items[i.toInt.toNat] new (.items (items.set i.toInt.toNat new))
  | field {named named' : Fields} {k : Nat} (new : Value) (hk : k < named.entries.size)
      (hnamed : named'.entries = named.entries.set k (named.entries[k].1, new)) :
      Replaces .object (.fields named) (.str named.entries[k].1) named.entries[k].2 new (.fields named')

/-- The second number is the first one, one more or one less; integers go round. -/
inductive OneApart : Bytecode.Update → Value → Value → Prop where
  | incrementInt (n : Int32) : OneApart .increment (.int n) (.int (n + 1))
  | decrementInt (n : Int32) : OneApart .decrement (.int n) (.int (n - 1))
  | incrementFloat (x : Float) : OneApart .increment (.float x) (.float (x + 1.0))
  | decrementFloat (x : Float) : OneApart .decrement (.float x) (.float (x + -1.0))

section Writes

variable {h : Heap} {r : Ref} {c : Cell} {v old new : Value}

theorem Heap.write_changes (hc : h.cells[r]? = some c) (w : Write) :
    h.Changes r c (w.apply c) (h.write r w) := by
  constructor
  · exact hc
  · rw [Heap.write, Heap.modify, Array.getElem?_modify, if_pos rfl, hc]
    rfl
  · intro q hq
    rw [Heap.write, Heap.modify, Array.getElem?_modify, if_neg (Ne.symm hq)]

/-- What holds items or fields is there. -/
theorem Heap.getElem?_of_values (hv : v ∈ (h.cell r).values) : h.cells[r]? = some (h.cell r) := by
  refine getElem?_eq_cell (Nat.lt_of_not_le fun hr => ?_)
  rw [cell_eq_default hr] at hv
  cases hv

theorem padTo_padded (items : Array Value) (place : Nat) (new : Value) :
    Padded items (padTo items place new) place new := by
  unfold padTo
  split
  · next hlt =>
    constructor
    · rw [Array.size_setIfInBounds]
      omega
    · rw [Array.getElem?_setIfInBounds_self_of_lt hlt]
    · intro j hj hjp
      omega
    · intro j hj hne
      rw [Array.getElem?_setIfInBounds_ne (Ne.symm hne)]
  · -- behind the end the gap up to the place is filled with nulls
    next hge =>
    have hsize : (items ++ Array.replicate (place - items.size) Value.null).size = place := by
      rw [Array.size_append, Array.size_replicate]
      omega
    constructor
    · rw [Array.size_push, hsize]
      omega
    · rw [Array.getElem?_push, if_pos hsize.symm]
    · intro j hj hjp
      rw [Array.getElem?_push, if_neg (by omega), Array.getElem?_append_right hj, Array.getElem?_replicate,
        if_pos (by omega)]
    · intro j hj _
      rw [Array.getElem?_push, if_neg (by omega), Array.getElem?_append_left hj]

/-- Writing to an element that is there replaces its value. -/
theorem padTo_replaces {items : Array Value} {i : Int32} (hi : 0 ≤ i)
    (hold : items[i.toInt.toNat]? = some old) (new : Value) :
    Cell.Replaces .list (.items items) (.int i) old new (.items (padTo items i.toInt.toNat new)) := by
  obtain ⟨hlt, rfl⟩ := Array.getElem?_eq_some_iff.1 hold
  rw [padTo, if_pos hlt, Array.setIfInBounds, dif_pos hlt]
  exact .item new hi hlt

/-- Writing to a field that is there replaces its value. -/
theorem Fields.insert_replaces {named : Fields} {name : String} (hold : named.get? name = some old)
    (new : Value) :
    Cell.Replaces .object (.fields named) (.str name) old new (.fields (named.insert name new)) := by
  obtain ⟨f, hf, rfl⟩ := Option.map_eq_some_iff.1 hold
  obtain ⟨hname, k, hk, rfl, hfirst⟩ := Array.find?_eq_some_iff_getElem.1 hf
  obtain rfl := beq_iff_eq.1 hname
  have hindex : named.entries.findIdx? (fun f => f.1 == named.entries[k].1) = some k := by
    refine Array.findIdx?_eq_some_iff_getElem.2 ⟨hk, beq_self_eq_true _, fun j hj => ?_⟩
    simpa using hfirst j hj
  refine .field new hk ?_
  rw [Fields.entries_insert, hindex]
  exact dif_pos hk

/-- Behind the name of a field stands its value, since no other field has this name. -/
theorem Fields.get?_entry {named : Fields} {k : Nat} (hk : k < named.entries.size) :
    named.get? named.entries[k].1 = some named.entries[k].2 := by
  have hfind : named.entries.find? (fun f => f.1 == named.entries[k].1) = some named.entries[k] := by
    refine Array.find?_eq_some_iff_getElem.2 ⟨beq_self_eq_true _, k, hk, rfl, fun j hj => ?_⟩
    have hne := List.pairwise_iff_getElem.1 named.nodup j k (by simp; omega) (by simpa using hk) hj
    simpa using hne
  rw [Fields.get?, hfind]
  rfl

end Writes

namespace Machine

open Bytecode Host

/-! ### Plans -/

theorem ok_of_except_bind {ε α β : Type} {y : Except ε α} {f : α → Except ε β} {b : β}
    (h : (y >>= f) = .ok b) : ∃ a, y = .ok a ∧ f a = .ok b := by
  cases y with
  | ok a => exact ⟨a, rfl, h⟩
  | error e => cases h

section Plans

variable {h : Heap} {v index old new : Value} {r : Ref} {w : Write} {u : Update}

theorem bump_oneApart (hb : bump u old = .ok new) : OneApart u old new := by
  cases old with
  | int n =>
    obtain rfl := Except.ok.inj hb
    cases u
    · exact .incrementInt n
    · exact .decrementInt n
  | float x =>
    obtain rfl := Except.ok.inj hb
    cases u
    · exact .incrementFloat x
    · exact .decrementFloat x
  | _ => cases hb

/-- What is decided about the store of an element: what it writes, or why it cannot. -/
theorem storeElement_cases (h : Heap) (max : Nat) (v index new : Value) :
    (∃ r, ∃ i : Int32, v = .ref .list r ∧ index = .int i ∧ 0 ≤ i ∧
      storeElement h max v index new =
        if (h.items r).size ≤ i.toInt.toNat ∧ max ≤ i.toInt.toNat then .error (.listTooLong i.toInt.toNat max)
        else .ok (r, .item i.toInt.toNat new)) ∨
    (∃ r name, v = .ref .object r ∧ index = .str name ∧
      storeElement h max v index new = .ok (r, .field name new)) ∨
    ∃ task found, storeElement h max v index new = .error (.typeError task found) := by
  cases v with
  | ref shape r =>
    cases shape with
    | list =>
      cases index with
      | int i =>
        by_cases hi : 0 ≤ i
        · refine .inl ⟨r, i, rfl, rfl, hi, ?_⟩
          simp only [storeElement, placeOf, if_pos hi]
          rfl
        · refine .inr (.inr ⟨.elementStore, .negativeIndex i, ?_⟩)
          simp only [storeElement, placeOf, if_neg hi]
          rfl
      | _ => exact .inr (.inr ⟨_, _, rfl⟩)
    | object =>
      cases index with
      | str name => exact .inr (.inl ⟨r, name, rfl, rfl, rfl⟩)
      | _ => exact .inr (.inr ⟨_, _, rfl⟩)
    | set => exact .inr (.inr ⟨_, _, rfl⟩)
  | _ => exact .inr (.inr ⟨_, _, rfl⟩)

/-- An element of a list is stored at the place that the index names. -/
theorem storeElement_list {max : Nat} {q : Ref}
    (hplan : storeElement h max (.ref .list r) index new = .ok (q, w)) :
    q = r ∧ ∃ i : Int32, index = .int i ∧ 0 ≤ i ∧ w = .item i.toInt.toNat new := by
  obtain ⟨r', i, hv, rfl, hi, hstore⟩ | ⟨r', name, hv, -⟩ | ⟨task, found, hstore⟩ :=
    storeElement_cases h max (.ref .list r) index new
  · rw [hstore] at hplan
    split at hplan
    · cases hplan
    · obtain ⟨rfl, rfl⟩ := Prod.mk.inj (Except.ok.inj hplan)
      obtain ⟨-, rfl⟩ := Value.ref.inj hv
      exact ⟨rfl, i, rfl, hi, rfl⟩
  · cases hv
  · rw [hstore] at hplan
    cases hplan

/-- What is written to, when an element is stored, is a list or an object. -/
theorem storeElement_target {max : Nat} (hplan : storeElement h max v index new = .ok (r, w)) :
    ∃ shape, shape ≠ .set ∧ v = .ref shape r := by
  obtain ⟨q, i, rfl, -, -, hstore⟩ | ⟨q, name, rfl, -, hstore⟩ | ⟨task, found, hstore⟩ :=
    storeElement_cases h max v index new
  · rw [hstore] at hplan
    split at hplan
    · cases hplan
    · obtain ⟨rfl, -⟩ := Prod.mk.inj (Except.ok.inj hplan)
      exact ⟨.list, nofun, rfl⟩
  · rw [hstore] at hplan
    obtain ⟨rfl, -⟩ := Prod.mk.inj (Except.ok.inj hplan)
    exact ⟨.object, nofun, rfl⟩
  · rw [hstore] at hplan
    cases hplan

/-- A list that would grow too long is what a store stops at. -/
theorem storeElement_tooLong {max : Nat} :
    (∃ place limit, storeElement h max v index new = .error (.listTooLong place limit)) ↔
      ∃ r, ∃ i : Int32, v = .ref .list r ∧ index = .int i ∧ 0 ≤ i ∧
        (h.items r).size ≤ i.toInt.toNat ∧ max ≤ i.toInt.toNat := by
  constructor
  · rintro ⟨place, limit, hplan⟩
    obtain ⟨r, i, rfl, rfl, hi, hstore⟩ | ⟨r, name, -, -, hstore⟩ | ⟨task, found, hstore⟩ :=
      storeElement_cases h max v index new
    · rw [hstore] at hplan
      split at hplan
      · next hlong => exact ⟨r, i, rfl, rfl, hi, hlong.1, hlong.2⟩
      · cases hplan
    · rw [hstore] at hplan
      cases hplan
    · rw [hstore] at hplan
      cases hplan
  · rintro ⟨r, i, rfl, rfl, hi, hsize, hmax⟩
    refine ⟨i.toInt.toNat, max, ?_⟩
    simp only [storeElement, placeOf, if_pos hi]
    change (if (h.items r).size ≤ i.toInt.toNat ∧ max ≤ i.toInt.toNat then _ else _) = _
    rw [if_pos ⟨hsize, hmax⟩]
    rfl

/-- Reading an element fails for the types of the values only. -/
theorem loadElement_error {f : Fault} (hload : loadElement h v index = .error f) :
    ∃ task found, f = .typeError task found := by
  cases v with
  | str s =>
    cases index <;> cases hload
    all_goals exact ⟨_, _, rfl⟩
  | ref shape r =>
    cases shape with
    | set => cases hload
    | list | object =>
      cases index <;> cases hload
      all_goals exact ⟨_, _, rfl⟩
  | _ =>
    cases hload
    exact ⟨_, _, rfl⟩

theorem loadPath_error {f : Fault} (indices : List Value) (hload : loadPath h v indices = .error f) :
    ∃ task found, f = .typeError task found := by
  induction indices generalizing v with
  | nil => cases hload
  | cons index rest ih =>
    rw [loadPath] at hload
    cases hv : loadElement h v index with
    | ok a =>
      rw [hv] at hload
      exact ih hload
    | error e =>
      rw [hv] at hload
      cases hload
      exact loadElement_error hv

def planElement (h : Heap) (max : Nat) (u : Update) (v index : Value) : Except Fault (Ref × Write) := do
  storeElement h max v index (← bump u (← loadElement h v index))

def planMember (h : Heap) (u : Update) (v : Value) (name : String) : Except Fault (Ref × Write) := do
  storeMember v name (← bump u (← loadMember h v name))

/-- Null is no number: what can be updated is there. -/
theorem some_of_bump {x : Option Value} (hload : x.getD .null = old) (hbump : bump u old = .ok new) :
    x = some old := by
  cases x with
  | none =>
    subst hload
    cases hbump
  | some a => exact congrArg some hload

theorem storeMember_ok {name : String} (hplan : storeMember v name new = .ok (r, w)) :
    v = .ref .object r ∧ w = .field name new := by
  unfold storeMember at hplan
  split at hplan
  · obtain ⟨rfl, rfl⟩ := Prod.mk.inj (Except.ok.inj hplan)
    exact ⟨rfl, rfl⟩
  · cases hplan

/-- A field that holds a value is in the cell. -/
theorem cell_of_field {name : String} (hfield : (h.fields r).get? name = some old) :
    h.cells[r]? = some (.fields (h.fields r)) := by
  have hmem : old ∈ (h.cell r).values := h.fields_subset r old (Fields.mem_get? hfield)
  rw [Heap.getElem?_of_values hmem]
  cases hc : h.cell r with
  | fields named => rw [Heap.fields_of_cell hc]
  | items values =>
    rw [Heap.fields, hc] at hfield
    cases hfield

/-- An item is in the cell. -/
theorem cell_of_item {place : Nat} (hitem : (h.items r)[place]? = some old) :
    h.cells[r]? = some (.items (h.items r)) := by
  have hmem : old ∈ (h.cell r).values := h.items_subset r old (Array.mem_of_getElem? hitem)
  rw [Heap.getElem?_of_values hmem]
  cases hc : h.cell r with
  | items values => rw [Heap.items_of_cell hc]
  | fields named =>
    rw [Heap.items, hc] at hitem
    cases hitem

/-- The update of an element replaces a number that is there. -/
theorem planElement_ok {max : Nat} (hplan : planElement h max u v index = .ok (r, w)) :
    ∃ shape c old new, v = .ref shape r ∧ h.cells[r]? = some c ∧ OneApart u old new ∧
      Cell.Replaces shape c index old new (w.apply c) := by
  obtain ⟨old, hload, hbumped⟩ := ok_of_except_bind hplan
  obtain ⟨new, hbump, hstored⟩ := ok_of_except_bind hbumped
  clear hplan hbumped
  have happart := bump_oneApart hbump
  obtain ⟨r', i, rfl, rfl, hi, hstore⟩ | ⟨r', name, rfl, rfl, hstore⟩ | ⟨task, found, hstore⟩ :=
    storeElement_cases h max v index new
  · simp only [loadElement, placeOf, if_pos hi] at hload
    have hitem : (h.items r')[i.toInt.toNat]? = some old := some_of_bump (Except.ok.inj hload) hbump
    rw [hstore] at hstored
    split at hstored
    · cases hstored
    · obtain ⟨rfl, rfl⟩ := Prod.mk.inj (Except.ok.inj hstored)
      exact ⟨.list, _, old, new, rfl, cell_of_item hitem, happart, padTo_replaces hi hitem new⟩
  · have hfield : (h.fields r').get? name = some old := some_of_bump (Except.ok.inj hload) hbump
    rw [hstore] at hstored
    obtain ⟨rfl, rfl⟩ := Prod.mk.inj (Except.ok.inj hstored)
    exact ⟨.object, _, old, new, rfl, cell_of_field hfield, happart, Fields.insert_replaces hfield new⟩
  · rw [hstore] at hstored
    cases hstored

/-- The update of a member replaces a number that is there. -/
theorem planMember_ok {name : String} (hplan : planMember h u v name = .ok (r, w)) :
    v = .ref .object r ∧ ∃ c old new, h.cells[r]? = some c ∧ OneApart u old new ∧
      Cell.Replaces .object c (.str name) old new (w.apply c) := by
  obtain ⟨old, hload, hbumped⟩ := ok_of_except_bind hplan
  obtain ⟨new, hbump, hstored⟩ := ok_of_except_bind hbumped
  obtain ⟨rfl, rfl⟩ := storeMember_ok hstored
  have hfield : (h.fields r).get? name = some old := some_of_bump (Except.ok.inj hload) hbump
  exact ⟨rfl, _, old, new, cell_of_field hfield, bump_oneApart hbump, Fields.insert_replaces hfield new⟩

theorem bump_eq (happart : OneApart u old new) : bump u old = .ok new := by
  cases happart <;> rfl

/-- A number that an index names can be updated. -/
theorem planElement_eq (max : Nat) {shape : Shape} {c c' : Cell} (hc : h.cell r = c)
    (happart : OneApart u old new) (hreplaces : Cell.Replaces shape c index old new c') :
    ∃ w, planElement h max u (.ref shape r) index = .ok (r, w) := by
  have hbump : bump u old = .ok new := bump_eq happart
  unfold planElement
  cases hreplaces with
  | @item items i _ hi hlt =>
    have hload : loadElement h (.ref .list r) (.int i) = .ok items[i.toInt.toNat] := by
      simp only [loadElement, Heap.items_of_cell hc, placeOf, if_pos hi]
      change Except.ok ((items[i.toInt.toNat]?).getD .null) = _
      rw [Array.getElem?_eq_getElem hlt]
      rfl
    have hstore : storeElement h max (.ref .list r) (.int i) new = .ok (r, .item i.toInt.toNat new) := by
      simp only [storeElement, Heap.items_of_cell hc, placeOf, if_pos hi]
      change (if items.size ≤ i.toInt.toNat ∧ max ≤ i.toInt.toNat then _ else _) = _
      -- the place is one of the list, so no limit stands in the way
      rw [if_neg fun hlong => absurd hlt (Nat.not_lt.2 hlong.1)]
      rfl
    rw [hload]
    change ∃ w, (bump u _ >>= fun new => storeElement h max (.ref .list r) (.int i) new) = _
    rw [hbump]
    exact ⟨_, hstore⟩
  | @field named named' k _ hk hnamed =>
    have hload : loadElement h (.ref .object r) (.str named.entries[k].1) = .ok named.entries[k].2 := by
      simp only [loadElement, Heap.fields_of_cell hc]
      change Except.ok ((named.get? named.entries[k].1).getD .null) = _
      rw [Fields.get?_entry hk]
      rfl
    rw [hload]
    change ∃ w, (bump u _ >>= fun new => storeElement h max (.ref .object r) (.str named.entries[k].1) new) = _
    rw [hbump]
    exact ⟨_, rfl⟩

theorem planMember_eq {name : String} {c c' : Cell} (hc : h.cell r = c) (happart : OneApart u old new)
    (hreplaces : Cell.Replaces .object c (.str name) old new c') :
    ∃ w, planMember h u (.ref .object r) name = .ok (r, w) := by
  have hbump : bump u old = .ok new := bump_eq happart
  unfold planMember
  generalize hindex : Value.str name = index at hreplaces
  cases hreplaces with
  | @field named named' k _ hk hnamed =>
    obtain rfl := Value.str.inj hindex
    have hload : loadMember h (.ref .object r) named.entries[k].1 = .ok named.entries[k].2 := by
      simp only [loadMember, Heap.fields_of_cell hc]
      rw [Fields.get?_entry hk]
      rfl
    rw [hload]
    change ∃ w, (bump u _ >>= fun new => storeMember (.ref .object r) named.entries[k].1 new) = _
    rw [hbump]
    exact ⟨_, rfl⟩

end Plans

/-! ### Operands on the stack -/

/-- Above `below` lie a container and the indices of an element: following all indices but the last one
leads from the container to `target`. -/
def Targets (s : State) (x : Operand) (below : Array Value) (target last : Value) : Prop :=
  ∃ (container : Value) (indices : Array Value), x = .int (indices.size + 1 : Nat) ∧
    s.stack = below.push container ++ indices.push last ∧
      loadPath s.heap container indices.toList = .ok target

section Operands

variable {α : Type} {s t : State} {op : Opcode} {x : Operand} {below indices vs : Array Value}
variable {v container target last : Value} {n : Nat} {plan : Heap → Except Fault (Ref × Write)}

theorem pop_ok (h : Exec.pop s = .ok v t) :
    ∃ below, s.stack = below.push v ∧ t = { s with stack := below } := by
  unfold Exec.pop at h
  split at h
  · next u hback =>
    cases h
    obtain ⟨below, hstack⟩ := Array.back?_eq_some_iff.1 hback
    refine ⟨below, hstack, ?_⟩
    rw [hstack, Array.pop_push]
  · cases h

theorem popMany_eq (vs : Array Value) (hs : s.stack = below ++ vs) :
    Exec.popMany vs.size s = .ok vs { s with stack := below } := by
  have hsize : (below ++ vs).size - vs.size = below.size := by
    rw [Array.size_append]
    omega
  rw [Exec.popMany, hs, if_pos (by rw [Array.size_append]; omega)]
  simp only [hsize]
  rw [shrink_append]
  congr 1
  simp

theorem popMany_ok (h : Exec.popMany n s = .ok vs t) :
    vs.size = n ∧ ∃ below, s.stack = below ++ vs ∧ t = { s with stack := below } := by
  unfold Exec.popMany at h
  split at h
  · next hle =>
    cases h
    constructor
    · rw [Array.size_extract]
      omega
    · refine ⟨s.stack.extract 0 (s.stack.size - n), ?_, ?_⟩
      · rw [Array.extract_append_extract, Nat.min_eq_left (Nat.zero_le _), Nat.max_eq_right (Nat.sub_le _ _),
          Array.extract_size]
      · rw [Array.shrink_eq_take]
  · cases h

theorem lift_ok {y : Except Fault α} {a : α} (h : Exec.lift y s = .ok a t) : y = .ok a ∧ t = s := by
  cases y with
  | ok b =>
    cases h
    exact ⟨rfl, rfl⟩
  | error f => cases h

theorem textOperand_ok {name : String} (h : Exec.textOperand op x s = .ok name t) : x = .str name ∧ t = s := by
  cases x <;> cases h
  exact ⟨rfl, rfl⟩

theorem store_eq {r : Ref} {w : Write} (hplan : plan s.heap = .ok (r, w)) :
    Exec.store plan s = .ok () { s with heap := s.heap.write r w } := by
  unfold Exec.store
  rw [bind_get, hplan]
  rfl

theorem store_error {f : Fault} (hplan : plan s.heap = .error f) : Exec.store plan s = .error f s := by
  unfold Exec.store
  rw [bind_get, hplan]
  rfl

theorem store_ok (h : Exec.store plan s = .ok () t) :
    ∃ r w, plan s.heap = .ok (r, w) ∧ t = { s with heap := s.heap.write r w } := by
  cases hplan : plan s.heap with
  | ok p =>
    rw [store_eq hplan] at h
    cases h
    exact ⟨p.1, p.2, rfl, rfl⟩
  | error f =>
    rw [store_error hplan] at h
    cases h

/-- A container and indices on the stack are taken off it, and the indices followed. -/
theorem elementTarget_eq (op : Opcode) (hs : s.stack = below.push container ++ indices.push last) :
    Exec.elementTarget op (.int (indices.size + 1 : Nat)) s =
      match loadPath s.heap container indices.toList with
      | .ok target => .ok (target, last) { s with stack := below }
      | .error f => .error f { s with stack := below } := by
  have hpop := popMany_eq (indices.push last) hs
  rw [Array.size_push] at hpop
  unfold Exec.elementTarget
  rw [bind_ok (countOperand_eq op (indices.size + 1) s), bind_ok hpop,
    bind_ok (pop_eq (v := container) (Array.back?_push ..)), Array.back?_push]
  dsimp only
  rw [bind_get, Array.pop_push, Array.pop_push]
  cases loadPath s.heap container indices.toList <;> rfl

theorem Targets.elementTarget (op : Opcode) (htargets : Targets s x below target last) :
    Exec.elementTarget op x s = .ok (target, last) { s with stack := below } := by
  obtain ⟨container, indices, rfl, hs, hpath⟩ := htargets
  rw [elementTarget_eq op hs, hpath]

theorem elementTarget_ok (h : Exec.elementTarget op x s = .ok (target, last) t) :
    ∃ below, Targets s x below target last ∧ t = { s with stack := below } := by
  unfold Exec.elementTarget at h
  obtain ⟨n, s₁, hcount, h⟩ := ok_of_bind h
  obtain rfl := countOperand_ok hcount
  rw [countOperand_eq] at hcount
  cases hcount
  obtain ⟨vs, s₂, hmany, h⟩ := ok_of_bind h
  obtain ⟨rfl, above, hstack, rfl⟩ := popMany_ok hmany
  obtain ⟨container, s₃, hpop, h⟩ := ok_of_bind h
  obtain ⟨below, rfl, rfl⟩ := pop_ok hpop
  cases hlast : vs.back? with
  | none =>
    rw [hlast] at h
    cases h
  | some v =>
    obtain ⟨indices, rfl⟩ := Array.back?_eq_some_iff.1 hlast
    rw [hlast] at h
    dsimp only at h
    rw [bind_get, Array.pop_push] at h
    obtain ⟨a, s₄, hpath, h⟩ := ok_of_bind h
    obtain ⟨hpath', rfl⟩ := lift_ok hpath
    cases h
    exact ⟨below, ⟨container, indices, by rw [Array.size_push], hstack, hpath'⟩, rfl⟩

end Operands

/-! ### The instructions -/

section Instructions

variable {limits : Limits} {environment : Environment} {s t : State} {x : Operand} {u : Update}
variable {flow : Flow} {below indices : Array Value} {new container target last : Value} {f : Fault}

/-- A store that succeeds carries out the write that is planned for its operands. -/
theorem storeElement_ok {width : Width}
    (h : Exec.step limits environment (.storeElement width) x s = .ok flow t) :
    ∃ (below : Array Value) (new target last : Value) (r : Ref) (w : Write),
      Targets s x (below.push new) target last ∧
        storeElement s.heap limits.maxListLen target last new = .ok (r, w) ∧ t.heap = s.heap.write r w := by
  obtain ⟨_, t', h, hflow⟩ := ok_of_bind h
  cases hflow
  obtain ⟨⟨target, last⟩, s₁, htarget, h⟩ := ok_of_bind h
  obtain ⟨above, htargets, rfl⟩ := elementTarget_ok htarget
  obtain ⟨new, s₂, hpop, h⟩ := ok_of_bind h
  obtain ⟨below, rfl, rfl⟩ := pop_ok hpop
  obtain ⟨r, w, hplan, rfl⟩ := store_ok h
  exact ⟨below, new, target, last, r, w, htargets, hplan, rfl⟩

theorem perform_storeElement (limits : Limits) (environment : Environment) (width : Width)
    (hs : s.stack = (below.push new).push container ++ indices.push last) :
    Exec.perform limits environment (.storeElement width) (.int (indices.size + 1 : Nat)) s =
      match loadPath s.heap container indices.toList with
      | .ok target =>
        Exec.store (fun h => storeElement h limits.maxListLen target last new) { s with stack := below }
      | .error f => .error f { s with stack := below.push new } := by
  have htarget := elementTarget_eq (.storeElement width) hs
  change (Exec.elementTarget (.storeElement width) _ >>= _) s = _
  cases hpath : loadPath s.heap container indices.toList with
  | error f =>
    rw [hpath] at htarget
    exact bind_error htarget
  | ok target =>
    rw [hpath] at htarget
    rw [bind_ok htarget]
    dsimp only
    rw [bind_ok (pop_eq (v := new) (Array.back?_push ..)), Array.pop_push]

/-- With all operands on the stack, a store does what is planned for them. -/
theorem storeElement_eq {width : Width} {r : Ref} {w : Write}
    (hs : s.stack = (below.push new).push container ++ indices.push last)
    (hpath : loadPath s.heap container indices.toList = .ok target)
    (hplan : storeElement s.heap limits.maxListLen target last new = .ok (r, w)) :
    Exec.step limits environment (.storeElement width) (.int (indices.size + 1 : Nat)) s =
      .ok .next { s with stack := below, heap := s.heap.write r w } := by
  have hperform := perform_storeElement limits environment width hs
  rw [hpath] at hperform
  exact bind_ok (hperform.trans (store_eq hplan))

/-- With all operands on the stack, a store fails where the way to the collection or its plan does. -/
theorem storeElement_error {width : Width}
    (hs : s.stack = (below.push new).push container ++ indices.push last) :
    (∃ t, Exec.step limits environment (.storeElement width) (.int (indices.size + 1 : Nat)) s = .error f t) ↔
      loadPath s.heap container indices.toList = .error f ∨
        ∃ target, loadPath s.heap container indices.toList = .ok target ∧
          storeElement s.heap limits.maxListLen target last new = .error f := by
  have hperform := perform_storeElement limits environment width hs
  -- the path of indices is followed first, then the last index is stored at
  cases hpath : loadPath s.heap container indices.toList with
  | error e =>
    rw [hpath] at hperform
    have hstep : Exec.step limits environment (.storeElement width) (.int (indices.size + 1 : Nat)) s = _ :=
      bind_error hperform
    rw [hstep]
    constructor
    · rintro ⟨t, ht⟩
      cases ht
      exact .inl rfl
    · rintro (he | ⟨target, htarget, -⟩)
      · cases he
        exact ⟨_, rfl⟩
      · cases htarget
  | ok target =>
    rw [hpath] at hperform
    cases hplan : storeElement s.heap limits.maxListLen target last new with
    | ok p =>
      rw [storeElement_eq hs hpath hplan]
      constructor
      · rintro ⟨t, ht⟩
        cases ht
      · rintro (he | ⟨target', htarget, he⟩)
        · cases he
        · cases htarget
          rw [hplan] at he
          cases he
    | error e =>
      have hstep : Exec.step limits environment (.storeElement width) (.int (indices.size + 1 : Nat)) s = _ :=
        bind_error (hperform.trans (store_error hplan))
      rw [hstep]
      constructor
      · rintro ⟨t, ht⟩
        cases ht
        exact .inr ⟨target, rfl, hplan⟩
      · rintro (he | ⟨target', htarget, he⟩)
        · cases he
        · cases htarget
          rw [hplan] at he
          cases he
          exact ⟨_, rfl⟩

theorem updateElement_ok (h : Exec.step limits environment (.updateElement u) x s = .ok flow t) :
    ∃ below target last r w, Targets s x below target last ∧
      planElement s.heap limits.maxListLen u target last = .ok (r, w) ∧ t.heap = s.heap.write r w := by
  obtain ⟨_, t', h, hflow⟩ := ok_of_bind h
  cases hflow
  obtain ⟨⟨target, last⟩, s₁, htarget, h⟩ := ok_of_bind h
  obtain ⟨below, htargets, rfl⟩ := elementTarget_ok htarget
  obtain ⟨r, w, hplan, rfl⟩ := store_ok h
  exact ⟨below, target, last, r, w, htargets, hplan, rfl⟩

/-- With all operands on the stack, the update of an element does what is planned for them. -/
theorem updateElement_eq {r : Ref} {w : Write} (htargets : Targets s x below target last)
    (hplan : planElement s.heap limits.maxListLen u target last = .ok (r, w)) :
    Exec.step limits environment (.updateElement u) x s =
      .ok .next { s with stack := below, heap := s.heap.write r w } := by
  have hperform : Exec.perform limits environment (.updateElement u) x s =
      Exec.store (fun h => planElement h limits.maxListLen u target last) { s with stack := below } :=
    bind_ok (htargets.elementTarget _)
  exact bind_ok (hperform.trans (store_eq hplan))

theorem updateMember_eq {name : String} {r : Ref} {w : Write} {v : Value} (hs : s.stack = below.push v)
    (hplan : planMember s.heap u v name = .ok (r, w)) :
    Exec.step limits environment (.updateMember u) (.str name) s =
      .ok .next { s with stack := below, heap := s.heap.write r w } := by
  have hpop : Exec.pop s = .ok v { s with stack := below } := by
    rw [pop_eq (v := v) (by rw [hs, Array.back?_push]), hs, Array.pop_push]
  have hperform : Exec.perform limits environment (.updateMember u) (.str name) s =
      Exec.store (fun h => planMember h u v name) { s with stack := below } :=
    bind_ok hpop
  exact bind_ok (hperform.trans (store_eq hplan))

theorem updateMember_ok (h : Exec.step limits environment (.updateMember u) x s = .ok flow t) :
    ∃ (below : Array Value) (v : Value) (name : String) (r : Ref) (w : Write),
      x = .str name ∧ s.stack = below.push v ∧ planMember s.heap u v name = .ok (r, w) ∧
        t.heap = s.heap.write r w := by
  obtain ⟨_, t', h, hflow⟩ := ok_of_bind h
  cases hflow
  obtain ⟨name, s₁, hname, h⟩ := ok_of_bind h
  obtain ⟨v, s₂, hpop, h⟩ := ok_of_bind h
  obtain ⟨r, w, hplan, rfl⟩ := store_ok h
  obtain ⟨rfl, rfl⟩ := textOperand_ok hname
  obtain ⟨below, hstack, rfl⟩ := pop_ok hpop
  exact ⟨below, v, name, r, w, rfl, hstack, hplan, rfl⟩

end Instructions

/-- What stores and updates do in the state `s`, whatever its heap. -/
structure Exact (limits : Limits) (environment : Environment) (s : State) : Prop where
  /-- An instruction that fails changes no collection, unless it calls a function of the host. -/
  failed : ∀ op x f t, op ≠ .callExternal → Exec.step limits environment op x s = .error f t →
    t.heap = s.heap
  /-- A store to a list that succeeds pads the list that the indices lead to, and changes nothing else. -/
  stored : ∀ width x flow t, Exec.step limits environment (.storeElement width) x s = .ok flow t →
    ∃ (below : Array Value) (new target last : Value), Targets s x (below.push new) target last ∧
      ∀ r items, target = .ref .list r → s.heap.cells[r]? = some (.items items) →
        ∃ (i : Int32) (items' : Array Value), last = .int i ∧ 0 ≤ i ∧
          Padded items items' i.toInt.toNat new ∧ s.heap.Changes r (.items items) (.items items') t.heap
  /-- With all operands there, a store finds a list too long exactly if the place is behind its end and
  beyond the limit. -/
  tooLong : ∀ (width : Width) (below indices : Array Value) (new container last : Value),
    s.stack = (below.push new).push container ++ indices.push last →
      ((∃ place limit t, Exec.step limits environment (.storeElement width)
          (.int (indices.size + 1 : Nat)) s = .error (.listTooLong place limit) t) ↔
        ∃ (r : Ref) (i : Int32), loadPath s.heap container indices.toList = .ok (.ref .list r) ∧
          last = .int i ∧ 0 ≤ i ∧ (s.heap.items r).size ≤ i.toInt.toNat ∧
            limits.maxListLen ≤ i.toInt.toNat)
  /-- The update of an element that succeeds changes the number that the indices lead to by one, and
  nothing else. -/
  updatedElement : ∀ u x flow t, Exec.step limits environment (.updateElement u) x s = .ok flow t →
    ∃ (below : Array Value) (shape : Shape) (r : Ref) (last old new : Value) (c c' : Cell),
      Targets s x below (.ref shape r) last ∧ OneApart u old new ∧
        Cell.Replaces shape c last old new c' ∧ s.heap.Changes r c c' t.heap
  /-- It does succeed where the indices lead to a number. -/
  updatesElement : ∀ (u : Update) (x : Operand) (below : Array Value) (shape : Shape) (r : Ref)
    (last old new : Value) (c' : Cell), Targets s x below (.ref shape r) last → OneApart u old new →
      Cell.Replaces shape (s.heap.cell r) last old new c' →
        ∃ t, Exec.step limits environment (.updateElement u) x s = .ok .next t
  /-- The update of a member that succeeds changes a field that holds a number by one, and nothing else. -/
  updatedMember : ∀ u x flow t, Exec.step limits environment (.updateMember u) x s = .ok flow t →
    ∃ (below : Array Value) (r : Ref) (name : String) (old new : Value) (c c' : Cell),
      x = .str name ∧ s.stack = below.push (.ref .object r) ∧ OneApart u old new ∧
        Cell.Replaces .object c (.str name) old new c' ∧ s.heap.Changes r c c' t.heap
  /-- It does succeed where the field holds a number. -/
  updatesMember : ∀ (u : Update) (name : String) (below : Array Value) (r : Ref) (old new : Value)
    (c' : Cell), s.stack = below.push (.ref .object r) → OneApart u old new →
      Cell.Replaces .object (s.heap.cell r) (.str name) old new c' →
        ∃ t, Exec.step limits environment (.updateMember u) (.str name) s = .ok .next t

/-- Stores and updates are exact and atomic, in every state. -/
theorem stores_exact (limits : Limits) (environment : Environment) (s : State) :
    Exact limits environment s := by
  constructor
  case failed =>
    intro op x f t hop h
    exact (step_atomic limits hop s).2 f t h
  case stored =>
    intro width x flow t h
    obtain ⟨below, new, target, last, r, w, htargets, hplan, hheap⟩ := storeElement_ok h
    refine ⟨below, new, target, last, htargets, ?_⟩
    rintro r' items rfl hlist
    obtain ⟨rfl, i, rfl, hi, rfl⟩ := storeElement_list hplan
    -- the list grows up to the place stored at and changes nowhere else
    refine ⟨i, padTo items i.toInt.toNat new, rfl, hi, padTo_padded items _ new, ?_⟩
    rw [hheap]
    exact Heap.write_changes hlist (.item i.toInt.toNat new)
  case tooLong =>
    intro width below indices new container last hs
    constructor
    · rintro ⟨place, limit, hfails⟩
      obtain hpath | ⟨target, hpath, hplan⟩ := (storeElement_error hs).1 hfails
      · -- a path that cannot be followed is a type error, never a list too long
        obtain ⟨task, found, hne⟩ := loadPath_error indices.toList hpath
        cases hne
      · obtain ⟨r, i, rfl, rfl, hi, hsize, hmax⟩ := storeElement_tooLong.1 ⟨place, limit, hplan⟩
        exact ⟨r, i, hpath, rfl, hi, hsize, hmax⟩
    · rintro ⟨r, i, hpath, rfl, hi, hsize, hmax⟩
      obtain ⟨place, limit, hplan⟩ := storeElement_tooLong.2 ⟨r, i, rfl, rfl, hi, hsize, hmax⟩
      exact ⟨place, limit, (storeElement_error hs).2 (.inr ⟨.ref .list r, hpath, hplan⟩)⟩
  case updatedElement =>
    intro u x flow t h
    obtain ⟨below, target, last, r, w, htargets, hplan, hheap⟩ := updateElement_ok h
    obtain ⟨shape, c, old, new, rfl, hc, happart, hreplaces⟩ := planElement_ok hplan
    refine ⟨below, shape, r, last, old, new, c, w.apply c, htargets, happart, hreplaces, ?_⟩
    rw [hheap]
    exact Heap.write_changes hc w
  case updatesElement =>
    intro u x below shape r last old new c' htargets happart hreplaces
    obtain ⟨w, hplan⟩ := planElement_eq limits.maxListLen rfl happart hreplaces
    exact ⟨_, updateElement_eq htargets hplan⟩
  case updatedMember =>
    intro u x flow t h
    obtain ⟨below, v, name, r, w, rfl, hstack, hplan, hheap⟩ := updateMember_ok h
    obtain ⟨rfl, c, old, new, hc, happart, hreplaces⟩ := planMember_ok hplan
    refine ⟨below, r, name, old, new, c, w.apply c, rfl, hstack, happart, hreplaces, ?_⟩
    rw [hheap]
    exact Heap.write_changes hc w
  case updatesMember =>
    intro u name below r old new c' hs happart hreplaces
    obtain ⟨w, hplan⟩ := planMember_eq rfl happart hreplaces
    exact ⟨_, updateMember_eq hs hplan⟩

/-- A list that contains itself, and what stores a value behind its end, through itself. -/
def knot : State :=
  ⟨#[.bool true, .ref .list 0, .int 0, .int 2], 0, 0, .null, ⟨#[.items #[.ref .list 0]], 0⟩, ""⟩

theorem knot_stored : ∃ t items', Exec.step .standard .empty (.storeElement .w64) (.int 2) knot = .ok .next t ∧
    Padded #[.ref .list 0] items' 2 (.bool true) ∧
      knot.heap.Changes 0 (.items #[.ref .list 0]) (.items items') t.heap := by
  obtain ⟨t, hok⟩ : ∃ t, Exec.step .standard .empty (.storeElement .w64) (.int 2) knot = .ok .next t :=
    ⟨_, rfl⟩
  obtain ⟨below, new, target, last, htargets, hlist⟩ :=
    (stores_exact .standard .empty knot).stored .w64 (.int 2) .next t hok
  have htarget : EStateM.Result.ok (Value.ref .list 0, Value.int 2) { knot with stack := #[.bool true] } =
      (.ok (target, last) { knot with stack := below.push new } : EStateM.Result Fault State _) :=
    htargets.elementTarget (.storeElement .w64)
  obtain ⟨hpair, hstate⟩ := EStateM.Result.ok.inj htarget
  obtain ⟨rfl, rfl⟩ := Prod.mk.inj hpair
  have hstack : (#[] : Array Value).push (.bool true) = below.push new := congrArg State.stack hstate
  obtain ⟨rfl, -⟩ := Array.push_eq_push.1 hstack
  obtain ⟨i, items', hi, -, hpadded, hchanges⟩ := hlist 0 #[.ref .list 0] rfl rfl
  obtain rfl := Value.int.inj hi
  exact ⟨t, items', hok, hpadded, hchanges⟩

end Machine

end StackScript
