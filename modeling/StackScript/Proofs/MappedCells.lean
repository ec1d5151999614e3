import StackScript.Value.Copy
import StackScript.Value.Equality
import StackScript.Value.Write

/-!
# Collections with other values

A collection in which each value is replaced is read, changed and compared like the collection itself,
and what holds of all values of a collection goes on to hold when a value of that kind is stored.
-/

namespace StackScript

def Fields.map (f : Value → Value) (fields : Fields) : Fields :=
  ⟨fields.entries.map fun p => (p.1, f p.2), by
    rw [Array.toList_map, List.map_map]
    exact fields.nodup⟩

def Cell.map (f : Value → Value) : Cell → Cell
  | .items values => .items (values.map f)
  | .fields named => .fields (named.map f)

def Write.map (f : Value → Value) : Write → Write
  | .field name new => .field name (f new)
  | .item place new => .item place (f new)
  | .last new => .last (f new)

def Write.new : Write → Value
  | .field _ new | .item _ new | .last new => new

theorem Fields.eq_of_entries {xs ys : Fields} (h : xs.entries = ys.entries) : xs = ys := by
  cases xs
  cases ys
  cases h
  rfl

section Map

variable {f : Value → Value} {v : Value} {c e : Cell} {fields : Fields} {change : Write}

@[simp] theorem Fields.entries_map : (fields.map f).entries = fields.entries.map fun p => (p.1, f p.2) := rfl

@[simp] theorem Fields.size_map : (fields.map f).size = fields.size := Array.size_map

@[simp] theorem Fields.values_map : (fields.map f).values = fields.values.map f := by
  simp [Fields.map, Fields.values]

@[simp] theorem Fields.map_empty : Fields.empty.map f = .empty := Fields.eq_of_entries Array.map_empty

@[simp] theorem Cell.values_map : (c.map f).values = c.values.map f := by
  cases c <;> simp [Cell.map, Cell.values]

@[simp] theorem Cell.size_map : (c.map f).size = c.size := by
  cases c <;> simp [Cell.map, Cell.size]

theorem Fields.map_congr {f' : Value → Value} (h : ∀ w ∈ fields.values, f w = f' w) :
    fields.map f = fields.map f' :=
  Fields.eq_of_entries (Array.map_congr_left fun p hp => by
    rw [h p.2 (List.mem_map_of_mem (Array.mem_toList_iff.2 hp))])

theorem Cell.map_congr {f' : Value → Value} (h : ∀ w ∈ c.values, f w = f' w) : c.map f = c.map f' := by
  cases c with
  | items values => exact congrArg Cell.items (Array.map_congr_left fun w hw => h w (Array.mem_toList_iff.2 hw))
  | fields named => exact congrArg Cell.fields (Fields.map_congr h)

theorem Cell.map_id : c.map id = c := by
  cases c with
  | items values => exact congrArg Cell.items (Array.map_id values)
  | fields named => exact congrArg Cell.fields (Fields.eq_of_entries (Array.map_id named.entries))

@[simp] theorem Cell.map_blank : c.blank.map f = c.blank := by
  cases c <;> simp [Cell.map, Cell.blank]

theorem Fields.get?_map (name : String) : (fields.map f).get? name = (fields.get? name).map f := by
  simp [Fields.get?, Array.find?_map, Function.comp_def]

/-- The entries behind an insertion. -/
theorem Fields.entries_insert (name : String) (v : Value) : (fields.insert name v).entries =
    match fields.entries.findIdx? fun p => p.1 == name with
    | some i => fields.entries.setIfInBounds i (name, v)
    | none => fields.entries.push (name, v) := by
  unfold Fields.insert
  split <;> simp only [*]

theorem Fields.insert_map (name : String) : (fields.map f).insert name (f v) = (fields.insert name v).map f := by
  refine Fields.eq_of_entries ?_
  rw [Fields.entries_insert, Fields.entries_map, Fields.entries_map, Fields.entries_insert, Array.findIdx?_map]
  simp only [Function.comp_def]
  split <;> simp

theorem Fields.ofList_map (pairs : List (String × Value)) :
    Fields.ofList (pairs.map fun p => (p.1, f p.2)) = (Fields.ofList pairs).map f := by
  unfold Fields.ofList
  suffices hfold : ∀ fields : Fields,
      (pairs.map fun p => (p.1, f p.2)).foldl (fun fields p => fields.insert p.1 p.2) (fields.map f) =
        (pairs.foldl (fun fields p => fields.insert p.1 p.2) fields).map f by
    simpa using hfold .empty
  induction pairs with
  | nil => exact fun _ => rfl
  | cons p pairs ih =>
    intro fields
    simp only [List.map_cons, List.foldl_cons, Fields.insert_map]
    exact ih _

theorem padTo_map {items : Array Value} {place : Nat} (hf : f .null = .null) :
    padTo (items.map f) place (f v) = (padTo items place v).map f := by
  unfold padTo
  simp only [Array.size_map]
  split
  · simp
  · simp [hf]

theorem Write.apply_map (hf : f .null = .null) : (change.map f).apply (c.map f) = (change.apply c).map f := by
  cases change <;> cases c <;> try rfl
  case field.fields name new fields => exact congrArg Cell.fields (Fields.insert_map name)
  case item.items place new items => exact congrArg Cell.items (padTo_map hf)
  case last.items new items => exact congrArg Cell.items Array.map_push.symm

/-! ### Comparing -/

variable {eq eq' : Value → Value → Option Bool}

theorem allPairs_map {xs ys : List Value} (h : ∀ x ∈ xs, ∀ y ∈ ys, eq' (f x) (f y) = eq x y) :
    allPairs eq' (xs.map f) (ys.map f) = allPairs eq xs ys := by
  induction xs generalizing ys with
  | nil => cases ys <;> rfl
  | cons x xs ih =>
    cases ys with
    | nil => rfl
    | cons y ys =>
      simp only [List.map_cons, allPairs, h x List.mem_cons_self y List.mem_cons_self]
      rw [ih fun x hx y hy => h x (List.mem_cons_of_mem _ hx) y (List.mem_cons_of_mem _ hy)]

theorem Fields.mem_get? {name : String} (h : fields.get? name = some v) : v ∈ fields.values := by
  obtain ⟨p, hp, rfl⟩ := Option.map_eq_some_iff.1 h
  exact List.mem_map_of_mem (Array.mem_toList_iff.2 (Array.mem_of_find?_eq_some hp))

theorem allFields_map {others : Fields} {pairs : List (String × Value)}
    (h : ∀ p ∈ pairs, ∀ y ∈ others.values, eq' (f p.2) (f y) = eq p.2 y) :
    allFields eq' (others.map f) (pairs.map fun p => (p.1, f p.2)) = allFields eq others pairs := by
  induction pairs with
  | nil => rfl
  | cons p pairs ih =>
    have hrest := ih fun q hq => h q (List.mem_cons_of_mem _ hq)
    obtain ⟨name, x⟩ := p
    simp only [List.map_cons, allFields, Fields.get?_map]
    cases hy : others.get? name with
    | none => rfl
    | some y =>
      simp only [Option.map_some, h _ List.mem_cons_self y (Fields.mem_get? hy)]
      rw [hrest]

theorem Cell.equalBy_map (h : ∀ x ∈ c.values, ∀ y ∈ e.values, eq' (f x) (f y) = eq x y) :
    Cell.equalBy eq' (c.map f) (e.map f) = Cell.equalBy eq c e := by
  cases c <;> cases e <;> try rfl
  case items.items xs ys =>
    simp only [Cell.map, Cell.equalBy, Array.size_map, Array.toList_map]
    have hpairs : allPairs eq' (xs.toList.map f) (ys.toList.map f) = allPairs eq xs.toList ys.toList :=
      allPairs_map h
    rw [hpairs]
  case fields.fields xs ys =>
    simp only [Cell.map, Cell.equalBy, Fields.size_map, Fields.entries_map, Array.toList_map]
    rw [allFields_map fun p hp y hy => h p.2 (List.mem_map_of_mem hp) y hy]

end Map

/-! ### What holds of all values -/

/-- All values of the collection are of a kind. -/
def Cell.All (P : Value → Prop) (c : Cell) : Prop := ∀ v ∈ c.values, P v

/-- All values of the fields are of a kind. -/
def Fields.All (P : Value → Prop) (fields : Fields) : Prop := ∀ v ∈ fields.values, P v

section All

variable {P : Value → Prop} {v : Value} {c : Cell} {change : Write}

theorem Cell.all_blank : c.blank.All P := by
  cases c <;> intro v hv <;> cases hv

theorem Fields.all_empty : Fields.empty.All P := nofun

theorem Fields.all_insert {fields : Fields} {name : String} (hf : fields.All P) (hv : P v) :
    (fields.insert name v).All P := by
  intro w hw
  obtain ⟨p, hmem, rfl⟩ := List.mem_map.1 hw
  have hold : ∀ {q}, q ∈ fields.entries → P q.2 := fun hq =>
    hf _ (List.mem_map_of_mem (Array.mem_toList_iff.2 hq))
  rw [Fields.entries_insert, Array.mem_toList_iff] at hmem
  split at hmem
  · rcases Array.mem_or_eq_of_mem_setIfInBounds hmem with hq | rfl
    · exact hold hq
    · exact hv
  · rcases Array.mem_push.1 hmem with hq | rfl
    · exact hold hq
    · exact hv

theorem Fields.all_ofList {pairs : List (String × Value)} (hp : ∀ p ∈ pairs, P p.2) :
    (Fields.ofList pairs).All P := by
  unfold Fields.ofList
  suffices hfold : ∀ fields : Fields, fields.All P →
      (pairs.foldl (fun fields p => fields.insert p.1 p.2) fields).All P from hfold .empty Fields.all_empty
  induction pairs with
  | nil => exact fun _ hf => hf
  | cons p pairs ih =>
    exact fun fields hf => ih (fun q hq => hp q (List.mem_cons_of_mem _ hq)) _
      (Fields.all_insert hf (hp p List.mem_cons_self))

theorem padTo_all {items : Array Value} {place : Nat} (hs : ∀ w ∈ items, P w) (hv : P v) (hnull : P .null) :
    ∀ w ∈ padTo items place v, P w := by
  intro w hw
  unfold padTo at hw
  split at hw
  · rcases Array.mem_or_eq_of_mem_setIfInBounds hw with hw | rfl
    · exact hs w hw
    · exact hv
  · rcases Array.mem_push.1 hw with hw | rfl
    · rcases Array.mem_append.1 hw with hw | hw
      · exact hs w hw
      · rw [(Array.mem_replicate.1 hw).2]
        exact hnull
    · exact hv

theorem Write.all_apply (hnull : P .null) (hw : P change.new) (hc : c.All P) : (change.apply c).All P := by
  cases change <;> cases c <;> try exact hc
  case field.fields name new fields => exact Fields.all_insert hc hw
  case item.items place new items =>
    exact fun x hx => padTo_all (fun w hw => hc w (Array.mem_toList_iff.2 hw)) hw hnull x (Array.mem_toList_iff.1 hx)
  case last.items new items =>
    intro w hmem
    rcases Array.mem_push.1 (Array.mem_toList_iff.1 hmem) with hold | rfl
    · exact hc w (Array.mem_toList_iff.2 hold)
    · exact hw

end All

end StackScript
