import Mathlib.Data.Set.Basic
import Mathlib.Logic.Function.Basic
import StackScript.Proofs.Comparing
import StackScript.Proofs.MappedCells
import StackScript.Value.Display

/-!
# Charts

Two machines can hold the same in different places: one and the same work begins on heaps that grew
differently before, or the functions of a program stand at other indices.  A chart says where the
second machine has what the first one has.

* `Value.relabel`: a value under other names for collections and functions.
* `Chart.Heaps`: what the chart covers of the first heap, the second heap has where the chart says.
* `Heap.showsFunction`: the printed form of a value names a function.  All other printed forms are the
  same in both heaps, and so are comparisons and writes.
-/

namespace StackScript

/-! ### Values under other names -/

/-- The value under other names for collections and for functions. -/
def Value.relabel (ρ : Ref → Ref) (g : Nat → Nat) : Value → Value
  | .ref shape r => .ref shape (ρ r)
  | .function entry => .function (g entry)
  | v => v

abbrev Value.rename (ρ : Ref → Ref) (v : Value) : Value := v.relabel ρ id

abbrev Value.relocate (g : Nat → Nat) (v : Value) : Value := v.relabel id g

/-- The collection under other names for what it refers to. -/
abbrev Cell.rename (ρ : Ref → Ref) (c : Cell) : Cell := c.map (·.rename ρ)

abbrev Cell.relocate (g : Nat → Nat) (c : Cell) : Cell := c.map (·.relocate g)

/-- The value refers to a collection of the region, if it refers to one. -/
def Value.Inside (region : Set (Shape × Ref)) (v : Value) : Prop :=
  ∀ shape r, v = .ref shape r → (shape, r) ∈ region

/-- The value refers to nothing below `b`, and to nothing from `n` on. -/
abbrev Value.Within (b n : Nat) (v : Value) : Prop := v.Inside {p | b ≤ p.2 ∧ p.2 < n}

/-- Is the value neither a collection nor a function of a program?  Such a value has no other names. -/
def Value.isScalar : Value → Bool
  | .ref _ _ | .function _ => false
  | _ => true

section Values

variable {ρ σ : Ref → Ref} {g : Nat → Nat} {region region' : Set (Shape × Ref)} {v : Value} {shape : Shape}
  {r : Ref} {b n m : Nat}

@[simp] theorem Value.relabel_null : Value.null.relabel ρ g = .null := rfl

@[simp] theorem Value.relabel_bool {x : Bool} : (Value.bool x).relabel ρ g = .bool x := rfl

@[simp] theorem Value.relabel_int {k : Int32} : (Value.int k).relabel ρ g = .int k := rfl

@[simp] theorem Value.relabel_float {x : Float} : (Value.float x).relabel ρ g = .float x := rfl

@[simp] theorem Value.relabel_str {s : String} : (Value.str s).relabel ρ g = .str s := rfl

@[simp] theorem Value.relabel_ref : (Value.ref shape r).relabel ρ g = .ref shape (ρ r) := rfl

@[simp] theorem Value.relabel_function {t : Nat} : (Value.function t).relabel ρ g = .function (g t) := rfl

@[simp] theorem Value.relabel_host {f : HostFunction} : (Value.host f).relabel ρ g = .host f := rfl

@[simp] theorem Value.relabel_eq_int {k : Int32} : v.relabel ρ g = .int k ↔ v = .int k := by
  cases v <;> simp

@[simp] theorem Value.relabel_eq_str {s : String} : v.relabel ρ g = .str s ↔ v = .str s := by
  cases v <;> simp

@[simp] theorem Value.isTruthy_relabel : (v.relabel ρ g).isTruthy = v.isTruthy := by
  cases v <;> rfl

@[simp] theorem Value.typeName_relabel : (v.relabel ρ g).typeName = v.typeName := by
  cases v with
  | ref shape r => cases shape <;> rfl
  | _ => rfl

@[simp] theorem Value.relabel_id : v.relabel id id = v := by cases v <;> rfl

theorem Value.Inside.mono (h : v.Inside region) (hle : region ⊆ region') : v.Inside region' :=
  fun shape r hr => hle (h shape r hr)

@[simp] theorem Value.inside_ref : (Value.ref shape r).Inside region ↔ (shape, r) ∈ region :=
  ⟨fun h => h shape r rfl, fun h _ _ hr => by cases hr; exact h⟩

theorem Value.inside_of_isScalar (h : v.isScalar = true) : v.Inside region := by
  rintro shape r rfl
  cases h

end Values

/-! ### Charts -/

/-- Where a second machine has what a first one has. -/
structure Chart where
  /-- The place of a collection. -/
  place : Ref → Ref
  /-- The index of the first instruction of a function. -/
  entry : Nat → Nat
  /-- The collections that the chart covers in a heap with so many cells. -/
  region : Nat → Set (Shape × Ref)

namespace Chart

abbrev value (χ : Chart) (v : Value) : Value := v.relabel χ.place χ.entry

/-- The chart tells things apart, and goes on to cover what it covers; what comes to be covered is new. -/
structure Faithful (χ : Chart) : Prop where
  place : Function.Injective χ.place
  entry : Function.Injective χ.entry
  mono : ∀ {m n : Nat}, m ≤ n → χ.region m ⊆ χ.region n
  old : ∀ {m n : Nat} {shape : Shape} {r : Ref}, (shape, r) ∈ χ.region n → r < m → (shape, r) ∈ χ.region m

/-- A value that the chart covers in a heap with `n` cells, and the same value on the second machine. -/
def Values (χ : Chart) (n : Nat) (v v' : Value) : Prop := v' = χ.value v ∧ v.Inside (χ.region n)

/-- What the chart covers of the heap `h`, the heap `h'` has where the chart says. -/
structure Heaps (χ : Chart) (h h' : Heap) : Prop where
  size : ∀ k, χ.place (h.cells.size + k) = h'.cells.size + k
  cell : ∀ shape r, (shape, r) ∈ χ.region h.cells.size → h'.cell (χ.place r) = (h.cell r).map χ.value
  inside : ∀ shape r, (shape, r) ∈ χ.region h.cells.size →
    (h.cell r).All (Value.Inside (χ.region h.cells.size))

/-- The two heaps have become `k` and `k'`: they have grown, and what the chart does not cover is as it
was. -/
structure Grows (χ : Chart) (h h' k k' : Heap) : Prop where
  size : h.cells.size ≤ k.cells.size
  size' : h'.cells.size ≤ k'.cells.size
  kept : ∀ r < h.cells.size, (∀ shape, (shape, r) ∉ χ.region h.cells.size) → k.cells[r]? = h.cells[r]?
  kept' : ∀ r < h'.cells.size, (∀ shape q, (shape, q) ∈ χ.region h.cells.size → χ.place q ≠ r) →
    k'.cells[r]? = h'.cells[r]?

end Chart

namespace Heap

/-- Does the printed form of a value name a function of the program?  So many collections inside each
other are printed. -/
def showsWithin (h : Heap) : Nat → Value → Bool
  | _, .function _ => true
  | depth + 1, .ref shape r => (h.stored shape r).values.any (showsWithin h depth)
  | _, _ => false

/-- Does the printed form of a value name a function of the program? -/
def showsFunction (h : Heap) (v : Value) : Bool := h.showsWithin displayDepth v

/-! ### Cells of a heap -/

section Cells

variable {h : Heap} {r s : Ref} {c : Cell} {f : Cell → Cell}

theorem cell_of_getElem? (hc : h.cells[r]? = some c) : h.cell r = c := by
  rw [cell, Array.getD_eq_getD_getElem?, hc]
  rfl

theorem getElem?_eq_cell (hr : r < h.cells.size) : h.cells[r]? = some (h.cell r) := by
  rw [cell_of_getElem? (Array.getElem?_eq_getElem hr), Array.getElem?_eq_getElem hr]

@[simp] theorem alloc_size : (h.alloc c).2.cells.size = h.cells.size + 1 := by
  simp [alloc]

theorem cell_alloc : (h.alloc c).2.cell r = if r = h.cells.size then c else h.cell r := by
  simp only [Heap.cell, alloc, Array.getD_eq_getD_getElem?, Array.getElem?_push]
  split <;> rfl

@[simp] theorem modify_size : (h.modify r f).cells.size = h.cells.size := by
  simp [modify]

/-- A change of a cell, where there is one. -/
theorem cell_modify :
    (h.modify r f).cell s = if r = s ∧ s < h.cells.size then f (h.cell s) else h.cell s := by
  by_cases hs : s < h.cells.size
  · simp only [Heap.cell, modify, Array.getD_eq_getD_getElem?, Array.getElem?_modify, hs, and_true]
    split <;> simp [Array.getElem?_eq_getElem hs]
  · rw [if_neg fun h => hs h.2]
    simp only [Heap.cell, Heap.modify, Array.getD_eq_getD_getElem?, Array.getElem?_modify,
      Array.getElem?_eq_none (Nat.le_of_not_lt hs), Option.map_none, ite_self]

theorem items_of_cell {values : Array Value} (hc : h.cell r = .items values) : h.items r = values := by
  rw [items, hc]

theorem fields_of_cell {named : Fields} (hc : h.cell r = .fields named) : h.fields r = named := by
  rw [fields, hc]

theorem items_subset (h : Heap) (r : Ref) : ∀ v ∈ h.items r, v ∈ (h.cell r).values := by
  intro v hv
  unfold items at hv
  split at hv
  · next hc =>
    rw [hc]
    exact Array.mem_toList_iff.2 hv
  · cases Array.not_mem_empty v hv

theorem fields_subset (h : Heap) (r : Ref) : ∀ v ∈ (h.fields r).values, v ∈ (h.cell r).values := by
  intro v hv
  unfold fields at hv
  split at hv
  · next hc =>
    rw [hc]
    exact hv
  · cases hv

/-- A handle gives no other values than the cell holds. -/
theorem stored_subset (h : Heap) (shape : Shape) (r : Ref) :
    ∀ v ∈ (h.stored shape r).values, v ∈ (h.cell r).values := by
  intro v hv
  cases shape with
  | object => exact h.fields_subset r v hv
  | _ => exact h.items_subset r v (Array.mem_toList_iff.1 hv)

end Cells

end Heap

namespace Chart

section Heaps

variable {χ : Chart} {h h' k k' l l' : Heap} {v w v' : Value} {vs : List Value} {n m : Nat} {shape : Shape}
  {r : Ref} {c : Cell}

theorem Values.scalar (hv : v.isScalar = true) : χ.Values n v v := by
  refine ⟨?_, Value.inside_of_isScalar hv⟩
  cases v with
  | ref | function => cases hv
  | _ => rfl

theorem Values.null : χ.Values n .null .null := .scalar rfl

theorem Values.mono (hχ : χ.Faithful) (hv : χ.Values n v v') (hle : n ≤ m) : χ.Values m v v' :=
  ⟨hv.1, hv.2.mono (hχ.mono hle)⟩

theorem Values.getD {x : Option Value} (hin : ∀ v, x = some v → v.Inside (χ.region n)) :
    χ.Values n (x.getD .null) ((x.map χ.value).getD .null) := by
  cases x with
  | none => exact .null
  | some v => exact ⟨rfl, hin v rfl⟩

theorem Values.headD (hvs : ∀ w ∈ vs, w.Inside (χ.region n)) :
    χ.Values n (vs.headD .null) ((vs.map χ.value).headD .null) := by
  cases vs with
  | nil => exact .null
  | cons v vs => exact ⟨rfl, hvs v List.mem_cons_self⟩

/-! ### Reading -/

theorem Heaps.items (hm : χ.Heaps h h') (hr : (shape, r) ∈ χ.region h.cells.size) :
    h'.items (χ.place r) = (h.items r).map χ.value := by
  unfold Heap.items
  rw [hm.cell shape r hr]
  cases h.cell r with
  | items values => rfl
  | fields named => exact Array.map_empty.symm

theorem Heaps.fields (hm : χ.Heaps h h') (hr : (shape, r) ∈ χ.region h.cells.size) :
    h'.fields (χ.place r) = (h.fields r).map χ.value := by
  unfold Heap.fields
  rw [hm.cell shape r hr]
  cases h.cell r with
  | items values => exact Fields.map_empty.symm
  | fields named => rfl

theorem Heaps.stored (hm : χ.Heaps h h') (hr : (shape, r) ∈ χ.region h.cells.size) :
    h'.stored shape (χ.place r) = (h.stored shape r).map χ.value := by
  cases shape with
  | object => exact congrArg Cell.fields (hm.fields hr)
  | _ => exact congrArg Cell.items (hm.items hr)

theorem Heaps.inside_items (hm : χ.Heaps h h') (hr : (shape, r) ∈ χ.region h.cells.size) :
    ∀ v ∈ h.items r, v.Inside (χ.region h.cells.size) :=
  fun v hv => hm.inside shape r hr v (h.items_subset r v hv)

theorem Heaps.inside_fields (hm : χ.Heaps h h') (hr : (shape, r) ∈ χ.region h.cells.size) :
    (h.fields r).All (Value.Inside (χ.region h.cells.size)) :=
  fun v hv => hm.inside shape r hr v (h.fields_subset r v hv)

theorem Heaps.inside_stored (hm : χ.Heaps h h') (hr : (shape, r) ∈ χ.region h.cells.size) :
    (h.stored shape r).All (Value.Inside (χ.region h.cells.size)) :=
  fun v hv => hm.inside shape r hr v (h.stored_subset shape r v hv)

theorem Heaps.displayInside (hm : χ.Heaps h h') (depth : Nat) (hv : v.Inside (χ.region h.cells.size))
    (hs : χ.entry = id ∨ h.showsWithin depth v = false) :
    h'.displayInside depth (χ.value v) = h.displayInside depth v := by
  -- only functions are shown by their entries
  have hfunction : ∀ {depth t}, χ.entry = id ∨ h.showsWithin depth (.function t) = false →
      h'.displayInside depth (.function (χ.entry t)) = h.displayInside depth (.function t) := by
    rintro depth t (hid | hs)
    · rw [hid]
      cases depth <;> rfl
    · cases depth <;> cases hs
  induction depth generalizing v with
  | zero =>
    cases v with
    | function t => exact hfunction hs
    | _ => rfl
  | succ depth ih =>
    cases v with
    | function t => exact hfunction hs
    | ref shape r =>
      have hr := Value.inside_ref.1 hv
      -- a collection is shown by what it holds, wherever it stands
      have hmembers : ∀ w ∈ (h.stored shape r).values,
          h'.displayInside depth (χ.value w) = h.displayInside depth w := by
        intro w hw
        refine ih (hm.inside_stored hr w hw) (hs.imp_right fun hs => ?_)
        rw [Heap.showsWithin, List.any_eq_false] at hs
        exact Bool.eq_false_iff.2 (hs w hw)
      cases shape with
      | object =>
        simp only [Value.relabel_ref, Heap.displayInside, hm.fields hr, Fields.entries_map, Array.toList_map,
          List.map_map]
        congr 3
        refine List.map_congr_left fun f hf => congrArg (f.1 ++ ": " ++ ·) ?_
        exact hmembers f.2 (List.mem_map_of_mem hf)
      | list | set =>
        simp only [Value.relabel_ref, Heap.displayInside, hm.items hr, Array.toList_map, List.map_map]
        congr 3
        exact List.map_congr_left hmembers
    | _ => rfl

/-- What names no function is printed in the same way. -/
theorem Heaps.display (hm : χ.Heaps h h') (hv : v.Inside (χ.region h.cells.size))
    (hs : χ.entry = id ∨ h.showsFunction v = false) : h'.display (χ.value v) = h.display v := by
  have hinside := hm.displayInside displayDepth hv hs
  cases v <;> first | rfl | exact hinside

theorem Heaps.display_all (hm : χ.Heaps h h') (hv : ∀ v ∈ vs, v.Inside (χ.region h.cells.size))
    (hs : χ.entry = id ∨ ∀ v ∈ vs, h.showsFunction v = false) :
    (vs.map χ.value).map h'.display = vs.map h.display := by
  rw [List.map_map]
  exact List.map_congr_left fun v hmem => hm.display (hv v hmem) (hs.imp_right fun hs => hs v hmem)

/-! ### Comparing -/

variable (hχ : χ.Faithful)
include hχ

def address (χ : Chart) (a : Address) : Address := (a.1, χ.place a.2)

theorem Heaps.equalWithin (hm : χ.Heaps h h') (depth : Nat) (path : List (Address × Address))
    (hv : v.Inside (χ.region h.cells.size)) (hw : w.Inside (χ.region h.cells.size)) :
    h'.equalWithin depth (path.map fun p => (χ.address p.1, χ.address p.2)) (χ.value v) (χ.value w) =
      h.equalWithin depth path v w := by
  induction depth generalizing path v w with
  | zero => rfl
  | succ depth ih =>
    cases v <;> cases w <;> try rfl
    case function.function a b =>
      show some (χ.entry a == χ.entry b) = some (a == b)
      rw [Bool.eq_iff_iff.2 (by simp [hχ.entry.eq_iff] : (χ.entry a == χ.entry b) ↔ (a == b))]
    case ref.ref s r t q =>
      have hr := Value.inside_ref.1 hv
      have hq := Value.inside_ref.1 hw
      have hsame : (χ.place r == χ.place q) = (r == q) := by
        rw [Bool.eq_iff_iff, beq_iff_eq, beq_iff_eq, hχ.place.eq_iff]
      -- the path is looked up by addresses, which stay apart
      have hinj : Function.Injective fun p : Address × Address => (χ.address p.1, χ.address p.2) := by
        rintro ⟨⟨a, r⟩, b, q⟩ ⟨⟨a', r'⟩, b', q'⟩ heq
        simp only [address, Prod.mk.injEq, hχ.place.eq_iff] at heq ⊢
        exact heq
      have hpath : (path.map fun p => (χ.address p.1, χ.address p.2)).contains
          (s.address (χ.place r), t.address (χ.place q)) = path.contains (s.address r, t.address q) := by
        rw [Bool.eq_iff_iff, List.contains_iff_mem, List.contains_iff_mem]
        exact List.mem_map_of_injective hinj (a := (s.address r, t.address q))
      have hcells := Cell.equalBy_map (c := h.stored s r) (e := h.stored t q) fun x hx y hy =>
        ih ((s.address r, t.address q) :: path) (hm.inside_stored hr x hx) (hm.inside_stored hq y hy)
      rw [← hm.stored hr, ← hm.stored hq] at hcells
      simp only [Value.relabel_ref, Heap.equalWithin, hsame, hpath, ← hcells]
      rfl

/-- Functions are told apart as before, since different functions stand at different places. -/
theorem Heaps.equal (hm : χ.Heaps h h') (hv : v.Inside (χ.region h.cells.size))
    (hw : w.Inside (χ.region h.cells.size)) : h'.equal (χ.value v) (χ.value w) = h.equal v w := by
  have hequal : h'.equal? (χ.value v) (χ.value w) = some (h'.equal (χ.value v) (χ.value w)) := h'.equal?_eq _ _
  rw [Heap.equal?, ← List.map_nil, hm.equalWithin hχ _ [] hv hw] at hequal
  exact (Heap.equal_of_equalWithin hequal).symm

theorem Heaps.contains (hm : χ.Heaps h h') {members : Array Value}
    (hs : ∀ w ∈ members, w.Inside (χ.region h.cells.size)) (hv : v.Inside (χ.region h.cells.size)) :
    h'.contains (members.map χ.value) (χ.value v) = h.contains members v := by
  unfold Heap.contains
  rw [← Array.any_toList, ← Array.any_toList, Array.toList_map, List.any_map, Bool.eq_iff_iff,
    List.any_eq_true, List.any_eq_true]
  refine exists_congr fun w => and_congr_right fun hw => ?_
  rw [Function.comp_apply, hm.equal hχ (hs w (Array.mem_toList_iff.1 hw)) hv]

theorem Heaps.distinct (hm : χ.Heaps h h') (hvs : ∀ v ∈ vs, v.Inside (χ.region h.cells.size)) :
    h'.distinct (vs.map χ.value) = (h.distinct vs).map χ.value ∧
      ∀ v ∈ h.distinct vs, v.Inside (χ.region h.cells.size) := by
  unfold Heap.distinct
  suffices hfold : ∀ kept : Array Value, (∀ w ∈ kept, w.Inside (χ.region h.cells.size)) →
      (vs.map χ.value).foldl (fun kept v => if h'.contains kept v then kept else kept.push v)
          (kept.map χ.value) =
        (vs.foldl (fun kept v => if h.contains kept v then kept else kept.push v) kept).map χ.value ∧
      ∀ w ∈ vs.foldl (fun kept v => if h.contains kept v then kept else kept.push v) kept,
        w.Inside (χ.region h.cells.size) by
    simpa using hfold #[] (by simp)
  induction vs with
  | nil => exact fun kept hk => ⟨rfl, hk⟩
  | cons v vs ih =>
    intro kept hk
    have hv := hvs v List.mem_cons_self
    have hrest := ih fun w hw => hvs w (List.mem_cons_of_mem _ hw)
    simp only [List.map_cons, List.foldl_cons, hm.contains hχ hk hv]
    split
    · exact hrest kept hk
    · rw [← Array.map_push]
      refine hrest _ fun w hw => ?_
      rcases Array.mem_push.1 hw with hw | rfl
      · exact hk w hw
      · exact hv

/-! ### Adding and changing collections -/

theorem Heaps.lt_iff (hm : χ.Heaps h h') : χ.place r < h'.cells.size ↔ r < h.cells.size := by
  refine ⟨fun hlt => Nat.lt_of_not_le fun hle => ?_, fun hlt => Nat.lt_of_not_le fun hle => ?_⟩
  · obtain ⟨k, rfl⟩ := Nat.exists_eq_add_of_le hle
    rw [hm.size k] at hlt
    exact absurd hlt (Nat.not_lt.2 (Nat.le_add_right _ _))
  · -- the places from the end of the second heap on are those of the collections to come
    obtain ⟨k, hk⟩ := Nat.exists_eq_add_of_le hle
    rw [← hm.size k] at hk
    exact absurd (hχ.place hk ▸ hlt) (Nat.not_lt.2 (Nat.le_add_right _ _))

theorem Heaps.alloc (hm : χ.Heaps h h') (hc : c.All (Value.Inside (χ.region h.cells.size))) :
    χ.Heaps (h.alloc c).2 (h'.alloc (c.map χ.value)).2 := by
  have hlast : χ.place h.cells.size = h'.cells.size := hm.size 0
  have hgrown : χ.region h.cells.size ⊆ χ.region (h.cells.size + 1) := hχ.mono (Nat.le_succ _)
  refine ⟨fun k => ?_, fun shape r hr => ?_, fun shape r hr => ?_⟩
  · rw [Heap.alloc_size, Heap.alloc_size, Nat.add_assoc, hm.size, Nat.add_assoc]
  · rw [Heap.cell_alloc, Heap.cell_alloc, ← hlast]
    simp only [hχ.place.eq_iff]
    by_cases hr' : r = h.cells.size
    · rw [if_pos hr', if_pos hr']
    · rw [if_neg hr', if_neg hr']
      by_cases hlt : r < h.cells.size
      · exact hm.cell shape r (hχ.old hr hlt)
      · rw [Heap.cell_eq_default (Nat.le_of_not_lt hlt),
          Heap.cell_eq_default (Nat.le_of_not_lt fun hplace => hlt ((hm.lt_iff hχ).1 hplace))]
        exact congrArg Cell.items Array.map_empty.symm
  · rw [Heap.cell_alloc, Heap.alloc_size]
    by_cases hr' : r = h.cells.size
    · rw [if_pos hr']
      exact fun v hv => (hc v hv).mono hgrown
    · rw [if_neg hr']
      by_cases hlt : r < h.cells.size
      · exact fun v hv => (hm.inside shape r (hχ.old hr hlt) v hv).mono hgrown
      · rw [Heap.cell_eq_default (Nat.le_of_not_lt hlt)]
        exact nofun

theorem Heaps.modify (hm : χ.Heaps h h') {f g : Cell → Cell}
    (hf : ∀ shape, (shape, r) ∈ χ.region h.cells.size →
      g ((h.cell r).map χ.value) = (f (h.cell r)).map χ.value ∧
        (f (h.cell r)).All (Value.Inside (χ.region h.cells.size))) :
    χ.Heaps (h.modify r f) (h'.modify (χ.place r) g) := by
  refine ⟨fun k => ?_, fun shape q hq => ?_, fun shape q hq => ?_⟩
  · rw [Heap.modify_size, Heap.modify_size, hm.size]
  · rw [Heap.modify_size] at hq
    rw [Heap.cell_modify, Heap.cell_modify, hm.cell shape q hq]
    simp only [hχ.place.eq_iff, hm.lt_iff hχ]
    split
    · next h =>
      obtain ⟨rfl, -⟩ := h
      exact (hf shape hq).1
    · rfl
  · rw [Heap.modify_size] at hq ⊢
    rw [Heap.cell_modify]
    split
    · next h =>
      obtain ⟨rfl, -⟩ := h
      exact (hf shape hq).2
    · exact hm.inside shape q hq

theorem Heaps.write (hm : χ.Heaps h h') {change : Write} (hw : change.new.Inside (χ.region h.cells.size)) :
    χ.Heaps (h.write r change) (h'.write (χ.place r) (change.map χ.value)) :=
  hm.modify hχ fun shape hr =>
    ⟨Write.apply_map rfl, Write.all_apply (Value.inside_of_isScalar rfl) hw (hm.inside shape r hr)⟩

omit hχ

/-! ### Growing -/

theorem Grows.refl : χ.Grows h h' h h' := ⟨Nat.le_refl _, Nat.le_refl _, fun _ _ _ => rfl, fun _ _ _ => rfl⟩

theorem Grows.trans (hχ : χ.Faithful) (hm : χ.Heaps h h') (h₁ : χ.Grows h h' k k') (h₂ : χ.Grows k k' l l') :
    χ.Grows h h' l l' := by
  refine ⟨Nat.le_trans h₁.size h₂.size, Nat.le_trans h₁.size' h₂.size', fun r hr hout => ?_, fun r hr hout => ?_⟩
  · rw [h₂.kept r (Nat.lt_of_lt_of_le hr h₁.size) fun shape hin => hout shape (hχ.old hin hr), h₁.kept r hr hout]
  · rw [h₂.kept' r (Nat.lt_of_lt_of_le hr h₁.size') fun shape q hin hplace => ?_, h₁.kept' r hr hout]
    exact hout shape q (hχ.old hin ((hm.lt_iff hχ).1 (hplace ▸ hr))) hplace

theorem Grows.alloc {c' : Cell} : χ.Grows h h' (h.alloc c).2 (h'.alloc c').2 := by
  refine ⟨by simp, by simp, fun r hr _ => ?_, fun r hr _ => ?_⟩
  · rw [Heap.alloc, Array.getElem?_push, if_neg (Nat.ne_of_lt hr)]
  · rw [Heap.alloc, Array.getElem?_push, if_neg (Nat.ne_of_lt hr)]

theorem Grows.modify (hr : (shape, r) ∈ χ.region h.cells.size) {f f' : Cell → Cell} :
    χ.Grows h h' (h.modify r f) (h'.modify (χ.place r) f') := by
  refine ⟨by simp, by simp, fun q _ hout => ?_, fun q _ hout => ?_⟩
  · rw [Heap.modify, Array.getElem?_modify, if_neg]
    rintro rfl
    exact hout shape hr
  · rw [Heap.modify, Array.getElem?_modify, if_neg (hout shape r hr)]

end Heaps

end Chart

end StackScript
