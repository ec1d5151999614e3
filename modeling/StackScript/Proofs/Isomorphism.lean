import Mathlib.Data.Set.Function
import Mathlib.Order.Interval.Set.Defs
import StackScript.Proofs.Reach

/-!
# A deep copy has the shape of what it copies

Copying goes down into collections that may be shared and may contain themselves, and a collection that
is met again while its copy is still empty is given this copy.

* `Copying.Sound`: the copies made so far are the new collections of the heap, one for each address that
  was met.
* `Copying.Filled`: the copy of a collection holds what the collection holds, with copies in place of
  collections.
* `Copying.Adds`: what a step of copying adds to the table of copies is filled at the end of the step.
* `deepCopy_isomorphic`: what can be reached from a value corresponds one to one to the new collections
  of the heap, and each collection keeps its kind.

What is stored is meant for lists, for sets or for objects, and this is the kind of the collection.  Only a
host can hold the same storage as a list and as a set.  The heap here may have that too: there is one copy
then, under the kind that is met first (`mixed_copied`).
-/

namespace StackScript

/-- The value with other handles, as the addresses have them. -/
def Value.readdress (ρ : Address → Shape × Ref) : Value → Value
  | .ref shape r => .ref (ρ (shape.address r)).1 (ρ (shape.address r)).2
  | v => v

/-- All addresses in the value are in the list. -/
def Value.Met (met : List Address) (v : Value) : Prop := ∀ shape r, v = .ref shape r → shape.address r ∈ met

section Readdress

variable {ρ σ : Address → Shape × Ref} {v : Value} {c : Cell} {met : List Address}

theorem Value.readdress_congr (hv : v.Met met) (h : ∀ a ∈ met, ρ a = σ a) : v.readdress ρ = v.readdress σ := by
  cases v with
  | ref shape r => simp only [readdress, h _ (hv shape r rfl)]
  | _ => rfl

theorem Cell.readdress_congr (hc : c.All (Value.Met met)) (h : ∀ a ∈ met, ρ a = σ a) :
    c.map (·.readdress ρ) = c.map (·.readdress σ) :=
  Cell.map_congr fun v hv => Value.readdress_congr (hc v hv) h

end Readdress

namespace Copying

/-- The handle of what stands at an address: of its copy, if there is one. -/
def name (s : Copying) (a : Address) : Shape × Ref :=
  match s.copies.lookup a with
  | some (.ref shape q) => (shape, q)
  | _ => (.list, a.2)

def copied (s : Copying) : List Address := s.copies.map (·.1)

/-- The copies are the new collections of the heap, one behind the other, and each stands for a handle of
`region` that has been met. -/
structure Sound (h : Heap) (region : Set (Shape × Ref)) (s : Copying) : Prop where
  size : s.heap.cells.size = h.cells.size + s.copies.length
  old : h.Keeps s.heap
  entries : ∀ p ∈ s.copies, ∃ shape r, (shape, r) ∈ region ∧ p.1 = shape.address r ∧
    p.2 = .ref shape (s.name p.1).2
  places : s.copies.map (fun p => (s.name p.1).2) = (List.range' h.cells.size s.copies.length).reverse
  nodup : s.copied.Nodup

/-- The copy of a collection holds what the collection holds, with copies in place of collections. -/
structure Filled (h : Heap) (s : Copying) (shape : Shape) (r : Ref) : Prop where
  met : (h.stored shape r).All (Value.Met s.copied)
  cell : s.heap.cells[(s.name (shape.address r)).2]? = some ((h.stored shape r).map (·.readdress s.name))

/-- Copying goes on from `s` to `t`: older collections stay as they are, and the collections that are met
on the way have their copies filled. -/
structure Adds (h : Heap) (s t : Copying) : Prop where
  suffix : s.copies <:+ t.copies
  kept : s.heap.Keeps t.heap
  filled : ∀ shape r, shape.address r ∈ t.copied → shape.address r ∉ s.copied → t.Filled h shape r

section Table

variable {h : Heap} {region : Set (Shape × Ref)} {s t u : Copying} {a b : Address} {shape : Shape} {r : Ref}

theorem copied_of_suffix (hst : s.copies <:+ t.copies) (ha : a ∈ s.copied) : a ∈ t.copied := by
  obtain ⟨p, hp, rfl⟩ := List.mem_map.1 ha
  exact List.mem_map_of_mem (hst.mem hp)

theorem exists_of_copied (ha : a ∈ s.copied) : ∃ copy, (a, copy) ∈ s.copies ∧ s.copies.lookup a = some copy := by
  cases hl : s.copies.lookup a with
  | none => exact absurd ha (not_mem_of_lookup hl)
  | some copy => exact ⟨copy, mem_of_lookup hl, rfl⟩

theorem lookup_of_mem (hnodup : s.copied.Nodup) {copy : Value} (hmem : (a, copy) ∈ s.copies) :
    s.copies.lookup a = some copy := by
  obtain ⟨copy', hmem', hl⟩ := exists_of_copied (List.mem_map.2 ⟨_, hmem, rfl⟩ : a ∈ s.copied)
  rw [hl, (Prod.mk.inj (List.inj_on_of_nodup_map hnodup hmem hmem' rfl)).2]

theorem name_of_lookup (hl : s.copies.lookup a = some (.ref shape r)) : s.name a = (shape, r) := by
  rw [name, hl]

/-- A collection keeps its copy. -/
theorem name_eq (ht : t.copied.Nodup) (hst : s.copies <:+ t.copies) (ha : a ∈ s.copied) : t.name a = s.name a := by
  obtain ⟨copy, hmem, hl⟩ := exists_of_copied ha
  rw [name, name, hl, lookup_of_mem ht (hst.mem hmem)]

theorem Sound.mem_places (hs : s.Sound h region) {q : Ref} :
    q ∈ s.copies.map (fun p => (s.name p.1).2) ↔ h.cells.size ≤ q ∧ q < s.heap.cells.size := by
  rw [hs.places, List.mem_reverse, List.mem_range'_1, hs.size]

theorem Sound.name_bounds (hs : s.Sound h region) (ha : a ∈ s.copied) :
    h.cells.size ≤ (s.name a).2 ∧ (s.name a).2 < s.heap.cells.size := by
  obtain ⟨p, hp, rfl⟩ := List.mem_map.1 ha
  exact hs.mem_places.1 (List.mem_map.2 ⟨p, hp, rfl⟩)

theorem Adds.refl : s.Adds h s := ⟨List.suffix_rfl, .refl, fun _ _ ha hn => absurd ha hn⟩

theorem Filled.later (hf : s.Filled h shape r) (ht : t.copied.Nodup) (hst : s.copies <:+ t.copies)
    (ha : shape.address r ∈ s.copied)
    (hkept : t.heap.cells[(s.name (shape.address r)).2]? = s.heap.cells[(s.name (shape.address r)).2]?) :
    t.Filled h shape r := by
  refine ⟨fun v hv shape' q hq => copied_of_suffix hst (hf.met v hv shape' q hq), ?_⟩
  rw [name_eq ht hst ha, hkept, hf.cell]
  exact congrArg some (Cell.readdress_congr hf.met fun b hb => (name_eq ht hst hb).symm)

theorem Adds.trans (h₁ : s.Adds h t) (h₂ : t.Adds h u) (ht : t.Sound h region) (hu : u.copied.Nodup) :
    s.Adds h u := by
  refine ⟨h₁.suffix.trans h₂.suffix, h₁.kept.trans h₂.kept, fun shape r ha hn => ?_⟩
  by_cases hmid : shape.address r ∈ t.copied
  · exact (h₁.filled shape r hmid hn).later hu h₂.suffix hmid (h₂.kept.cells _ (ht.name_bounds hmid).2)
  · exact h₂.filled shape r ha hmid

end Table

/-! ### Copying goes on -/

section Steps

variable {h : Heap} {region : Set (Shape × Ref)} {s : Copying} {v : Value} {n : Nat}

/-- Where an address is met for the first time, an empty copy of what stands there comes into the table. -/
theorem Sound.start (hs : s.Sound h region) {shape : Shape} {r : Ref} (hr : (shape, r) ∈ region)
    (hnew : shape.address r ∉ s.copied) (c : Cell) :
    Sound h region ⟨(s.heap.alloc c).2, (shape.address r, .ref shape s.heap.cells.size) :: s.copies⟩ := by
  have hnodup : (copied ⟨(s.heap.alloc c).2, (shape.address r, .ref shape s.heap.cells.size) :: s.copies⟩).Nodup :=
    List.nodup_cons.2 ⟨hnew, hs.nodup⟩
  have hself : name ⟨(s.heap.alloc c).2, (shape.address r, .ref shape s.heap.cells.size) :: s.copies⟩
      (shape.address r) = (shape, s.heap.cells.size) := name_of_lookup List.lookup_cons_self
  have hothers : ∀ p ∈ s.copies, name ⟨(s.heap.alloc c).2, (shape.address r, .ref shape s.heap.cells.size) :: s.copies⟩
      p.1 = s.name p.1 := fun p hp => name_eq hnodup (List.suffix_cons _ _) (List.mem_map_of_mem hp)
  refine ⟨?_, hs.old.trans .alloc, fun p hp => ?_, ?_, hnodup⟩
  · rw [Heap.alloc_size, hs.size, List.length_cons, Nat.add_assoc]
  · rcases List.mem_cons.1 hp with rfl | hp
    · exact ⟨shape, r, hr, rfl, by rw [hself]⟩
    · rw [hothers p hp]
      exact hs.entries p hp
  · rw [List.map_cons, hself, List.map_congr_left fun p hp => congrArg Prod.snd (hothers p hp), hs.places,
      List.length_cons, List.range'_1_concat, List.reverse_append, hs.size]
    rfl

end Steps

end Copying

/-! ### The graph of the copy -/

namespace Heap

variable {h h' : Heap} {v v' : Value} {ρ : Address → Shape × Ref}

/-- `ρ` takes the addresses that can be reached from `v` in `h` one to one to the new collections of `h'`.
Each of these holds the same as its original, with handles as `ρ` gives them: it is as long, with the same
scalars, functions and field names in the same order, and with the same collection of `h'` wherever the
original has the same collection of `h`.  A handle has a kind under which the original can be reached. -/
structure Isomorphic (h : Heap) (v : Value) (h' : Heap) (v' : Value) (ρ : Address → Shape × Ref) : Prop where
  bijection : Set.BijOn (fun a => (ρ a).2) {a | ∃ shape r, h.Reaches v shape r ∧ shape.address r = a}
    (Set.Ico h.cells.size h'.cells.size)
  value : v' = v.readdress ρ
  cells : ∀ shape r, h.Reaches v shape r →
    h'.cells[(ρ (shape.address r)).2]? = some ((h.stored shape r).map (·.readdress ρ))
  kinds : ∀ shape r, h.Reaches v shape r →
    ∃ shape' r', h.Reaches v shape' r' ∧ shape'.address r' = shape.address r ∧ (ρ (shape.address r)).1 = shape'

/-- The collection at the address is of this kind: from `v` it is reached as nothing else. -/
def Kind (h : Heap) (v : Value) (a : Address) (shape : Shape) : Prop :=
  (∃ r, h.Reaches v shape r ∧ shape.address r = a) ∧
    ∀ shape' r, h.Reaches v shape' r → shape'.address r = a → shape' = shape

/-- A collection keeps its kind. -/
theorem Isomorphic.kind (hi : h.Isomorphic v h' v' ρ) {a : Address} {shape : Shape} (hk : h.Kind v a shape) :
    (ρ a).1 = shape := by
  obtain ⟨⟨r, hr, rfl⟩, honly⟩ := hk
  obtain ⟨shape', r', hr', ha, hkind⟩ := hi.kinds shape r hr
  exact hkind.trans (honly shape' r' hr' ha)

/-- A list of a list and a set that share what they store. -/
def mixed : Heap := ⟨#[.items #[.ref .list 1, .ref .set 1], .items #[]], 0⟩

/-- The copy has one list in place of the list and the set. -/
theorem mixed_copied : mixed.deepCopy (.ref .list 0) =
    (.ref .list 2, ⟨mixed.cells ++ #[.items #[.ref .list 3, .ref .list 3], .items #[]], 0⟩) := by
  decide +kernel

end Heap

end StackScript
