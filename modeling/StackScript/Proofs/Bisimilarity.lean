import Mathlib.Data.List.Perm.Subperm
import StackScript.Host.Call
import StackScript.Proofs.Comparing
import StackScript.Proofs.FloatEquality
import StackScript.Proofs.MappedCells

/-!
# Equality is bisimilarity

Two values are bisimilar if no path into both of them leads to a difference.  Collections may be shared
and may contain themselves, so there may be paths without end; each difference is at a finite one.

* `Heap.Alike`: two values do not differ themselves; what collections hold is not looked at.
* `Heap.Differ`: a path leads from two values to a difference.
* `distinguishes_below`: where a comparison takes pairs of collections for granted, a path to a
  difference leads to one from such a pair too, and is no longer there.
* `equal_iff_bisimilar`: values are equal when they are bisimilar, and that is an equivalence.
-/

namespace StackScript

/-- Is the value a float that is no number? -/
def Value.isNaN : Value → Bool
  | .float x => x.isNaN
  | _ => false

/-! ### Paths -/

/-- A way into a collection: a place in a list or a set, or the name of a field. -/
inductive Access where
  | place (i : Nat)
  | field (name : String)
deriving DecidableEq

/-- What a way into a collection leads to. -/
def Cell.at? : Cell → Access → Option Value
  | .items values, .place i => values[i]?
  | .fields named, .field name => named.get? name
  | _, _ => none

/-- Two cells with equally many values, or with fields of the same names. -/
def Cell.Alike : Cell → Cell → Prop
  | .items xs, .items ys => xs.size = ys.size
  | .fields xs, .fields ys => xs.size = ys.size ∧ ∀ name, name ∈ xs.names ↔ name ∈ ys.names
  | _, _ => False

namespace Heap

/-- What a way into a value leads to; only collections have one. -/
def into? (h : Heap) : Value → Access → Option Value
  | .ref shape r, x => (h.stored shape r).at? x
  | _, _ => none

def follow (h : Heap) : Value → List Access → Option Value
  | v, [] => some v
  | v, x :: path => (h.into? v x).bind (h.follow · path)

/-- Two values do not differ themselves: they are of one kind, and are equal numbers, the same scalar
or the same function, or collections of one kind that are alike. -/
inductive Alike (h : Heap) : Value → Value → Prop
  | null : Alike h .null .null
  | bool (b : Bool) : Alike h (.bool b) (.bool b)
  | number {v w : Value} {x y : Float} (left : Host.number? v = some x) (right : Host.number? w = some y)
      (equal : (x == y) = true) : Alike h v w
  | str (s : String) : Alike h (.str s) (.str s)
  | collection {shape : Shape} {r q : Ref} (cells : (h.stored shape r).Alike (h.stored shape q)) :
      Alike h (.ref shape r) (.ref shape q)
  | function (t : Nat) : Alike h (.function t) (.function t)
  | host {f g : HostFunction} (serial : f.serial = g.serial) : Alike h (.host f) (.host g)

/-- The path leads from two values to a difference. -/
def Differ (h : Heap) (a b : Value) (path : List Access) : Prop :=
  ∃ v w, h.follow a path = some v ∧ h.follow b path = some w ∧ ¬h.Alike v w

/-- No path leads from the two values to a difference. -/
def Bisimilar (h : Heap) (a b : Value) : Prop := ∀ path, ¬h.Differ a b path

/-- No path leads to a float that is no number. -/
def Numeric (h : Heap) (a : Value) : Prop := ∀ path v, h.follow a path = some v → v.isNaN = false

end Heap

/-! ### Fields -/

section Fields

variable {fields : Fields} {name : String} {v : Value}

theorem Fields.mem_of_get? (h : fields.get? name = some v) : (name, v) ∈ fields.entries.toList := by
  obtain ⟨f, hf, rfl⟩ := Option.map_eq_some_iff.1 h
  have hname := Array.find?_some hf
  rw [beq_iff_eq] at hname
  rw [← hname]
  exact Array.mem_toList_iff.2 (Array.mem_of_find?_eq_some hf)

theorem Fields.name_of_get? (h : fields.get? name = some v) : name ∈ fields.names :=
  List.mem_map.2 ⟨(name, v), Fields.mem_of_get? h, rfl⟩

theorem Fields.get?_isSome (h : name ∈ fields.names) : ∃ w, fields.get? name = some w := by
  obtain ⟨f, hf, rfl⟩ := List.mem_map.1 h
  unfold Fields.get?
  cases hfind : fields.entries.find? fun g => g.1 == f.1 with
  | none =>
    have hnot := Array.find?_eq_none.1 hfind f (Array.mem_toList_iff.1 hf)
    simp at hnot
  | some g => exact ⟨g.2, rfl⟩

/-- A field is found by its name, since no other one has it. -/
theorem Fields.get?_of_mem (h : (name, v) ∈ fields.entries.toList) : fields.get? name = some v := by
  obtain ⟨w, hw⟩ := Fields.get?_isSome (List.mem_map.2 ⟨_, h, rfl⟩)
  have hmem := Fields.mem_of_get? hw
  rw [hw, (Prod.mk.inj (List.inj_on_of_nodup_map fields.nodup hmem h rfl)).2]

/-- The names of two objects are the same if they are equally many and all of the one are in the
other. -/
theorem Fields.names_iff {xs ys : Fields} (hsize : xs.size = ys.size)
    (hsub : ∀ name ∈ xs.names, name ∈ ys.names) (name : String) :
    name ∈ xs.names ↔ name ∈ ys.names := by
  have hlength : ys.names.length ≤ xs.names.length := by
    simp only [Fields.names, List.length_map, Array.length_toList]
    exact Nat.le_of_eq hsize.symm
  exact ((xs.nodup.subperm hsub).perm_of_length_le hlength).mem_iff

end Fields

/-! ### Comparing collections -/

section Comparing

variable {eq : Value → Value → Option Bool}

/-- One comparison and then another. -/
theorem and_then_iff {b c : Option Bool} :
    (do if ← b then c else return false) = some true ↔ b = some true ∧ c = some true := by
  rcases b with _ | _ | _ <;> simp

theorem allPairs_iff {xs ys : List Value} :
    allPairs eq xs ys = some true ↔ xs.length = ys.length ∧
      ∀ (i : Nat) (v w : Value), xs[i]? = some v → ys[i]? = some w → eq v w = some true := by
  induction xs generalizing ys with
  | nil => cases ys <;> simp [allPairs]
  | cons x xs ih =>
    cases ys with
    | nil => simp [allPairs]
    | cons y ys =>
      rw [allPairs, and_then_iff, ih]
      constructor
      · rintro ⟨hhead, hlength, htail⟩
        refine ⟨congrArg (· + 1) hlength, fun i v w hv hw => ?_⟩
        cases i with
        | zero =>
          obtain rfl := Option.some.inj hv
          obtain rfl := Option.some.inj hw
          exact hhead
        | succ i => exact htail i v w hv hw
      · rintro ⟨hlength, h⟩
        exact ⟨h 0 x y rfl rfl, Nat.succ.inj hlength, fun i => h (i + 1)⟩

theorem allFields_iff {others : Fields} {pairs : List (String × Value)} :
    allFields eq others pairs = some true ↔
      ∀ p ∈ pairs, ∃ w, others.get? p.1 = some w ∧ eq p.2 w = some true := by
  induction pairs with
  | nil => simp [allFields]
  | cons p pairs ih =>
    obtain ⟨name, x⟩ := p
    rw [List.forall_mem_cons, ← ih, allFields]
    cases others.get? name with
    | none => simp
    | some y =>
      simpa using and_then_iff (b := eq x y) (c := allFields eq others pairs)

/-- Comparing collections compares the two themselves, and what each way into both leads to. -/
theorem equalBy_iff {c d : Cell} : Cell.equalBy eq c d = some true ↔
    c.Alike d ∧ ∀ x v w, c.at? x = some v → d.at? x = some w → eq v w = some true := by
  cases c <;> cases d <;> try exact iff_of_false nofun fun h => h.1
  -- lists and sets are compared place by place
  case items.items xs ys =>
    have hplaces : Cell.equalBy eq (.items xs) (.items ys) = some true ↔ xs.size = ys.size ∧
        ∀ (i : Nat) (v w : Value), xs[i]? = some v → ys[i]? = some w → eq v w = some true := by
      dsimp only [Cell.equalBy]
      split
      · next hsize =>
        rw [allPairs_iff]
        simp only [Array.length_toList, Array.getElem?_toList]
      · next hsize => exact iff_of_false nofun fun h => hsize (beq_iff_eq.2 h.1)
    refine hplaces.trans (and_congr_right fun _ => ⟨fun h x v w hv hw => ?_, fun h i => h (.place i)⟩)
    cases x with
    | place i => exact h i v w hv hw
    | field name => cases hv
  -- as many fields, and each of the first among the second: the names are the same then
  case fields.fields xs ys =>
    dsimp only [Cell.equalBy]
    split
    · next hsize =>
      have hsize := beq_iff_eq.1 hsize
      rw [allFields_iff]
      constructor
      · intro hall
        refine ⟨⟨hsize, Fields.names_iff hsize fun name hname => ?_⟩, fun x v w hv hw => ?_⟩
        · obtain ⟨p, hmem, rfl⟩ := List.mem_map.1 hname
          obtain ⟨w, hw, -⟩ := hall p hmem
          exact Fields.name_of_get? hw
        · cases x with
          | place i => cases hv
          | field name =>
            obtain ⟨u, hu, heq⟩ := hall _ (Fields.mem_of_get? hv)
            obtain rfl := Option.some.inj (hu.symm.trans hw)
            exact heq
      · rintro ⟨⟨-, hnames⟩, h⟩ p hp
        obtain ⟨w, hw⟩ := Fields.get?_isSome ((hnames p.1).1 (List.mem_map_of_mem hp))
        exact ⟨w, hw, h (.field p.1) p.2 w (Fields.get?_of_mem hp) hw⟩
    · next hsize => exact iff_of_false nofun fun h => hsize (beq_iff_eq.2 h.1.1)

end Comparing

namespace Heap

variable {h : Heap} {a b c v w : Value} {path : List Access}

/-! ### Values that do not differ themselves -/

theorem alike_self (hv : v.isNaN = false) : h.Alike v v := by
  cases v with
  | null => exact .null
  | bool b => exact .bool b
  | int n => exact .number rfl rfl ((Decimal.floatOfInt_beq n n).trans (beq_self_eq_true n))
  | float x => exact .number rfl rfl (Decimal.float_beq_self hv)
  | str s => exact .str s
  | ref shape r =>
    refine .collection ?_
    cases h.stored shape r with
    | items values => exact rfl
    | fields named => exact ⟨rfl, fun _ => Iff.rfl⟩
  | function t => exact .function t
  | host f => exact .host rfl

theorem Cell.Alike.symm {c d : Cell} (hcd : c.Alike d) : d.Alike c := by
  cases c <;> cases d <;> try exact hcd.elim
  case items => exact Eq.symm hcd
  case fields => exact ⟨hcd.1.symm, fun name => (hcd.2 name).symm⟩

theorem Cell.Alike.trans {c d e : Cell} (hcd : c.Alike d) (hde : d.Alike e) : c.Alike e := by
  cases c <;> cases d <;> try exact hcd.elim
  all_goals cases e <;> try exact hde.elim
  case items => exact Eq.trans hcd hde
  case fields => exact ⟨hcd.1.trans hde.1, fun name => (hcd.2 name).trans (hde.2 name)⟩

theorem Alike.symm (hvw : h.Alike v w) : h.Alike w v := by
  cases hvw with
  | null => exact .null
  | bool b => exact .bool b
  | number hv hw heq => exact .number hw hv ((Decimal.float_beq_comm _ _).trans heq)
  | str s => exact .str s
  | collection hcells => exact .collection (Cell.Alike.symm hcells)
  | function t => exact .function t
  | host hserial => exact .host hserial.symm

theorem Alike.trans {u : Value} (huv : h.Alike u v) (hvw : h.Alike v w) : h.Alike u w := by
  cases huv with
  | number hu hv heq =>
    cases hvw with
    | number hv' hw heq' =>
      obtain rfl := Option.some.inj (hv.symm.trans hv')
      exact .number hu hw (Decimal.float_beq_trans heq heq')
    | _ => cases hv
  | collection hcells =>
    cases hvw with
    | number hv => cases hv
    | collection hcells' => exact .collection (Cell.Alike.trans hcells hcells')
  | host hserial =>
    cases hvw with
    | number hv => cases hv
    | host hserial' => exact .host (hserial.trans hserial')
  | _ => exact hvw

/-- Numbers are alike when they are equal as floats. -/
theorem alike_numbers {x y : Float} (hv : Host.number? v = some x) (hw : Host.number? w = some y) :
    (x == y) = true ↔ h.Alike v w := by
  refine ⟨.number hv hw, fun hvw => ?_⟩
  cases hvw with
  | number hv' hw' heq =>
    obtain rfl := Option.some.inj (hv.symm.trans hv')
    obtain rfl := Option.some.inj (hw.symm.trans hw')
    exact heq
  | _ => cases hv

/-- A comparison of values that are not both collections looks at nothing else. -/
theorem equalWithin_scalar {depth : Nat} {met : List (Address × Address)}
    (hrefs : ¬∃ s r t q, a = .ref s r ∧ b = .ref t q) :
    h.equalWithin (depth + 1) met a b = some true ↔ h.Alike a b := by
  have hbeq : ∀ {α : Type} [BEq α] [LawfulBEq α] {x y : α}, some (x == y) = some true ↔ x = y :=
    Option.some_inj.trans beq_iff_eq
  cases a <;> cases b
  case null.null => exact iff_of_true rfl .null
  case bool.bool x y =>
    refine hbeq.trans ⟨fun h => h ▸ .bool x, fun h => ?_⟩
    cases h with
    | bool => rfl
    | number hx => cases hx
  case str.str x y =>
    refine hbeq.trans ⟨fun h => h ▸ .str x, fun h => ?_⟩
    cases h with
    | str => rfl
    | number hx => cases hx
  case function.function s t =>
    refine hbeq.trans ⟨fun h => h ▸ .function s, fun h => ?_⟩
    cases h with
    | function => rfl
    | number hs => cases hs
  case host.host f g =>
    refine hbeq.trans ⟨.host, fun h => ?_⟩
    cases h with
    | host h => exact h
    | number hf => cases hf
  case int.int x y =>
    refine Iff.trans ?_ (alike_numbers rfl rfl)
    rw [Decimal.floatOfInt_beq]
    exact Option.some_inj
  case float.int x y =>
    refine Iff.trans ?_ (alike_numbers rfl rfl)
    rw [Decimal.float_beq_comm]
    exact Option.some_inj
  case int.float | float.float => exact Option.some_inj.trans (alike_numbers rfl rfl)
  case ref.ref s r t q => exact absurd ⟨s, r, t, q, rfl, rfl⟩ hrefs
  all_goals
    refine iff_of_false nofun fun h => ?_
    cases h with
    | number hv hw => cases hv <;> cases hw

theorem alike_refs {s t : Shape} {r q : Ref} :
    h.Alike (.ref s r) (.ref t q) ↔ s = t ∧ (h.stored s r).Alike (h.stored t q) := by
  constructor
  · intro halike
    cases halike with
    | collection hcells => exact ⟨rfl, hcells⟩
    | number hr => cases hr
  · rintro ⟨rfl, hcells⟩
    exact .collection hcells

/-- A comparison of two collections. -/
theorem equalWithin_refs {depth : Nat} {met : List (Address × Address)} {s t : Shape} {r q : Ref} :
    h.equalWithin (depth + 1) met (.ref s r) (.ref t q) = some true ↔
      s = t ∧ (r = q ∨ (s.address r, t.address q) ∈ met ∨ (h.Alike (.ref s r) (.ref t q) ∧
        ∀ x v w, h.into? (.ref s r) x = some v → h.into? (.ref t q) x = some w →
          h.equalWithin depth ((s.address r, t.address q) :: met) v w = some true)) := by
  rw [alike_refs, equalWithin]
  by_cases hst : s = t
  · subst hst
    by_cases hmet : r = q ∨ (s.address r, s.address q) ∈ met
    · have hgranted : (r == q || met.contains (s.address r, s.address q)) = true := by simpa using hmet
      rw [if_neg (by simp), if_pos hgranted]
      exact iff_of_true rfl ⟨rfl, or_assoc.1 (.inl hmet)⟩
    · have hnew : ¬(r == q || met.contains (s.address r, s.address q)) = true := by simpa using hmet
      rw [if_neg (by simp), if_neg hnew]
      refine equalBy_iff.trans ⟨fun h => ⟨rfl, .inr (.inr ⟨⟨rfl, h.1⟩, h.2⟩)⟩, ?_⟩
      rintro ⟨-, hr | hmem | ⟨⟨-, hcells⟩, hinto⟩⟩
      · exact absurd (.inl hr) hmet
      · exact absurd (.inr hmem) hmet
      · exact ⟨hcells, hinto⟩
  · rw [if_pos (by simpa using hst)]
    exact iff_of_false (by simp) fun h => hst h.1

/-! ### Paths to a difference -/

theorem mem_values_of_at? {c : Cell} {x : Access} (hv : c.at? x = some v) : v ∈ c.values := by
  cases c <;> cases x <;> try cases hv
  case items.place => exact Array.mem_toList_iff.2 (Array.mem_of_getElem? hv)
  case fields.field => exact List.mem_map_of_mem (Fields.mem_of_get? hv)

theorem into?_eq_some {x : Access} (hv : h.into? a x = some v) :
    ∃ shape r, a = .ref shape r ∧ r < h.cells.size := by
  cases a with
  | ref shape r => exact ⟨shape, r, rfl, lt_of_mem_stored (mem_values_of_at? hv)⟩
  | _ => cases hv

theorem into?_lt {shape : Shape} {r : Ref} {x : Access} (hv : h.into? (.ref shape r) x = some v) :
    r < h.cells.size := by
  obtain ⟨_, _, hr, hlt⟩ := into?_eq_some hv
  cases hr
  exact hlt

/-- A path of more than one step to a difference. -/
theorem differ_cons {x : Access} : h.Differ a b (x :: path) ↔
    ∃ v w, h.into? a x = some v ∧ h.into? b x = some w ∧ h.Differ v w path := by
  constructor
  · rintro ⟨v, w, hv, hw, hnot⟩
    obtain ⟨v', hv', hv⟩ := Option.bind_eq_some_iff.1 hv
    obtain ⟨w', hw', hw⟩ := Option.bind_eq_some_iff.1 hw
    exact ⟨v', w', hv', hw', v, w, hv, hw, hnot⟩
  · rintro ⟨v', w', hv', hw', v, w, hv, hw, hnot⟩
    exact ⟨v, w, Option.bind_eq_some_iff.2 ⟨v', hv', hv⟩, Option.bind_eq_some_iff.2 ⟨w', hw', hw⟩, hnot⟩

theorem Bisimilar.alike (hab : h.Bisimilar a b) : h.Alike a b :=
  not_not.1 fun hnot => hab [] ⟨a, b, rfl, rfl, hnot⟩

theorem Bisimilar.into {x : Access} (hab : h.Bisimilar a b) (hv : h.into? a x = some v)
    (hw : h.into? b x = some w) : h.Bisimilar v w := fun path hdiffer =>
  hab (x :: path) (differ_cons.2 ⟨v, w, hv, hw, hdiffer⟩)

theorem Numeric.into {x : Access} (ha : h.Numeric a) (hv : h.into? a x = some v) : h.Numeric v :=
  fun path y hy => ha (x :: path) y (Option.bind_eq_some_iff.2 ⟨v, hv, hy⟩)

/-- No path leads from a value to a difference from itself. -/
theorem Numeric.bisimilar_self (ha : h.Numeric a) : h.Bisimilar a a := by
  rintro path ⟨v, w, hv, hw, hnot⟩
  obtain rfl := Option.some.inj (hv.symm.trans hw)
  exact hnot (alike_self (ha path v hv))

/-- Bisimilar values are found equal, whatever is taken for granted. -/
theorem Bisimilar.equalWithin {depth : Nat} {met : List (Address × Address)}
    (hdepth : (h.unmet met).card < depth) (hab : h.Bisimilar a b) :
    h.equalWithin depth met a b = some true := by
  induction depth generalizing met a b with
  | zero => omega
  | succ depth ih =>
    by_cases hrefs : ∃ s r t q, a = .ref s r ∧ b = .ref t q
    · obtain ⟨s, r, t, q, rfl, rfl⟩ := hrefs
      obtain ⟨rfl, -⟩ := alike_refs.1 hab.alike
      rw [equalWithin_refs]
      by_cases hmet : (s.address r, s.address q) ∈ met
      · exact ⟨rfl, .inr (.inl hmet)⟩
      · refine ⟨rfl, .inr (.inr ⟨hab.alike, fun x v w hv hw => ih ?_ (hab.into hv hw)⟩)⟩
        exact Nat.lt_of_lt_of_le (card_unmet_cons hmet (into?_lt hv) (into?_lt hw)) (Nat.le_of_lt_succ hdepth)
    · exact (equalWithin_scalar hrefs).2 hab.alike

/-- Handles of the same storage differ in the same places. -/
theorem differ_address {s t : Shape} {r q r' q' : Ref} (hr : t.address r' = s.address r)
    (hq : t.address q' = s.address q) (hdiffer : h.Differ (.ref t r') (.ref t q') path) :
    h.Differ (.ref s r) (.ref s q) path := by
  cases path with
  | nil =>
    refine ⟨_, _, rfl, rfl, fun halike => ?_⟩
    obtain ⟨v, w, hv, hw, hnot⟩ := hdiffer
    obtain rfl := Option.some.inj hv
    obtain rfl := Option.some.inj hw
    refine hnot (.collection ?_)
    rw [stored_address hr, stored_address hq]
    exact (alike_refs.1 halike).2
  | cons x path =>
    obtain ⟨v, w, hv, hw, hbelow⟩ := differ_cons.1 hdiffer
    refine differ_cons.2 ⟨v, w, ?_, ?_, hbelow⟩
    · rwa [into?, ← stored_address hr]
    · rwa [into?, ← stored_address hq]

/-- Values that are found equal, though a path leads to a difference: then a path that is no longer
leads to a difference from a pair of collections that was taken for granted. -/
theorem distinguishes_below {depth : Nat} {met : List (Address × Address)}
    (hequal : h.equalWithin depth met a b = some true) (ha : h.Numeric a)
    (hdiffer : h.Differ a b path) :
    ∃ s r q path', (Shape.address s r, Shape.address s q) ∈ met ∧ path'.length ≤ path.length ∧
      h.Differ (.ref s r) (.ref s q) path' := by
  generalize hn : path.length = n
  induction n using Nat.strong_induction_on generalizing depth met a b path with
  | _ n ih =>
    -- the induction is on the length of the path; the depth only has to be enough
    obtain _ | depth := depth
    · cases hequal
    by_cases hrefs : ∃ s r t q, a = .ref s r ∧ b = .ref t q
    · obtain ⟨s, r, t, q, rfl, rfl⟩ := hrefs
      obtain ⟨rfl, rfl | hmet | ⟨halike, hinto⟩⟩ := equalWithin_refs.1 hequal
      · -- the two are one collection, and nothing in it differs from itself
        exact absurd hdiffer (ha.bisimilar_self path)
      · exact ⟨s, r, q, path, hmet, Nat.le_of_eq hn, hdiffer⟩
      · cases path with
        | nil =>
          obtain ⟨v, w, hv, hw, hnot⟩ := hdiffer
          obtain rfl := Option.some.inj hv
          obtain rfl := Option.some.inj hw
          exact absurd halike hnot
        | cons x path =>
          rw [List.length_cons] at hn
          obtain ⟨v, w, hv, hw, hbelow⟩ := differ_cons.1 hdiffer
          obtain ⟨s', r', q', path', hmem, hle, hdiffer'⟩ :=
            ih path.length (by omega) (hinto x v w hv hw) (ha.into hv) hbelow rfl
          rcases List.mem_cons.1 hmem with heq | hmem
          · -- a shorter path leads to a difference from the two collections themselves
            obtain ⟨hr, hq⟩ := Prod.mk.inj heq
            obtain ⟨s'', r'', q'', path'', hmem, hle', hdiffer''⟩ :=
              ih path'.length (by omega) hequal ha (differ_address hr hq hdiffer') rfl
            exact ⟨s'', r'', q'', path'', hmem, by omega, hdiffer''⟩
          · exact ⟨s', r', q', path', hmem, by omega, hdiffer'⟩
    · -- two values that are not both collections differ at once or not at all
      cases path with
      | nil =>
        obtain ⟨v, w, hv, hw, hnot⟩ := hdiffer
        obtain rfl := Option.some.inj hv
        obtain rfl := Option.some.inj hw
        exact absurd ((equalWithin_scalar hrefs).1 hequal) hnot
      | cons x path =>
        obtain ⟨v, w, hv, hw, -⟩ := differ_cons.1 hdiffer
        obtain ⟨s, r, hr, -⟩ := into?_eq_some hv
        obtain ⟨t, q, hq, -⟩ := into?_eq_some hw
        exact absurd ⟨s, r, t, q, hr, hq⟩ hrefs

/-- Deep enough, a comparison decides whether two values are bisimilar. -/
theorem equalWithin_iff {depth : Nat} (hdepth : (2 * h.cells.size) * (2 * h.cells.size) < depth)
    (ha : h.Numeric a) : h.equalWithin depth [] a b = some true ↔ h.Bisimilar a b := by
  refine ⟨fun hequal path hdiffer => ?_, fun hab =>
    hab.equalWithin (Nat.lt_of_le_of_lt card_unmet_le hdepth)⟩
  obtain ⟨_, _, _, _, hmem, -⟩ := distinguishes_below hequal ha hdiffer
  cases hmem

/-! ### An equivalence -/

theorem Differ.symm (hdiffer : h.Differ a b path) : h.Differ b a path := by
  obtain ⟨v, w, hv, hw, hnot⟩ := hdiffer
  exact ⟨w, v, hw, hv, fun hwv => hnot hwv.symm⟩

theorem Bisimilar.symm (hab : h.Bisimilar a b) : h.Bisimilar b a := fun path hdiffer =>
  hab path hdiffer.symm

/-- Collections that are alike have the same ways into them. -/
theorem Cell.Alike.at? {c d : Cell} {x : Access} (hcd : c.Alike d) (hv : c.at? x = some v) :
    ∃ w, d.at? x = some w := by
  have hplaces : ∀ {xs ys : Array Value} {i : Nat}, xs.size = ys.size → xs[i]? = some v →
      ∃ w, ys[i]? = some w := by
    intro xs ys i hsize hi
    obtain ⟨hlt, -⟩ := Array.getElem?_eq_some_iff.1 hi
    exact ⟨_, Array.getElem?_eq_getElem (hsize ▸ hlt)⟩
  cases c <;> cases d <;> try exact hcd.elim
  case items.items =>
    cases x with
    | place i => exact hplaces hcd hv
    | field name => cases hv
  case fields.fields =>
    cases x with
    | place i => cases hv
    | field name => exact Fields.get?_isSome ((hcd.2 name).1 (Fields.name_of_get? hv))

theorem Alike.into {x : Access} (hab : h.Alike a b) (hv : h.into? a x = some v) :
    ∃ w, h.into? b x = some w := by
  obtain ⟨s, r, rfl, -⟩ := into?_eq_some hv
  cases hab with
  | number hr => cases hr
  | collection hcells => exact Cell.Alike.at? hcells hv

theorem Bisimilar.follow (hab : h.Bisimilar a b) (hv : h.follow a path = some v) :
    ∃ w, h.follow b path = some w := by
  induction path generalizing a b with
  | nil => exact ⟨b, rfl⟩
  | cons x path ih =>
    obtain ⟨v', hv', hv⟩ := Option.bind_eq_some_iff.1 hv
    obtain ⟨w', hw'⟩ := hab.alike.into hv'
    obtain ⟨w, hw⟩ := ih (hab.into hv' hw') hv
    exact ⟨w, Option.bind_eq_some_iff.2 ⟨w', hw', hw⟩⟩

theorem Bisimilar.trans (hab : h.Bisimilar a b) (hbc : h.Bisimilar b c) : h.Bisimilar a c := by
  rintro path ⟨u, w, hu, hw, hnot⟩
  obtain ⟨v, hv⟩ := hab.follow hu
  have huv : h.Alike u v := not_not.1 fun h => hab path ⟨u, v, hu, hv, h⟩
  have hvw : h.Alike v w := not_not.1 fun h => hbc path ⟨v, w, hv, hw, h⟩
  exact hnot (huv.trans hvw)

/-- Values are equal when they are bisimilar.  A comparison always has an answer, also where values
contain themselves, and going deeper does not change it; and equality is an equivalence. -/
theorem equal_iff_bisimilar (h : Heap) :
    (∀ a b, h.Numeric a → h.Numeric b → (h.equal a b = true ↔ h.Bisimilar a b)) ∧
    (∀ a b depth, (2 * h.cells.size) * (2 * h.cells.size) < depth →
      h.equalWithin depth [] a b = some (h.equal a b)) ∧
    (∀ a, h.Numeric a → h.equal a a = true) ∧
    (∀ a b, h.Numeric a → h.Numeric b → h.equal a b = h.equal b a) ∧
    (∀ a b c, h.Numeric a → h.Numeric b → h.Numeric c → h.equal a b = true → h.equal b c = true →
      h.equal a c = true) := by
  have hanswer : ∀ a b depth, (2 * h.cells.size) * (2 * h.cells.size) < depth →
      h.equalWithin depth [] a b = some (h.equal a b) := by
    intro a b depth hdepth
    obtain ⟨c, hc⟩ := Option.isSome_iff_exists.1
      (equalWithin_isSome (v := a) (w := b) (Nat.lt_of_le_of_lt card_unmet_le hdepth))
    rw [hc, equal_of_equalWithin hc]
  have hiff : ∀ {a b}, h.Numeric a → (h.equal a b = true ↔ h.Bisimilar a b) := by
    intro a b ha
    rw [← equalWithin_iff (Nat.lt_succ_self _) ha, hanswer a b _ (Nat.lt_succ_self _), Option.some_inj]
  refine ⟨fun a b ha _ => hiff ha, hanswer, fun a ha => (hiff ha).2 ha.bisimilar_self,
    fun a b ha hb => ?_, fun a b c ha hb _ hab hbc => ?_⟩
  · rw [Bool.eq_iff_iff, hiff ha, hiff hb]
    exact ⟨.symm, .symm⟩
  · exact (hiff ha).2 (((hiff ha).1 hab).trans ((hiff hb).1 hbc))

/-- A heap in which all floats are numbers. -/
def plain (h : Heap) : Bool := h.cells.all fun c => c.values.all (!·.isNaN)

theorem mem_cell {shape : Shape} {r : Ref} (hv : v ∈ (h.stored shape r).values) :
    v ∈ (h.cell r).values := by
  cases shape <;> simp only [stored, items, fields] at hv <;> split at hv <;> first
    | (next hcell => rwa [hcell])
    | cases hv

theorem numeric_of_plain (hplain : h.plain = true) (ha : a.isNaN = false) : h.Numeric a := by
  intro path
  induction path generalizing a with
  | nil =>
    intro v hv
    obtain rfl := Option.some.inj hv
    exact ha
  | cons x path ih =>
    intro v hv
    obtain ⟨w, hw, hv⟩ := Option.bind_eq_some_iff.1 hv
    refine ih ?_ v hv
    obtain ⟨s, r, rfl, hr⟩ := into?_eq_some hw
    have hcell : h.cell r ∈ h.cells := by
      rw [cell, Array.getD_eq_getD_getElem?, Array.getElem?_eq_getElem hr]
      exact Array.getElem_mem hr
    have hnumbers := Array.all_eq_true_iff_forall_mem.1 hplain _ hcell
    simpa using List.all_eq_true.1 hnumbers w (mem_cell (mem_values_of_at? hw))

/-- Two lists that hold each other, two objects that hold them and the first of the two objects under
names in different orders, and a third list that holds the first. -/
def knots : Heap :=
  ⟨#[.items #[.ref .list 1, .int 1], .items #[.ref .list 0, .float 1.0],
    .fields ⟨#[("a", .ref .list 0), ("b", .ref .object 2)], by decide⟩,
    .fields ⟨#[("b", .ref .object 2), ("a", .ref .list 1)], by decide⟩,
    .items #[.ref .list 0, .int 2]], 0⟩

/-- The two objects are equal, and so bisimilar; the third list differs from the first at its second
place. -/
theorem knots_bisimilar : knots.Numeric (.ref .object 2) ∧ knots.Numeric (.ref .object 3) ∧
    knots.Numeric (.ref .list 0) ∧ knots.Numeric (.ref .list 4) ∧
    knots.Bisimilar (.ref .object 2) (.ref .object 3) ∧
    ¬knots.Bisimilar (.ref .list 0) (.ref .list 4) := by
  have hplain : knots.plain = true := by decide +kernel
  have hnumeric : ∀ s r, knots.Numeric (.ref s r) := fun s r => numeric_of_plain hplain rfl
  have hiff := (equal_iff_bisimilar knots).1
  refine ⟨hnumeric _ 2, hnumeric _ 3, hnumeric _ 0, hnumeric _ 4, ?_, fun h => ?_⟩
  · exact (hiff _ _ (hnumeric _ 2) (hnumeric _ 3)).1 (by decide +kernel)
  · exact absurd ((hiff _ _ (hnumeric _ 0) (hnumeric _ 4)).2 h) (by decide +kernel)

end Heap

end StackScript
