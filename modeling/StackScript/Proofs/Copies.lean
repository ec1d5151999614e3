import StackScript.Proofs.Charts

/-!
# Deep copies in charted heaps

Two heaps of a chart have the collections that are copied at the same places; the copies stand where
the chart says.

* `Chart.above`: the collections from some place on stand further up.  What is copied lies below, and
  the heaps may be of different sizes (`deepCopy_above`).
* `Chart.shifted`: functions stand at other indices, and all collections at the same places
  (`deepCopy_shifted`).
-/

namespace StackScript

/-! ### Going through the values of a collection -/

/-- Carrying a state through the values of a list, and collecting the answers. -/
def carried {α β : Type} (get : α → Value) (add : β → α → Value → β) (f : Copying → Value → Value × Copying)
    (xs : List α) (out : β) (s : Copying) : β × Copying :=
  xs.foldl (fun a x => (add a.1 x (f a.2 (get x)).1, (f a.2 (get x)).2)) (out, s)

section Carried

variable {f : Copying → Value → Value × Copying} {s : Copying}

theorem mapValues_items {values : Array Value} : (Cell.items values).mapValues f s =
    ((Cell.items (carried id (fun out _ v => out.push v) f values.toList #[] s).1),
      (carried id (fun (out : Array Value) _ v => out.push v) f values.toList #[] s).2) := by
  simp only [Cell.mapValues, carried, ← Array.foldl_toList]
  rfl

theorem mapValues_fields {named : Fields} : (Cell.fields named).mapValues f s =
    ((Cell.fields (carried (·.2) (fun out p v => out.insert p.1 v) f named.entries.toList .empty s).1),
      (carried (·.2) (fun (out : Fields) p v => out.insert p.1 v) f named.entries.toList .empty s).2) := by
  simp only [Cell.mapValues, carried, ← Array.foldl_toList]

/-- Copying a collection that has no copy yet. -/
theorem copyWithin_new {depth : Nat} {shape : Shape} {r : Ref} (hl : s.copies.lookup (shape.address r) = none) :
    Heap.copyWithin (depth + 1) s (.ref shape r) =
      let filled := (s.heap.stored shape r).mapValues (Heap.copyWithin depth)
        ⟨(s.heap.alloc (s.heap.stored shape r).blank).2,
          (shape.address r, .ref shape s.heap.cells.size) :: s.copies⟩
      (.ref shape s.heap.cells.size,
        ⟨filled.2.heap.modify s.heap.cells.size fun _ => filled.1, filled.2.copies⟩) := by
  simp only [Heap.copyWithin, hl]
  rfl

end Carried

section Tables

theorem lookup_map_snd {β : Type} {copies : List (Address × β)} {a : Address} {f : β → β} :
    (copies.map fun p => (p.1, f p.2)).lookup a = (copies.lookup a).map f := by
  induction copies with
  | nil => rfl
  | cons p copies ih =>
    obtain ⟨x, c⟩ := p
    simp only [List.map_cons, List.lookup_cons]
    split
    · rfl
    · exact ih

theorem mem_of_lookup {α β : Type} [BEq α] [LawfulBEq α] {pairs : List (α × β)} {a : α} {e : β}
    (h : pairs.lookup a = some e) : (a, e) ∈ pairs := by
  induction pairs with
  | nil => cases h
  | cons p pairs ih =>
    obtain ⟨x, y⟩ := p
    rw [List.lookup_cons] at h
    split at h
    · next heq =>
      obtain rfl := Option.some.inj h
      rw [beq_iff_eq.1 heq]
      exact List.mem_cons_self
    · exact List.mem_cons_of_mem _ (ih h)

theorem not_mem_of_lookup {β : Type} {copies : List (Address × β)} {a : Address} (h : copies.lookup a = none) :
    a ∉ copies.map (·.1) := by
  rw [List.lookup_eq_none_iff] at h
  intro ha
  obtain ⟨p, hp, rfl⟩ := List.mem_map.1 ha
  simpa using h p hp

end Tables

namespace Copying

/-- The addresses below `b` that have no copy yet. -/
def left (b : Nat) (s : Copying) : Finset Address :=
  (Finset.univ ×ˢ Finset.range b).filter (· ∉ s.copies.map (·.1))

variable {s t : Copying} {b : Nat}

theorem left_le (h : s.copies <:+ t.copies) : (t.left b).card ≤ (s.left b).card := by
  refine Finset.card_le_card fun a ha => ?_
  simp only [left, Finset.mem_filter] at ha ⊢
  exact ⟨ha.1, fun hs => ha.2 ((h.map _).mem hs)⟩

theorem left_cons {a : Address} {copy : Value} {heap : Heap} (ha : a.2 < b) (hn : a ∉ s.copies.map (·.1)) :
    (left b ⟨heap, (a, copy) :: s.copies⟩).card < (s.left b).card := by
  refine Finset.card_lt_card (Finset.ssubset_iff_of_subset ?_ |>.2 ⟨a, ?_, ?_⟩)
  · intro q hq
    simp only [left, Finset.mem_filter, List.map_cons, List.mem_cons, not_or] at hq ⊢
    exact ⟨hq.1, hq.2.2⟩
  · simp only [left, Finset.mem_filter, Finset.mem_product, Finset.mem_univ, Finset.mem_range, true_and]
    exact ⟨ha, hn⟩
  · simp [left]

theorem card_left_le (s : Copying) (b : Nat) : (s.left b).card ≤ 2 * b := by
  refine Nat.le_trans (Finset.card_filter_le _ _) ?_
  simp [Finset.card_product]

end Copying

namespace Chart

/-! ### Copying in both heaps -/

/-- Copying stands in the second heap where it stands in the first. -/
structure Copyings (χ : Chart) (s s' : Copying) : Prop where
  heaps : χ.Heaps s.heap s'.heap
  copies : s'.copies = s.copies.map fun p => (p.1, χ.value p.2)
  inside : ∀ p ∈ s.copies, p.2.Inside (χ.region s.heap.cells.size)

/-- The two ends of copying, from these states. -/
structure Copied (χ : Chart) (s s' : Copying) (x x' : Value × Copying) : Prop where
  value : χ.Values x.2.heap.cells.size x.1 x'.1
  state : χ.Copyings x.2 x'.2
  grows : χ.Grows s.heap s'.heap x.2.heap x'.2.heap
  copies : s.copies <:+ x.2.copies

/-- Both heaps have the same stored here, but for where functions stand, and it refers to nothing else. -/
structure Sources (χ : Chart) (region : Set (Shape × Ref)) (h h' : Heap) : Prop where
  stored : ∀ shape r, (shape, r) ∈ region → h'.stored shape r = (h.stored shape r).relocate χ.entry
  inside : ∀ shape r, (shape, r) ∈ region → (h.stored shape r).All (Value.Inside region)

section Copies

variable {χ : Chart} {h h' : Heap} {s s' t t' : Copying} {region : Set (Shape × Ref)} {v : Value} {c : Cell}
  {f f' : Copying → Value → Value × Copying} {P : Copying → Copying → Prop}

/-- Both ends of copying a list of values, with what is collected. -/
theorem carried_charted {α β : Type} (get : α → Value) (add : β → α → Value → β) (move : α → α)
    (Acc : Nat → β → β → Prop) (hχ : χ.Faithful) (hget : ∀ x, get (move x) = (get x).relocate χ.entry)
    (hmono : ∀ {m n out out'}, m ≤ n → Acc m out out' → Acc n out out')
    (hadd : ∀ {n out out'} x {v v'}, Acc n out out' → χ.Values n v v' → Acc n (add out x v) (add out' (move x) v'))
    (hP : ∀ {s s' x x'}, P s s' → χ.Copied s s' x x' → P x.2 x'.2)
    (hf : ∀ s s' v, χ.Copyings s s' → P s s' → v.Inside region →
      χ.Copied s s' (f s v) (f' s' (v.relocate χ.entry)))
    (xs : List α) (hxs : ∀ x ∈ xs, (get x).Inside region) {out out' : β}
    (hout : Acc s.heap.cells.size out out') (hs : χ.Copyings s s') (hp : P s s') :
    let x := carried get add f xs out s
    let x' := carried get add f' (xs.map move) out' s'
    Acc x.2.heap.cells.size x.1 x'.1 ∧ χ.Copyings x.2 x'.2 ∧ χ.Grows s.heap s'.heap x.2.heap x'.2.heap ∧
      s.copies <:+ x.2.copies := by
  induction xs generalizing out out' s s' with
  | nil => exact ⟨hout, hs, .refl, List.suffix_rfl⟩
  | cons x xs ih =>
    have hone := hf s s' (get x) hs hp (hxs x List.mem_cons_self)
    rw [← hget] at hone
    obtain ⟨hacc, hstate, hgrows, hcopies⟩ := ih (fun y hy => hxs y (List.mem_cons_of_mem _ hy))
      (hadd x (hmono hone.grows.size hout) hone.value) hone.state (hP hp hone)
    exact ⟨hacc, hstate, hone.grows.trans hχ hs.heaps hgrows, hone.copies.trans hcopies⟩

/-- Both ends of copying the values of a collection. -/
theorem mapValues_charted (hχ : χ.Faithful) (hP : ∀ {s s' x x'}, P s s' → χ.Copied s s' x x' → P x.2 x'.2)
    (hf : ∀ s s' v, χ.Copyings s s' → P s s' → v.Inside region →
      χ.Copied s s' (f s v) (f' s' (v.relocate χ.entry)))
    (hc : c.All (Value.Inside region)) (hs : χ.Copyings s s') (hp : P s s') :
    let x := c.mapValues f s
    let x' := (c.relocate χ.entry).mapValues f' s'
    (x'.1 = x.1.map χ.value ∧ x.1.All (Value.Inside (χ.region x.2.heap.cells.size))) ∧ χ.Copyings x.2 x'.2 ∧
      χ.Grows s.heap s'.heap x.2.heap x'.2.heap ∧ s.copies <:+ x.2.copies := by
  cases c with
  | items values =>
    -- the accumulator of the one loop is the other one with its values as the chart has them
    have hcarried := carried_charted id (fun (out : Array Value) _ v => out.push v) (·.relocate χ.entry)
      (fun n out out' => out' = out.map χ.value ∧ ∀ v ∈ out, v.Inside (χ.region n)) hχ (fun _ => rfl)
      (fun hle hacc => ⟨hacc.1, fun v hv => (hacc.2 v hv).mono (hχ.mono hle)⟩) ?_ hP hf values.toList hc
      ⟨Array.map_empty.symm, by simp⟩ hs hp
    · obtain ⟨⟨hout, hin⟩, hrest⟩ := hcarried
      simp only [Cell.map, mapValues_items, Array.toList_map]
      exact ⟨⟨congrArg Cell.items hout, fun v hv => hin v (Array.mem_toList_iff.1 hv)⟩, hrest⟩
    · rintro n out _ x v _ ⟨rfl, hin⟩ ⟨rfl, hv⟩
      refine ⟨Array.map_push.symm, fun w hw => ?_⟩
      rcases Array.mem_push.1 hw with hw | rfl
      · exact hin w hw
      · exact hv
  | fields named =>
    have hcarried := carried_charted Prod.snd (fun (out : Fields) p v => out.insert p.1 v)
      (fun p => (p.1, p.2.relocate χ.entry)) (fun n out out' => out' = out.map χ.value ∧
        out.All (Value.Inside (χ.region n))) hχ (fun _ => rfl)
      (fun hle hacc => ⟨hacc.1, fun v hv => (hacc.2 v hv).mono (hχ.mono hle)⟩) ?_ hP hf named.entries.toList
      (fun p hmem => hc p.2 (List.mem_map_of_mem hmem))
      ⟨Fields.map_empty.symm, Fields.all_empty⟩ hs hp
    · obtain ⟨⟨hout, hin⟩, hrest⟩ := hcarried
      simp only [Cell.map, mapValues_fields, Fields.entries_map, Array.toList_map]
      exact ⟨⟨congrArg Cell.fields hout, hin⟩, hrest⟩
    · rintro n out _ p v _ ⟨rfl, hin⟩ ⟨rfl, hv⟩
      exact ⟨Fields.insert_map p.1, Fields.all_insert hin hv⟩

/-- A change of what is new. -/
theorem Grows.put (hχ : χ.Faithful) (hm : χ.Heaps h h') {k k' : Heap} (hg : χ.Grows h h' k k') {r : Ref}
    (hr : h.cells.size ≤ r) {g g' : Cell → Cell} : χ.Grows h h' (k.modify r g) (k'.modify (χ.place r) g') := by
  refine ⟨by rw [Heap.modify_size]; exact hg.size, by rw [Heap.modify_size]; exact hg.size',
    fun q hq hout => ?_, fun q hq hout => ?_⟩
  · rw [Heap.modify, Array.getElem?_modify, if_neg, hg.kept q hq hout]
    rintro rfl
    exact absurd hq (Nat.not_lt.2 hr)
  · rw [Heap.modify, Array.getElem?_modify, if_neg, hg.kept' q hq hout]
    rintro rfl
    exact absurd ((hm.lt_iff hχ).1 hq) (Nat.not_lt.2 hr)

/-- Copying a collection that both heaps have, where copying what it holds goes alike. -/
theorem Copyings.ref (hχ : χ.Faithful) (hs : χ.Copyings s s') {depth depth' : Nat} {shape : Shape} {r : Ref}
    (hstored : s'.heap.stored shape r = (s.heap.stored shape r).relocate χ.entry)
    (hfresh : (shape, s.heap.cells.size) ∈ χ.region (s.heap.cells.size + 1))
    (hfill : ∀ t t', shape.address r ∉ s.copies.map (·.1) → χ.Copyings t t' →
      χ.Grows s.heap s'.heap t.heap t'.heap →
      t.copies = (shape.address r, .ref shape s.heap.cells.size) :: s.copies →
      let x := (s.heap.stored shape r).mapValues (Heap.copyWithin depth) t
      let x' := ((s.heap.stored shape r).relocate χ.entry).mapValues (Heap.copyWithin depth') t'
      (x'.1 = x.1.map χ.value ∧ x.1.All (Value.Inside (χ.region x.2.heap.cells.size))) ∧
        χ.Copyings x.2 x'.2 ∧ χ.Grows t.heap t'.heap x.2.heap x'.2.heap ∧ t.copies <:+ x.2.copies) :
    χ.Copied s s' (Heap.copyWithin (depth + 1) s (.ref shape r)) (Heap.copyWithin (depth' + 1) s' (.ref shape r)) := by
  have hl' : s'.copies.lookup (shape.address r) = (s.copies.lookup (shape.address r)).map χ.value := by
    rw [hs.copies]
    exact lookup_map_snd (f := χ.value)
  cases hl : s.copies.lookup (shape.address r) with
  | some copy =>
    rw [hl] at hl'
    -- a collection that has been met gives the copy that it has on either side
    simp only [Heap.copyWithin, hl, hl', Option.map_some]
    exact ⟨⟨rfl, hs.inside _ (mem_of_lookup hl)⟩, hs, .refl, List.suffix_rfl⟩
  | none =>
    rw [hl, Option.map_none] at hl'
    have hlast : χ.place s.heap.cells.size = s'.heap.cells.size := hs.heaps.size 0
    -- the copy is made empty
    have hblank := hs.heaps.alloc hχ (c := (s.heap.stored shape r).blank) Cell.all_blank
    rw [Cell.map_blank] at hblank
    have hstart : χ.Copyings
        ⟨(s.heap.alloc (s.heap.stored shape r).blank).2,
          (shape.address r, .ref shape s.heap.cells.size) :: s.copies⟩
        ⟨(s'.heap.alloc (s.heap.stored shape r).blank).2,
          (shape.address r, .ref shape s'.heap.cells.size) :: s'.copies⟩ := by
      refine ⟨hblank, by simp [hs.copies, hlast], fun p hp => ?_⟩
      rw [Heap.alloc_size]
      rcases List.mem_cons.1 hp with rfl | hp
      · exact Value.inside_ref.2 hfresh
      · exact (hs.inside p hp).mono (hχ.mono (Nat.le_succ _))
    -- and filled at the end
    obtain ⟨⟨hfilled, hin⟩, hstate, hgrows, hcopies⟩ :=
      hfill _ _ (not_mem_of_lookup hl) hstart .alloc rfl
    have hblank' : ((s.heap.stored shape r).relocate χ.entry).blank = (s.heap.stored shape r).blank := by
      cases s.heap.stored shape r <;> rfl
    rw [copyWithin_new hl, copyWithin_new hl', hstored, hblank', ← hlast]
    rw [← hlast] at hfilled hstate hgrows
    have hgrown := hgrows.size
    rw [Heap.alloc_size] at hgrown
    have hput := hstate.heaps.modify hχ (r := s.heap.cells.size) (f := fun _ => _) (g := fun _ => _)
      fun _ _ => ⟨hfilled, hin⟩
    refine ⟨⟨rfl, Value.inside_ref.2 ?_⟩, ⟨hput, hstate.copies, ?_⟩, ?_, (List.suffix_cons _ _).trans hcopies⟩
    · rw [Heap.modify_size]
      exact hχ.mono hgrown hfresh
    · simpa only [Heap.modify_size] using hstate.inside
    · exact (Grows.alloc.trans hχ hs.heaps hgrows).put hχ hs.heaps (Nat.le_refl _)

/-- A deep copy of a value. -/
theorem Copied.deepCopy {v' : Value} (hm : χ.Copied ⟨h, []⟩ ⟨h', []⟩
      (Heap.copyWithin (2 * h.cells.size + 1) ⟨h, []⟩ v) (Heap.copyWithin (2 * h'.cells.size + 1) ⟨h', []⟩ v')) :
    χ.Values (h.deepCopy v).2.cells.size (h.deepCopy v).1 (h'.deepCopy v').1 ∧
      χ.Heaps (h.deepCopy v).2 (h'.deepCopy v').2 ∧ χ.Grows h h' (h.deepCopy v).2 (h'.deepCopy v').2 :=
  ⟨hm.value, hm.state.heaps, hm.grows⟩

end Copies

/-! ### Values that lie below -/

/-- The collections from `b` on stand `d` places further up; those of `kinds` are covered. -/
def above (b d : Nat) (kinds : Set (Shape × Ref)) : Chart :=
  ⟨(· + d), id, fun n => {p | b ≤ p.2 ∧ p.2 < n ∧ p ∈ kinds}⟩

section Above

variable {b d : Nat} {kinds sources : Set (Shape × Ref)} {h h' : Heap} {s s' : Copying} {v : Value}

theorem above_faithful : (above b d kinds).Faithful where
  place _ _ h := Nat.add_right_cancel h
  entry _ _ h := h
  mono hle _ hp := ⟨hp.1, Nat.lt_of_lt_of_le hp.2.1 hle, hp.2.2⟩
  old hp hr := ⟨hp.1, hr, hp.2.2⟩

/-- A value from below, copied in both heaps.  The depth suffices: each step down takes an address below
that has no copy yet. -/
theorem copyWithin_above (hb : b ≤ h.cells.size) (hbelow : ∀ p ∈ sources, p.2 < b)
    (hfresh : ∀ p ∈ sources, ∀ r, h.cells.size ≤ r → (p.1, r) ∈ kinds)
    (hsources : ∀ k k', (above b d kinds).Grows h h' k k' → (above b d kinds).Sources sources k k')
    (depth depth' : Nat) (hd : (s.left b).card < depth) (hd' : (s.left b).card < depth')
    (hv : v.Inside sources) (hm : (above b d kinds).Heaps h h') (hs : (above b d kinds).Copyings s s')
    (hg : (above b d kinds).Grows h h' s.heap s'.heap) :
    (above b d kinds).Copied s s' (Heap.copyWithin depth s v) (Heap.copyWithin depth' s' v) := by
  induction depth generalizing depth' s s' v with
  | zero => omega
  | succ depth ih =>
    obtain ⟨depth', rfl⟩ := Nat.exists_eq_add_one.2 (Nat.zero_lt_of_lt hd')
    by_cases href : ∃ shape r, v = .ref shape r
    · obtain ⟨shape, r, rfl⟩ := href
      have hin := Value.inside_ref.1 hv
      have hsource := hsources _ _ hg
      have hroom : b ≤ s.heap.cells.size := Nat.le_trans hb hg.size
      refine hs.ref above_faithful (hsource.stored shape r hin)
        ⟨hroom, Nat.lt_succ_self _, hfresh _ hin _ hg.size⟩ ?_
      intro t t' hnew ht hgt hcopies
      -- one source less is left to be met, so the depth is enough for what is below
      have hleft : (t.left b).card < (s.left b).card := by
        have hless : (Copying.left b ⟨t.heap, (shape.address r, .ref shape s.heap.cells.size) :: s.copies⟩).card <
            (s.left b).card := Copying.left_cons (hbelow _ hin) hnew
        rwa [← hcopies] at hless
      refine mapValues_charted (P := fun u u' => (above b d kinds).Grows h h' u.heap u'.heap ∧
          (u.left b).card < depth ∧ (u.left b).card < depth') above_faithful ?_ ?_
        (hsource.inside shape r hin) ht ⟨hg.trans above_faithful hm hgt, by omega, by omega⟩
      · rintro u u' x x' ⟨hgu, hlu, hlu'⟩ hx
        have hle := Copying.left_le (b := b) hx.copies
        exact ⟨hgu.trans above_faithful hm hx.grows, Nat.lt_of_le_of_lt hle hlu, Nat.lt_of_le_of_lt hle hlu'⟩
      · rintro u u' w hu ⟨hgu, hlu, hlu'⟩ hw
        have hid : w.relocate (above b d kinds).entry = w := Value.relabel_id
        rw [hid]
        exact ih depth' hlu hlu' hw hu hgu
    · cases v <;> first
        | exact absurd ⟨_, _, rfl⟩ href
        | exact ⟨⟨rfl, nofun⟩, hs, .refl, List.suffix_rfl⟩

/-- A deep copy of a value from below. -/
theorem deepCopy_above (hb : b ≤ h.cells.size) (hbelow : ∀ p ∈ sources, p.2 < b)
    (hfresh : ∀ p ∈ sources, ∀ r, h.cells.size ≤ r → (p.1, r) ∈ kinds) (hm : (above b d kinds).Heaps h h')
    (hsources : ∀ k k', (above b d kinds).Grows h h' k k' → (above b d kinds).Sources sources k k')
    (hv : v.Inside sources) :
    (above b d kinds).Values (h.deepCopy v).2.cells.size (h.deepCopy v).1 (h'.deepCopy v).1 ∧
      (above b d kinds).Heaps (h.deepCopy v).2 (h'.deepCopy v).2 ∧
      (above b d kinds).Grows h h' (h.deepCopy v).2 (h'.deepCopy v).2 := by
  have hleft : ((Copying.mk h []).left b).card ≤ 2 * b := Copying.card_left_le _ b
  have hsize : h.cells.size + 0 + d = h'.cells.size + 0 := hm.size 0
  exact Copied.deepCopy (copyWithin_above hb hbelow hfresh hsources _ _ (by omega) (by omega) hv hm
    ⟨hm, rfl, nofun⟩ .refl)

end Above

/-! ### Functions at other indices -/

/-- Functions stand at other indices, and collections where they are. -/
def shifted (g : Nat → Nat) (region : Set (Shape × Ref)) : Chart := ⟨id, g, fun _ => region⟩

section Shifted

variable {g : Nat → Nat} {region : Set (Shape × Ref)} {h h' : Heap} {s s' : Copying} {v : Value}

theorem shifted_faithful (hg : Function.Injective g) : (shifted g region).Faithful where
  place _ _ h := h
  entry := hg
  mono _ := Set.Subset.rfl
  old hp _ := hp

theorem copyWithin_shifted (hg : Function.Injective g)
    (hfresh : ∀ shape r, h.cells.size ≤ r → (shape, r) ∈ region) (depth : Nat) (hv : v.Inside region)
    (hs : (shifted g region).Copyings s s') (hle : h.cells.size ≤ s.heap.cells.size) :
    (shifted g region).Copied s s' (Heap.copyWithin depth s v) (Heap.copyWithin depth s' (v.relocate g)) := by
  induction depth generalizing s s' v with
  | zero => exact ⟨⟨rfl, hv⟩, hs, .refl, List.suffix_rfl⟩
  | succ depth ih =>
    cases v with
    | ref shape r =>
      have hr := Value.inside_ref.1 hv
      refine hs.ref (shifted_faithful hg) (hs.heaps.stored hr) (hfresh shape _ hle) ?_
      intro t t' _ ht hgt _
      refine mapValues_charted (P := fun u _ => h.cells.size ≤ u.heap.cells.size)
        (shifted_faithful hg) (fun hu hx => Nat.le_trans hu hx.grows.size) (fun u u' w hu hle hw => ih hw hu hle)
        (hs.heaps.inside_stored hr) ht (Nat.le_trans hle hgt.size)
    | _ => exact ⟨⟨rfl, nofun⟩, hs, .refl, List.suffix_rfl⟩

/-- A deep copy of a value, with functions at other indices. -/
theorem deepCopy_shifted (hg : Function.Injective g) (hm : (shifted g region).Heaps h h')
    (hfresh : ∀ shape r, h.cells.size ≤ r → (shape, r) ∈ region) (hv : v.Inside region) :
    (shifted g region).Values (h.deepCopy v).2.cells.size (h.deepCopy v).1 (h'.deepCopy (v.relocate g)).1 ∧
      (shifted g region).Heaps (h.deepCopy v).2 (h'.deepCopy (v.relocate g)).2 ∧
      (shifted g region).Grows h h' (h.deepCopy v).2 (h'.deepCopy (v.relocate g)).2 := by
  have hsize : h.cells.size = h'.cells.size := hm.size 0
  have hcopied := copyWithin_shifted hg hfresh (2 * h.cells.size + 1) hv
    (⟨hm, rfl, nofun⟩ : (shifted g region).Copyings ⟨h, []⟩ ⟨h', []⟩) (Nat.le_refl _)
  exact Copied.deepCopy (by rw [← hsize]; exact hcopied)

end Shifted

end Chart

end StackScript
