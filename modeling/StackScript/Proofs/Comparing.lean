import Mathlib.Data.Finset.Card
import Mathlib.Data.Finset.Prod
import Mathlib.Data.Fintype.Basic
import StackScript.Value.Equality

/-!
# Comparisons come to an end

A comparison keeps its answer where it may go deeper (`equalWithin_mono`), and it has one as soon as it
may go deeper than there are pairs of addresses left to meet (`equalWithin_isSome`).
-/

namespace StackScript

section Deeper

variable {eq eq' : Value → Value → Option Bool} {b : Bool}

theorem allPairs_mono (h : ∀ x y b, eq x y = some b → eq' x y = some b) {xs ys : List Value}
    (heq : allPairs eq xs ys = some b) : allPairs eq' xs ys = some b := by
  induction xs generalizing ys with
  | nil => cases ys <;> exact heq
  | cons x xs ih =>
    cases ys with
    | nil => exact heq
    | cons y ys =>
      obtain ⟨c, hc, hrest⟩ := Option.bind_eq_some_iff.1 heq
      refine Option.bind_eq_some_iff.2 ⟨c, h x y c hc, ?_⟩
      cases c with
      | false => exact hrest
      | true => exact ih hrest

theorem allFields_mono (h : ∀ x y b, eq x y = some b → eq' x y = some b) {others : Fields}
    {pairs : List (String × Value)} (heq : allFields eq others pairs = some b) :
    allFields eq' others pairs = some b := by
  induction pairs with
  | nil => exact heq
  | cons p pairs ih =>
    obtain ⟨name, x⟩ := p
    rw [allFields] at heq ⊢
    cases hy : others.get? name with
    | none =>
      rw [hy] at heq
      exact heq
    | some y =>
      rw [hy] at heq
      obtain ⟨c, hc, hrest⟩ := Option.bind_eq_some_iff.1 heq
      refine Option.bind_eq_some_iff.2 ⟨c, h x y c hc, ?_⟩
      cases c with
      | false => exact hrest
      | true => exact ih hrest

theorem Cell.equalBy_mono (h : ∀ x y b, eq x y = some b → eq' x y = some b) {c e : Cell}
    (heq : Cell.equalBy eq c e = some b) : Cell.equalBy eq' c e = some b := by
  cases c <;> cases e <;> try exact heq
  case items.items xs ys =>
    dsimp only [Cell.equalBy] at heq ⊢
    split at heq
    · next hsize =>
      rw [if_pos hsize]
      exact allPairs_mono h heq
    · next hsize =>
      rw [if_neg hsize]
      exact heq
  case fields.fields xs ys =>
    dsimp only [Cell.equalBy] at heq ⊢
    split at heq
    · next hsize =>
      rw [if_pos hsize]
      exact allFields_mono h heq
    · next hsize =>
      rw [if_neg hsize]
      exact heq

theorem allPairs_isSome {xs ys : List Value} (h : ∀ x ∈ xs, ∀ y ∈ ys, (eq x y).isSome) :
    (allPairs eq xs ys).isSome := by
  induction xs generalizing ys with
  | nil => cases ys <;> rfl
  | cons x xs ih =>
    cases ys with
    | nil => rfl
    | cons y ys =>
      obtain ⟨c, hc⟩ := Option.isSome_iff_exists.1 (h x List.mem_cons_self y List.mem_cons_self)
      rw [allPairs, hc]
      cases c with
      | false => rfl
      | true => exact ih fun x hx y hy => h x (List.mem_cons_of_mem _ hx) y (List.mem_cons_of_mem _ hy)

theorem allFields_isSome {others : Fields} {pairs : List (String × Value)}
    (h : ∀ p ∈ pairs, ∀ y ∈ others.values, (eq p.2 y).isSome) : (allFields eq others pairs).isSome := by
  induction pairs with
  | nil => rfl
  | cons p pairs ih =>
    obtain ⟨name, x⟩ := p
    rw [allFields]
    cases hy : others.get? name with
    | none => rfl
    | some y =>
      obtain ⟨q, hq, rfl⟩ := Option.map_eq_some_iff.1 hy
      have hmem : q.2 ∈ others.values :=
        List.mem_map_of_mem (Array.mem_toList_iff.2 (Array.mem_of_find?_eq_some hq))
      obtain ⟨c, hc⟩ := Option.isSome_iff_exists.1 (h _ List.mem_cons_self _ hmem)
      simp only [hc]
      cases c with
      | false => rfl
      | true => exact ih fun p hp y hy => h p (List.mem_cons_of_mem _ hp) y hy

theorem Cell.equalBy_isSome {c e : Cell} (h : ∀ x ∈ c.values, ∀ y ∈ e.values, (eq x y).isSome) :
    (Cell.equalBy eq c e).isSome := by
  cases c <;> cases e <;> try rfl
  case items.items xs ys =>
    dsimp only [Cell.equalBy]
    split
    · exact allPairs_isSome h
    · rfl
  case fields.fields xs ys =>
    dsimp only [Cell.equalBy]
    split
    · exact allFields_isSome fun p hp y hy => h p.2 (List.mem_map_of_mem hp) y hy
    · rfl

end Deeper

namespace Heap

section Heaps

variable {h : Heap} {depth depth' : Nat} {path : List (Address × Address)} {v w : Value} {b c : Bool}

theorem cell_eq_default {r : Ref} (hr : h.cells.size ≤ r) : h.cell r = .items #[] := by
  rw [cell, Array.getD_eq_getD_getElem?, Array.getElem?_eq_none hr]
  rfl

/-- Behind the end of the heap nothing is stored. -/
theorem stored_values_eq_nil {shape : Shape} {r : Ref} (hr : h.cells.size ≤ r) :
    (h.stored shape r).values = [] := by
  cases shape <;> simp only [stored, items, fields, cell_eq_default hr] <;> rfl

/-- What holds a value is in the heap. -/
theorem lt_of_mem_stored {shape : Shape} {r : Ref} (hv : v ∈ (h.stored shape r).values) :
    r < h.cells.size :=
  Nat.lt_of_not_le fun hr => by
    rw [stored_values_eq_nil hr] at hv
    cases hv

/-- What is stored depends on the address alone. -/
theorem stored_address {shape shape' : Shape} {r q : Ref} (ha : shape'.address q = shape.address r) :
    h.stored shape' q = h.stored shape r := by
  obtain ⟨hkind, rfl⟩ := Prod.mk.inj ha
  cases shape <;> cases shape' <;> first | rfl | cases hkind

/-- A comparison that has an answer keeps it at a greater depth. -/
theorem equalWithin_mono (heq : h.equalWithin depth path v w = some b) (hd : depth ≤ depth') :
    h.equalWithin depth' path v w = some b := by
  induction depth generalizing depth' path v w b with
  | zero => cases heq
  | succ depth ih =>
    obtain ⟨depth', rfl⟩ := Nat.exists_eq_add_one.2 (Nat.lt_of_lt_of_le (Nat.succ_pos _) hd)
    cases v <;> cases w <;> try exact heq
    case ref.ref s r t q =>
      unfold equalWithin at heq ⊢
      dsimp only at heq ⊢
      split at heq
      · next hshape =>
        rw [if_pos hshape]
        exact heq
      · next hshape =>
        rw [if_neg hshape]
        split at heq
        · next hmet =>
          rw [if_pos hmet]
          exact heq
        · next hmet =>
          rw [if_neg hmet]
          exact Cell.equalBy_mono (fun x y c hc => ih hc (Nat.le_of_succ_le_succ hd)) heq

/-- Two comparisons that both have an answer have the same one. -/
theorem equalWithin_agree (heq : h.equalWithin depth path v w = some b)
    (heq' : h.equalWithin depth' path v w = some c) : b = c := by
  have hmax := equalWithin_mono heq (Nat.le_max_left depth depth')
  rw [equalWithin_mono heq' (Nat.le_max_right depth depth')] at hmax
  exact (Option.some.inj hmax).symm

def addresses (h : Heap) : Finset Address := Finset.univ ×ˢ Finset.range h.cells.size

/-- The pairs of addresses that are not on the path. -/
def unmet (h : Heap) (path : List (Address × Address)) : Finset (Address × Address) :=
  (h.addresses ×ˢ h.addresses).filter (· ∉ path)

theorem card_addresses : h.addresses.card = 2 * h.cells.size := by
  simp [addresses, Finset.card_product]

theorem mem_addresses {a : Address} : a ∈ h.addresses ↔ a.2 < h.cells.size := by
  simp [addresses]

theorem card_unmet_le : (h.unmet path).card ≤ (2 * h.cells.size) * (2 * h.cells.size) := by
  refine Nat.le_trans (Finset.card_filter_le _ _) ?_
  rw [Finset.card_product, card_addresses]

theorem card_unmet_cons {p : Address × Address} (hp : p ∉ path) (hr : p.1.2 < h.cells.size)
    (hq : p.2.2 < h.cells.size) : (h.unmet (p :: path)).card < (h.unmet path).card := by
  refine Finset.card_lt_card (Finset.ssubset_iff_of_subset ?_ |>.2 ⟨p, ?_, ?_⟩)
  · intro q hmem
    simp only [unmet, Finset.mem_filter, List.mem_cons, not_or] at hmem ⊢
    exact ⟨hmem.1, hmem.2.2⟩
  · simp only [unmet, Finset.mem_filter, Finset.mem_product, mem_addresses]
    exact ⟨⟨hr, hq⟩, hp⟩
  · simp [unmet]

/-- A comparison that may go deeper than there are pairs left to meet has an answer. -/
theorem equalWithin_isSome (hd : (h.unmet path).card < depth) : (h.equalWithin depth path v w).isSome := by
  induction depth generalizing path v w with
  | zero => omega
  | succ depth ih =>
    cases v <;> cases w <;> try rfl
    case ref.ref s r t q =>
      unfold equalWithin
      dsimp only
      split
      · rfl
      · split
        · rfl
        · next hnew =>
          refine Cell.equalBy_isSome fun x hx y hy => ih ?_
          have hp : (s.address r, t.address q) ∉ path := fun hmem => hnew (by simp [hmem])
          -- both hold values, so both are in the heap, and the pair was one of those left
          have hless := card_unmet_cons hp (lt_of_mem_stored hx) (lt_of_mem_stored hy)
          exact Nat.lt_of_lt_of_le hless (Nat.le_of_lt_succ hd)

/-- Any two values are equal or not. -/
theorem equal?_eq (h : Heap) (v w : Value) : h.equal? v w = some (h.equal v w) := by
  obtain ⟨b, hb⟩ : ∃ b, h.equal? v w = some b :=
    Option.isSome_iff_exists.1 (equalWithin_isSome (Nat.lt_succ_of_le card_unmet_le))
  rw [equal, hb]
  cases b <;> rfl

/-- Whenever a comparison has an answer, it says whether the values are equal. -/
theorem equal_of_equalWithin (heq : h.equalWithin depth [] v w = some b) : h.equal v w = b :=
  equalWithin_agree (equal?_eq h v w) heq

end Heaps

end Heap

end StackScript
