import StackScript.Proofs.HeapChanges
import StackScript.Proofs.Lockstep

/-!
# What can be reached

* `Heap.Reaches`: the handles that lead on from a value.
* `Environment.Sound`: what can be reached from the bindings of the host is in the heap.
* `Heap.changed_of_equal`: where two values come to be equal, something within reach has changed.
* `Heap.Same`: values that are the same but for the places of the collections.
* `suits_above`: what a run makes lies above what was there, and the host's values are copied alike
  wherever the run begins.
-/

namespace StackScript

open Machine Host

/-- The handles that can be reached from a value. -/
inductive Heap.Reaches (h : Heap) : Value → Shape → Ref → Prop where
  | here {shape : Shape} {r : Ref} : h.Reaches (.ref shape r) shape r
  | through {shape shape' : Shape} {r q : Ref} {w : Value} (hw : w ∈ (h.stored shape r).values)
      (hq : h.Reaches w shape' q) : h.Reaches (.ref shape r) shape' q

/-- The handles that can be reached from the bindings of the host. -/
def Host.Environment.reached (environment : Environment) (h : Heap) : Set (Shape × Ref) :=
  {p | ∃ name binding, environment.get? name = some binding ∧ h.Reaches binding.value p.1 p.2}

/-- What can be reached from the bindings of the host is in the heap. -/
def Host.Environment.Sound (environment : Environment) (h : Heap) : Prop :=
  ∀ p ∈ environment.reached h, p.2 < h.cells.size

/-- The value `v'` is to `h'` what `v` is to `h`, but for the places of the collections. -/
def Heap.Same (h : Heap) (v : Value) (h' : Heap) (v' : Value) : Prop :=
  ∃ ρ : Ref → Ref, Function.Injective ρ ∧ v' = v.rename ρ ∧
    ∀ shape r, h.Reaches v shape r → ∃ c, h.cells[r]? = some c ∧ h'.cells[ρ r]? = some (c.rename ρ)

namespace Heap

section Reach

variable {h h' h'' : Heap} {v v' w : Value} {shape shape' : Shape} {r q : Ref} {region : Set (Shape × Ref)}

theorem stored_congr (hcell : h'.cells[r]? = h.cells[r]?) : h'.stored shape r = h.stored shape r := by
  have hsame : h'.cell r = h.cell r := by
    rw [cell, cell, Array.getD_eq_getD_getElem?, Array.getD_eq_getD_getElem?, hcell]
  cases shape <;> simp only [stored, items, fields, hsame]

theorem Keeps.stored (hk : h.Keeps h') (hr : r < h.cells.size) : h'.stored shape r = h.stored shape r :=
  stored_congr (hk.cells r hr)

theorem Reaches.step (hr : h.Reaches v shape r) (hw : .ref shape' q ∈ (h.stored shape r).values) :
    h.Reaches v shape' q := by
  induction hr with
  | here => exact .through hw .here
  | through hu _ ih => exact .through hu (ih hw)

/-- What is reached from inside a region that nothing leaves is inside the region. -/
theorem Reaches.inside {R : Set (Shape × Ref)} (hr : h.Reaches v shape r)
    (hin : ∀ shape r, (shape, r) ∈ R → (h.stored shape r).All (Value.Inside R))
    (hv : v.Inside R) : (shape, r) ∈ R := by
  induction hr with
  | here => exact Value.inside_ref.1 hv
  | through hw _ ih => exact ih (hin _ _ (Value.inside_ref.1 hv) _ hw)

/-- Where all that can be reached is the same, nothing else can be reached. -/
theorem Reaches.of_same (hr : h'.Reaches v shape r)
    (hsame : ∀ shape r, h.Reaches v shape r → h'.stored shape r = h.stored shape r) : h.Reaches v shape r := by
  refine hr.inside (R := {p | h.Reaches v p.1 p.2}) (fun shape r hr w hw => ?_) ?_
  · rw [hsame shape r hr] at hw
    rintro shape' q rfl
    exact Reaches.step hr hw
  · rintro shape r rfl
    exact .here

theorem Same.later (hs : h.Same v h' w) (hk : h'.Keeps h'') : h.Same v h'' w := by
  obtain ⟨ρ, hρ, hv, hcells⟩ := hs
  refine ⟨ρ, hρ, hv, fun shape r hr => ?_⟩
  obtain ⟨c, hc, hc'⟩ := hcells shape r hr
  exact ⟨c, hc, hk.getElem? hc'⟩

/-- What is the same has all that can be reached from it in its heap. -/
theorem Same.reaches_lt (hs : h.Same v h' v') (hr : h'.Reaches v' shape r) : r < h'.cells.size := by
  obtain ⟨ρ, -, rfl, hcells⟩ := hs
  have hstored : ∀ shape q, h.Reaches v shape q → h'.stored shape (ρ q) = (h.stored shape q).rename ρ := by
    intro shape q hq
    obtain ⟨c, hc, hc'⟩ := hcells shape q hq
    have hcell := cell_of_getElem? hc
    have hcell' := cell_of_getElem? hc'
    cases shape <;> cases c <;> simp only [Heap.stored, items, fields, hcell, hcell', Cell.map] <;> simp
  obtain ⟨q, rfl, hq⟩ : ∃ q, r = ρ q ∧ h.Reaches v shape q := by
    refine hr.inside (R := {p | ∃ q, p.2 = ρ q ∧ h.Reaches v p.1 q}) ?_ ?_
    · rintro shape _ ⟨q, rfl, hq⟩ w hw
      rw [hstored shape q hq, Cell.values_map] at hw
      obtain ⟨u, hu, rfl⟩ := List.mem_map.1 hw
      rintro shape' p hp
      cases u with
      | ref shape'' p' =>
        obtain ⟨rfl, rfl⟩ := Value.ref.inj hp
        exact ⟨p', rfl, Reaches.step hq hu⟩
      | _ => cases hp
    · rintro shape p hp
      cases v with
      | ref shape' p' =>
        obtain ⟨rfl, rfl⟩ := Value.ref.inj hp
        exact ⟨p', rfl, .here⟩
      | _ => cases hp
  obtain ⟨c, -, hc'⟩ := hcells shape q hq
  exact (Array.getElem?_eq_some_iff.1 hc').1

/-! ### Equality looks at what can be reached -/

theorem equalWithin_of_same {depth : Nat} {path : List (Address × Address)}
    (hsame : ∀ shape r, h.Reaches v shape r ∨ h.Reaches w shape r → h'.stored shape r = h.stored shape r) :
    h'.equalWithin depth path v w = h.equalWithin depth path v w := by
  induction depth generalizing path v w with
  | zero => rfl
  | succ depth ih =>
    cases v <;> cases w <;> try rfl
    case ref.ref s r t q =>
      have hcells : ∀ path, Cell.equalBy (h'.equalWithin depth path) (h.stored s r) (h.stored t q) =
          Cell.equalBy (h.equalWithin depth path) (h.stored s r) (h.stored t q) := by
        intro path
        have hmembers : ∀ x ∈ (h.stored s r).values, ∀ y ∈ (h.stored t q).values,
            h'.equalWithin depth path x y = h.equalWithin depth path x y := by
          refine fun x hx y hy => ih fun shape p hp => ?_
          obtain hp | hp := hp
          · exact hsame shape p (.inl (.through hx hp))
          · exact hsame shape p (.inr (.through hy hp))
        have hmap := Cell.equalBy_map (f := id) hmembers
        rwa [Cell.map_id, Cell.map_id] at hmap
      simp only [equalWithin, hsame s r (.inl .here), hsame t q (.inr .here), hcells]

/-- Values are equal in two heaps that store the same wherever these values lead. -/
theorem equal_of_same
    (hsame : ∀ shape r, h.Reaches v shape r ∨ h.Reaches w shape r → h'.stored shape r = h.stored shape r) :
    h'.equal v w = h.equal v w :=
  equal_of_equalWithin ((equalWithin_of_same hsame).trans (equal?_eq h v w))

/-- Where two values come to be equal, something that can be reached from one of them has changed. -/
theorem changed_of_equal (hbefore : h.equal v w = false) (hafter : h'.equal v w = true) :
    ∃ shape r, (h.Reaches v shape r ∨ h.Reaches w shape r) ∧ h'.stored shape r ≠ h.stored shape r := by
  by_contra hnone
  have hequal : h'.equal v w = h.equal v w :=
    equal_of_same fun shape r hr => not_not.1 fun hne => hnone ⟨shape, r, hr, hne⟩
  rw [hbefore, hafter] at hequal
  cases hequal

/-- Only collections can come to be equal, and only different ones of one kind. -/
theorem refs_of_equal (hbefore : h.equal v w = false) (hafter : h'.equal v w = true) :
    ∃ shape p q, v = .ref shape p ∧ w = .ref shape q ∧ p ≠ q := by
  by_cases hrefs : ∃ s p t q, v = .ref s p ∧ w = .ref t q
  · obtain ⟨s, p, t, q, rfl, rfl⟩ := hrefs
    by_cases hst : s = t
    · subst hst
      refine ⟨s, p, q, rfl, rfl, ?_⟩
      rintro rfl
      simp [equal, equal?, equalWithin] at hbefore
    · simp [equal, equal?, equalWithin, hst] at hafter
  · have hequal : h'.equal v w = h.equal v w := by
      cases v <;> cases w <;> first | rfl | exact absurd ⟨_, _, _, _, rfl, rfl⟩ hrefs
    rw [hbefore, hafter] at hequal
    cases hequal

end Reach

end Heap

/-! ### Runs that begin higher up -/

namespace Chart

section Above

variable {environment : Environment} {host h h' k k' : Heap} {kinds : Set (Shape × Ref)} {d : Nat}
  {s s' : State} {op : Bytecode.Opcode} {operand : Bytecode.Operand}

/-- What has grown above keeps what lies below. -/
theorem Grows.keeps (hg : (above host.cells.size d kinds).Grows h h' k k') (hk : host.Keeps h) :
    host.Keeps k := by
  refine ⟨Nat.le_trans hk.size hg.size, fun r hr => ?_⟩
  rw [hg.kept r (Nat.lt_of_lt_of_le hr hk.size) fun shape hp => absurd hr (Nat.not_lt.2 hp.1), hk.cells r hr]

/-- In the second heap, all that was there before the work began lies below. -/
theorem Grows.keeps' {b : Nat} (hg : (above b d kinds).Grows h h' k k') {start : Heap}
    (hstart : start.cells.size ≤ b + d) (hk : start.Keeps h') : start.Keeps k' := by
  refine ⟨Nat.le_trans hk.size hg.size', fun r hr => ?_⟩
  rw [hg.kept' r (Nat.lt_of_lt_of_le hr hk.size), hk.cells r hr]
  rintro shape q ⟨hq, -⟩ rfl
  exact absurd (Nat.lt_of_lt_of_le hr hstart) (Nat.not_lt.2 (Nat.add_le_add_right hq d))

/-- Two machines that begin a run, of which one has more in its heap. -/
theorem restart_above (kinds : Set (Shape × Ref)) {t : State}
    (hsize : t.heap.cells.size = s.heap.cells.size + d) (houtput : t.output = s.output) :
    (above s.heap.cells.size d kinds).States s.restart t.restart := by
  have hnone : ∀ {p}, p ∉ (above s.heap.cells.size d kinds).region s.heap.cells.size :=
    fun hp => absurd hp.2.1 (Nat.not_lt.2 hp.1)
  refine ⟨above_faithful, by simp [State.restart], by simp [State.restart], rfl, rfl, .null, ⟨fun n => ?_,
    fun _ _ hr => absurd hr hnone, fun _ _ hr => absurd hr hnone⟩, houtput⟩
  show s.heap.cells.size + n + d = t.heap.cells.size + n
  omega

/-- The values of the host are copied alike. -/
theorem copiesAlike_above (hsound : environment.Sound host) (hk : host.Keeps h) (hk' : host.Keeps h')
    (hfresh : ∀ p ∈ environment.reached host, ∀ r, h.cells.size ≤ r → (p.1, r) ∈ kinds)
    (hm : (above host.cells.size d kinds).Heaps h h') {name : String} {binding : Binding}
    (hb : environment.get? name = some binding) :
    (above host.cells.size d kinds).CopiesAlike h h' binding.value := by
  have hsources : ∀ k k', (above host.cells.size d kinds).Grows h h' k k' →
      (above host.cells.size d kinds).Sources (environment.reached host) k k' := by
    intro k k' hg
    have hkept := hg.keeps hk
    have hkept' := hg.keeps' (Nat.le_add_right _ _) hk'
    constructor
    · intro shape r hr
      rw [hkept'.stored (hsound _ hr), hkept.stored (hsound _ hr)]
      show _ = Cell.map (fun v => v.relabel id id) _
      simp only [Value.relabel_id]
      exact Cell.map_id.symm
    · intro shape r hr w hw shape' q heq
      rw [hkept.stored (hsound _ hr), heq] at hw
      obtain ⟨name, binding, hb, hreach⟩ := hr
      exact ⟨name, binding, hb, hreach.step hw⟩
  have hv : binding.value.Inside (environment.reached host) := fun shape r hr => ⟨name, binding, hb, hr ▸ .here⟩
  obtain ⟨hvalue, hheaps, hg⟩ := deepCopy_above hk.size hsound hfresh hm hsources hv
  exact ⟨hvalue, hheaps, hg⟩

/-- A run that keeps the host's collections goes alike wherever it begins. -/
theorem suits_above (hown : environment.own = Environment.noOwn) (hsound : environment.Sound host)
    (hk : host.Keeps s.heap) (hk' : host.Keeps s'.heap)
    (hmakes : ∀ shape, makes op = some shape → (shape, s.heap.cells.size) ∈ kinds)
    (hfresh : op = .loadExternal →
      ∀ p ∈ environment.reached host, ∀ r, s.heap.cells.size ≤ r → (p.1, r) ∈ kinds)
    (hm : (above host.cells.size d kinds).Heaps s.heap s'.heap) :
    (above host.cells.size d kinds).Suits environment op operand s s' where
  own := hown
  fresh shape hshape := ⟨hk.size, Nat.lt_succ_self _, hmakes shape hshape⟩
  copies hop _ _ hb := copiesAlike_above hsound hk hk' (hfresh hop) hm hb
  function _ := rfl
  shown := .inl rfl

/-- Charted values are the same but for the places of the collections. -/
theorem Heaps.same {χ : Chart} {v v' : Value} (hχ : χ.Faithful) (hentry : χ.entry = id) (hm : χ.Heaps h h')
    (hlt : ∀ p ∈ χ.region h.cells.size, p.2 < h.cells.size) (hv : χ.Values h.cells.size v v') :
    h.Same v h' v' := by
  obtain ⟨rfl, hin⟩ := hv
  have hvalue : χ.value = Value.rename χ.place := funext fun v => by rw [Chart.value, hentry]
  rw [hvalue]
  refine ⟨χ.place, hχ.place, rfl, fun shape r hr => ?_⟩
  have hcovered := hr.inside (fun shape r hr => hm.inside_stored hr) hin
  have hr' := hlt _ hcovered
  refine ⟨h.cell r, Heap.getElem?_eq_cell hr', ?_⟩
  rw [Heap.getElem?_eq_cell ((hm.lt_iff hχ).2 hr'), hm.cell shape r hcovered, hvalue]

end Above

end Chart

end StackScript
