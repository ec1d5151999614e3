import StackScript.Host.Environment
import StackScript.Machine.Collections
import StackScript.Proofs.Charts

/-!
# Members, elements and builtins in charted heaps

What is read from a collection, what is to be written to one and what a builtin is to do: in two heaps
of a chart the answers are the same, but for where collections and functions stand, and so are the
faults.
-/

namespace StackScript

/-- Two results: the same failure, or values that `R` relates. -/
inductive Both {ε α β : Type} (R : α → β → Prop) : Except ε α → Except ε β → Prop where
  | ok {a : α} {b : β} (h : R a b) : Both R (.ok a) (.ok b)
  | error (e : ε) : Both R (.error e) (.error e)

section Both

variable {ε α α' β β' : Type} {R : α → α' → Prop} {S : β → β' → Prop}

theorem Both.bind {x : Except ε α} {x' : Except ε α'} {f : α → Except ε β} {f' : α' → Except ε β'}
    (hx : Both R x x') (hf : ∀ a a', R a a' → Both S (f a) (f' a')) : Both S (x >>= f) (x' >>= f') := by
  cases hx with
  | ok h => exact hf _ _ h
  | error e => exact .error e

theorem Both.map {x : Except ε α} {x' : Except ε α'} {f : α → β} {f' : α' → β'} (hx : Both R x x')
    (hf : ∀ a a', R a a' → S (f a) (f' a')) : Both S (x.map f) (x'.map f') := by
  cases hx with
  | ok h => exact .ok (hf _ _ h)
  | error e => exact .error e

theorem Both.imp {R' : α → α' → Prop} {x : Except ε α} {x' : Except ε α'} (hx : Both R x x')
    (h : ∀ a a', R a a' → R' a a') : Both R' x x' := by
  cases hx with
  | ok hr => exact .ok (h _ _ hr)
  | error e => exact .error e

theorem Both.same {x : Except ε α} : Both Eq x x := by
  cases x with
  | ok a => exact .ok rfl
  | error e => exact .error e

end Both

namespace Machine

/-- A write that concerns what the chart covers, and the same write on the second machine. -/
structure WritesAlike (χ : Chart) (n : Nat) (p p' : Ref × Write) : Prop where
  place : p'.1 = χ.place p.1
  change : p'.2 = p.2.map χ.value
  covered : ∃ shape, (shape, p.1) ∈ χ.region n
  new : p.2.new.Inside (χ.region n)

section Reading

variable {χ : Chart} {h h' : Heap} {v w : Value} {vs : List Value}

/-! ### Members and elements -/

@[simp] theorem placeOf_relabel {ρ : Ref → Ref} {g : Nat → Nat} : placeOf (v.relabel ρ g) = placeOf v := by
  cases v with
  | ref shape r => cases shape <;> rfl
  | _ => rfl

@[simp] theorem fieldOf_relabel {ρ : Ref → Ref} {g : Nat → Nat} : fieldOf (v.relabel ρ g) = fieldOf v := by
  cases v with
  | ref shape r => cases shape <;> rfl
  | _ => rfl

theorem loadMember_charted (hm : χ.Heaps h h') (hv : v.Inside (χ.region h.cells.size)) (name : String) :
    Both (χ.Values h.cells.size) (loadMember h v name) (loadMember h' (χ.value v) name) := by
  cases v with
  | str s =>
    simp only [loadMember, Value.relabel_str]
    split
    · exact .ok (.scalar rfl)
    · exact .error _
  | ref shape r =>
    have hr := Value.inside_ref.1 hv
    cases shape with
    | object =>
      simp only [loadMember, Value.relabel_ref, hm.fields hr, Fields.get?_map]
      exact .ok (.getD fun w hw => hm.inside_fields hr w (Fields.mem_get? hw))
    | list | set =>
      simp only [loadMember, Value.relabel_ref, hm.items hr, Array.size_map]
      split
      · exact .ok (.scalar rfl)
      · exact .error _
  | _ => exact .error _

theorem storeMember_charted {n : Nat} (hv : v.Inside (χ.region n)) (name : String)
    (hw : w.Inside (χ.region n)) :
    Both (WritesAlike χ n) (storeMember v name w) (storeMember (χ.value v) name (χ.value w)) := by
  cases v with
  | ref shape r =>
    cases shape with
    | object => exact .ok ⟨rfl, rfl, ⟨_, Value.inside_ref.1 hv⟩, hw⟩
    | _ => exact .error _
  | _ => exact .error _

theorem loadElement_charted (hχ : χ.Faithful) (hm : χ.Heaps h h') (hv : v.Inside (χ.region h.cells.size))
    (hw : w.Inside (χ.region h.cells.size)) :
    Both (χ.Values h.cells.size) (loadElement h v w) (loadElement h' (χ.value v) (χ.value w)) := by
  cases v with
  | str s =>
    simp only [loadElement, Value.relabel_str, placeOf_relabel]
    refine .bind .same fun place _ heq => .ok ?_
    subst heq
    cases place.bind fun i => s.toList[i]? with
    | none => exact .null
    | some c => exact .scalar rfl
  | ref shape r =>
    have hr := Value.inside_ref.1 hv
    cases shape with
    | list =>
      simp only [loadElement, Value.relabel_ref, placeOf_relabel, hm.items hr]
      refine .bind .same fun place _ heq => .ok ?_
      subst heq
      -- the place is found or missed on both sides
      have hmap : (place.bind fun i => ((h.items r).map χ.value)[i]?) =
          (place.bind fun i => (h.items r)[i]?).map χ.value := by
        cases place <;> simp
      rw [hmap]
      refine .getD fun u hu => hm.inside_items hr u ?_
      obtain ⟨i, -, hi⟩ := Option.bind_eq_some_iff.1 hu
      exact Array.mem_of_getElem? hi
    | set =>
      simp only [loadElement, Value.relabel_ref, hm.items hr]
      rw [hm.contains hχ (hm.inside_items hr) hw]
      exact .ok (.scalar rfl)
    | object =>
      simp only [loadElement, Value.relabel_ref, fieldOf_relabel, hm.fields hr, Fields.get?_map]
      refine .bind .same fun name _ heq => .ok ?_
      subst heq
      exact .getD fun u hu => hm.inside_fields hr u (Fields.mem_get? hu)
  | _ => exact .error _

theorem loadPath_charted (hχ : χ.Faithful) (hm : χ.Heaps h h') (hv : v.Inside (χ.region h.cells.size))
    (hvs : ∀ w ∈ vs, w.Inside (χ.region h.cells.size)) :
    Both (χ.Values h.cells.size) (loadPath h v vs) (loadPath h' (χ.value v) (vs.map χ.value)) := by
  induction vs generalizing v with
  | nil => exact .ok ⟨rfl, hv⟩
  | cons w vs ih =>
    refine .bind (loadElement_charted hχ hm hv (hvs w List.mem_cons_self)) ?_
    rintro u _ ⟨rfl, hu⟩
    exact ih hu fun x hx => hvs x (List.mem_cons_of_mem _ hx)

theorem storeElement_charted (hm : χ.Heaps h h') (hv : v.Inside (χ.region h.cells.size)) {new : Value}
    (hnew : new.Inside (χ.region h.cells.size)) (maxListLen : Nat) :
    Both (WritesAlike χ h.cells.size) (storeElement h maxListLen v w new)
      (storeElement h' maxListLen (χ.value v) (χ.value w) (χ.value new)) := by
  cases v with
  | ref shape r =>
    have hr := Value.inside_ref.1 hv
    cases shape with
    | list =>
      simp only [storeElement, Value.relabel_ref, placeOf_relabel, hm.items hr, Array.size_map]
      refine .bind .same fun place _ heq => ?_
      subst heq
      cases place with
      | some place =>
        dsimp only
        split
        · exact .error _
        · exact .ok ⟨rfl, rfl, ⟨_, hr⟩, hnew⟩
      | none =>
        cases w with
        | ref shape q =>
          simp only [Value.relabel_ref]
          cases shape <;> exact .error _
        | _ => exact .error _
    | object =>
      simp only [storeElement, Value.relabel_ref, fieldOf_relabel]
      refine .bind .same fun name _ heq => ?_
      subst heq
      exact .ok ⟨rfl, rfl, ⟨_, hr⟩, hnew⟩
    | set => exact .error _
  | _ => exact .error _

theorem bump_charted (n : Nat) (u : Bytecode.Update) :
    Both (χ.Values n) (bump u v) (bump u (χ.value v)) := by
  cases v with
  | int k => exact .ok (.scalar rfl)
  | float x => exact .ok (.scalar rfl)
  | ref shape r => cases shape <;> exact .error _
  | _ => exact .error _

end Reading

end Machine

namespace Host

/-! ### Builtins -/

/-- The arguments that a builtin turns into text.  With a wrong number of arguments it does nothing. -/
def shownBy (f : HostFunction) (arguments : List Value) : List Value :=
  if f.arity.any (· != arguments.length) then []
  else
    match f.builtin with
    | some .print => arguments
    | some .str => [arguments.headD .null]
    | _ => []

/-- What a call does, and the same on the second machine.  New collections are lists. -/
inductive EffectsAlike (χ : Chart) (n : Nat) : Effect → Effect → Prop
  | give {v v' : Value} (hv : χ.Values n v v') : EffectsAlike χ n (.give v) (.give v')
  | create {values : Array Value} (hin : (Cell.items values).All (Value.Inside (χ.region n))) :
      EffectsAlike χ n (.create .list (.items values)) (.create .list (.items (values.map χ.value)))
  | write {v v' : Pure} {r : Ref} {change : Write} (hv : Both (χ.Values n) v v')
      (hr : ∃ shape, (shape, r) ∈ χ.region n) (hnew : change.new.Inside (χ.region n)) :
      EffectsAlike χ n (.write v r change) (.write v' (χ.place r) (change.map χ.value))
  | print (line : String) : EffectsAlike χ n (.print line) (.print line)

/-- What comes of a call, and the same on the second machine. -/
structure AnswersAlike (χ : Chart) (h h' : Heap) (a a' : Answer) : Prop where
  value : Both (χ.Values a.heap.cells.size) a.value a'.value
  heaps : χ.Heaps a.heap a'.heap
  grows : χ.Grows h h' a.heap a'.heap
  output : a'.output = a.output

section Builtins

variable {χ : Chart} {h h' : Heap} {v w : Value} {vs : List Value} {n : Nat} {ρ : Ref → Ref} {g : Nat → Nat}

@[simp] theorem number?_relabel : number? (v.relabel ρ g) = number? v := by cases v <;> rfl

@[simp] theorem number_relabel : number (v.relabel ρ g) = number v := by
  simp only [number, number?_relabel, Value.typeName_relabel]

theorem give_charted {x x' : Pure} (hx : Both (χ.Values n) x x') :
    Both (EffectsAlike χ n) (x.map .give) (x'.map .give) := hx.map fun _ _ => .give

theorem lengthValue_charted (k : Nat) : Both (χ.Values n) (lengthValue k) (lengthValue k) := by
  unfold lengthValue
  cases Decimal.int32OfNat? k with
  | some i => exact .ok (.scalar rfl)
  | none => exact .error _

theorem floorValue_charted (x : Float) : Both (χ.Values n) (floorValue x) (floorValue x) := by
  unfold floorValue
  cases Decimal.floorToInt? x with
  | some i => exact .ok (.scalar rfl)
  | none => exact .error _

theorem len_charted (hm : χ.Heaps h h') (hv : v.Inside (χ.region h.cells.size)) :
    Both (χ.Values n) (len h v) (len h' (χ.value v)) := by
  cases v with
  | str s => exact lengthValue_charted _
  | ref shape r =>
    simp only [len, Value.relabel_ref, hm.stored (Value.inside_ref.1 hv), Cell.size_map]
    exact lengthValue_charted _
  | _ => exact .error _

theorem toInt_charted : Both (χ.Values n) (toInt v) (toInt (χ.value v)) := by
  cases v with
  | float x => exact floorValue_charted x
  | str s =>
    unfold toInt
    dsimp only [Value.relabel_str]
    split
    · exact .ok (.scalar rfl)
    · split
      · exact floorValue_charted _
      · exact .error _
  | int k => exact .ok (.scalar rfl)
  | bool x => exact .ok (.scalar rfl)
  | ref shape r => cases shape <;> exact .error _
  | _ => exact .error _

theorem toFloat_charted : Both (χ.Values n) (toFloat v) (toFloat (χ.value v)) := by
  cases v with
  | str s =>
    unfold toFloat
    dsimp only [Value.relabel_str]
    split
    · exact .ok (.scalar rfl)
    · exact .error _
  | int k => exact .ok (.scalar rfl)
  | float x => exact .ok (.scalar rfl)
  | bool x => exact .ok (.scalar rfl)
  | ref shape r => cases shape <;> exact .error _
  | _ => exact .error _

theorem abs_charted : Both (χ.Values n) (abs v) (abs (χ.value v)) := by
  cases v with
  | int k => exact .ok (.scalar rfl)
  | float x => exact .ok (.scalar rfl)
  | ref shape r => cases shape <;> exact .error _
  | _ => exact .error _

theorem floor_charted : Both (χ.Values n) (floor v) (floor (χ.value v)) := by
  cases v with
  | int k => exact .ok (.scalar rfl)
  | float x => exact floorValue_charted x
  | ref shape r => cases shape <;> exact .error _
  | _ => exact .error _

theorem best_charted {wins : Float → Float → Bool} {x : Float} (hv : v.Inside (χ.region n))
    (hvs : ∀ w ∈ vs, w.Inside (χ.region n)) :
    Both (χ.Values n) (best wins v x vs) (best wins (χ.value v) x (vs.map χ.value)) := by
  induction vs generalizing v x with
  | nil => exact .ok ⟨rfl, hv⟩
  | cons w vs ih =>
    have hrest : ∀ u ∈ vs, u.Inside (χ.region n) := fun u hu => hvs u (List.mem_cons_of_mem _ hu)
    simp only [best, List.map_cons, number_relabel]
    refine .bind .same fun y _ heq => ?_
    subst heq
    split
    · exact ih (hvs w List.mem_cons_self) hrest
    · exact ih hv hrest

theorem extremum_charted {function : String} {wins : Float → Float → Bool}
    (hvs : ∀ w ∈ vs, w.Inside (χ.region n)) :
    Both (χ.Values n) (extremum function wins vs) (extremum function wins (vs.map χ.value)) := by
  cases vs with
  | nil => exact .error _
  | cons v vs =>
    simp only [extremum, List.map_cons, number_relabel]
    refine .bind .same fun x _ heq => ?_
    subst heq
    exact best_charted (hvs v List.mem_cons_self) fun u hu => hvs u (List.mem_cons_of_mem _ hu)

theorem keys_charted (hm : χ.Heaps h h') (hv : v.Inside (χ.region h.cells.size)) :
    Both (EffectsAlike χ n) (keys h v) (keys h' (χ.value v)) := by
  cases v with
  | ref shape r =>
    cases shape with
    | object =>
      simp only [keys, Value.relabel_ref, hm.fields (Value.inside_ref.1 hv), Fields.entries_map, Array.map_map]
      have hnames : (h.fields r).entries.map (fun f => Value.str f.1) =
          ((h.fields r).entries.map fun f => Value.str f.1).map χ.value := by simp [Function.comp_def]
      simp only [Function.comp_def]
      refine .ok ?_
      nth_rewrite 2 [hnames]
      refine .create fun u hu => ?_
      obtain ⟨f, -, rfl⟩ := Array.mem_map.1 (Array.mem_toList_iff.1 hu)
      exact Value.inside_of_isScalar rfl
    | list | set => exact .error _
  | _ => exact .error _

theorem contains_charted (hχ : χ.Faithful) (hm : χ.Heaps h h') (hv : v.Inside (χ.region h.cells.size))
    (hw : w.Inside (χ.region h.cells.size)) :
    Both (χ.Values n) (contains h v w) (contains h' (χ.value v) (χ.value w)) := by
  cases v with
  | str s => cases w <;> exact .ok (.scalar rfl)
  | ref shape r =>
    have hr := Value.inside_ref.1 hv
    cases shape with
    | object =>
      cases w with
      | str name =>
        simp only [contains, Value.relabel_ref, Value.relabel_str, hm.fields hr, Fields.get?_map, Option.isSome_map]
        exact .ok (.scalar rfl)
      | _ => exact .ok (.scalar rfl)
    | list | set =>
      simp only [contains, Value.relabel_ref, hm.items hr]
      rw [hm.contains hχ (hm.inside_items hr) hw]
      exact .ok (.scalar rfl)
  | _ => exact .error _

theorem push_charted (hχ : χ.Faithful) (hm : χ.Heaps h h') (hv : v.Inside (χ.region h.cells.size))
    (hw : w.Inside (χ.region h.cells.size)) :
    Both (EffectsAlike χ h.cells.size) (push h v w) (push h' (χ.value v) (χ.value w)) := by
  cases v with
  | ref shape r =>
    have hr := Value.inside_ref.1 hv
    cases shape with
    | list =>
      simp only [push, Value.relabel_ref, hm.items hr, Array.size_map]
      exact .ok (.write (lengthValue_charted _) ⟨_, hr⟩ hw)
    | set =>
      simp only [push, Value.relabel_ref, hm.items hr, Array.size_map]
      rw [hm.contains hχ (hm.inside_items hr) hw]
      split
      · exact give_charted (lengthValue_charted _)
      · exact .ok (.write (lengthValue_charted _) ⟨_, hr⟩ hw)
    | object => exact .error _
  | _ => exact .error _

/-- What a builtin is to do, if it turns no function into text or functions stand at the same places. -/
theorem plan_charted (hχ : χ.Faithful) (hm : χ.Heaps h h') {f : HostFunction} {b : Builtin}
    (hb : f.builtin = some b) (harity : f.arity.any (· != vs.length) = false)
    (hvs : ∀ w ∈ vs, w.Inside (χ.region h.cells.size))
    (hshown : χ.entry = id ∨ ∀ v ∈ shownBy f vs, h.showsFunction v = false) :
    Both (EffectsAlike χ h.cells.size) (b.plan vs h) (b.plan (vs.map χ.value) h') := by
  obtain ⟨hfirst, hin⟩ := Chart.Values.headD hvs
  obtain ⟨hsecond, hin'⟩ := Chart.Values.headD fun w (hw : w ∈ vs.drop 1) => hvs w (List.mem_of_mem_drop hw)
  rw [List.map_drop] at hsecond
  simp only [shownBy, harity, Bool.false_eq_true, if_false, hb] at hshown
  unfold Builtin.plan
  simp only [hfirst, hsecond]
  cases b with
  | print =>
    -- what is printed shows the entries of functions
    simp only [hm.display_all hvs hshown]
    exact .ok (.print _)
  | len => exact give_charted (len_charted hm hin)
  | str =>
    simp only [hm.display hin (hshown.imp_right fun hs => hs _ List.mem_cons_self)]
    exact .ok (.give (.scalar rfl))
  | int => exact give_charted toInt_charted
  | float => exact give_charted toFloat_charted
  | typeOf =>
    simp only [Value.typeName_relabel]
    exact .ok (.give (.scalar rfl))
  | push => exact push_charted hχ hm hin hin'
  | keys => exact keys_charted hm hin
  | contains => exact give_charted (contains_charted hχ hm hin hin')
  | abs => exact give_charted abs_charted
  | sqrt =>
    simp only [number_relabel]
    refine .map .same fun x _ heq => ?_
    subst heq
    exact .give (.scalar rfl)
  | floor => exact give_charted floor_charted
  | max => exact give_charted (extremum_charted hvs)
  | min => exact give_charted (extremum_charted hvs)

/-- Carrying out what a call does in both heaps. -/
theorem carryOut_charted (hχ : χ.Faithful) (hm : χ.Heaps h h') {e e' : Effect} (output : String)
    (hfresh : (Shape.list, h.cells.size) ∈ χ.region (h.cells.size + 1)) (he : EffectsAlike χ h.cells.size e e') :
    AnswersAlike χ h h' (e.carryOut h output) (e'.carryOut h' output) := by
  cases he with
  | give hv => exact ⟨.ok hv, hm, .refl, rfl⟩
  | create hin =>
    refine ⟨.ok ⟨congrArg (Value.ref .list) (hm.size 0).symm, ?_⟩, hm.alloc hχ hin, .alloc, rfl⟩
    refine Value.inside_ref.2 ?_
    simpa [Effect.carryOut, Heap.new] using hfresh
  | @write _ _ r change hv hr hnew =>
    have hsize : (h.write r change).cells.size = h.cells.size := by simp [Heap.write]
    obtain ⟨shape, hr⟩ := hr
    exact ⟨hsize ▸ hv, hm.write hχ hnew, .modify hr, rfl⟩
  | print line => exact ⟨.ok .null, hm, .refl, rfl⟩

/-- A call of a builtin. -/
theorem call_charted (hχ : χ.Faithful) (hm : χ.Heaps h h') {environment : Environment} (f : HostFunction)
    (hown : environment.own = Environment.noOwn) (output : String)
    (hfresh : (Shape.list, h.cells.size) ∈ χ.region (h.cells.size + 1))
    (hvs : ∀ w ∈ vs, w.Inside (χ.region h.cells.size))
    (hshown : χ.entry = id ∨ ∀ v ∈ shownBy f vs, h.showsFunction v = false) :
    AnswersAlike χ h h' (environment.call f vs h output) (environment.call f (vs.map χ.value) h' output) := by
  have hfails : ∀ e, AnswersAlike χ h h' ⟨.error e, h, output⟩ ⟨.error e, h', output⟩ := fun e =>
    ⟨.error e, hm, .refl, rfl⟩
  -- the arity is the same on both sides, and then the builtin is called
  have hbody : f.arity.any (· != vs.length) = false → AnswersAlike χ h h' (environment.body f vs h output)
      (environment.body f (vs.map χ.value) h' output) := fun harity => by
    unfold Environment.body
    cases hb : f.builtin with
    | none =>
      simp only [hown]
      exact hfails _
    | some b =>
      have hplan := plan_charted hχ hm hb harity hvs hshown
      simp only [Builtin.answer]
      generalize b.plan vs h = x, b.plan (vs.map χ.value) h' = x' at hplan
      cases hplan with
      | ok he => exact carryOut_charted hχ hm output hfresh he
      | error e => exact hfails e
  unfold Environment.call
  simp only [List.length_map]
  cases ha : f.arity with
  | none => exact hbody (by rw [ha]; rfl)
  | some n =>
    dsimp only
    split
    · next hn => exact hbody (by simpa [ha] using hn)
    · exact hfails _

end Builtins

end Host

end StackScript
