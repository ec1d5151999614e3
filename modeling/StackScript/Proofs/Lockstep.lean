import StackScript.Machine.Run
import StackScript.Proofs.Copies
import StackScript.Proofs.Reading

/-!
# Machines in step

Where a chart says what a second machine has, an instruction does the same on both: both fail alike, or
both go on as the chart says.  An exception is what turns a function into text (`shown`) where functions
stand at other indices.  One lemma for each primitive of the machine says so, and the operations are
made of primitives.

* `Chart.States`: a machine has what another one has, where the chart says.
* `Chart.Abreast`: two computations on such machines come to the same.
* `Chart.Suits`: what an instruction asks of a chart.
* `perform_charted`, `step_charted`, `runFrom_charted`: instructions and runs.
-/

namespace StackScript.Machine

open Bytecode Host

/-! ### What is turned into text -/

/-- The values on top of the stack, in the order in which they were put there. -/
def topOf (stack : Array Value) (count : Nat) : List Value :=
  (stack.extract (stack.size - count) stack.size).toList

/-- The values that an instruction is about to turn into text. -/
def shown (op : Opcode) (operand : Operand) (stack : Array Value) : List Value :=
  match op, operand with
  | .arith .any .add, _ =>
    match topOf stack 2 with
    | [.str a, b] => [.str a, b]
    | [a, .str b] => [a, .str b]
    | _ => []
  | .intToString, _ | .floatToString, _ => topOf stack 1
  | .buildString, .int count => topOf stack count.toNat
  | .callExternal, .int count =>
    match stack.back? with
    | some (.host f) => shownBy f (topOf stack.pop count.toNat)
    | _ => []
  | _, _ => []

/-- The kind of the collection that an instruction adds, apart from copies of what the host has bound. -/
def makes : Opcode → Option Shape
  | .newArray | .callExternal => some .list
  | .newSet => some .set
  | .newObject => some .object
  | _ => none

theorem topOf_append (stack vs : Array Value) : topOf (stack ++ vs) vs.size = vs.toList := by
  simp [topOf]

theorem topOf_push_push (stack : Array Value) (v w : Value) : topOf ((stack.push v).push w) 2 = [v, w] := by
  rw [← Array.append_singleton, ← Array.append_singleton, Array.append_assoc]
  exact topOf_append stack #[v, w]

/-- A sum with a string shows both values. -/
theorem shown_add {operand : Operand} {stack : Array Value} {v w : Value} (htop : topOf stack 2 = [v, w])
    (hstr : (∃ x, v = .str x) ∨ ∃ x, w = .str x) : shown (.arith .any .add) operand stack = [v, w] := by
  unfold shown
  rw [htop]
  obtain ⟨x, rfl⟩ | ⟨x, rfl⟩ := hstr
  · rfl
  · cases v <;> rfl

theorem mem_of_mem_extract {vs : Array Value} {v : Value} {i j : Nat} (h : v ∈ vs.extract i j) : v ∈ vs := by
  obtain ⟨k, hk, rfl⟩ := Array.mem_extract_iff_getElem.1 h
  exact Array.getElem_mem _

theorem mem_of_mem_shrink {vs : Array Value} {v : Value} {i : Nat} (h : v ∈ vs.shrink i) : v ∈ vs := by
  rw [Array.shrink_eq_take, Array.take_eq_extract] at h
  exact mem_of_mem_extract h

theorem mem_of_mem_pop {vs : Array Value} {v : Value} (h : v ∈ vs.pop) : v ∈ vs := by
  rw [← Array.mem_toList_iff, Array.toList_pop] at h
  exact Array.mem_toList_iff.1 (List.mem_of_mem_dropLast h)

end Machine

namespace Chart

open Machine Bytecode Host

/-! ### Two machines -/

/-- The machine `s'` has what `s` has, where the chart says. -/
structure States (χ : Chart) (s s' : State) : Prop where
  faithful : χ.Faithful
  stack : s'.stack = s.stack.map χ.value
  inside : ∀ v ∈ s.stack, v.Inside (χ.region s.heap.cells.size)
  ip : s'.ip = s.ip
  fp : s'.fp = s.fp
  returned : χ.Values s.heap.cells.size s.returned s'.returned
  heap : χ.Heaps s.heap s'.heap
  output : s'.output = s.output

/-- What two computations from `s` and `s'` come to: both fail alike, or the answers are related. -/
inductive Ends (χ : Chart) (s s' : State) {α β : Type} (R : State → α → β → Prop) :
    EStateM.Result Fault State α → EStateM.Result Fault State β → Prop
  | ok {a : α} {b : β} {t t' : State} (ht : χ.States t t') (hg : χ.Grows s.heap s'.heap t.heap t'.heap)
      (h : R t a b) : Ends χ s s' R (.ok a t) (.ok b t')
  | error {f : Fault} {t t' : State} (ht : χ.States t t') (hg : χ.Grows s.heap s'.heap t.heap t'.heap) :
      Ends χ s s' R (.error f t) (.error f t')

/-- Two computations from these machines come to the same. -/
def Abreast (χ : Chart) {α β : Type} (s s' : State) (R : State → α → β → Prop) (x : Exec α) (y : Exec β) : Prop :=
  χ.States s s' → χ.Ends s s' R (x s) (y s')

/-- The answers are the same. -/
def Same {α : Type} (_ : State) (a b : α) : Prop := b = a

/-- The answers are values that correspond. -/
def SameValue (χ : Chart) (t : State) (v v' : Value) : Prop := χ.Values t.heap.cells.size v v'

/-- A value that was on top of the stack. -/
structure Popped (χ : Chart) (s t : State) (v v' : Value) : Prop where
  value : χ.Values t.heap.cells.size v v'
  stack : s.stack = t.stack.push v
  heap : t.heap = s.heap

/-- Values that were on top of the stack. -/
structure PoppedAll (χ : Chart) (count : Nat) (s t : State) (vs vs' : Array Value) : Prop where
  map : vs' = vs.map χ.value
  inside : ∀ v ∈ vs.toList, v.Inside (χ.region t.heap.cells.size)
  top : topOf s.stack count = vs.toList
  heap : t.heap = s.heap

section Primitives

variable {χ : Chart} {α β γ δ : Type} {R : State → α → β → Prop} {S : State → γ → δ → Prop} {s s' : State}
  {v w : Value} {vs : List Value} {limits : Limits}

/-! ### Computations one after the other -/

namespace Abreast

theorem pure {a : α} {b : β} (h : R s a b) : χ.Abreast s s' R (pure a) (pure b) := fun hs => .ok hs .refl h

theorem same {a : α} : χ.Abreast s s' Same (Pure.pure a) (Pure.pure a) := pure rfl

theorem throw {f : Fault} : χ.Abreast s s' R (throw f : Exec α) (MonadExcept.throw f : Exec β) :=
  fun hs => .error hs .refl

theorem bind {x : Exec α} {y : Exec β} {f : α → Exec γ} {f' : β → Exec δ} (hx : χ.Abreast s s' R x y)
    (hf : ∀ t t' a b, χ.States t t' → χ.Grows s.heap s'.heap t.heap t'.heap → R t a b →
      χ.Abreast t t' S (f a) (f' b)) : χ.Abreast s s' S (x >>= f) (y >>= f') := by
  intro hs
  have hends := hx hs
  show χ.Ends s s' S (EStateM.bind x f s) (EStateM.bind y f' s')
  unfold EStateM.bind
  generalize x s = r, y s' = r' at hends
  cases hends with
  | error ht hg => exact .error ht hg
  | ok ht hg h =>
    have hrest := hf _ _ _ _ ht hg h ht
    dsimp only
    generalize f _ _ = r, f' _ _ = r' at hrest
    cases hrest with
    | error hu hg' => exact .error hu (hg.trans hs.faithful hs.heap hg')
    | ok hu hg' h => exact .ok hu (hg.trans hs.faithful hs.heap hg') h

/-- What both take from their machines. -/
theorem get {f : State → Exec γ} {f' : State → Exec δ} (h : χ.States s s' → χ.Abreast s s' S (f s) (f' s')) :
    χ.Abreast s s' S (MonadState.get >>= f) (MonadState.get >>= f') := fun hs => h hs hs

/-- A change of the machines that leaves the heap as it is. -/
theorem change {f f' : State → State} (hheap : (f s).heap = s.heap) (hheap' : (f' s').heap = s'.heap)
    (h : χ.States s s' → χ.States (f s) (f' s')) :
    χ.Abreast s s' Same (modify f : Exec Unit) (modify f' : Exec Unit) := by
  intro hs
  refine .ok (h hs) ?_ rfl
  rw [hheap, hheap']
  exact .refl

theorem lift {R : α → β → Prop} {x : Except Fault α} {x' : Except Fault β} (h : Both R x x') :
    χ.Abreast s s' (fun t a b => t.heap = s.heap ∧ R a b) (Exec.lift x) (Exec.lift x') := by
  cases h with
  | ok h => exact pure ⟨rfl, h⟩
  | error e => exact throw

theorem liftValue {x x' : Except Fault Value}
    (h : χ.Faithful → χ.Heaps s.heap s'.heap → Both (χ.Values s.heap.cells.size) x x') :
    χ.Abreast s s' (SameValue χ) (Exec.lift x) (Exec.lift x') := by
  intro hs
  have hboth := h hs.faithful hs.heap
  cases hboth with
  | ok hv => exact .ok hs .refl hv
  | error e => exact .error hs .refl

end Abreast

/-! ### The stack -/

theorem States.withStack {stack stack' : Array Value} (hs : χ.States s s') (hstack : stack' = stack.map χ.value)
    (hin : ∀ v ∈ stack, v.Inside (χ.region s.heap.cells.size)) :
    χ.States { s with stack } { s' with stack := stack' } :=
  { hs with stack := hstack, inside := hin }

theorem States.getD (hs : χ.States s s') (place : Nat) :
    χ.Values s.heap.cells.size (s.stack.getD place .null) (s'.stack.getD place .null) := by
  rw [Array.getD_eq_getD_getElem?, Array.getD_eq_getD_getElem?, hs.stack, Array.getElem?_map]
  exact .getD fun v hv => hs.inside v (Array.mem_of_getElem? hv)

namespace Abreast

theorem push {v' : Value} (hv : χ.Values s.heap.cells.size v v') :
    χ.Abreast s s' Same (Exec.push v) (Exec.push v') := by
  obtain ⟨rfl, hv⟩ := hv
  refine .change rfl rfl fun hs => hs.withStack ?_ fun w hw => ?_
  · rw [hs.stack, Array.map_push]
  · rcases Array.mem_push.1 hw with hw | rfl
    · exact hs.inside w hw
    · exact hv

theorem pop : χ.Abreast s s' (Popped χ s) Exec.pop Exec.pop := by
  intro hs
  unfold Exec.pop
  simp only [hs.stack, Array.back?_map]
  cases hv : s.stack.back? with
  | none =>
    rw [hs.ip]
    exact .error hs .refl
  | some v =>
    refine .ok (hs.withStack Array.map_pop.symm fun w hw => hs.inside w (mem_of_mem_pop hw)) .refl
      ⟨⟨rfl, hs.inside v (Array.mem_of_back? hv)⟩, ?_, rfl⟩
    obtain ⟨stack, hstack⟩ := Array.back?_eq_some_iff.1 hv
    rw [hstack, Array.pop_push]

theorem popMany {count : Nat} :
    χ.Abreast s s' (PoppedAll χ count s) (Exec.popMany count) (Exec.popMany count) := by
  intro hs
  unfold Exec.popMany
  simp only [hs.stack, Array.size_map]
  split
  · refine .ok (hs.withStack ?_ fun w hw => hs.inside w (mem_of_mem_shrink hw)) .refl ⟨?_, fun w hw => ?_, rfl, rfl⟩
    · simp [Array.shrink_eq_take]
    · simp
    · exact hs.inside w (mem_of_mem_extract (Array.mem_toList_iff.1 hw))
  · rw [hs.ip]
    exact .error hs .refl

theorem mistaken {task : Task} :
    χ.Abreast s s' R (Exec.mistaken task v : Exec α) (Exec.mistaken task (χ.value v) : Exec β) := by
  unfold Exec.mistaken
  rw [Value.typeName_relabel]
  exact .throw

theorem mistakenPair {task : Task} :
    χ.Abreast s s' R (Exec.mistakenPair task v w : Exec α)
      (Exec.mistakenPair task (χ.value v) (χ.value w) : Exec β) := by
  unfold Exec.mistakenPair
  rw [Value.typeName_relabel, Value.typeName_relabel]
  exact .throw

theorem popInt {task : Task} : χ.Abreast s s' Same (Exec.popInt task) (Exec.popInt task) := by
  refine .bind .pop ?_
  rintro t t' v _ - - ⟨⟨rfl, -⟩, -, -⟩
  cases v with
  | int n => exact .same
  | _ => exact .mistaken

theorem popFloat {task : Task} : χ.Abreast s s' Same (Exec.popFloat task) (Exec.popFloat task) := by
  refine .bind .pop ?_
  rintro t t' v _ - - ⟨⟨rfl, -⟩, -, -⟩
  simp only [number?_relabel]
  split
  · exact .same
  · exact .mistaken

theorem throw_ip {f : Nat → Fault} :
    χ.Abreast s s' R (do MonadExcept.throw (f (← MonadState.get).ip) : Exec α)
      (do MonadExcept.throw (f (← MonadState.get).ip) : Exec β) := by
  refine .get fun hs => ?_
  rw [hs.ip]
  exact .throw

theorem popAddress : χ.Abreast s s' Same Exec.popAddress Exec.popAddress := by
  refine .bind .pop ?_
  rintro t t' v _ - - ⟨⟨rfl, -⟩, -, -⟩
  cases v with
  | int k =>
    simp only [Value.relabel_int]
    split
    · exact .same
    · exact .throw_ip
  | _ => exact .throw_ip

theorem encodeAddress {address : Nat} : χ.Abreast s s' (fun _ v v' => v' = v ∧ v.isScalar = true)
    (Exec.encodeAddress limits address) (Exec.encodeAddress limits address) := by
  unfold Exec.encodeAddress
  split
  · exact .pure ⟨rfl, rfl⟩
  · exact .throw

/-! ### The heap -/

theorem withHeap {f : Heap → α × Heap} {f' : Heap → β × Heap}
    (hf : χ.Faithful → χ.Heaps s.heap s'.heap →
      R { s with heap := (f s.heap).2 } (f s.heap).1 (f' s'.heap).1 ∧ χ.Heaps (f s.heap).2 (f' s'.heap).2 ∧
        χ.Grows s.heap s'.heap (f s.heap).2 (f' s'.heap).2) :
    χ.Abreast s s' R (Exec.withHeap f) (Exec.withHeap f') := by
  intro hs
  obtain ⟨hR, hheaps, hg⟩ := hf hs.faithful hs.heap
  refine .ok ⟨hs.faithful, hs.stack, fun v hv => ?_, hs.ip, hs.fp, ?_, hheaps, hs.output⟩ hg hR
  · exact (hs.inside v hv).mono (hs.faithful.mono hg.size)
  · exact hs.returned.mono hs.faithful hg.size

theorem readHeap {f f' : Heap → α} (hf : χ.Faithful → χ.Heaps s.heap s'.heap → f' s'.heap = f s.heap) :
    χ.Abreast s s' Same (Exec.readHeap f) (Exec.readHeap f') := .get fun hs => .pure (hf hs.faithful hs.heap)

theorem store {plan plan' : Heap → Except Fault (Ref × Write)}
    (hplan : χ.Faithful → χ.Heaps s.heap s'.heap →
      Both (WritesAlike χ s.heap.cells.size) (plan s.heap) (plan' s'.heap)) :
    χ.Abreast s s' Same (Exec.store plan) (Exec.store plan') := by
  unfold Exec.store
  refine .get fun hs => ?_
  have hboth := hplan hs.faithful hs.heap
  generalize plan s.heap = x, plan' s'.heap = x' at hboth
  cases hboth with
  | error e => exact .throw
  | @ok p p' h =>
    obtain ⟨r, change⟩ := p
    obtain ⟨r', change'⟩ := p'
    obtain ⟨hplace, hchange, ⟨shape, hr⟩, hin⟩ := h
    obtain rfl : r' = χ.place r := hplace
    obtain rfl : change' = change.map χ.value := hchange
    show χ.Abreast s s' Same (Exec.withHeap fun h => ((), h.write r change))
      (Exec.withHeap fun h => ((), h.write (χ.place r) (change.map χ.value)))
    exact withHeap fun hχ hm => ⟨rfl, hm.write hχ hin, .modify hr⟩

theorem pushNew {shape : Shape} {cell cell' : Heap → Cell}
    (hfresh : (shape, s.heap.cells.size) ∈ χ.region (s.heap.cells.size + 1))
    (hc : χ.Faithful → χ.Heaps s.heap s'.heap → cell' s'.heap = (cell s.heap).map χ.value ∧
      (cell s.heap).All (Value.Inside (χ.region s.heap.cells.size))) :
    χ.Abreast s s' Same (Exec.pushNew shape cell) (Exec.pushNew shape cell') := by
  refine .bind (R := SameValue χ) (.withHeap fun hχ hm => ?_) fun t t' v v' _ _ hv => .push hv
  obtain ⟨hcell, hin⟩ := hc hχ hm
  rw [hcell]
  refine ⟨⟨congrArg (Value.ref shape) (hm.size 0).symm, Value.inside_ref.2 ?_⟩, hm.alloc hχ hin, .alloc⟩
  simpa [Heap.new] using hfresh

/-! ### Operands and variables -/

variable {op : Opcode} {operand : Operand}

theorem invalidOperand :
    χ.Abreast s s' R (Exec.invalidOperand op : Exec α) (Exec.invalidOperand op : Exec β) := .throw_ip

theorem intOperand : χ.Abreast s s' (fun t k k' => t = s ∧ operand = .int k ∧ k' = k)
    (Exec.intOperand op operand) (Exec.intOperand op operand) := by
  cases operand with
  | int k => exact .pure ⟨rfl, rfl, rfl⟩
  | _ => exact .invalidOperand

theorem countOperand : χ.Abreast s s' (fun t k k' => t = s ∧ operand = .int (k : Nat) ∧ k' = k)
    (Exec.countOperand op operand) (Exec.countOperand op operand) := by
  refine .bind .intOperand ?_
  rintro t t' k _ - - ⟨rfl, rfl, rfl⟩
  split
  · next hk => exact .pure ⟨rfl, by rw [Int.toNat_of_nonneg hk], rfl⟩
  · exact .invalidOperand

theorem textOperand : χ.Abreast s s' (fun t x x' => t = s ∧ x' = x) (Exec.textOperand op operand)
    (Exec.textOperand op operand) := by
  cases operand with
  | str s => exact .pure ⟨rfl, rfl⟩
  | _ => exact .invalidOperand

theorem baseOf {a : Area} : χ.Abreast s s' Same (Exec.baseOf a) (Exec.baseOf a) := by
  cases a with
  | own => exact .get fun hs => .pure hs.fp
  | top => exact .same

theorem variablePlace {a : Area} :
    χ.Abreast s s' Same (Exec.variablePlace a op operand) (Exec.variablePlace a op operand) := by
  refine .bind .baseOf ?_
  rintro t t' base _ - - rfl
  refine .bind .intOperand ?_
  rintro u u' offset _ - - ⟨-, -, rfl⟩
  refine .get fun hs => ?_
  simp only [hs.stack, Array.size_map, hs.ip]
  split
  · exact .throw
  · split
    · exact .same
    · exact .throw

theorem loadVariable {place : Nat} :
    χ.Abreast s s' Same (Exec.loadVariable place) (Exec.loadVariable place) := by
  refine .change rfl rfl fun hs => hs.withStack ?_ fun w hw => ?_
  · rw [(hs.getD place).1, hs.stack, Array.map_push]
  · rcases Array.mem_push.1 hw with hw | rfl
    · exact hs.inside w hw
    · exact (hs.getD place).2

theorem storeVariable {place : Nat} {v' : Value} (hv : χ.Values s.heap.cells.size v v') :
    χ.Abreast s s' Same (Exec.storeVariable place v) (Exec.storeVariable place v') := by
  obtain ⟨rfl, hv⟩ := hv
  refine .change rfl rfl fun hs => hs.withStack ?_ fun w hw => ?_
  · rw [hs.stack, Array.map_setIfInBounds]
  · rcases Array.mem_or_eq_of_mem_setIfInBounds hw with hw | rfl
    · exact hs.inside w hw
    · exact hv

theorem updateVariable {place : Nat} {u : Update} :
    χ.Abreast s s' Same (Exec.updateVariable place u) (Exec.updateVariable place u) := by
  refine .get fun hs => ?_
  obtain ⟨hv', hv⟩ := hs.getD place
  rw [hv']
  exact .bind (.liftValue fun _ _ => bump_charted _ u) fun t t' w w' _ _ hw => .storeVariable hw

/-! ### Operations -/

theorem elementTarget :
    χ.Abreast s s' (fun t p p' => SameValue χ t p.1 p'.1 ∧ SameValue χ t p.2 p'.2)
      (Exec.elementTarget op operand) (Exec.elementTarget op operand) := by
  refine .bind .countOperand ?_
  rintro t t' count _ - - ⟨-, -, rfl⟩
  refine .bind .popMany ?_
  rintro t₁ t₁' indices _ - - ⟨rfl, hindices, -, -⟩
  refine .bind .pop ?_
  rintro t₂ t₂' v _ ht₂ hg ⟨⟨rfl, hv⟩, -, -⟩
  rw [Array.back?_map]
  cases hlast : indices.back? with
  | none => exact .invalidOperand
  | some last =>
    have hindices : ∀ w ∈ indices.toList, w.Inside (χ.region t₂.heap.cells.size) := fun w hw =>
      (hindices w hw).mono (ht₂.faithful.mono hg.size)
    have hpath : ∀ w ∈ indices.pop.toList, w.Inside (χ.region t₂.heap.cells.size) := fun w hw =>
      hindices w (Array.mem_toList_iff.2 (mem_of_mem_pop (Array.mem_toList_iff.1 hw)))
    refine .get fun _ => .bind (.liftValue fun hχ hm => ?_) ?_
    · have hload := loadPath_charted hχ hm hv hpath
      rwa [← Array.toList_map, Array.map_pop] at hload
    · rintro t₃ t₃' w w' ht₃ hg₃ hw
      refine .pure ⟨hw, rfl, (hindices last ?_).mono (ht₃.faithful.mono hg₃.size)⟩
      exact Array.mem_toList_iff.2 (Array.mem_of_back? hlast)

end Abreast

/-- Arithmetic on what is not a pair of integers, and no sum with a string. -/
theorem anyArith_numbers {a : Arith} (hint : ∀ x y, v = .int x → w ≠ .int y)
    (hfirst : ∀ x, a = .add → v ≠ .str x) (hsecond : ∀ x, a = .add → w ≠ .str x) :
    Exec.anyArith a v w = match number? v, number? w with
      | some x, some y => return .float (Exec.floatArith a x y)
      | _, _ => Exec.mistakenPair (.arith a) v w := by
  unfold Exec.anyArith
  split
  · exact absurd rfl (hint _ _ rfl)
  · exact absurd rfl (hfirst _ rfl)
  · exact absurd rfl (hsecond _ rfl)
  · rfl

/-- The order of what is neither a pair of integers nor one of strings. -/
theorem anyHolds_numbers {r : Relation} (hint : ∀ x y, v = .int x → w ≠ .int y)
    (hstr : ∀ x y, v = .str x → w ≠ .str y) :
    Exec.anyHolds r v w = match number? v, number? w with
      | some x, some y => return Exec.floatHolds r x y
      | _, _ => Exec.mistakenPair .comparison v w := by
  unfold Exec.anyHolds
  split
  · exact absurd rfl (hint _ _ rfl)
  · exact absurd rfl (hstr _ _ rfl)
  · rfl

namespace Abreast

variable {op : Opcode} {operand : Operand}

/-- A sum with a string is shown. -/
theorem anyArith {a : Arith} (hv : v.Inside (χ.region s.heap.cells.size))
    (hw : w.Inside (χ.region s.heap.cells.size))
    (hshown : χ.entry = id ∨ (a = .add → ((∃ x, v = .str x) ∨ ∃ x, w = .str x) →
      s.heap.showsFunction v = false ∧ s.heap.showsFunction w = false)) :
    χ.Abreast s s' (SameValue χ) (Exec.anyArith a v w) (Exec.anyArith a (χ.value v) (χ.value w)) := by
  have hjoined : a = .add → ((∃ x, v = .str x) ∨ ∃ x, w = .str x) → χ.Abreast s s' (SameValue χ)
      (do
        let h := (← MonadState.get).heap
        return Value.str (h.display v ++ h.display w) : Exec Value)
      (do
        let h := (← MonadState.get).heap
        return Value.str (h.display (χ.value v) ++ h.display (χ.value w))) := fun ha hstr => by
    refine .get fun hs => ?_
    simp only [hs.heap.display hv (hshown.imp_right fun h => (h ha hstr).1),
      hs.heap.display hw (hshown.imp_right fun h => (h ha hstr).2)]
    exact .pure (.scalar rfl)
  -- the order of the cases is that of the addition: integers, then texts, then numbers
  by_cases hint : ∃ x y, v = .int x ∧ w = .int y
  · obtain ⟨x, y, rfl, rfl⟩ := hint
    refine .bind (.lift .same) ?_
    rintro t t' k _ - - ⟨-, rfl⟩
    exact .pure (.scalar rfl)
  by_cases hfirst : a = .add ∧ ∃ x, v = .str x
  · obtain ⟨rfl, x, rfl⟩ := hfirst
    exact hjoined rfl (.inl ⟨x, rfl⟩)
  by_cases hsecond : a = .add ∧ ∃ x, w = .str x
  · obtain ⟨rfl, x, rfl⟩ := hsecond
    cases v <;> exact hjoined rfl (.inr ⟨x, rfl⟩)
  rw [anyArith_numbers (fun x y hx hy => hint ⟨x, y, hx, hy⟩) (fun x ha hx => hfirst ⟨ha, x, hx⟩)
      (fun x ha hx => hsecond ⟨ha, x, hx⟩),
    anyArith_numbers
      (fun x y hx hy => hint ⟨x, y, Value.relabel_eq_int.1 hx, Value.relabel_eq_int.1 hy⟩)
      (fun x ha hx => hfirst ⟨ha, x, Value.relabel_eq_str.1 hx⟩)
      (fun x ha hx => hsecond ⟨ha, x, Value.relabel_eq_str.1 hx⟩)]
  simp only [number?_relabel]
  split
  · exact .pure (.scalar rfl)
  · exact .mistakenPair

theorem arith {dom : Domain} {a : Arith}
    (hshown : χ.entry = id ∨ ∀ v ∈ shown (.arith dom a) operand s.stack, s.heap.showsFunction v = false) :
    χ.Abreast s s' Same (Exec.arith dom a) (Exec.arith dom a) := by
  cases dom with
  | int =>
    refine .bind .popInt ?_
    rintro t t' x _ - - rfl
    refine .bind .popInt ?_
    rintro t₁ t₁' y _ - - rfl
    refine .bind (.lift .same) ?_
    rintro t₂ t₂' k _ - - ⟨-, rfl⟩
    exact .push (.scalar rfl)
  | float =>
    refine .bind .popFloat ?_
    rintro t t' x _ - - rfl
    refine .bind .popFloat ?_
    rintro t₁ t₁' y _ - - rfl
    exact .push (.scalar rfl)
  | any =>
    refine .bind .pop ?_
    rintro t t' v _ - - ⟨⟨rfl, hv⟩, hstack, hheap⟩
    refine .bind .pop ?_
    rintro t₁ t₁' w _ ht₁ hg ⟨⟨rfl, hw⟩, hstack', hheap'⟩
    have htop : topOf s.stack 2 = [w, v] := by rw [hstack, hstack', topOf_push_push]
    refine .bind (.anyArith hw (hv.mono (ht₁.faithful.mono hg.size)) ?_) fun t₂ t₂' u u' _ _ hu => .push hu
    refine hshown.imp_right fun hshown ha hstr => ?_
    subst ha
    rw [shown_add htop hstr, ← hheap, ← hheap'] at hshown
    exact ⟨hshown w (by simp), hshown v (by simp)⟩

theorem anyHolds {r : Relation} :
    χ.Abreast s s' Same (Exec.anyHolds r v w) (Exec.anyHolds r (χ.value v) (χ.value w)) := by
  by_cases hint : ∃ x y, v = .int x ∧ w = .int y
  · obtain ⟨x, y, rfl, rfl⟩ := hint
    exact .same
  by_cases hstr : ∃ x y, v = .str x ∧ w = .str y
  · obtain ⟨x, y, rfl, rfl⟩ := hstr
    exact .same
  rw [anyHolds_numbers (fun x y hx hy => hint ⟨x, y, hx, hy⟩) (fun x y hx hy => hstr ⟨x, y, hx, hy⟩),
    anyHolds_numbers
      (fun x y hx hy => hint ⟨x, y, Value.relabel_eq_int.1 hx, Value.relabel_eq_int.1 hy⟩)
      (fun x y hx hy => hstr ⟨x, y, Value.relabel_eq_str.1 hx, Value.relabel_eq_str.1 hy⟩)]
  simp only [number?_relabel]
  split
  · exact .same
  · exact .mistakenPair

theorem popEqual : χ.Abreast s s' Same Exec.popEqual Exec.popEqual := by
  refine .bind .pop ?_
  rintro t t' v _ - - ⟨⟨rfl, hv⟩, -, -⟩
  refine .bind .pop ?_
  rintro t₁ t₁' w _ ht₁ hg ⟨⟨rfl, hw⟩, -, -⟩
  exact .readHeap fun hχ hm => hm.equal hχ hw (hv.mono (hχ.mono hg.size))

/-- A truth value, and what is put on the stack for it. -/
theorem pushBool {x x' : Exec Bool} (hx : χ.Abreast s s' Same x x') (f : Bool → Bool) :
    χ.Abreast s s' Same (do Exec.push (.bool (f (← x)))) (do Exec.push (.bool (f (← x')))) := by
  refine .bind hx ?_
  rintro t t' y _ - - rfl
  exact .push (.scalar rfl)

theorem compare {dom : Domain} {r : Relation} :
    χ.Abreast s s' Same (Exec.compare dom r) (Exec.compare dom r) := by
  have hany : χ.Abreast s s' Same
      (do let b ← Exec.pop; let a ← Exec.pop; Exec.push (.bool (← Exec.anyHolds r a b)))
      (do let b ← Exec.pop; let a ← Exec.pop; Exec.push (.bool (← Exec.anyHolds r a b))) := by
    refine .bind .pop ?_
    rintro t t' v _ - - ⟨⟨rfl, -⟩, -, -⟩
    refine .bind .pop ?_
    rintro t₁ t₁' w _ - - ⟨⟨rfl, -⟩, -, -⟩
    exact .pushBool .anyHolds id
  cases dom with
  | int =>
    refine .bind .popInt ?_
    rintro t t' x _ - - rfl
    refine .bind .popInt ?_
    rintro t₁ t₁' y _ - - rfl
    exact .push (.scalar rfl)
  | float =>
    refine .bind .popFloat ?_
    rintro t t' x _ - - rfl
    refine .bind .popFloat ?_
    rintro t₁ t₁' y _ - - rfl
    exact .push (.scalar rfl)
  | any =>
    cases r with
    | eq => exact .pushBool .popEqual id
    | ne => exact .pushBool .popEqual not
    | _ => exact hany

theorem negate {dom : Domain} : χ.Abreast s s' Same (Exec.negate dom) (Exec.negate dom) := by
  cases dom with
  | int =>
    refine .bind .popInt ?_
    rintro t t' x _ - - rfl
    exact .push (.scalar rfl)
  | float =>
    refine .bind .popFloat ?_
    rintro t t' x _ - - rfl
    exact .push (.scalar rfl)
  | any =>
    refine .bind .pop ?_
    rintro t t' v _ - - ⟨⟨rfl, -⟩, -, -⟩
    cases v with
    | int k => exact .push (.scalar rfl)
    | float x => exact .push (.scalar rfl)
    | _ => exact .mistaken

theorem concat : χ.Abreast s s' Same Exec.concat Exec.concat := by
  refine .bind .pop ?_
  rintro t t' v _ - - ⟨⟨rfl, -⟩, -, -⟩
  refine .bind .pop ?_
  rintro t₁ t₁' w _ - - ⟨⟨rfl, -⟩, -, -⟩
  cases v with
  | str x =>
    cases w with
    | str y => exact .push (.scalar rfl)
    | _ => exact .mistakenPair
  | _ => cases w <;> exact .mistakenPair

theorem floatToInt : χ.Abreast s s' Same Exec.floatToInt Exec.floatToInt := by
  refine .bind .popFloat ?_
  rintro t t' x _ - - rfl
  split
  · exact .push (.scalar rfl)
  · exact .throw

theorem callHost {environment : Environment} (hown : environment.own = Environment.noOwn)
    (hfresh : (Shape.list, s.heap.cells.size) ∈ χ.region (s.heap.cells.size + 1))
    (hvs : ∀ w ∈ vs, w.Inside (χ.region s.heap.cells.size))
    (hshown : χ.entry = id ∨ ∀ f, v = .host f → ∀ w ∈ shownBy f vs, s.heap.showsFunction w = false) :
    χ.Abreast s s' Same (Exec.callHost environment v vs)
      (Exec.callHost environment (χ.value v) (vs.map χ.value)) := by
  intro hs
  cases v with
  | host f =>
    have hcall := call_charted hs.faithful hs.heap f hown s.output hfresh hvs
      (hshown.imp_right fun h => h f rfl)
    simp only [Exec.callHost, Value.relabel_host, hs.output]
    generalize environment.call f vs s.heap s.output = a,
      environment.call f (vs.map χ.value) s'.heap s.output = a' at hcall
    obtain ⟨value, heap, output⟩ := a
    obtain ⟨value', heap', output'⟩ := a'
    obtain ⟨hvalue, hheaps, hg, houtput⟩ := hcall
    have hstack : ∀ w ∈ s.stack, w.Inside (χ.region heap.cells.size) := fun w hw =>
      (hs.inside w hw).mono (hs.faithful.mono hg.size)
    cases hvalue with
    | ok hv => exact .ok ⟨hs.faithful, hs.stack, hstack, hs.ip, hs.fp, hv, hheaps, houtput⟩ hg rfl
    | error e =>
      refine .error ⟨hs.faithful, hs.stack, hstack, hs.ip, hs.fp, ?_, hheaps, houtput⟩ hg
      exact hs.returned.mono hs.faithful hg.size
  | ref shape r => cases shape <;> exact .error hs .refl
  | _ => exact .error hs .refl

/-! ### Calls -/

theorem leave {v' : Value} (hv : χ.Values s.heap.cells.size v v') :
    χ.Abreast s s' Same (Exec.leave v) (Exec.leave v') := by
  refine .bind (R := fun t a b => t.heap = s.heap ∧ Same t a b) ?_ ?_
  · exact fun hs => .ok { hs with returned := hv } .refl ⟨rfl, rfl⟩
  rintro t t' _ _ - - ⟨hheap, -⟩
  refine .get fun ht => ?_
  rw [ht.fp]
  split
  · refine .bind (.push (by rw [hheap]; exact hv)) ?_
    rintro t₁ t₁' _ _ - - rfl
    exact .same
  · refine .bind (.change rfl rfl fun ht => ht.withStack ?_ fun w hw => ht.inside w (mem_of_mem_shrink hw)) ?_
    · rw [ht.stack, ht.fp]
      simp [Array.shrink_eq_take]
    rintro t₁ t₁' _ _ - - rfl
    refine .bind .popAddress ?_
    rintro t₂ t₂' target _ - - rfl
    refine .bind .popAddress ?_
    rintro t₃ t₃' fp _ - - rfl
    refine .bind (.change rfl rfl fun ht => { ht with fp := rfl }) ?_
    rintro t₄ t₄' _ _ - - rfl
    exact .same

theorem enter {target : Nat} : χ.Abreast s s' Same (Exec.enter limits target) (Exec.enter limits target) := by
  refine .get fun hs => ?_
  rw [hs.fp, hs.ip]
  refine .bind .encodeAddress ?_
  rintro t t' savedFp _ - - ⟨rfl, hfp⟩
  refine .bind .encodeAddress ?_
  rintro t₁ t₁' address _ - - ⟨rfl, haddress⟩
  refine .bind (.push (.scalar hfp)) ?_
  rintro t₂ t₂' _ _ - - rfl
  refine .bind (.push (.scalar haddress)) ?_
  rintro t₃ t₃' _ _ - - rfl
  refine .bind (.change rfl rfl fun ht => { ht with fp := ?_ }) ?_
  · simp [ht.stack]
  rintro t₄ t₄' _ _ - - rfl
  exact .same

end Abreast

end Primitives

/-! ### All operations -/

/-- Names and values, and the same on the second machine. -/
def PairsAlike (χ : Chart) (n : Nat) (ps ps' : List (String × Value)) : Prop :=
  ps' = ps.map (fun p => (p.1, χ.value p.2)) ∧ ∀ p ∈ ps, p.2.Inside (χ.region n)

theorem pairUp_charted {χ : Chart} {n : Nat} : ∀ vs : List Value, (∀ w ∈ vs, w.Inside (χ.region n)) →
    Both (PairsAlike χ n) (Exec.pairUp vs) (Exec.pairUp (vs.map χ.value))
  | [], _ => .ok ⟨rfl, by simp⟩
  | [v], _ => by
    have hend : ∀ w, Exec.pairUp [w] = .ok [] := fun w => by cases w <;> rfl
    rw [List.map_singleton, hend, hend]
    exact .ok ⟨rfl, by simp⟩
  | key :: v :: rest, hvs => by
    have hv := hvs v (List.mem_cons_of_mem _ List.mem_cons_self)
    have hrest := pairUp_charted rest fun w hw => hvs w (List.mem_cons_of_mem _ (List.mem_cons_of_mem _ hw))
    cases key with
    | str name =>
      refine .bind hrest ?_
      rintro ps _ ⟨rfl, hps⟩
      refine .ok ⟨rfl, fun p hp => ?_⟩
      rcases List.mem_cons.1 hp with rfl | hp
      · exact hv
      · exact hps p hp
    | ref shape r => cases shape <;> exact .error _
    | _ => exact .error _

/-- The values of a binding are copied alike. -/
structure CopiesAlike (χ : Chart) (h h' : Heap) (v : Value) : Prop where
  value : χ.Values (h.deepCopy v).2.cells.size (h.deepCopy v).1 (h'.deepCopy v).1
  heaps : χ.Heaps (h.deepCopy v).2 (h'.deepCopy v).2
  grows : χ.Grows h h' (h.deepCopy v).2 (h'.deepCopy v).2

/-- What an operation asks of a chart: the collection that it adds is covered, what the host has bound is
copied alike, and functions stand at the same places unless none is turned into text or made. -/
structure Suits (χ : Chart) (environment : Environment) (op : Opcode) (operand : Operand) (s s' : State) :
    Prop where
  own : environment.own = Environment.noOwn
  fresh : ∀ shape, makes op = some shape → (shape, s.heap.cells.size) ∈ χ.region (s.heap.cells.size + 1)
  copies : op = .loadExternal → ∀ name binding, environment.get? name = some binding →
    χ.CopiesAlike s.heap s'.heap binding.value
  function : op = .loadFunction → χ.entry = id
  shown : χ.entry = id ∨ ∀ v ∈ shown op operand s.stack, s.heap.showsFunction v = false

section Operations

variable {χ : Chart} {limits : Limits} {environment : Environment} {op : Opcode} {operand : Operand}
  {s s' : State}

theorem reserve_charted {count : Nat} : χ.Abreast s s' Same
    (modify fun s => { s with stack := s.stack ++ Array.replicate count .null } : Exec Unit)
    (modify fun s => { s with stack := s.stack ++ Array.replicate count .null }) := by
  refine .change rfl rfl fun ht => ht.withStack ?_ fun w hw => ?_
  · rw [ht.stack]
    simp
  · rcases Array.mem_append.1 hw with hw | hw
    · exact ht.inside w hw
    · rw [(Array.mem_replicate.1 hw).2]
      exact Value.inside_of_isScalar rfl

theorem perform_storeMember_charted (limits : Limits) (environment : Environment) {w : Width} :
    χ.Abreast s s' Same (Exec.perform limits environment (.storeMember w) operand)
      (Exec.perform limits environment (.storeMember w) operand) := by
  unfold Exec.perform
  refine .bind .textOperand ?_
  rintro t t' name _ - - ⟨rfl, rfl⟩
  refine .bind .pop ?_
  rintro t₁ t₁' v _ - - ⟨⟨rfl, hv⟩, -, -⟩
  refine .bind .pop ?_
  rintro t₂ t₂' new _ - hg ⟨⟨rfl, hnew⟩, -, -⟩
  exact .store fun hχ _ => storeMember_charted (hv.mono (hχ.mono hg.size)) _ hnew

theorem perform_updateMember_charted (limits : Limits) (environment : Environment) {u : Bytecode.Update} :
    χ.Abreast s s' Same (Exec.perform limits environment (.updateMember u) operand)
      (Exec.perform limits environment (.updateMember u) operand) := by
  unfold Exec.perform
  refine .bind .textOperand ?_
  rintro t t' name _ - - ⟨rfl, rfl⟩
  refine .bind .pop ?_
  rintro t₁ t₁' v _ - - ⟨⟨rfl, hv⟩, -, -⟩
  refine .store fun _ hm => .bind (loadMember_charted hm hv _) ?_
  rintro w _ ⟨rfl, -⟩
  refine .bind (bump_charted t₁.heap.cells.size u) ?_
  rintro new _ ⟨rfl, hnew⟩
  exact storeMember_charted hv _ hnew

theorem perform_loadElement_charted (limits : Limits) (environment : Environment) {w : Width} :
    χ.Abreast s s' Same (Exec.perform limits environment (.loadElement w) operand)
      (Exec.perform limits environment (.loadElement w) operand) := by
  unfold Exec.perform
  refine .bind .countOperand ?_
  rintro t t' count _ - - ⟨rfl, -, rfl⟩
  refine .bind .popMany ?_
  rintro t₁ t₁' indices _ - - ⟨rfl, hin, -, -⟩
  refine .bind .pop ?_
  rintro t₂ t₂' v _ - hg ⟨⟨rfl, hv⟩, -, -⟩
  rw [Array.toList_map]
  refine .get fun _ => .bind (.liftValue fun hχ hm => loadPath_charted hχ hm hv fun w hw => ?_)
    fun t₃ t₃' w w' _ _ hw => .push hw
  exact (hin w hw).mono (hχ.mono hg.size)

theorem perform_storeElement_charted (limits : Limits) (environment : Environment) {w : Width} :
    χ.Abreast s s' Same (Exec.perform limits environment (.storeElement w) operand)
      (Exec.perform limits environment (.storeElement w) operand) := by
  unfold Exec.perform
  refine .bind .elementTarget ?_
  rintro t t' ⟨v, index⟩ ⟨_, _⟩ - - ⟨⟨rfl, hv⟩, ⟨rfl, hindex⟩⟩
  refine .bind .pop ?_
  rintro t₁ t₁' new _ - hg ⟨⟨rfl, hnew⟩, -, -⟩
  exact .store fun hχ hm => storeElement_charted hm (hv.mono (hχ.mono hg.size)) hnew _

theorem perform_updateElement_charted (limits : Limits) (environment : Environment) {u : Bytecode.Update} :
    χ.Abreast s s' Same (Exec.perform limits environment (.updateElement u) operand)
      (Exec.perform limits environment (.updateElement u) operand) := by
  unfold Exec.perform
  refine .bind .elementTarget ?_
  rintro t t' ⟨v, index⟩ ⟨_, _⟩ - - ⟨⟨rfl, hv⟩, ⟨rfl, hindex⟩⟩
  refine .store fun hχ hm => .bind (loadElement_charted hχ hm hv hindex) ?_
  rintro w _ ⟨rfl, -⟩
  refine .bind (bump_charted t.heap.cells.size u) ?_
  rintro new _ ⟨rfl, hnew⟩
  exact storeElement_charted hm hv hnew _

theorem perform_newArray_charted (limits : Limits) (hsuits : χ.Suits environment .newArray operand s s') :
    χ.Abreast s s' Same (Exec.perform limits environment .newArray operand)
      (Exec.perform limits environment .newArray operand) := by
  unfold Exec.perform
  refine .bind .countOperand ?_
  rintro t t' count _ - - ⟨rfl, -, rfl⟩
  refine .bind .popMany ?_
  rintro t₁ t₁' items _ - - ⟨rfl, hin, -, hheap⟩
  exact .pushNew (hheap ▸ hsuits.fresh _ rfl) fun _ _ => ⟨rfl, hin⟩

theorem perform_newSet_charted (limits : Limits) (hsuits : χ.Suits environment .newSet operand s s') :
    χ.Abreast s s' Same (Exec.perform limits environment .newSet operand)
      (Exec.perform limits environment .newSet operand) := by
  unfold Exec.perform
  refine .bind .countOperand ?_
  rintro t t' count _ - - ⟨rfl, -, rfl⟩
  refine .bind .popMany ?_
  rintro t₁ t₁' members _ - - ⟨rfl, hin, -, hheap⟩
  rw [Array.toList_map]
  refine .pushNew (hheap ▸ hsuits.fresh _ rfl) fun hχ hm => ?_
  -- which members are equal does not change, so the same ones are left out
  obtain ⟨hdistinct, hkept⟩ := hm.distinct hχ hin
  exact ⟨congrArg Cell.items hdistinct, fun w hw => hkept w (Array.mem_toList_iff.1 hw)⟩

theorem perform_newObject_charted (limits : Limits) (hsuits : χ.Suits environment .newObject operand s s') :
    χ.Abreast s s' Same (Exec.perform limits environment .newObject operand)
      (Exec.perform limits environment .newObject operand) := by
  unfold Exec.perform
  refine .bind .countOperand ?_
  rintro t t' count _ - - ⟨rfl, -, rfl⟩
  refine .bind .popMany ?_
  rintro t₁ t₁' flat _ - - ⟨rfl, hin, -, hheap⟩
  rw [Array.toList_map]
  refine .bind (.lift (pairUp_charted _ hin)) ?_
  rintro t₂ t₂' pairs _ - - ⟨hheap', rfl, hpairs⟩
  refine .pushNew (hheap' ▸ hheap ▸ hsuits.fresh _ rfl) fun _ _ => ⟨?_, hheap' ▸ Fields.all_ofList hpairs⟩
  exact congrArg Cell.fields (Fields.ofList_map pairs)

theorem perform_buildString_charted (limits : Limits) (hsuits : χ.Suits environment .buildString operand s s') :
    χ.Abreast s s' Same (Exec.perform limits environment .buildString operand)
      (Exec.perform limits environment .buildString operand) := by
  unfold Exec.perform
  refine .bind .countOperand ?_
  rintro t t' count _ - - ⟨rfl, rfl, rfl⟩
  refine .bind .popMany ?_
  rintro t₁ t₁' parts _ - - ⟨rfl, hin, htop, hheap⟩
  rw [Array.toList_map]
  -- functions show their entries, so none may be among the parts unless entries stay
  have hparts : χ.entry = id ∨ ∀ v ∈ parts.toList, t₁.heap.showsFunction v = false := by
    rw [← htop, hheap]
    exact hsuits.shown
  refine .bind (.readHeap fun _ hm => congrArg String.join (hm.display_all hin hparts)) ?_
  rintro t₂ t₂' s _ - - rfl
  exact .push (.scalar rfl)

theorem perform_callExternal_charted (limits : Limits) (hsuits : χ.Suits environment .callExternal operand s s') :
    χ.Abreast s s' Same (Exec.perform limits environment .callExternal operand)
      (Exec.perform limits environment .callExternal operand) := by
  unfold Exec.perform
  refine .bind .countOperand ?_
  rintro t t' count _ - - ⟨rfl, rfl, rfl⟩
  refine .bind .pop ?_
  rintro t₁ t₁' callee _ - - ⟨⟨rfl, -⟩, hstack, hheap⟩
  refine .bind .popMany ?_
  rintro t₂ t₂' arguments _ - - ⟨rfl, hin, htop, hheap'⟩
  rw [Array.toList_map]
  refine .callHost hsuits.own (hheap' ▸ hheap ▸ hsuits.fresh _ rfl) hin
    (hsuits.shown.imp_right fun hshown f hf w hw => ?_)
  rw [hheap', hheap]
  refine hshown w ?_
  simpa [shown, hstack, hf, ← htop] using hw

theorem perform_loadExternal_charted (limits : Limits) (hsuits : χ.Suits environment .loadExternal operand s s') :
    χ.Abreast s s' Same (Exec.perform limits environment .loadExternal operand)
      (Exec.perform limits environment .loadExternal operand) := by
  unfold Exec.perform
  cases operand with
  | str name =>
    have hname : Exec.textOperand .loadExternal (.str name) = pure name := rfl
    dsimp only
    rw [hname, pure_bind]
    cases hb : environment.get? name with
    | none => exact .throw
    | some binding =>
      -- the value of the binding is copied anew each time
      obtain ⟨hvalue, hheaps, hg⟩ := hsuits.copies rfl name binding hb
      exact .bind (R := SameValue χ) (.withHeap fun _ _ => ⟨hvalue, hheaps, hg⟩)
        fun t₁ t₁' copy copy' _ _ hcopy => .push hcopy
  | _ => exact .bind (R := fun _ _ _ => False) .invalidOperand fun _ _ _ _ _ _ h => h.elim

theorem perform_charted (hsuits : χ.Suits environment op operand s s') :
    χ.Abreast s s' Same (Exec.perform limits environment op operand)
      (Exec.perform limits environment op operand) := by
  have hshown := hsuits.shown
  unfold Exec.perform
  cases op with
  | allocStack =>
    refine .bind .countOperand ?_
    rintro t t' count _ - - ⟨rfl, -, rfl⟩
    refine .get fun hs => ?_
    rw [hs.stack, Array.size_map]
    split
    · exact .throw
    · exact reserve_charted
  | popStack =>
    refine .bind .countOperand ?_
    rintro t t' count _ - - ⟨rfl, -, rfl⟩
    refine .bind .popMany ?_
    rintro t₁ t₁' vs _ - - -
    exact .same
  | loadNull => exact .push .null
  | loadConst w =>
    cases w with
    | w8 =>
      cases operand with
      | bool x => exact .push (.scalar rfl)
      | _ => exact .invalidOperand
    | w32 =>
      refine .bind .intOperand ?_
      rintro t t' k _ - - ⟨rfl, -, rfl⟩
      split
      · exact .push (.scalar rfl)
      · exact .invalidOperand
    | w64 =>
      cases operand with
      | float x => exact .push (.scalar rfl)
      | str s => exact .push (.scalar rfl)
      | _ => exact .invalidOperand
  | arith dom a => exact .arith hshown
  | negate dom => exact .negate
  | notAny | notBool =>
    refine .bind .pop ?_
    rintro t t' v _ - - ⟨⟨rfl, -⟩, -, -⟩
    rw [Value.isTruthy_relabel]
    exact .push (.scalar rfl)
  | concat => exact .concat
  | compare dom r => exact .compare
  | equal w => exact .pushBool .popEqual id
  | notEqual w => exact .pushBool .popEqual not
  | intToFloat =>
    refine .bind .popInt ?_
    rintro t t' k _ - - rfl
    exact .push (.scalar rfl)
  | floatToInt => exact .floatToInt
  | intToString | floatToString =>
    refine .bind .pop ?_
    rintro t t' v _ - - ⟨⟨rfl, hv⟩, hstack, hheap⟩
    have hv' : χ.entry = id ∨ t.heap.showsFunction v = false := by
      rw [hheap]
      exact hshown.imp_right fun hs => hs v (by simp [shown, hstack, topOf])
    refine .bind (.readHeap fun _ hm => hm.display hv hv') ?_
    rintro t₁ t₁' s _ - - rfl
    exact .push (.scalar rfl)
  | load a w =>
    refine .bind .variablePlace ?_
    rintro t t' place _ - - rfl
    exact .loadVariable
  | store a w =>
    refine .bind .pop ?_
    rintro t t' v v' - - ⟨hv, -, -⟩
    refine .bind .variablePlace ?_
    rintro t₁ t₁' place _ ht₁ hg rfl
    exact .storeVariable (hv.mono ht₁.faithful hg.size)
  | update a u =>
    refine .bind .variablePlace ?_
    rintro t t' place _ - - rfl
    exact .updateVariable
  | loadMember w =>
    refine .bind .textOperand ?_
    rintro t t' name _ - - ⟨rfl, rfl⟩
    refine .bind .pop ?_
    rintro t₁ t₁' v _ - - ⟨⟨rfl, hv⟩, -, -⟩
    exact .get fun _ => .bind (.liftValue fun _ hm => loadMember_charted hm hv _) fun t₂ t₂' w w' _ _ hw =>
      .push hw
  | storeMember _ => exact perform_storeMember_charted limits environment
  | updateMember _ => exact perform_updateMember_charted limits environment
  | loadElement _ => exact perform_loadElement_charted limits environment
  | storeElement _ => exact perform_storeElement_charted limits environment
  | updateElement _ => exact perform_updateElement_charted limits environment
  | newArray => exact perform_newArray_charted limits hsuits
  | newSet => exact perform_newSet_charted limits hsuits
  | newObject => exact perform_newObject_charted limits hsuits
  | buildString => exact perform_buildString_charted limits hsuits
  | loadFunction =>
    refine .bind .countOperand ?_
    rintro t t' target _ - - ⟨rfl, -, rfl⟩
    refine .push ⟨?_, fun _ _ hv => by cases hv⟩
    rw [Chart.value, Value.relabel_function, hsuits.function rfl]
    rfl
  | callExternal => exact perform_callExternal_charted limits hsuits
  | loadExternal => exact perform_loadExternal_charted limits hsuits
  | pushReturn w => exact .get fun hs => .push hs.returned
  | _ => exact .same

theorem step_charted (hsuits : χ.Suits environment op operand s s') :
    χ.Abreast s s' Same (Exec.step limits environment op operand)
      (Exec.step limits environment op operand) := by
  -- what does not jump goes on behind the instruction
  have hother : χ.Abreast s s' Same
      (do Exec.perform limits environment op operand; return Flow.next)
      (do Exec.perform limits environment op operand; return Flow.next) := by
    refine .bind (perform_charted hsuits) ?_
    rintro t t' _ _ - - rfl
    exact .same
  cases op with
  | term => exact .same
  | jump =>
    refine .bind .countOperand ?_
    rintro t t' target _ - - ⟨-, -, rfl⟩
    exact .same
  | branchFalse | branchTrue =>
    refine .bind .countOperand ?_
    rintro t t' target _ - - ⟨-, -, rfl⟩
    refine .bind .pop ?_
    rintro t₁ t₁' v _ - - ⟨⟨rfl, -⟩, -, -⟩
    rw [Value.isTruthy_relabel]
    exact .same
  | branchInt r =>
    refine .bind .countOperand ?_
    rintro t t' target _ - - ⟨-, -, rfl⟩
    refine .bind .popInt ?_
    rintro t₁ t₁' x _ - - rfl
    refine .bind .popInt ?_
    rintro t₂ t₂' y _ - - rfl
    exact .same
  | callInternal =>
    refine .bind .countOperand ?_
    rintro t t' target _ - - ⟨-, -, rfl⟩
    exact .enter
  | ret => exact .leave .null
  | retWith w => exact .bind .pop fun t t' v v' _ _ hv => .leave hv.value
  | _ => exact hother

/-! ### Runs -/

variable {program : Program}

/-- Where two runs stand after an instruction. -/
inductive ProgressAlike (χ : Chart) (s s' : State) : Progress → Progress → Prop where
  | running {t t' : State} (ht : χ.States t t') (hg : χ.Grows s.heap s'.heap t.heap t'.heap) :
      ProgressAlike χ s s' (.running t) (.running t')
  | halted {t t' : State} (ht : χ.States t t') (hg : χ.Grows s.heap s'.heap t.heap t'.heap) :
      ProgressAlike χ s s' (.halted t) (.halted t')
  | failed {f : Fault} {t t' : State} (ht : χ.States t t') (hg : χ.Grows s.heap s'.heap t.heap t'.heap) :
      ProgressAlike χ s s' (.failed f t) (.failed f t')
  | panicked {t t' : State} (ht : χ.States t t') (hg : χ.Grows s.heap s'.heap t.heap t'.heap) :
      ProgressAlike χ s s' (.panicked t) (.panicked t')

theorem proceed_charted {t t' : State} (flow : Flow) (ht : χ.States t t')
    (hg : χ.Grows s.heap s'.heap t.heap t'.heap) :
    χ.ProgressAlike s s' (proceed limits flow t) (proceed limits flow t') := by
  have hchecked : ∀ ip, χ.ProgressAlike s s' (proceed.checked limits { t with ip })
      (proceed.checked limits { t' with ip }) := by
    intro ip
    unfold proceed.checked
    simp only [ht.stack, Array.size_map]
    split
    · exact .failed { ht with ip := rfl, stack := rfl } hg
    · exact .running { ht with ip := rfl, stack := rfl } hg
  cases flow with
  | halt => exact .halted ht hg
  | next =>
    simp only [proceed, ht.ip]
    exact hchecked _
  | jump target => exact hchecked _

/-- The next instruction, if it suits. -/
theorem advance_charted (limits : Limits) (program : Program) (executed : Nat) (hs : χ.States s s')
    (hsuits : ∀ op operand, program.code[s.ip]? = some ⟨.known op, operand⟩ →
      χ.Suits environment op operand s s') :
    χ.ProgressAlike s s' (advance limits environment program executed s)
      (advance limits environment program executed s') := by
  unfold advance
  simp only [hs.ip]
  cases hi : program.code[s.ip]? with
  | none => exact .failed hs .refl
  | some i =>
    obtain ⟨opcode, operand⟩ := i
    cases opcode with
    | unassigned k => exact .failed hs .refl
    | known op =>
      dsimp only
      split
      · exact .failed hs .refl
      · have hstep : χ.Ends s s' Same (Exec.step limits environment op operand s)
            (Exec.step limits environment op operand s') := step_charted (hsuits op operand hi) hs
        generalize Exec.step limits environment op operand s = r,
          Exec.step limits environment op operand s' = r' at hstep
        cases hstep with
        | ok ht hg hflow =>
          obtain rfl := hflow
          exact proceed_charted _ ht hg
        | @error f t t' ht hg =>
          cases f <;> first | exact .panicked ht hg | exact .failed ht hg

/-- What two runs come to within some instructions. -/
inductive OutcomesAlike (χ : Chart) (s s' : State) : Attempt Outcome → Attempt Outcome → Prop where
  | done {o o' : Outcome} (hm : χ.States o.state o'.state)
      (hg : χ.Grows s.heap s'.heap o.state.heap o'.state.heap)
      (hresult : Both (χ.Values o.state.heap.cells.size) o.result o'.result) :
      OutcomesAlike χ s s' (.done o) (.done o')
  | panicked : OutcomesAlike χ s s' .panicked .panicked
  | unfinished : OutcomesAlike χ s s' .unfinished .unfinished

theorem finish_charted {t t' : State} (ht : χ.States t t') : χ.States (finish t).state (finish t').state ∧
    Both (χ.Values (finish t).state.heap.cells.size) (finish t).result (finish t').result := by
  constructor
  · refine ht.withStack ?_ fun w hw => ht.inside w (mem_of_mem_pop hw)
    rw [ht.stack]
    exact Array.map_pop.symm
  · simp only [finish, ht.stack, Array.back?_map]
    exact .ok (.getD fun v hv => ht.inside v (Array.mem_of_back? hv))

/-- Both machines end a run alike, or both panic, or neither ends. -/
theorem runFrom_charted {h h' : Heap} (hχ : χ.Heaps h h')
    (hsuits : ∀ op operand t t', χ.States t t' → χ.Grows h h' t.heap t'.heap → χ.Suits environment op operand t t')
    (count executed : Nat) (hs : χ.States s s') (hg : χ.Grows h h' s.heap s'.heap) :
    χ.OutcomesAlike s s' (runFrom limits environment program count executed s)
      (runFrom limits environment program count executed s') := by
  induction count generalizing executed s s' with
  | zero => exact .unfinished
  | succ count ih =>
    have hone : χ.ProgressAlike s s' (advance limits environment program executed s)
        (advance limits environment program executed s') :=
      advance_charted _ _ executed hs fun op operand _ => hsuits op operand s s' hs hg
    unfold runFrom
    generalize advance limits environment program executed s = p,
      advance limits environment program executed s' = p' at hone
    cases hone with
    | @running t t' ht hgt =>
      have hrest := ih (executed + 1) ht (hg.trans hs.faithful hχ hgt)
      dsimp only
      generalize runFrom limits environment program count (executed + 1) t = x,
        runFrom limits environment program count (executed + 1) t' = x' at hrest ⊢
      cases hrest with
      | done hm hgo hresult => exact .done hm (hgt.trans hs.faithful hs.heap hgo) hresult
      | panicked => exact .panicked
      | unfinished => exact .unfinished
    | halted ht hgt => exact .done (finish_charted ht).1 hgt (finish_charted ht).2
    | failed ht hgt => exact .done ht hgt (.error _)
    | panicked => exact .panicked

end Operations

end Chart

end StackScript
