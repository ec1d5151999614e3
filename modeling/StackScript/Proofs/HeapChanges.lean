import StackScript.Proofs.Activations
import StackScript.Proofs.Copies

/-!
# What an instruction does with the heap

* `Heap.Keeps`: a heap that has all collections of another one, unchanged.
* `Atomic`: a computation that leaves the heap as it is when it fails; `Quiet` ones leave it as it is in
  any case.
* `step_atomic`: every instruction but the call of a host function is atomic, and those that do not write
  keep the collections that are there.
-/

namespace StackScript

/-- The heap `h'` has all collections of `h`, unchanged. -/
structure Heap.Keeps (h h' : Heap) : Prop where
  size : h.cells.size ≤ h'.cells.size
  cells : ∀ r < h.cells.size, h'.cells[r]? = h.cells[r]?

namespace Heap

variable {h h' h'' : Heap} {r : Ref} {c : Cell}

theorem Keeps.refl : h.Keeps h := ⟨Nat.le_refl _, fun _ _ => rfl⟩

theorem Keeps.trans (h₁ : h.Keeps h') (h₂ : h'.Keeps h'') : h.Keeps h'' :=
  ⟨Nat.le_trans h₁.size h₂.size, fun r hr =>
    (h₂.cells r (Nat.lt_of_lt_of_le hr h₁.size)).trans (h₁.cells r hr)⟩

theorem Keeps.getElem? (hk : h.Keeps h') (hc : h.cells[r]? = some c) : h'.cells[r]? = some c := by
  have hr : r < h.cells.size := (Array.getElem?_eq_some_iff.1 hc).1
  rw [hk.cells r hr, hc]

theorem Keeps.alloc : h.Keeps (h.alloc c).2 := by
  refine ⟨by simp, fun r hr => ?_⟩
  rw [Heap.alloc, Array.getElem?_push, if_neg (Nat.ne_of_lt hr)]

/-- What is not there yet may change. -/
theorem Keeps.modify (hk : h.Keeps h') (hr : h.cells.size ≤ r) (f : Cell → Cell) : h.Keeps (h'.modify r f) := by
  refine ⟨by rw [modify_size]; exact hk.size, fun q hq => ?_⟩
  rw [Heap.modify, Array.getElem?_modify, if_neg (by omega), hk.cells q hq]

theorem mapValues_keeps {f : Copying → Value → Value × Copying} (hf : ∀ (s : Copying) v, s.heap.Keeps (f s v).2.heap)
    (c : Cell) (s : Copying) : s.heap.Keeps (c.mapValues f s).2.heap := by
  have hcarried : ∀ {α β : Type} (get : α → Value) (add : β → α → Value → β) (xs : List α) (out : β)
      (s : Copying), s.heap.Keeps (carried get add f xs out s).2.heap := by
    intro α β get add xs
    induction xs with
    | nil => exact fun _ _ => .refl
    | cons x xs ih => exact fun out s => (hf s (get x)).trans (ih _ _)
  cases c with
  | items values =>
    rw [mapValues_items]
    exact hcarried ..
  | fields named =>
    rw [mapValues_fields]
    exact hcarried ..

theorem copyWithin_keeps (depth : Nat) (s : Copying) (v : Value) :
    s.heap.Keeps (copyWithin depth s v).2.heap := by
  induction depth generalizing s v with
  | zero => exact .refl
  | succ depth ih =>
    cases v with
    | ref shape r =>
      cases hl : s.copies.lookup (shape.address r) with
      | some copy =>
        simp only [copyWithin, hl]
        exact .refl
      | none =>
        rw [copyWithin_new hl]
        have hvalues := mapValues_keeps ih (s.heap.stored shape r) ⟨(s.heap.alloc (s.heap.stored shape r).blank).2,
          (shape.address r, .ref shape s.heap.cells.size) :: s.copies⟩
        exact (Keeps.alloc.trans hvalues).modify (Nat.le_refl _) _
    | _ => exact .refl

/-- A deep copy leaves all collections as they are. -/
theorem deepCopy_keeps (h : Heap) (v : Value) : h.Keeps (h.deepCopy v).2 := copyWithin_keeps _ ⟨h, []⟩ v

end Heap

namespace Machine

open Bytecode Host

/-- The instructions that write to collections that are there. -/
def writes : Opcode → Bool
  | .storeMember _ | .updateMember _ | .storeElement _ | .updateElement _ | .callExternal => true
  | _ => false

/-- What instructions that do not write leave of a heap: all collections that are there. -/
def Spares (op : Opcode) (h h' : Heap) : Prop := writes op = false → h.Keeps h'

/-- A computation that leaves the heap as it is when it fails, and relates it as `R` says when it ends. -/
def Atomic {α : Type} (R : Heap → Heap → Prop) (x : Exec α) : Prop :=
  ∀ s, (∀ a t, x s = .ok a t → R s.heap t.heap) ∧ ∀ f t, x s = .error f t → t.heap = s.heap

/-- A computation that leaves the heap as it is. -/
abbrev Quiet {α : Type} (x : Exec α) : Prop := Atomic (fun h h' => h' = h) x

/-- A computation that never fails and leaves the heap as it is. -/
def Smooth {α : Type} (x : Exec α) : Prop := ∀ s, ∃ a t, x s = .ok a t ∧ t.heap = s.heap

section Atomic

variable {α β : Type} {R : Heap → Heap → Prop} {op : Opcode} {x : Operand} {v : Value}

/-! ### Computations one after the other -/

namespace Smooth

theorem pure (a : α) : Smooth (Pure.pure a : Exec α) := fun s => ⟨a, s, rfl, rfl⟩

theorem modify {g : State → State} (hg : ∀ s, (g s).heap = s.heap) : Smooth (modify g : Exec Unit) :=
  fun s => ⟨(), g s, rfl, hg s⟩

theorem push : Smooth (Exec.push v) := modify fun _ => rfl

end Smooth

theorem Smooth.quiet {y : Exec α} (hy : Smooth y) : Quiet y := by
  intro s
  obtain ⟨a, t, hok, hheap⟩ := hy s
  constructor
  · intro b u h
    rw [hok] at h
    cases h
    exact hheap
  · intro f u h
    rw [hok] at h
    cases h

namespace Atomic

theorem pure (a : α) : Quiet (Pure.pure a : Exec α) := (Smooth.pure a).quiet

theorem get : Quiet (MonadState.get : Exec State) := by
  intro s
  constructor
  · intro a t h
    cases h
    rfl
  · intro f t h
    cases h

theorem modify {g : State → State} (hg : ∀ s, (g s).heap = s.heap) : Quiet (modify g : Exec Unit) :=
  (Smooth.modify hg).quiet

theorem throw (f : Fault) : Atomic R (MonadExcept.throw f : Exec α) := by
  intro s
  constructor
  · intro a t h
    cases h
  · intro e t h
    cases h
    rfl

theorem weaken {R' : Heap → Heap → Prop} {y : Exec α} (hy : Atomic R y) (h : ∀ h h', R h h' → R' h h') :
    Atomic R' y := fun s => ⟨fun a t hok => h _ _ ((hy s).1 a t hok), (hy s).2⟩

/-- What comes first leaves the heap as it is. -/
theorem bind {y : Exec α} {f : α → Exec β} (hy : Quiet y) (hf : ∀ a, Atomic R (f a)) :
    Atomic R (y >>= f) := by
  intro s
  cases hs : y s with
  | ok a u =>
    have hheap := (hy s).1 a u hs
    rw [bind_ok hs, ← hheap]
    exact hf a u
  | error e u =>
    rw [bind_error hs]
    constructor
    · intro a t h
      cases h
    · intro f t h
      cases h
      exact (hy s).2 e u hs

/-- What comes last never fails. -/
theorem andThen {y : Exec α} {f : α → Exec β} (hy : Atomic R y) (hf : ∀ a, Smooth (f a)) :
    Atomic R (y >>= f) := by
  intro s
  cases hs : y s with
  | ok a u =>
    obtain ⟨b, v, hok, hheap⟩ := hf a u
    rw [bind_ok hs, hok]
    constructor
    · intro c t h
      cases h
      rw [hheap]
      exact (hy s).1 a u hs
    · intro f t h
      cases h
  | error e u =>
    rw [bind_error hs]
    constructor
    · intro a t h
      cases h
    · intro f t h
      cases h
      exact (hy s).2 e u hs

theorem ite {c : Prop} [Decidable c] {y z : Exec α} (hy : Atomic R y) (hz : Atomic R z) :
    Atomic R (if c then y else z) := by
  split
  · exact hy
  · exact hz

/-! ### The stack and the operands -/

theorem lift (y : Except Fault α) : Quiet (Exec.lift y) := by
  cases y with
  | ok a => exact pure a
  | error f => exact throw f

theorem push : Quiet (Exec.push v) := Smooth.push.quiet

theorem pop : Quiet Exec.pop := by
  intro s
  unfold Exec.pop
  split
  · constructor <;> intro a t h <;> cases h
    rfl
  · constructor <;> intro a t h <;> cases h
    rfl

theorem popMany (count : Nat) : Quiet (Exec.popMany count) := by
  intro s
  unfold Exec.popMany
  split
  · constructor <;> intro a t h <;> cases h
    rfl
  · constructor <;> intro a t h <;> cases h
    rfl

theorem mistaken (task : Task) : Quiet (Exec.mistaken task v : Exec α) := get.bind fun _ => throw _

theorem mistakenPair (task : Task) (a b : Value) : Quiet (Exec.mistakenPair task a b : Exec α) :=
  get.bind fun _ => throw _

theorem popInt (task : Task) : Quiet (Exec.popInt task) := by
  refine pop.bind fun v => ?_
  cases v <;> first | exact pure _ | exact mistaken task

theorem popFloat (task : Task) : Quiet (Exec.popFloat task) := by
  refine pop.bind fun v => ?_
  cases number? v <;> first | exact pure _ | exact mistaken task

theorem popAddress : Quiet Exec.popAddress := by
  refine pop.bind fun v => ?_
  split
  · exact ite (pure _) (get.bind fun _ => throw _)
  · exact get.bind fun _ => throw _

theorem encodeAddress (limits : Limits) (address : Nat) : Quiet (Exec.encodeAddress limits address) :=
  ite (pure _) (throw _)

theorem readHeap (g : Heap → α) : Quiet (Exec.readHeap g) := get.bind fun _ => pure _

theorem invalidOperand : Quiet (Exec.invalidOperand op : Exec α) := get.bind fun _ => throw _

theorem intOperand : Quiet (Exec.intOperand op x) := by
  cases x <;> first | exact pure _ | exact invalidOperand

theorem countOperand : Quiet (Exec.countOperand op x) :=
  intOperand.bind fun _ => ite (pure _) invalidOperand

theorem textOperand : Quiet (Exec.textOperand op x) := by
  cases x <;> first | exact pure _ | exact invalidOperand

theorem variablePlace (a : Area) : Quiet (Exec.variablePlace a op x) := by
  refine bind (y := Exec.baseOf a) ?_ fun _ => intOperand.bind fun _ => get.bind fun _ => ?_
  · cases a with
    | own => exact get.bind fun _ => pure _
    | top => exact pure _
  · exact ite (throw _) (ite (pure _) (throw _))

theorem elementTarget : Quiet (Exec.elementTarget op x) := by
  refine countOperand.bind fun n => (popMany n).bind fun indices => pop.bind fun v => ?_
  split
  · exact invalidOperand
  · exact get.bind fun _ => (lift _).bind fun _ => pure _

/-! ### Arithmetic and comparison -/

theorem anyArith (o : Arith) (a b : Value) : Quiet (Exec.anyArith o a b) := by
  unfold Exec.anyArith
  dsimp only
  split
  · exact (lift _).bind fun _ => pure _
  · exact get.bind fun _ => pure _
  · exact get.bind fun _ => pure _
  · split
    · exact pure _
    · exact mistakenPair _ _ _

theorem arith (d : Domain) (o : Arith) : Quiet (Exec.arith d o) := by
  cases d with
  | int => exact (popInt _).bind fun _ => (popInt _).bind fun _ => (lift _).bind fun _ => push
  | float => exact (popFloat _).bind fun _ => (popFloat _).bind fun _ => push
  | any => exact pop.bind fun _ => pop.bind fun _ => (anyArith _ _ _).bind fun _ => push

theorem anyHolds (r : Relation) (a b : Value) : Quiet (Exec.anyHolds r a b) := by
  unfold Exec.anyHolds
  split
  · exact pure _
  · exact pure _
  · split
    · exact pure _
    · exact mistakenPair _ _ _

theorem popEqual : Quiet Exec.popEqual := pop.bind fun _ => pop.bind fun _ => readHeap _

theorem compare (d : Domain) (r : Relation) : Quiet (Exec.compare d r) := by
  cases d with
  | int => exact (popInt _).bind fun _ => (popInt _).bind fun _ => push
  | float => exact (popFloat _).bind fun _ => (popFloat _).bind fun _ => push
  | any =>
    cases r with
    | eq | ne => exact popEqual.bind fun _ => push
    | _ => exact pop.bind fun _ => pop.bind fun _ => (anyHolds _ _ _).bind fun _ => push

theorem negate (d : Domain) : Quiet (Exec.negate d) := by
  cases d with
  | int => exact (popInt _).bind fun _ => push
  | float => exact (popFloat _).bind fun _ => push
  | any =>
    refine pop.bind fun v => ?_
    cases v <;> first | exact push | exact mistaken _

theorem concat : Quiet Exec.concat := by
  refine pop.bind fun b => pop.bind fun a => ?_
  split
  · exact push
  · exact mistakenPair _ _ _

theorem floatToInt : Quiet Exec.floatToInt := by
  refine (popFloat _).bind fun y => ?_
  split
  · exact push
  · exact throw _

/-! ### Calls -/

theorem leave : Quiet (Exec.leave v) := by
  refine bind (modify fun _ => rfl) fun _ => get.bind fun s => ?_
  split
  · exact push.bind fun _ => pure _
  · exact bind (modify fun _ => rfl) fun _ => popAddress.bind fun _ => popAddress.bind fun _ =>
      bind (modify fun _ => rfl) fun _ => pure _

theorem enter (limits : Limits) (target : Nat) : Quiet (Exec.enter limits target) := by
  refine get.bind fun _ => (encodeAddress _ _).bind fun _ => (encodeAddress _ _).bind fun _ =>
    push.bind fun _ => push.bind fun _ => ?_
  exact bind (modify fun _ => rfl) fun _ => pure _

/-! ### Work on the heap -/

theorem withHeap {g : Heap → α × Heap} (hg : ∀ h, R h (g h).2) : Atomic R (Exec.withHeap g) := by
  intro s
  constructor
  · intro a t h
    cases h
    exact hg s.heap
  · intro f t h
    cases h

theorem of_quiet {y : Exec α} (hy : Quiet y) : Atomic (Spares op) y := hy.weaken fun _ _ h _ => h ▸ .refl

/-- A store is planned before it is carried out. -/
theorem store (hop : writes op = true) (plan : Heap → Except Fault (Ref × Write)) :
    Atomic (Spares op) (Exec.store plan) := by
  intro s
  unfold Exec.store
  rw [bind_get]
  cases hp : plan s.heap with
  | ok p =>
    rw [bind_ok (rfl : Exec.lift (.ok p) s = .ok p s)]
    refine withHeap (fun h hfalse => ?_) s
    rw [hop] at hfalse
    cases hfalse
  | error f =>
    rw [bind_error (rfl : Exec.lift (.error f : Except Fault (Ref × Write)) s = .error f s)]
    exact throw f s

theorem pushNew (shape : Shape) (cell : Heap → Cell) : Atomic (Spares op) (Exec.pushNew shape cell) :=
  (withHeap fun _ _ => .alloc).andThen fun _ => .push

end Atomic

end Atomic

/-! ### All instructions -/

section Instructions

variable {environment : Environment} {op : Opcode} {x : Operand}

open Atomic in
theorem perform_atomic (limits : Limits) (hop : op ≠ .callExternal) :
    Atomic (Spares op) (Exec.perform limits environment op x) := by
  cases op with
  | allocStack =>
    -- most operations leave the heap alone; the others change it in their last step
    exact of_quiet (countOperand.bind fun _ => get.bind fun _ => ite (throw _) (modify fun _ => rfl))
  | popStack => exact of_quiet (countOperand.bind fun n => bind (popMany n) fun _ => pure ())
  | loadNull => exact of_quiet push
  | loadConst w =>
    cases w with
    | w8 => cases x <;> first | exact of_quiet push | exact of_quiet invalidOperand
    | w32 =>
      refine of_quiet (intOperand.bind fun n => ?_)
      split
      · exact push
      · exact invalidOperand
    | w64 => cases x <;> first | exact of_quiet push | exact of_quiet invalidOperand
  | arith d o => exact of_quiet (arith d o)
  | negate d => exact of_quiet (negate d)
  | notAny | notBool => exact of_quiet (pop.bind fun _ => push)
  | concat => exact of_quiet concat
  | compare d r => exact of_quiet (compare d r)
  | equal _ | notEqual _ => exact of_quiet (popEqual.bind fun _ => push)
  | intToFloat => exact of_quiet ((popInt _).bind fun _ => push)
  | floatToInt => exact of_quiet floatToInt
  | intToString | floatToString =>
    exact of_quiet (pop.bind fun _ => (readHeap _).bind fun _ => push)
  | load a w => exact of_quiet ((variablePlace a).bind fun _ => modify fun _ => rfl)
  | store a w => exact of_quiet (pop.bind fun _ => (variablePlace a).bind fun _ => modify fun _ => rfl)
  | update a u =>
    exact of_quiet ((variablePlace a).bind fun _ => get.bind fun _ => (lift _).bind fun _ =>
      modify fun _ => rfl)
  | loadMember w =>
    exact of_quiet (textOperand.bind fun _ => pop.bind fun _ => get.bind fun _ => (lift _).bind fun _ => push)
  | storeMember w => exact textOperand.bind fun _ => pop.bind fun _ => pop.bind fun _ => Atomic.store rfl _
  | updateMember u => exact textOperand.bind fun _ => pop.bind fun _ => Atomic.store rfl _
  | loadElement w =>
    exact of_quiet (countOperand.bind fun _ => (popMany _).bind fun _ => pop.bind fun _ => get.bind fun _ =>
      (lift _).bind fun _ => push)
  | storeElement w => exact elementTarget.bind fun _ => pop.bind fun _ => Atomic.store rfl _
  | updateElement u => exact elementTarget.bind fun _ => Atomic.store rfl _
  | newArray | newSet => exact countOperand.bind fun _ => (popMany _).bind fun _ => pushNew _ _
  | newObject =>
    exact countOperand.bind fun _ => (popMany _).bind fun _ => (lift _).bind fun _ => pushNew _ _
  | buildString =>
    exact of_quiet (countOperand.bind fun _ => (popMany _).bind fun _ => (readHeap _).bind fun _ => push)
  | loadFunction => exact of_quiet (countOperand.bind fun _ => push)
  | callExternal => exact absurd rfl hop
  | loadExternal =>
    refine textOperand.bind fun name => ?_
    split
    · exact (withHeap fun h _ => h.deepCopy_keeps _).andThen fun _ => .push
    · exact throw _
  | pushReturn w => exact of_quiet (get.bind fun _ => push)
  | term | jump | branchFalse | branchTrue | branchInt _ | callInternal | ret | retWith _ =>
    exact of_quiet (pure _)

open Atomic in
/-- An instruction that is no call of a host function leaves the heap as it is if it fails, and all
collections that are there if it does not write. -/
theorem step_atomic (limits : Limits) (hop : op ≠ .callExternal) :
    Atomic (Spares op) (Exec.step limits environment op x) := by
  cases op with
  | term => exact of_quiet (pure _)
  | jump => exact of_quiet (countOperand.bind fun _ => pure _)
  | branchFalse | branchTrue => exact of_quiet (countOperand.bind fun _ => pop.bind fun _ => pure _)
  | branchInt r =>
    exact of_quiet (countOperand.bind fun _ => (popInt _).bind fun _ => (popInt _).bind fun _ => pure _)
  | callInternal => exact of_quiet (countOperand.bind fun _ => enter limits _)
  | ret => exact of_quiet leave
  | retWith w => exact of_quiet (pop.bind fun _ => leave)
  | _ => exact (perform_atomic limits hop).andThen fun _ => .pure _

end Instructions

end Machine

end StackScript
