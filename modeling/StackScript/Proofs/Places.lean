import StackScript.Machine.Run

/-!
# The place of the machine in its program

An operation that does not change the order of instructions leaves the machine at its place in the
program, and in its frame (`Stays.perform`).
-/

namespace StackScript.Machine

open Bytecode Host

/-- A computation that leaves the machine at its place in the program, and in its frame. -/
def Stays {α : Type} (x : Exec α) : Prop := ∀ ⦃s a s'⦄, x s = .ok a s' → s'.ip = s.ip ∧ s'.fp = s.fp

namespace Stays

variable {α β : Type}

theorem pure (a : α) : Stays (pure a) := fun s b s' h => by cases h; exact ⟨rfl, rfl⟩

theorem throw (f : Fault) : Stays (throw f : Exec α) := fun s b s' h => by cases h

theorem bind {x : Exec α} {f : α → Exec β} (hx : Stays x) (hf : ∀ a, Stays (f a)) :
    Stays (x >>= f) := by
  intro s b s' h
  change EStateM.bind x f s = _ at h
  unfold EStateM.bind at h
  cases hxs : x s with
  | ok a s₁ =>
    rw [hxs] at h
    exact ⟨(hf a h).1.trans (hx hxs).1, (hf a h).2.trans (hx hxs).2⟩
  | error e s₁ =>
    rw [hxs] at h
    cases h

theorem get : Stays (get : Exec State) := fun s b s' h => by cases h; exact ⟨rfl, rfl⟩

theorem modify {f : State → State} (hf : ∀ s, (f s).ip = s.ip ∧ (f s).fp = s.fp) :
    Stays (modify f : Exec Unit) :=
  fun s b s' h => by
    cases h
    exact hf s

theorem ite {p : Prop} [Decidable p] {x y : Exec α} (hx : Stays x) (hy : Stays y) :
    Stays (if p then x else y) := by
  split
  · exact hx
  · exact hy

theorem push (v : Value) : Stays (Exec.push v) := modify fun _ => ⟨rfl, rfl⟩

theorem lift (x : Except Fault α) : Stays (Exec.lift x) := by
  cases x with
  | ok a => exact pure a
  | error f => exact throw f

theorem pop : Stays Exec.pop := fun s a s' h => by
  unfold Exec.pop at h
  split at h
  · cases h
    exact ⟨rfl, rfl⟩
  · cases h

theorem popMany (count : Nat) : Stays (Exec.popMany count) := fun s a s' h => by
  unfold Exec.popMany at h
  split at h
  · cases h
    exact ⟨rfl, rfl⟩
  · cases h

theorem mistaken (task : Task) (v : Value) : Stays (Exec.mistaken task v : Exec α) :=
  get.bind fun _ => throw _

theorem mistakenPair (task : Task) (a b : Value) : Stays (Exec.mistakenPair task a b : Exec α) :=
  get.bind fun _ => throw _

theorem popInt (task : Task) : Stays (Exec.popInt task) := pop.bind fun v => by
  cases v <;> first | exact pure _ | exact mistaken _ _

theorem popFloat (task : Task) : Stays (Exec.popFloat task) := pop.bind fun v => by
  cases number? v with
  | some x => exact pure x
  | none => exact mistaken _ _

theorem withHeap (f : Heap → α × Heap) : Stays (Exec.withHeap f) := fun s a s' h => by
  cases h
  exact ⟨rfl, rfl⟩

theorem readHeap (f : Heap → α) : Stays (Exec.readHeap f) := get.bind fun _ => pure _

theorem store (plan : Heap → Except Fault (Ref × Write)) : Stays (Exec.store plan) :=
  get.bind fun _ => (lift _).bind fun _ => withHeap _

theorem invalidOperand (op : Opcode) : Stays (Exec.invalidOperand op : Exec α) :=
  get.bind fun _ => throw _

theorem intOperand (op : Opcode) (x : Operand) : Stays (Exec.intOperand op x) := by
  cases x <;> first | exact pure _ | exact invalidOperand op

theorem countOperand (op : Opcode) (x : Operand) : Stays (Exec.countOperand op x) :=
  (intOperand op x).bind fun _ => ite (pure _) (invalidOperand op)

theorem textOperand (op : Opcode) (x : Operand) : Stays (Exec.textOperand op x) := by
  cases x <;> first | exact pure _ | exact invalidOperand op

theorem variablePlace (a : Area) (op : Opcode) (x : Operand) : Stays (Exec.variablePlace a op x) := by
  refine bind ?_ fun _ => (intOperand op x).bind fun _ => get.bind fun _ =>
    ite (throw _) (ite (pure _) (throw _))
  cases a with
  | own => exact get.bind fun _ => pure _
  | top => exact pure _

theorem anyArith (op : Arith) (a b : Value) : Stays (Exec.anyArith op a b) := by
  have hjoined : Stays (do
      let h := (← MonadState.get).heap
      return .str (h.display a ++ h.display b) : Exec Value) := get.bind fun _ => pure _
  unfold Exec.anyArith
  dsimp only
  split
  · exact (lift _).bind fun _ => pure _
  · exact hjoined
  · exact hjoined
  · split
    · exact pure _
    · exact mistakenPair _ _ _

theorem arith (d : Domain) (op : Arith) : Stays (Exec.arith d op) := by
  cases d with
  | int => exact (popInt _).bind fun _ => (popInt _).bind fun _ => (lift _).bind fun _ => push _
  | float => exact (popFloat _).bind fun _ => (popFloat _).bind fun _ => push _
  | any => exact pop.bind fun _ => pop.bind fun _ => (anyArith _ _ _).bind fun _ => push _

theorem anyHolds (r : Relation) (a b : Value) : Stays (Exec.anyHolds r a b) := by
  unfold Exec.anyHolds
  split
  · exact pure _
  · exact pure _
  · split
    · exact pure _
    · exact mistakenPair _ _ _

theorem popEqual : Stays Exec.popEqual := pop.bind fun _ => pop.bind fun _ => readHeap _

theorem compare (d : Domain) (r : Relation) : Stays (Exec.compare d r) := by
  unfold Exec.compare
  split
  · exact (popInt _).bind fun _ => (popInt _).bind fun _ => push _
  · exact (popFloat _).bind fun _ => (popFloat _).bind fun _ => push _
  · exact popEqual.bind fun _ => push _
  · exact popEqual.bind fun _ => push _
  · exact pop.bind fun _ => pop.bind fun _ => (anyHolds _ _ _).bind fun _ => push _

theorem negate (d : Domain) : Stays (Exec.negate d) := by
  cases d with
  | int => exact (popInt _).bind fun _ => push _
  | float => exact (popFloat _).bind fun _ => push _
  | any => exact pop.bind fun v => by cases v <;> first | exact push _ | exact mistaken _ _

theorem concat : Stays Exec.concat := pop.bind fun b => pop.bind fun a => by
  cases a <;> cases b <;> first | exact push _ | exact mistakenPair _ _ _

theorem floatToInt : Stays Exec.floatToInt := (popFloat _).bind fun x => by
  cases Decimal.floorToInt? x with
  | some n => exact push _
  | none => exact throw _

theorem elementTarget (op : Opcode) (x : Operand) : Stays (Exec.elementTarget op x) := by
  refine (countOperand op x).bind fun _ => (popMany _).bind fun indices => pop.bind fun _ => ?_
  cases indices.back? with
  | none => exact invalidOperand op
  | some last => exact get.bind fun _ => (lift _).bind fun _ => pure _

theorem pushNew (shape : Shape) (cell : Heap → Cell) : Stays (Exec.pushNew shape cell) :=
  (withHeap _).bind fun _ => push _

theorem callHost (environment : Environment) (callee : Value) (arguments : List Value) :
    Stays (Exec.callHost environment callee arguments) := fun s a s' h => by
  unfold Exec.callHost at h
  split at h
  · dsimp only at h
    split at h
    · cases h
      exact ⟨rfl, rfl⟩
    · cases h
  · cases h

/-- An operation that does not change the order of instructions leaves the machine at its place and in its frame. -/
theorem perform (limits : Limits) (environment : Environment) (op : Opcode) (x : Operand) :
    Stays (Exec.perform limits environment op x) := by
  have hcount := countOperand op x
  have htext := textOperand op x
  cases op
  case allocStack =>
    exact hcount.bind fun _ => get.bind fun _ =>
      ite ((throw _).bind fun _ => modify fun _ => ⟨rfl, rfl⟩) (modify fun _ => ⟨rfl, rfl⟩)
  case popStack => exact hcount.bind fun _ => (popMany _).bind fun _ => pure _
  case loadNull => exact push _
  case loadConst w =>
    cases w with
    | w8 => cases x <;> first | exact push _ | exact invalidOperand _
    | w32 =>
      refine (intOperand _ _).bind fun n => ?_
      cases Decimal.int32OfInt? n with
      | some n => exact push _
      | none => exact invalidOperand _
    | w64 => cases x <;> first | exact push _ | exact invalidOperand _
  case arith d a => exact arith d a
  case negate d => exact negate d
  case notAny | notBool => exact pop.bind fun _ => push _
  case concat => exact concat
  case compare d r => exact compare d r
  case equal | notEqual => exact popEqual.bind fun _ => push _
  case intToFloat => exact (popInt _).bind fun _ => push _
  case floatToInt => exact floatToInt
  case intToString | floatToString => exact pop.bind fun _ => (readHeap _).bind fun _ => push _
  case load => exact (variablePlace _ _ _).bind fun _ => modify fun _ => ⟨rfl, rfl⟩
  case store => exact pop.bind fun _ => (variablePlace _ _ _).bind fun _ => modify fun _ => ⟨rfl, rfl⟩
  case update =>
    exact (variablePlace _ _ _).bind fun _ => get.bind fun _ => (lift _).bind fun _ => modify fun _ => ⟨rfl, rfl⟩
  case loadMember =>
    exact htext.bind fun _ => pop.bind fun _ => get.bind fun _ => (lift _).bind fun _ => push _
  case storeMember => exact htext.bind fun _ => pop.bind fun _ => pop.bind fun _ => store _
  case updateMember => exact htext.bind fun _ => pop.bind fun _ => store _
  case loadElement =>
    exact hcount.bind fun _ => (popMany _).bind fun _ => pop.bind fun _ => get.bind fun _ =>
      (lift _).bind fun _ => push _
  case storeElement => exact (elementTarget _ _).bind fun _ => pop.bind fun _ => store _
  case updateElement => exact (elementTarget _ _).bind fun _ => store _
  case newArray | newSet => exact hcount.bind fun _ => (popMany _).bind fun _ => pushNew _ _
  case newObject =>
    exact hcount.bind fun _ => (popMany _).bind fun _ => (lift _).bind fun _ => pushNew _ _
  case buildString =>
    exact hcount.bind fun _ => (popMany _).bind fun _ => (readHeap _).bind fun _ => push _
  case loadFunction => exact hcount.bind fun _ => push _
  case callExternal =>
    exact hcount.bind fun _ => pop.bind fun _ => (popMany _).bind fun _ => callHost _ _ _
  case loadExternal =>
    refine htext.bind fun name => ?_
    cases environment.get? name with
    | some b => exact (withHeap _).bind fun _ => push _
    | none => exact throw _
  case pushReturn => exact get.bind fun _ => push _
  all_goals exact pure ()

end Stays

theorem countOperand_ok {op : Opcode} {x : Operand} {s s' : State} {n : Nat}
    (h : Exec.countOperand op x s = .ok n s') : x = .int n := by
  cases x with
  | int k =>
    change (if 0 ≤ k then Pure.pure k.toNat else Exec.invalidOperand op : Exec Nat) s = _ at h
    split at h
    · next hk =>
      cases h
      rw [Int.toNat_of_nonneg hk]
    · cases h
  | _ => cases h

/-- What a computation answers that starts with another one. -/
theorem ok_of_bind {α β : Type} {x : Exec α} {f : α → Exec β} {s s' : State} {b : β}
    (h : (x >>= f) s = .ok b s') : ∃ a s₁, x s = .ok a s₁ ∧ f a s₁ = .ok b s' := by
  change EStateM.bind x f s = _ at h
  unfold EStateM.bind at h
  cases hxs : x s with
  | ok a s₁ =>
    rw [hxs] at h
    exact ⟨a, s₁, rfl, h⟩
  | error e s₁ =>
    rw [hxs] at h
    cases h

/-- What a computation fails with that starts with another one. -/
theorem error_of_bind {α β : Type} {x : Exec α} {f : α → Exec β} {s s' : State} {e : Fault}
    (h : (x >>= f) s = .error e s') : x s = .error e s' ∨ ∃ a s₁, x s = .ok a s₁ ∧ f a s₁ = .error e s' := by
  change EStateM.bind x f s = _ at h
  unfold EStateM.bind at h
  cases hxs : x s with
  | ok a s₁ =>
    rw [hxs] at h
    exact .inr ⟨a, s₁, rfl, h⟩
  | error e' s₁ =>
    rw [hxs] at h
    cases h
    exact .inl rfl

end StackScript.Machine
