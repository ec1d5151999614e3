import StackScript.Proofs.Activations

/-!
# What an instruction itself fails with

Some faults come up before an instruction is carried out, and no instruction fails with one of them,
whatever the functions of the host answer (`OwnFaults.step`).  A place that does not fit in 64 bits
is a fault of the instructions on variables only.
-/

namespace StackScript.Machine

open Bytecode Host

/-- Is the fault one of an instruction that is carried out, where `slot` tells whether it reads or writes the
cell of a variable?  The others come up before: when a program starts, when the next instruction is looked up,
and when it has no fuel. -/
def Fault.ofStep (slot : Bool) : Fault → Bool
  | .outOfFuel _ | .outOfBounds _ | .invalidOpcode _ | .incompatibleProgram _ _ => false
  | .addressOverflow => slot
  | _ => true

theorem Fault.ofStep_of_ofValues {slot : Bool} {f : Fault} (h : f.ofValues = true) : f.ofStep slot = true := by
  cases f <;> first | rfl | cases h

/-- From no state does the computation fail with a fault that comes up before an instruction. -/
def OwnFaults (slot : Bool) {α : Type} (x : Exec α) : Prop :=
  ∀ s f t, x s = .error f t → f.ofStep slot = true

namespace OwnFaults

variable {α β : Type} {slot : Bool} {op : Opcode} {x : Operand} {v : Value}

theorem of_ok {y : Exec α} (hy : ∀ s, ∃ a t, y s = .ok a t) : OwnFaults slot y := by
  intro s f t h
  obtain ⟨a, u, hok⟩ := hy s
  rw [hok] at h
  cases h

theorem pure (a : α) : OwnFaults slot (Pure.pure a : Exec α) := .of_ok fun s => ⟨a, s, rfl⟩

theorem get : OwnFaults slot (MonadState.get : Exec State) := .of_ok fun s => ⟨s, s, rfl⟩

theorem modify (g : State → State) : OwnFaults slot (modify g : Exec Unit) := .of_ok fun s => ⟨(), g s, rfl⟩

theorem withHeap (g : Heap → α × Heap) : OwnFaults slot (Exec.withHeap g) := .of_ok fun _ => ⟨_, _, rfl⟩

theorem throw {f : Fault} (hf : f.ofStep slot = true) : OwnFaults slot (MonadExcept.throw f : Exec α) := by
  intro s e t h
  cases h
  exact hf

theorem bind {y : Exec α} {f : α → Exec β} (hy : OwnFaults slot y) (hf : ∀ a, OwnFaults slot (f a)) :
    OwnFaults slot (y >>= f) := by
  intro s e t h
  cases hs : y s with
  | ok a u =>
    rw [bind_ok hs] at h
    exact hf a u e t h
  | error e' u =>
    rw [bind_error hs] at h
    cases h
    exact hy s e t hs

theorem lift {y : Except Fault α} (hy : Benign y) : OwnFaults slot (Exec.lift y) := by
  cases y with
  | ok a => exact .pure a
  | error f => exact .throw (Fault.ofStep_of_ofValues (hy f rfl))

theorem pop : OwnFaults slot Exec.pop := by
  intro s e t h
  unfold Exec.pop at h
  split at h <;> cases h
  rfl

theorem popMany (count : Nat) : OwnFaults slot (Exec.popMany count) := by
  intro s e t h
  unfold Exec.popMany at h
  split at h <;> cases h
  rfl

theorem mistaken (task : Task) : OwnFaults slot (Exec.mistaken task v : Exec α) := .throw rfl

theorem mistakenPair (task : Task) (a b : Value) : OwnFaults slot (Exec.mistakenPair task a b : Exec α) :=
  .throw rfl

theorem popInt (task : Task) : OwnFaults slot (Exec.popInt task) := by
  refine pop.bind fun v => ?_
  cases v <;> first | exact .pure _ | exact .mistaken task

theorem popFloat (task : Task) : OwnFaults slot (Exec.popFloat task) := by
  refine pop.bind fun v => ?_
  cases number? v <;> first | exact .pure _ | exact .mistaken task

theorem popAddress : OwnFaults slot Exec.popAddress := by
  refine pop.bind fun v => ?_
  split
  · split
    · exact .pure _
    · exact get.bind fun _ => .throw rfl
  · exact get.bind fun _ => .throw rfl

theorem encodeAddress (limits : Limits) (address : Nat) : OwnFaults slot (Exec.encodeAddress limits address) := by
  unfold Exec.encodeAddress
  split
  · exact .pure _
  · exact .throw rfl

theorem push : OwnFaults slot (Exec.push v) := .modify _

theorem readHeap (g : Heap → α) : OwnFaults slot (Exec.readHeap g) := get.bind fun _ => .pure _

theorem store {plan : Heap → Except Fault (Ref × Write)} (hplan : ∀ heap, Benign (plan heap)) :
    OwnFaults slot (Exec.store plan) :=
  get.bind fun s => (lift (hplan s.heap)).bind fun _ => .withHeap _

theorem invalidOperand : OwnFaults slot (Exec.invalidOperand op : Exec α) := get.bind fun _ => .throw rfl

theorem intOperand : OwnFaults slot (Exec.intOperand op x) := by
  cases x <;> first | exact .pure _ | exact .invalidOperand

theorem countOperand : OwnFaults slot (Exec.countOperand op x) := by
  refine intOperand.bind fun n => ?_
  split
  · exact .pure _
  · exact .invalidOperand

theorem textOperand : OwnFaults slot (Exec.textOperand op x) := by
  cases x <;> first | exact .pure _ | exact .invalidOperand

theorem variablePlace (a : Area) : OwnFaults true (Exec.variablePlace a op x) := by
  refine bind (by cases a <;> first | exact .pure _ | exact get.bind fun _ => .pure _) fun base => ?_
  refine intOperand.bind fun offset => get.bind fun s => ?_
  split
  · exact .throw rfl
  · split
    · exact .pure _
    · exact .throw rfl

theorem elementTarget : OwnFaults slot (Exec.elementTarget op x) := by
  refine countOperand.bind fun _ => (popMany _).bind fun indices => pop.bind fun _ => ?_
  cases indices.back? with
  | none => exact .invalidOperand
  | some last => exact get.bind fun _ => (lift .loadPath).bind fun _ => .pure _

theorem anyArith (o : Arith) (a b : Value) : OwnFaults slot (Exec.anyArith o a b) := by
  unfold Exec.anyArith
  split
  · exact (lift .intArith).bind fun _ => .pure _
  · exact get.bind fun _ => .pure _
  · exact get.bind fun _ => .pure _
  · split
    · exact .pure _
    · exact .mistakenPair _ _ _

theorem arith (d : Domain) (o : Arith) : OwnFaults slot (Exec.arith d o) := by
  cases d with
  | int =>
    exact (popInt _).bind fun _ => (popInt _).bind fun _ => (lift .intArith).bind fun _ => .push
  | float => exact (popFloat _).bind fun _ => (popFloat _).bind fun _ => .push
  | any => exact pop.bind fun _ => pop.bind fun _ => (anyArith _ _ _).bind fun _ => .push

theorem anyHolds (r : Relation) (a b : Value) : OwnFaults slot (Exec.anyHolds r a b) := by
  unfold Exec.anyHolds
  split
  · exact .pure _
  · exact .pure _
  · split
    · exact .pure _
    · exact .mistakenPair _ _ _

theorem popEqual : OwnFaults slot Exec.popEqual := pop.bind fun _ => pop.bind fun _ => .readHeap _

theorem compare (d : Domain) (r : Relation) : OwnFaults slot (Exec.compare d r) := by
  unfold Exec.compare
  split
  · exact (popInt _).bind fun _ => (popInt _).bind fun _ => .push
  · exact (popFloat _).bind fun _ => (popFloat _).bind fun _ => .push
  · exact popEqual.bind fun _ => .push
  · exact popEqual.bind fun _ => .push
  · exact pop.bind fun _ => pop.bind fun _ => (anyHolds _ _ _).bind fun _ => .push

theorem negate (d : Domain) : OwnFaults slot (Exec.negate d) := by
  cases d with
  | int => exact (popInt _).bind fun _ => .push
  | float => exact (popFloat _).bind fun _ => .push
  | any =>
    refine pop.bind fun v => ?_
    cases v <;> first | exact .push | exact .mistaken _

theorem concat : OwnFaults slot Exec.concat := by
  refine pop.bind fun b => pop.bind fun a => ?_
  split
  · exact .push
  · exact .mistakenPair _ _ _

theorem floatToInt : OwnFaults slot Exec.floatToInt := by
  refine (popFloat _).bind fun y => ?_
  split
  · exact .push
  · exact .throw rfl

theorem pushNew (shape : Shape) (cell : Heap → Cell) : OwnFaults slot (Exec.pushNew shape cell) :=
  (withHeap _).bind fun _ => .push

theorem leave : OwnFaults slot (Exec.leave v) := by
  refine (modify _).bind fun _ => get.bind fun s => ?_
  split
  · exact push.bind fun _ => .pure _
  · exact (modify _).bind fun _ => popAddress.bind fun _ => popAddress.bind fun _ =>
      (modify _).bind fun _ => .pure _

theorem enter (limits : Limits) (target : Nat) : OwnFaults slot (Exec.enter limits target) :=
  get.bind fun _ => (encodeAddress limits _).bind fun _ => (encodeAddress limits _).bind fun _ =>
    push.bind fun _ => push.bind fun _ => (modify _).bind fun _ => .pure _

theorem callHost (environment : Environment) (arguments : List Value) :
    OwnFaults slot (Exec.callHost environment v arguments) := by
  intro s e t h
  unfold Exec.callHost at h
  split at h
  · dsimp only at h
    split at h <;> cases h
    rfl
  · cases h
    rfl

theorem perform (limits : Limits) (environment : Environment) :
    OwnFaults (accessesSlot op) (Exec.perform limits environment op x) := by
  cases op with
  | allocStack =>
    refine countOperand.bind fun _ => get.bind fun _ => ?_
    split
    · exact .throw rfl
    · exact .modify _
  | popStack =>
    refine countOperand.bind fun n => ?_
    exact OwnFaults.bind (popMany n) fun _ => .pure ()
  | loadNull => exact .push
  | loadConst w =>
    cases w with
    | w8 => cases x <;> first | exact .push | exact .invalidOperand
    | w32 =>
      refine intOperand.bind fun n => ?_
      split
      · exact .push
      · exact .invalidOperand
    | w64 => cases x <;> first | exact .push | exact .invalidOperand
  | arith d o => exact .arith d o
  | negate d => exact .negate d
  | notAny | notBool => exact pop.bind fun _ => .push
  | concat => exact .concat
  | compare d r => exact .compare d r
  | equal _ | notEqual _ => exact popEqual.bind fun _ => .push
  | intToFloat => exact (popInt _).bind fun _ => .push
  | floatToInt => exact .floatToInt
  | intToString | floatToString => exact pop.bind fun _ => (readHeap _).bind fun _ => .push
  | load a w => exact (variablePlace a).bind fun _ => .modify _
  | store a w => exact pop.bind fun _ => (variablePlace a).bind fun _ => .modify _
  | update a u =>
    exact (variablePlace a).bind fun _ => get.bind fun _ => (lift .bump).bind fun _ => .modify _
  | loadMember w =>
    exact textOperand.bind fun _ => pop.bind fun _ => get.bind fun _ => (lift .loadMember).bind fun _ => .push
  -- a store fails for its own reasons before anything is written
  | storeMember w =>
    exact textOperand.bind fun _ => pop.bind fun _ => pop.bind fun _ => store fun _ => .storeMember
  | updateMember u =>
    exact textOperand.bind fun _ => pop.bind fun _ => store fun _ =>
      .bind .loadMember fun _ _ => .bind .bump fun _ _ => .storeMember
  | loadElement w =>
    exact countOperand.bind fun _ => (popMany _).bind fun _ => pop.bind fun _ => get.bind fun _ =>
      (lift .loadPath).bind fun _ => .push
  | storeElement w => exact elementTarget.bind fun _ => pop.bind fun _ => store fun _ => .storeElement
  | updateElement u =>
    exact elementTarget.bind fun _ => store fun _ =>
      .bind .loadElement fun _ _ => .bind .bump fun _ _ => .storeElement
  | newArray | newSet => exact countOperand.bind fun _ => (popMany _).bind fun _ => .pushNew _ _
  | newObject =>
    exact countOperand.bind fun _ => (popMany _).bind fun _ =>
      (lift (.pairUp _)).bind fun _ => .pushNew _ _
  | buildString => exact countOperand.bind fun _ => (popMany _).bind fun _ => (readHeap _).bind fun _ => .push
  | loadFunction => exact countOperand.bind fun _ => .push
  | callExternal =>
    exact countOperand.bind fun _ => pop.bind fun _ => (popMany _).bind fun _ => .callHost environment _
  | loadExternal =>
    refine textOperand.bind fun name => ?_
    split
    · exact (withHeap _).bind fun _ => .push
    · exact .throw rfl
  | pushReturn w => exact get.bind fun _ => .push
  | term | jump | branchFalse | branchTrue | branchInt _ | callInternal | ret | retWith _ => exact .pure _

theorem step (limits : Limits) (environment : Environment) :
    OwnFaults (accessesSlot op) (Exec.step limits environment op x) := by
  cases op with
  | term => exact .pure _
  | jump => exact countOperand.bind fun _ => .pure _
  | branchFalse | branchTrue => exact countOperand.bind fun _ => pop.bind fun _ => .pure _
  | branchInt r =>
    exact countOperand.bind fun _ => (popInt _).bind fun _ => (popInt _).bind fun _ => .pure _
  | callInternal => exact countOperand.bind fun _ => .enter limits _
  | ret => exact .leave
  | retWith w => exact pop.bind fun _ => .leave
  | _ => exact (perform limits environment).bind fun _ => .pure _

end OwnFaults

end StackScript.Machine
