import StackScript.Machine.Attempt
import StackScript.Machine.Step

/-!
# Runs

A run carries out one instruction after the other until the program ends or fails.  A program need
not end, so `run` is an attempt with a given number of instructions; a run that is still going on
then has no outcome.
-/

namespace StackScript.Machine

open Bytecode Host

def State.initial (heap : Heap) : State := ⟨#[], 0, 0, .null, heap, ""⟩

/-- The machine as it starts a run: heap and output are kept. -/
def State.restart (s : State) : State :=
  { s with stack := #[], ip := 0, fp := 0, returned := .null }

/-- Where a run stands after an instruction. -/
inductive Progress where
  | running (s : State)
  | halted (s : State)
  | failed (f : Fault) (s : State)
  /-- The machine has panicked: nothing comes back from the run. -/
  | panicked (s : State)

/-- What a fault makes of a run. -/
def Progress.stopped (f : Fault) (s : State) : Progress :=
  match f with
  | .addressOverflow => .panicked s
  | f => .failed f s

theorem Progress.stopped_ne_running {f : Fault} {s t : State} : stopped f s ≠ .running t := by
  cases f <;> exact nofun

/-- A fault that is reported is the one that has occurred. -/
theorem Progress.eq_of_stopped {f e : Fault} {s t : State} (h : stopped f s = .failed e t) : f = e ∧ s = t := by
  cases f <;> cases h <;> exact ⟨rfl, rfl⟩

/-- The end of a run: a value or a fault, and the machine as the run leaves it. -/
structure Outcome where
  result : Except Fault Value
  state : State

/-- Goes on behind an instruction.  The height of the stack is checked unless the run ends. -/
def proceed (limits : Limits) (flow : Flow) (s : State) : Progress :=
  match flow with
  | .halt => .halted s
  | .next => checked { s with ip := s.ip + 1 }
  | .jump target => checked { s with ip := target }
where
  /-- The state, unless its stack is too high. -/
  checked (s : State) : Progress :=
    if limits.maxStack < s.stack.size then .failed (.stackOverflow limits.maxStack) s
    else .running s

/-- Carries out the next instruction of a run that has carried out `executed` instructions.  That
there is an instruction and that it is an operation is checked before the fuel. -/
def advance (limits : Limits) (environment : Environment) (program : Program) (executed : Nat)
    (s : State) : Progress :=
  match program.code[s.ip]? with
  | none => .failed (.outOfBounds s.ip) s
  | some ⟨.unassigned n, _⟩ => .failed (.invalidOpcode n) s
  | some ⟨.known op, operand⟩ =>
    match limits.fuel.filter (· ≤ executed) with
    | some limit => .failed (.outOfFuel limit) s
    | none =>
      match Exec.step limits environment op operand s with
      | .ok flow s => proceed limits flow s
      | .error f s => .stopped f s

/-- The end of a run that halts: its value is on top of the stack, and null if there is none. -/
def finish (s : State) : Outcome :=
  ⟨.ok (s.stack.back?.getD .null), { s with stack := s.stack.pop }⟩

/-- Runs for at most `count` instructions; `executed` instructions are behind. -/
def runFrom (limits : Limits) (environment : Environment) (program : Program) :
    Nat → Nat → State → Attempt Outcome
  | 0, _, _ => .unfinished
  | count + 1, executed, s =>
    match advance limits environment program executed s with
    | .running s => runFrom limits environment program count (executed + 1) s
    | .halted s => .done (finish s)
    | .failed f s => .done ⟨.error f, s⟩
    | .panicked _ => .panicked

/-- Runs a program for at most `count` instructions.  A program of another version does not start,
and leaves the machine as it is. -/
def run (limits : Limits) (environment : Environment) (program : Program) (count : Nat)
    (s : State) : Attempt Outcome :=
  if Program.isCompatible program.version then runFrom limits environment program count 0 s.restart
  else .done ⟨.error (.incompatibleProgram currentVersion program.version), s⟩

end StackScript.Machine
