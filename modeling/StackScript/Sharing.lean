import StackScript.Engine

/-!
# An engine that jobs share

Several jobs may evaluate on one engine at the same time.  An evaluation compiles, and then it runs.
Compiling only reads the engine, so jobs may compile side by side; a run has the engine to itself
until it ends, and the other jobs wait.  The steps of different jobs may come in any order.
-/

namespace StackScript

open Bytecode Machine

/-- How far a job has come. -/
inductive Job where
  | asked (source : String)
  | compiled (program : Program)
  /-- It has the engine; so many instructions of its program are behind. -/
  | running (program : Program) (executed : Nat)
  | finished (result : Except Failure Value) (printed : String)
  | panicked

namespace Job

/-- Does the job have the engine to itself? -/
def isRunning : Job → Bool
  | running _ _ => true
  | _ => false

/-- The end of a run, on the engine that it leaves. -/
def ended (e : Engine) (o : Outcome) : Engine × Job :=
  ({ e with machine := o.state }, .finished (o.result.mapError .stopped) o.state.output)

/-- The next step of a job: it compiles, starts a run, or carries out one instruction. -/
def step (e : Engine) : Job → Engine × Job
  | asked source =>
    match e.compile source with
    | .ok program => (e, .compiled program)
    | .error f => (e, .finished (.error f) "")
  | compiled program =>
    let s := { e.machine with output := "" }
    if Program.isCompatible program.version then
      ({ e with machine := s.restart }, .running program 0)
    else ended e ⟨.error (.incompatibleProgram currentVersion program.version), s⟩
  | running program executed =>
    match advance e.settings.limits e.environment program executed e.machine with
    | .running s => ({ e with machine := s }, .running program (executed + 1))
    | .halted s => ended e (finish s)
    | .failed f s => ended e ⟨.error f, s⟩
    | .panicked s => ({ e with machine := s }, .panicked)
  | job => (e, job)

/-- A job on an engine that it has to itself, behind so many steps. -/
def alone (e : Engine) (job : Job) : Nat → Engine × Job
  | 0 => (e, job)
  | count + 1 => let (e, job) := alone e job count; step e job

end Job

/-- An engine and the jobs that evaluate on it. -/
structure Shared where
  engine : Engine
  jobs : List Job

namespace Shared

/-- Is it a job's turn, or has another job the engine to itself? -/
def isFree (s : Shared) (i : Nat) : Bool := (s.jobs.eraseIdx i).all (!·.isRunning)

/-- The next step of a job, if it need not wait. -/
def step (s : Shared) (i : Nat) : Shared :=
  match s.jobs[i]? with
  | some job =>
    if s.isFree i then
      let (engine, job) := job.step s.engine
      ⟨engine, s.jobs.set i job⟩
    else s
  | none => s

/-- Steps one after the other, each by the job whose place the list gives. -/
def run (s : Shared) (schedule : List Nat) : Shared := schedule.foldl step s

/-- How often it is a job's turn when the list calls for it. -/
def turns (s : Shared) (i : Nat) : List Nat → Nat
  | [] => 0
  | j :: schedule => (if j = i ∧ s.isFree i then 1 else 0) + (s.step j).turns i schedule

end Shared

end StackScript
