import StackScript.Assembly.StmtCode

/-!
# From trees to programs

The buffers of a written program are laid out one behind the other, the main stream first and the
function bodies in the order in which they were written, and every label becomes the index of the
instruction it is bound to.
-/

namespace StackScript.Assembly

open Bytecode Host Syntax

/-- The index of the first instruction of each buffer, for buffers from index `start` on. -/
def basesFrom : Nat → List (Array Draft) → List Nat
  | _, [] => []
  | start, code :: rest => start :: basesFrom (start + code.size) rest

def Draft.resolve (labels : LabelTable) (bases : Array Nat) (d : Draft) :
    Except CompileError Instruction :=
  match d.operand with
  | .label l =>
    match labels.get? l with
    | some point =>
      .ok ⟨.known d.opcode, .int (Int.ofNat (bases.getD point.buffer 0 + point.position))⟩
    | none => .error (.unresolvedLabel l)
  | operand => .ok ⟨.known d.opcode, operand⟩

def Writer.finish (w : Writer) : Except CompileError Program := do
  let bases := (basesFrom 0 w.buffers.toList).toArray
  let drafts := w.buffers.flatMap id
  return Program.ofCode (← drafts.mapM (Draft.resolve w.labels bases))

def compileWith (setting : Setting) (body : List Stmt) : Except CompileError Program := do
  let (_, w) ← (Write.program setting body).run .empty
  w.finish

/-- Compiles a program for the names of a host. -/
def compile (environment : Environment) (body : List Stmt) : Except CompileError Program :=
  compileWith ⟨environment, true⟩ body

end StackScript.Assembly
