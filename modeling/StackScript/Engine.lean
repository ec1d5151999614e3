import StackScript.Assembly.Compile
import StackScript.Host.Builtins
import StackScript.Machine.Run
import StackScript.Source.ReadError
import StackScript.Syntax.Parser

/-!
# The engine

An engine has an environment, settings and a machine.  `Engine.compile` makes a program of a source
text, `Engine.run` runs one, and `Engine.eval` does both.  Programs share the environment and the
heap, nothing else: a run starts with an empty stack and no output.  What runs programs is attempted
with at most `count` instructions for each of them.
-/

namespace StackScript

/-- The settings of an engine. -/
structure Settings where
  limits : Machine.Limits
  /-- Is every compiled program to be logged? -/
  trace : Bool
deriving DecidableEq, Repr

/-- The settings of an engine that is given none. -/
def Settings.standard : Settings := ⟨.standard, false⟩

/-- Why a source text has no result. -/
inductive Failure where
  | malformed (fault : Syntax.SyntaxFault) (position : Syntax.Position)
  | rejected (error : Assembly.CompileError)
  | stopped (fault : Machine.Fault)
  | unreadable (path : String) (error : Source.ReadError)
deriving DecidableEq

namespace Failure

def kind : Failure → String
  | malformed _ _ => "SyntaxError"
  | rejected _ => "CompileError"
  | stopped _ => "RuntimeError"
  | unreadable _ _ => "IOError"

/-- What there is to say about a failure. -/
def detail : Failure → String
  | malformed fault position =>
    fault.message ++ " (line " ++ toString position.line
      ++ ", column " ++ toString position.column ++ ")"
  | rejected error => error.message
  | stopped fault => fault.message
  | unreadable path error => "Failed to read " ++ path ++ ": " ++ error.message

def message (f : Failure) : String := f.kind ++ ": " ++ f.detail

def ofSyntax (source : String) (e : Syntax.SyntaxError) : Failure :=
  .malformed e.fault (.ofOffset source e.offset)

end Failure

/-- The program that a source text stands for, as a tree. -/
def parse [Text.IdentifierChars] (source : String) : Except Failure (List Syntax.Stmt) :=
  (Syntax.parseProgram source).mapError (Failure.ofSyntax source)

/-- The program that a source text stands for, as code for the names of a host. -/
def compileSource (environment : Host.Environment) (source : String) :
    Except Failure Bytecode.Program := do
  let body ← parse source
  (Assembly.compile environment body).mapError .rejected

/-- An engine. -/
structure Engine where
  environment : Host.Environment
  settings : Settings
  machine : Machine.State

/-- The end of a run: its result, what it printed, and the engine behind it. -/
structure Evaluation where
  result : Except Failure Value
  printed : String
  engine : Engine

namespace Engine

/-- A new engine with the functions of every host. -/
def new (settings : Settings) : Engine :=
  let (environment, heap) := Host.standard
  ⟨environment, settings, .initial heap⟩

def compile (e : Engine) (source : String) : Except Failure Bytecode.Program :=
  compileSource e.environment source

def compileAll (e : Engine) (sources : List String) : List (Except Failure Bytecode.Program) :=
  sources.map e.compile

/-- A result without a run. -/
def refuse (e : Engine) (f : Failure) : Evaluation := ⟨.error f, "", e⟩

def run (e : Engine) (program : Bytecode.Program) (count : Nat) : Attempt Evaluation :=
  match e with
  | ⟨environment, settings, machine⟩ => do
    let o ← Machine.run settings.limits environment program count { machine with output := "" }
    return ⟨o.result.mapError .stopped, o.state.output, ⟨environment, settings, o.state⟩⟩

def eval (e : Engine) (source : String) (count : Nat) : Attempt Evaluation :=
  match e.compile source with
  | .ok program => e.run program count
  | .error f => .done (e.refuse f)

def evalFile (e : Engine) (read : Source.Reader) (path : String) (count : Nat) :
    Attempt Evaluation :=
  match read path with
  | .ok source => e.eval source count
  | .error error => .done (e.refuse (.unreadable path error))

def evalEach (e : Engine) (count : Nat) : List String → Attempt (List Evaluation)
  | [] => return []
  | source :: rest => do
    let r ← e.eval source count
    return r :: (← r.engine.evalEach count rest)

def evalFiles (e : Engine) (read : Source.Reader) (count : Nat) :
    List String → Attempt (List Evaluation)
  | [] => return []
  | path :: rest => do
    let r ← e.evalFile read path count
    return r :: (← r.engine.evalFiles read count rest)

def display (e : Engine) (v : Value) : String := e.machine.heap.display v

end Engine

end StackScript
