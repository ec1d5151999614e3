import StackScript.Engine
import StackScript.Terminal.Style

/-!
# What is printed

Standard output and standard error, and how results and failures are put there.
-/

namespace StackScript.Terminal

/-- What is printed on standard output, and what on standard error. -/
structure Transcript where
  out : String
  err : String
deriving DecidableEq, Repr

namespace Transcript

def empty : Transcript := ⟨"", ""⟩

/-- Prints a text. -/
def print (t : Transcript) (text : String) : Transcript := { t with out := t.out ++ text }

def say (t : Transcript) (line : String) : Transcript := t.print (line ++ "\n")

/-- Prints a line on standard error: the kind of an error, and what is said about it. -/
def complain (t : Transcript) (kind text : String) : Transcript :=
  { t with err := t.err ++ bold (colored .red kind) ++ ": " ++ text ++ "\n" }

def report (t : Transcript) (f : Failure) : Transcript := t.complain f.kind f.detail

def append (t u : Transcript) : Transcript := ⟨t.out ++ u.out, t.err ++ u.err⟩

end Transcript

end StackScript.Terminal
