import StackScript.CommandLine.Invocation

/-!
# The command line

Connects the program with the system: arguments, environment variables, files and the standard
streams.  Only the reading and printing is here; every answer is computed by `CommandLine` and
`Shell`.
-/

namespace StackScript.CommandLine

open Terminal

/-- The reading error for an error of the system. -/
def readErrorOf : IO.Error → Source.ReadError
  | .noFileOrDirectory .. => .notFound
  | .inappropriateType .. => .isADirectory
  | e => .other (toString e)

/-- Reads the file that is about to be asked for, if there is one.  The answer is the same for every
path. -/
def readerOf : Option String → IO Source.Reader
  | none => return fun _ => .error .notFound
  | some path => do
    let text ←
      try pure (Source.ofBytes (← IO.FS.readBinFile path))
      catch e => pure (.error (readErrorOf e))
    return fun _ => text

def printTranscript (t : Transcript) : IO Unit := do
  IO.print t.out
  IO.eprint t.err
  (← IO.getStdout).flush

/-- The file that an entry asks for, if it does. -/
def fileOf? (entry : String) : Option String :=
  match Shell.Command.ofEntry? entry with
  | some (.load, path) => path
  | _ => none

/-- Attempts work with more and more instructions until it is done; a panic ends the program. -/
partial def untilDone {α : Type} (work : Nat → Attempt α) (count : Nat) : IO α := do
  match work count with
  | .done a => return a
  | .panicked => throw (.userError "the machine panicked")
  | .unfinished => untilDone work (2 * count)

/-- The number of instructions of the first attempt: more than any run carries out in a lifetime. -/
def patience : Nat := 0x4000000000000000

/-- Answers the entries on standard input until it ends, or one ends the session. -/
partial def converse (e : Engine) (pending : String) : IO Unit := do
  let line ← (← IO.getStdin).getLine
  if line.isEmpty then IO.print Shell.farewell
  else
    match Shell.intake pending line with
    | .pending text => converse e text
    | .entry text =>
      let read ← readerOf (fileOf? text)
      let reply ← untilDone (Shell.respond read e text) patience
      printTranscript reply.transcript
      if reply.ended then IO.println ""
      else
        IO.print Shell.prompt
        (← IO.getStdout).flush
        converse reply.engine ""

def runMain (arguments : List String) : IO UInt32 := do
  let mut given : List (String × String) := []
  for v in fallbacks do
    if let some value ← IO.getEnv v.2 then given := (v.2, value) :: given
  let lookup (name : String) : Option String := given.lookup name
  match Options.ofArguments arguments lookup with
  | .error stop => finish (stop.response lookup)
  | .ok o =>
    let read ← readerOf o.file
    let response ← untilDone (beforeShell read o) patience
    if o.opensShell then
      printTranscript response.transcript
      printTranscript (Transcript.empty.print (Shell.banner ++ Shell.prompt))
      converse (.new o.settings) ""
      return 0
    else finish response
where
  /-- Prints a response and ends. -/
  finish (r : Response) : IO UInt32 := do
    printTranscript r.transcript
    return r.status.code.toUInt32

end StackScript.CommandLine

/-- The program. -/
def main (arguments : List String) : IO UInt32 := StackScript.CommandLine.runMain arguments
