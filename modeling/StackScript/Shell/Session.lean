import StackScript.Shell.Entry
import StackScript.Shell.Highlight
import StackScript.Terminal.Transcript

/-!
# Sessions of the shell

The shell takes one entry after the other, a command or a program, and answers it.  Every program is
compiled on its own; nothing but the host's names is known to the next one.
-/

namespace StackScript.Shell

open Terminal

def programName : String := "tern"

/-- What stands in front of every entry. -/
def prompt : String := bold (colored .brightGreen (programName ++ ">")) ++ " "

def banner : String :=
  "\n  " ++ bold (colored .brightCyan programName) ++ " " ++ dimmed "v"
    ++ colored .brightYellow Bytecode.currentVersion ++ "\n  " ++ dimmed "Type" ++ " "
    ++ colored .cyan ".help" ++ " " ++ dimmed "for available commands" ++ "\n\n"

/-- The width of the first column of the help text. -/
def helpColumn : Nat := 16

def shortcuts : List (String × String) :=
  [("Ctrl+C", "Cancel current input"), ("Ctrl+D", "Exit REPL"), ("Tab", "Autocomplete")]

def helpSection (title : String) (color : Color) (rows : List (String × String)) : String :=
  "\n" ++ bold (colored .white title) ++ "\n\n"
    ++ String.join (rows.map fun (name, text) =>
      "  " ++ coloredColumn color helpColumn name ++ " " ++ dimmed text ++ "\n")

def help : String :=
  helpSection "REPL Commands:" .cyan (Command.all.map fun c => (c.usage, c.summary))
    ++ helpSection "Keyboard Shortcuts:" .yellow shortcuts ++ "\n"

/-- The answer to an entry. -/
structure Reply where
  transcript : Transcript
  engine : Engine
  /-- Does the session end here? -/
  ended : Bool

def Reply.keep (e : Engine) (t : Transcript) : Reply := ⟨t, e, false⟩

def showEvaluation (r : Evaluation) : Reply :=
  let t := Transcript.empty.print r.printed
  .keep r.engine <|
    match r.result with
    | .ok v => t.say (paintValue r.engine.machine.heap v)
    | .error f => t.report f

def missingArgument (command what : String) : Transcript :=
  Transcript.empty.complain "Error" (colored .cyan command ++ " " ++ dimmed ("requires " ++ what))

def carryOut (read : Source.Reader) (e : Engine) (command : Command) (argument : Option String)
    (count : Nat) : Attempt Reply :=
  match command, argument with
  | .help, _ => return .keep e (Transcript.empty.print help)
  | .exit, _ => return ⟨.empty, e, true⟩
  | .clear, _ => return .keep e (Transcript.empty.print clearScreen)
  | .version, _ =>
    return .keep e (Transcript.empty.say
      (bold (colored .brightCyan programName) ++ " " ++ colored .yellow Bytecode.currentVersion))
  | .load, some path => return showEvaluation (← e.evalFile read path count)
  | .load, none => return .keep e (missingArgument ".load" "a file path")
  | .disassemble, some code =>
    return .keep e <|
      match e.compile code with
      | .ok program => Transcript.empty.print (dimmed program.text)
      | .error f => Transcript.empty.report f
  | .disassemble, none => return .keep e (missingArgument ".dis" "some code")

def respond (read : Source.Reader) (e : Engine) (entry : String) (count : Nat) : Attempt Reply :=
  match Text.trim entry.toList with
  | [] => return .keep e .empty
  | '.' :: rest =>
    let text := String.ofList ('.' :: rest)
    match Command.ofEntry? text with
    | some (command, argument) => carryOut read e command argument count
    | none =>
      return .keep e (Transcript.empty.complain "Error"
        ("unknown command '" ++ colored .cyan text ++ "', try " ++ colored .cyan ".help"))
  | text => return showEvaluation (← e.eval (String.ofList text) count)

/-- The last lines of a session whose input ends. -/
def farewell : String := dimmed "^D" ++ "\n\n"

/-- Goes on with a session: the lines still to come, what is there of an entry, and what was printed
so far. -/
def converse (read : Source.Reader) (count : Nat) :
    List String → String → Engine → Transcript → Attempt Transcript
  | [], _, _, t => return t.print farewell
  | line :: rest, pending, e, t =>
    match intake pending line with
    | .pending text => converse read count rest text e t
    | .entry text => do
      let r ← respond read e text count
      let t := t.append r.transcript
      if r.ended then return t.print "\n" else converse read count rest "" r.engine (t.print prompt)

/-- A session on a given input. -/
def session (read : Source.Reader) (settings : Settings) (input : String) (count : Nat) :
    Attempt Transcript :=
  let lines := (linesOf input.toList).map String.ofList
  converse read count lines "" (.new settings) (Transcript.empty.print (banner ++ prompt))

end StackScript.Shell
