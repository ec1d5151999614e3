import StackScript.CommandLine.Options
import StackScript.Shell.Session

/-!
# The program

What the program does for its options: it runs or lists a source text, or opens a shell on its
input, which also follows a run if it is asked for.  Then the status is the shell's.
-/

namespace StackScript.CommandLine

open Terminal

/-- The exit status of the program. -/
inductive Status where
  | success | failure | misuse
deriving DecidableEq, Repr

def Status.code : Status → Nat
  | success => 0
  | failure => 1
  | misuse => 2

/-- What the program prints, and its status. -/
structure Response where
  status : Status
  transcript : Transcript
deriving DecidableEq, Repr

def Response.failed (t : Transcript) (f : Failure) : Response := ⟨.failure, t.report f⟩

/-- What is said of an option whose value may come from an environment variable. -/
def variableNote (lookup : String → Option String) (option : Valued) : String :=
  match fallbacks.lookup option with
  | some name => " [env: " ++ name ++ "=" ++ (lookup name).getD "" ++ "]"
  | none => ""

def helpText (lookup : String → Option String) : String :=
  "Compile and run tern scripts\n\nUsage: tern [OPTIONS] [FILE]\n\n"
    ++ "Arguments:\n  [FILE]  Script file to execute\n\n"
    ++ "Options:\n"
    ++ "  -e, --eval <CODE>        Evaluate code from the command line\n"
    ++ "      --fuel <N>           Maximum number of instructions a program may execute"
    ++ variableNote lookup .fuel ++ "\n"
    ++ "      --max-stack <N>      Maximum operand stack depth, in slots"
    ++ variableNote lookup .maxStack ++ "\n"
    ++ "      --max-list-len <N>   Longest list an element store may grow"
    ++ variableNote lookup .maxListLen ++ "\n"
    ++ "      --disassemble        Print the compiled bytecode instead of running it\n"
    ++ "      --log-level <LEVEL>  Log filter directive, e.g. "
    ++ "\x60debug\x60 or \x60tern_engine=trace\x60"
    ++ variableNote lookup .logLevel ++ "\n"
    ++ "  -i, --interactive        Start the REPL after running FILE or CODE\n"
    ++ "  -h, --help               Print help\n"
    ++ "  -V, --version            Print version\n"

def usageText : String :=
  "error: invalid arguments\n\nUsage: tern [OPTIONS] [FILE]\n\n"
    ++ "For more information, try '--help'.\n"

/-- The response when the options are not carried out. -/
def Stop.response (lookup : String → Option String) : Stop → Response
  | help => ⟨.success, ⟨helpText lookup, ""⟩⟩
  | version =>
    ⟨.success, Transcript.empty.say (Shell.programName ++ " " ++ Bytecode.currentVersion)⟩
  | misuse => ⟨.misuse, ⟨"", usageText⟩⟩

/-- Where the source text comes from. -/
inductive Input where
  | code (text : String)
  | file (path : String)
  | shell
deriving DecidableEq, Repr

namespace Options

def input (o : Options) : Input :=
  match o.code, o.file with
  | some text, _ => .code text
  | none, some path => .file path
  | none, none => .shell

def opensShell (o : Options) : Bool := !o.disassemble && (o.interactive || o.input == .shell)

end Options

def listSource (e : Engine) (source : String) : Response :=
  match e.compile source with
  | .ok program => ⟨.success, Transcript.empty.print program.text⟩
  | .error f => .failed .empty f

/-- Prints the listing of the source text that the options name. -/
def disassemble (read : Source.Reader) (o : Options) : Response :=
  let e := Engine.new o.settings
  match o.input with
  | .code text => listSource e text
  | .file path =>
    match read path with
    | .ok source => listSource e source
    | .error error => .failed .empty (.unreadable path error)
  | .shell =>
    ⟨.failure, Transcript.empty.complain "Error"
      (colored .cyan "--disassemble" ++ " needs a FILE or " ++ colored .cyan "--eval")⟩

/-- Shows what a program printed and, for code from the command line, its value unless it is
null. -/
def showRun (showsValue : Bool) (r : Evaluation) : Response :=
  let t := Transcript.empty.print r.printed
  match r.result with
  | .ok v =>
    let isShown := showsValue && match v with
      | .null => false
      | _ => true
    ⟨.success, if isShown then t.say (r.engine.display v) else t⟩
  | .error f => .failed t f

/-- What comes before the shell: the listing or the run. -/
def beforeShell (read : Source.Reader) (o : Options) (count : Nat) : Attempt Response :=
  if o.disassemble then return disassemble read o
  else match o.input with
    | .code text => return showRun true (← (Engine.new o.settings).eval text count)
    | .file path =>
      if Source.isThere read path then
        return showRun false (← (Engine.new o.settings).evalFile read path count)
      else
        return ⟨.failure,
          Transcript.empty.complain "Error" ("file not found '" ++ colored .cyan path ++ "'")⟩
    | .shell => return ⟨.success, .empty⟩

/-- What the program does with all of its input. -/
def invoke (read : Source.Reader) (lookup : String → Option String) (arguments : List String)
    (input : String) (count : Nat) : Attempt Response :=
  match Options.ofArguments arguments lookup with
  | .error stop => return stop.response lookup
  | .ok o => do
    let first ← beforeShell read o count
    if o.opensShell then
      return ⟨.success, first.transcript.append (← Shell.session read o.settings input count)⟩
    else return first

end StackScript.CommandLine
