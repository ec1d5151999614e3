import StackScript.Engine

/-!
# Options

The arguments of the program, in the usual notation: `--name value` or `--name=value`, short options
of one letter that can be put together and take their value at once or as the next argument, and
`--` before arguments that are no options.  An option can be given once.  Limits that no argument
gives are taken from the environment variables.
-/

namespace StackScript.CommandLine

/-- Options that take a value. -/
inductive Valued where
  | code | fuel | maxStack | maxListLen | logLevel
deriving DecidableEq, Repr

/-- Options that take none. -/
inductive Flag where
  | disassemble | interactive | help | version
deriving DecidableEq, Repr

/-- What the arguments ask for. -/
structure Options where
  file : Option String
  code : Option String
  fuel : Option Nat
  maxStack : Option Nat
  maxListLen : Option Nat
  logLevel : Option String
  disassemble : Bool
  interactive : Bool
deriving DecidableEq, Repr

def Options.unset : Options := ⟨none, none, none, none, none, none, false, false⟩

def Options.settings (o : Options) : Settings :=
  let standard := Machine.Limits.standard
  ⟨⟨o.fuel, o.maxStack.getD standard.maxStack, o.maxListLen.getD standard.maxListLen⟩, false⟩

/-- Why the options are not carried out. -/
inductive Stop where
  | help | version | misuse
deriving DecidableEq, Repr

/-- The first natural number that does not fit in 64 bits. -/
def countLimit : Nat := 0x10000000000000000

/-- A natural number of 64 bits in decimal, maybe with a plus sign. -/
def readCount? (text : String) : Option Nat :=
  let digits := match text.toList with
    | '+' :: rest => rest
    | cs => cs
  if digits.isEmpty || !digits.all Char.isDigit then none
  else
    let n := Decimal.natOfDigits digits
    if n < countLimit then some n else none

def setOnce {α : Type} (old : Option α) (new : Option α) : Except Stop (Option α) :=
  match old, new with
  | none, some a => .ok (some a)
  | _, _ => .error .misuse

namespace Options

def setValue (o : Options) (option : Valued) (value : String) : Except Stop Options :=
  match option with
  | .code => return { o with code := ← setOnce o.code value }
  | .fuel => return { o with fuel := ← setOnce o.fuel (readCount? value) }
  | .maxStack => return { o with maxStack := ← setOnce o.maxStack (readCount? value) }
  | .maxListLen => return { o with maxListLen := ← setOnce o.maxListLen (readCount? value) }
  | .logLevel => return { o with logLevel := ← setOnce o.logLevel value }

def setFlag (o : Options) : Flag → Except Stop Options
  | .disassemble => if o.disassemble then .error .misuse else .ok { o with disassemble := true }
  | .interactive => if o.interactive then .error .misuse else .ok { o with interactive := true }
  | .help => .error .help
  | .version => .error .version

def setFile (o : Options) (path : String) : Except Stop Options :=
  if path.isEmpty then .error .misuse else return { o with file := ← setOnce o.file path }

end Options

/-- An option. -/
inductive Switch where
  | valued (option : Valued)
  | flag (flag : Flag)
deriving DecidableEq, Repr

def ofLongName? : String → Option Switch
  | "eval" => some (.valued .code)
  | "fuel" => some (.valued .fuel)
  | "max-stack" => some (.valued .maxStack)
  | "max-list-len" => some (.valued .maxListLen)
  | "log-level" => some (.valued .logLevel)
  | "disassemble" => some (.flag .disassemble)
  | "interactive" | "repl" => some (.flag .interactive)
  | "help" => some (.flag .help)
  | "version" => some (.flag .version)
  | _ => none

def ofShortName? : Char → Option Switch
  | 'e' => some (.valued .code)
  | 'i' => some (.flag .interactive)
  | 'h' => some (.flag .help)
  | 'V' => some (.flag .version)
  | _ => none

/-- The options so far, and the option whose value is to be the next argument. -/
abbrev Progress := Options × Option Valued

/-- Reads short options; what stands behind one that takes a value is the value, without an equals
sign. -/
def readShort (o : Options) : List Char → Except Stop Progress
  | [] => .ok (o, none)
  | c :: rest =>
    match ofShortName? c with
    | some (.flag flag) => do readShort (← o.setFlag flag) rest
    | some (.valued option) =>
      match rest with
      | [] => .ok (o, some option)
      | '=' :: value => return (← o.setValue option (String.ofList value), none)
      | value => return (← o.setValue option (String.ofList value), none)
    | none => .error .misuse

/-- Reads a long option: its name, and its value behind an equals sign if there is one. -/
def readLong (o : Options) (text : List Char) : Except Stop Progress :=
  let name := text.takeWhile (· != '=')
  match ofLongName? (String.ofList name), text.drop name.length with
  | some (.flag flag), [] => return (← o.setFlag flag, none)
  | some (.valued option), [] => .ok (o, some option)
  | some (.valued option), _ :: value => return (← o.setValue option (String.ofList value), none)
  | _, _ => .error .misuse

def readArgument (p : Progress) (argument : String) : Except Stop Progress :=
  match p.2, argument.toList with
  | none, '-' :: '-' :: name => readLong p.1 name
  | none, '-' :: c :: letters => readShort p.1 (c :: letters)
  | none, _ => return (← p.1.setFile argument, none)
  | some _, '-' :: _ :: _ => .error .misuse
  | some option, _ => return (← p.1.setValue option argument, none)

def readArguments (p : Progress) : List String → Except Stop Options
  | [] => if p.2.isSome then .error .misuse else .ok p.1
  | argument :: rest =>
    if argument == "--" then
      if p.2.isSome then .error .misuse else rest.foldlM Options.setFile p.1
    else do readArguments (← readArgument p argument) rest

/-- The environment variables that stand in for options. -/
def fallbacks : List (Valued × String) :=
  [(.fuel, "TERN_FUEL"), (.maxStack, "TERN_MAX_STACK"), (.maxListLen, "TERN_MAX_LIST_LEN"),
   (.logLevel, "TERN_LOG")]

namespace Options

def has (o : Options) : Valued → Bool
  | .code => o.code.isSome
  | .fuel => o.fuel.isSome
  | .maxStack => o.maxStack.isSome
  | .maxListLen => o.maxListLen.isSome
  | .logLevel => o.logLevel.isSome

/-- Takes from an environment variable what no argument gave. -/
def setFromVariable (lookup : String → Option String) (o : Options) (v : Valued × String) :
    Except Stop Options :=
  match o.has v.1, lookup v.2 with
  | false, some value => o.setValue v.1 value
  | _, _ => .ok o

/-- Code and a file exclude each other. -/
def checked (o : Options) : Except Stop Options :=
  if o.code.isSome && o.file.isSome then .error .misuse else .ok o

/-- The options that the arguments and the environment variables give. -/
def ofArguments (arguments : List String) (lookup : String → Option String) :
    Except Stop Options := do
  let o ← readArguments (Options.unset, none) arguments
  (← fallbacks.foldlM (setFromVariable lookup) o).checked

end Options

end StackScript.CommandLine
