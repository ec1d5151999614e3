import StackScript.Text.Blank

/-!
# Commands of the shell

An entry that starts with a point is a command, a word and maybe an argument.
-/

namespace StackScript.Shell

/-- The commands. -/
inductive Command where
  | help | exit | clear | version | load | disassemble
deriving DecidableEq, Repr

namespace Command

def all : List Command := [help, exit, clear, version, load, disassemble]

def words : Command → List String
  | help => ["help", "h", "?"]
  | exit => ["exit", "quit", "q"]
  | clear => ["clear", "cls"]
  | version => ["version", "v"]
  | load => ["load", "l"]
  | disassemble => ["dis", "disassemble"]

def usage : Command → String
  | help => ".help"
  | exit => ".exit"
  | clear => ".clear"
  | version => ".version"
  | load => ".load <file>"
  | disassemble => ".dis <code>"

def summary : Command → String
  | help => "Show this help message"
  | exit => "Exit the REPL"
  | clear => "Clear the screen"
  | version => "Show version information"
  | load => "Load and execute a script file"
  | disassemble => "Show the bytecode compiled for <code>"

/-- The command for a word; capitals do not matter.  No letter outside ASCII has a lower case that
stands in one of the words. -/
def ofWord? (word : List Char) : Option Command :=
  all.find? fun c => c.words.contains (String.ofList (word.map Char.toLower))

/-- The command and the argument that an entry stands for. -/
def ofEntry? (entry : String) : Option (Command × Option String) :=
  match Text.trim entry.toList with
  | '.' :: rest =>
    let word := rest.takeWhile fun c => !Text.isBlank c
    let argument := Text.trim (rest.drop word.length)
    (ofWord? word).map fun c =>
      (c, if argument.isEmpty then none else some (String.ofList argument))
  | _ => none

end Command

end StackScript.Shell
