import StackScript.Shell.Completion
import StackScript.Text.Quoted
import StackScript.Value.Display

/-!
# Colours of the shell

How a line looks while it is typed, and how a result is shown.
-/

namespace StackScript.Shell

open Terminal

def paintWord (word : List Char) : String :=
  let text := String.ofList word
  if keywords.contains text then bold (colored .magenta text)
  else if literals.contains text then colored .blue text
  else if typeNames.contains text then colored .cyan text
  else if (word.head?.map Char.isDigit).getD false then colored .yellow text
  else text

/-- The colour of a character outside of words.  Points have one in commands. -/
def markColor? (isCommand : Bool) (c : Char) : Option Color :=
  if ['(', ')', '[', ']', '{', '}', '#'].contains c then some .yellow
  else if ['+', '-', '*', '/', '%', '=', '<', '>', '!', '&', '|', '?'].contains c then some .cyan
  else if ['"', '\'', '\x60'].contains c then some .green
  else if c == '.' && isCommand then some .magenta
  else none

def paintMark (isCommand : Bool) (c : Char) : String :=
  match markColor? isCommand c with
  | some color => colored color c.toString
  | none => c.toString

/-- The rest of a line in colours, behind the start of a word. -/
def paintFrom (isCommand : Bool) : List Char → List Char → String
  | word, [] => paintWord word
  | word, c :: rest =>
    if Text.isAlphanumeric c || c == '_' || c == '$' then paintFrom isCommand (word ++ [c]) rest
    else paintWord word ++ paintMark isCommand c ++ paintFrom isCommand [] rest

def paintLine (line : String) : String := paintFrom (line.toList.head? == some '.') [] line.toList

/-- A value in the colour of its kind; strings stand in quotes. -/
def paintValue (h : Heap) (v : Value) : String :=
  match v with
  | .null => dimmed (colored .blue (h.display v))
  | .bool _ | .int _ | .float _ => colored .yellow (h.display v)
  | .str s => colored .green (Text.quoted s)
  | .function _ | .host _ => colored .magenta (h.display v)
  | .ref _ _ => colored .cyan (h.display v)

end StackScript.Shell
