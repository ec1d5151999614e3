import StackScript.Host.Environment
import StackScript.Shell.Command
import StackScript.Syntax.Position
import StackScript.Syntax.Token
import StackScript.Terminal.Style
import StackScript.Text.Alphanumeric

/-!
# Completion

The words that the shell knows, and the part of a line that a word is looked up for.  Places in a
line are byte offsets; an offset that is not between two characters cuts nothing, and what depends
on it has no answer.
-/

namespace StackScript.Shell

open Syntax

/-! ### Vocabulary -/

/-- The reserved words that stand for no value. -/
def keywords : List String := (Keyword.all.filter fun k => !k.isLiteral).map Keyword.text

/-- The reserved words that stand for a value. -/
def literals : List String := (Keyword.all.filter Keyword.isLiteral).map Keyword.text

def typeNames : List String :=
  ["int", "integer", "float", "double", "number", "string", "str", "bool", "boolean", "any",
   "array", "list", "object", "set"]

/-- The members of `math` that the shell knows. -/
def mathMembers : List String := ["math.pi", "math.sqrt", "math.max", "math.min"]

def commandWords : List String :=
  Command.all.map fun c => String.ofList (c.usage.toList.takeWhile fun c => !Text.isBlank c)

/-- Everything that can be completed, in alphabetical order and without repetitions. -/
def vocabulary (environment : Host.Environment) : List String :=
  ((keywords ++ literals ++ typeNames ++ environment.names ++ mathMembers ++ commandWords).mergeSort
    fun a b => decide (a ≤ b)).eraseDups

/-! ### Words in a line -/

/-- A text cut in two at a byte offset. -/
def splitAtByte? : List Char → Nat → Option (List Char × List Char)
  | cs, 0 => some ([], cs)
  | [], _ + 1 => none
  | c :: rest, offset + 1 =>
    if c.utf8Size ≤ offset + 1 then
      (splitAtByte? rest (offset + 1 - c.utf8Size)).map fun (before, behind) =>
        (c :: before, behind)
    else none

def isWordChar (c : Char) : Bool := Text.isAlphanumeric c || c == '_' || c == '$' || c == '.'

/-- The byte offset at which the word starts that ends a text: one behind the offset of the last
character that is in no word. -/
def wordStartIn (before : List Char) : Nat :=
  match before.reverse.dropWhile isWordChar with
  | [] => 0
  | _ :: earlier => byteLength earlier + 1

/-- The byte offset at which the word starts that ends at `pos`. -/
def wordStart? (line : String) (pos : Nat) : Option Nat :=
  (splitAtByte? line.toList pos).map fun (before, _) => wordStartIn before

/-- The word that ends at `pos`. -/
def word? (line : String) (pos : Nat) : Option String := do
  let (before, _) ← splitAtByte? line.toList pos
  let (_, word) ← splitAtByte? before (wordStartIn before)
  return String.ofList word

/-- The rest of a candidate behind a word that it starts with; a candidate that is the word itself
has none. -/
def suffix? (word candidate : String) : Option String :=
  if word.toList.isPrefixOf candidate.toList && word.length < candidate.length then
    some (String.ofList (candidate.toList.drop word.length))
  else none

/-- The candidates for a word, each with what it adds. -/
def candidates (words : List String) (word : String) : List (String × String) :=
  words.filterMap fun candidate => (suffix? word candidate).map fun s => (candidate, s)

/-- The completions of the word that ends at `pos`, each with what it adds there. -/
def complete? (words : List String) (line : String) (pos : Nat) : Option (List (String × String)) :=
  (word? line pos).map fun word => if word.isEmpty then [] else candidates words word

/-- The shortest word, in bytes, that gets a hint. -/
def minHint : Nat := 2

/-- What the first completion adds at the end of a line, as a hint; there is none elsewhere. -/
def hint? (words : List String) (line : String) (pos : Nat) : Option (Option String) :=
  if pos < line.utf8ByteSize then some none
  else (word? line pos).map fun word =>
    if word.utf8ByteSize < minHint then none
    else (candidates words word).head?.map fun c => Terminal.dimmed c.2

end StackScript.Shell
