import StackScript.Text.Blank

/-!
# Complete entries

An entry may go over several lines.  It is complete when no bracket and no string is open at its end
and its last character does not ask for more; a command is always complete.
-/

namespace StackScript.Shell

/-- What a character of an entry stands in. -/
inductive Mode where
  | code
  | comment
  | quoted (quote : Char)
  /-- Behind a backslash in a string. -/
  | escaped (quote : Char)
deriving DecidableEq, Repr

/-- The bracket that closes what `c` opens. -/
def closer? : Char → Option Char
  | '(' => some ')'
  | '[' => some ']'
  | '{' => some '}'
  | _ => none

def isCloser (c : Char) : Bool := c == ')' || c == ']' || c == '}'

def isQuote (c : Char) : Bool := c == '"' || c == '\'' || c == '\x60'

/-- Is the text balanced, when the brackets in `closers` are still to come, the innermost first?  A
bracket that closes nothing ends the search: the compiler is to report it. -/
def isBalancedFrom : Mode → List Char → List Char → Bool
  | .code, closers, [] | .comment, closers, [] => closers.isEmpty
  | .quoted _, _, [] | .escaped _, _, [] => false
  | .comment, closers, c :: rest =>
    isBalancedFrom (if c == '\n' then .code else .comment) closers rest
  | .escaped quote, closers, _ :: rest => isBalancedFrom (.quoted quote) closers rest
  | .quoted quote, closers, c :: rest =>
    if c == '\\' then isBalancedFrom (.escaped quote) closers rest
    else isBalancedFrom (if c == quote then .code else .quoted quote) closers rest
  | .code, closers, c :: rest =>
    if isQuote c then isBalancedFrom (.quoted c) closers rest
    else if c == '/' && rest.head? == some '/' then isBalancedFrom .comment closers rest
    else if isCloser c then
      match closers with
      | expected :: closers => if c == expected then isBalancedFrom .code closers rest else true
      | [] => true
    else
      match closer? c with
      | some expected => isBalancedFrom .code (expected :: closers) rest
      | none => isBalancedFrom .code closers rest

/-- Is every bracket closed that stands outside of strings and comments, and every string? -/
def isBalanced (input : String) : Bool := isBalancedFrom .code [] input.toList

/-- Characters that ask for more when they stand at the end. -/
def danglers : List Char := ['\\', '+', '-', '*', '/', '%', '=', ',', '&', '|', '?', ':']

/-- Does the text, read backwards, start with something that asks for more?  Increments and
decrements do not. -/
def isDangling : List Char → Bool
  | '+' :: '+' :: _ | '-' :: '-' :: _ => false
  | c :: _ => danglers.contains c
  | [] => false

/-- Is an entry complete? -/
def isComplete (input : String) : Bool :=
  (Text.trimStart input.toList).head? == some '.'
    || (isBalanced input && !isDangling (Text.trimEnd input.toList).reverse)

/-- What a line does to the entry that is being typed. -/
inductive Intake where
  | entry (text : String)
  | pending (text : String)
deriving DecidableEq, Repr

/-- A text without the line break at its end, and the line break. -/
def splitLineBreak (text : List Char) : List Char × List Char :=
  match text.reverse with
  | '\n' :: '\r' :: before => (before.reverse, ['\r', '\n'])
  | '\n' :: before => (before.reverse, ['\n'])
  | _ => (text, [])

/-- Adds a line to what is there of an entry. -/
def intake (pending line : String) : Intake :=
  let (text, lineBreak) := splitLineBreak (pending.toList ++ line.toList)
  if isComplete (String.ofList text) then .entry (String.ofList text)
  else .pending (String.ofList (text ++ lineBreak))

/-- The lines of a text, each with its line break. -/
def linesOf : List Char → List (List Char)
  | [] => []
  | c :: rest =>
    if c == '\n' then [c] :: linesOf rest
    else match linesOf rest with
      | [] => [[c]]
      | line :: lines => (c :: line) :: lines

end StackScript.Shell
