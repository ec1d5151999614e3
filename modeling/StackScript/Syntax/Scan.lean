import StackScript.Decimal.Reading
import StackScript.Syntax.Token
import StackScript.Text.Blank
import StackScript.Text.IdentifierChars

/-!
# From text to tokens

Every reader in this file looks at the front of a text and answers what it found there and how many
characters that took; what is left is the text without so many characters, so no character is lost
or read twice.

* `blanks` skips white space and comments.
* `scan` reads the one token that starts with a given character.
* `tokens` is the list of all tokens of a text; malformed text gives a `flawed` token and scanning
  goes on behind it.
-/

namespace StackScript.Syntax

variable [Text.IdentifierChars]

/-- Something read from the front of a text, and how many characters it took. -/
structure Reading (α : Type) where
  value : α
  length : Nat
deriving Repr

namespace Reading

/-- The same, with `n` characters in front. -/
def behind {α : Type} (n : Nat) (r : Reading α) : Reading α := ⟨r.value, r.length + n⟩

def map {α β : Type} (f : α → β) (r : Reading α) : Reading β := ⟨f r.value, r.length⟩

end Reading

/-! ### White space and comments -/

mutual

/-- White space and comments at the front; a block comment without an end is a flaw. -/
def blanks : List Char → Reading (Option Flaw)
  | [] => ⟨none, 0⟩
  | '/' :: '/' :: rest => (lineComment rest).behind 2
  | '/' :: '*' :: rest => (blockComment false rest).behind 2
  | c :: rest => if Text.isBlank c then (blanks rest).behind 1 else ⟨none, 0⟩

/-- The rest of a line comment, and the blanks behind it. -/
def lineComment : List Char → Reading (Option Flaw)
  | [] => ⟨none, 0⟩
  | c :: rest => if c = '\n' then (blanks rest).behind 1 else (lineComment rest).behind 1

/-- The rest of a block comment, and the blanks behind it; `star` tells whether the comment's last
character so far was a star. -/
def blockComment (star : Bool) : List Char → Reading (Option Flaw)
  | [] => ⟨some .unterminatedComment, 0⟩
  | c :: rest =>
    if c = '/' ∧ star then (blanks rest).behind 1 else (blockComment (c == '*') rest).behind 1

end

/-! ### Names -/

def isNameStart (c : Char) : Bool := c == '_' || c == '$' || Text.isXidStart c

def isNameContinue (c : Char) : Bool := c == '_' || c == '$' || Text.isXidContinue c

/-- A name or a reserved word, given its first character. -/
def scanName (first : Char) (rest : List Char) : Reading TokenKind :=
  let tail := rest.takeWhile isNameContinue
  let text := String.ofList (first :: tail)
  ⟨match Keyword.ofText? text with
    | some k => .keyword k
    | none => .name text, tail.length + 1⟩

/-! ### Numbers -/

/-- Digits at the front; underscores between them are dropped. -/
def digits (isDigit : Char → Bool) (cs : List Char) : Reading (List Char) :=
  let run := cs.takeWhile fun c => isDigit c || c == '_'
  ⟨run.filter (· != '_'), run.length⟩

/-- A sign at the front, if there is one. -/
def sign : List Char → Reading Bool
  | '-' :: _ => ⟨true, 1⟩
  | '+' :: _ => ⟨false, 1⟩
  | _ => ⟨false, 0⟩

/-- An exponent at the front: a mark, an optional sign and digits.  Without a digit it is no
exponent. -/
def exponent? : List Char → Option (Reading Int)
  | [] => none
  | c :: rest =>
    let negative := sign rest
    let behindSign := rest.drop negative.length
    if (c == 'e' || c == 'E') && (behindSign.head?.any Char.isDigit) then
      let power := digits Char.isDigit behindSign
      let n := Int.ofNat (Decimal.natOfDigits power.value)
      some ⟨if negative.value then -n else n, power.length + negative.length + 1⟩
    else none

def hexValue (c : Char) : Nat :=
  if c.isDigit then c.toNat - '0'.toNat
  else if 'a' ≤ c ∧ c ≤ 'f' then c.toNat - 'a'.toNat + 10
  else c.toNat - 'A'.toNat + 10

def isHexDigit (c : Char) : Bool := c.isDigit || ('a' ≤ c && c ≤ 'f') || ('A' ≤ c && c ≤ 'F')

/-- An integer literal; it has to fit in 32 bits. -/
def intLiteral (value : Nat) (text : List Char) : TokenKind :=
  if value < 0x80000000 then .int (Int32.ofNat value)
  else .flawed (.integerTooLarge (String.ofList text))

/-- The digits of a hexadecimal literal, behind its two-character mark. -/
def scanHex (cs : List Char) : Reading TokenKind :=
  let run := digits isHexDigit cs
  ⟨if run.value.isEmpty then .flawed .noHexDigits
    else intLiteral (run.value.foldl (fun n d => 16 * n + hexValue d) 0) ('0' :: 'x' :: run.value),
    run.length⟩

/-- The fraction of a number: a point that no name follows, and digits. -/
def fraction? : List Char → Option (Reading (List Char))
  | '.' :: rest =>
    if rest.head?.any isNameStart then none else some ((digits Char.isDigit rest).behind 1)
  | _ => none

/-- A decimal literal.  A fraction or an exponent makes it a float. -/
def scanDecimal (cs : List Char) : Reading TokenKind :=
  let whole := digits Char.isDigit cs
  let fraction := fraction? (cs.drop whole.length)
  let length := whole.length + (fraction.map (·.length)).getD 0
  let exponent := exponent? (cs.drop length)
  ⟨if fraction.isNone && exponent.isNone then
      intLiteral (Decimal.natOfDigits whole.value) whole.value
    else
      .float (Decimal.ofDigits whole.value ((fraction.map (·.value)).getD [])
        ((exponent.map (·.value)).getD 0)),
    length + (exponent.map (·.length)).getD 0⟩

def scanNumber (first : Char) (rest : List Char) : Reading TokenKind :=
  match first, rest with
  | '0', 'x' :: digits => (scanHex digits).behind 2
  | '0', 'X' :: digits => (scanHex digits).behind 2
  | _, _ => scanDecimal (first :: rest)

/-- A point, or a float that starts with its point. -/
def scanDot (rest : List Char) : Reading TokenKind :=
  if rest.head?.any Char.isDigit then
    let fraction := digits Char.isDigit rest
    let exponent := exponent? (rest.drop fraction.length)
    ⟨.float (Decimal.ofDigits [] fraction.value ((exponent.map (·.value)).getD 0)),
      fraction.length + (exponent.map (·.length)).getD 0 + 1⟩
  else ⟨.mark .dot, 1⟩

/-! ### Strings -/

def unescape? : Char → Option Char
  | 'n' => some '\n'
  | 'r' => some '\r'
  | 't' => some '\t'
  | '0' => some '\x00'
  | '\\' => some '\\'
  | '\'' => some '\''
  | '"' => some '"'
  | '\x60' => some '\x60'
  | '$' => some '$'
  | _ => none

/-- A string behind its opening quote.  It ends at the next such quote and may not hold a line
break. -/
def scanString (quote : Char) : List Char → Reading (Except Flaw (List Char))
  | [] => ⟨.error .unterminatedString, 0⟩
  | '\\' :: [] => ⟨.error .unterminatedEscape, 1⟩
  | '\\' :: letter :: rest =>
    match unescape? letter with
    | some c => ((scanString quote rest).map (Except.map (c :: ·))).behind 2
    | none => ⟨.error (.unknownEscape letter), 2⟩
  | c :: rest =>
    if c = '\n' then ⟨.error .unterminatedString, 1⟩
    else if c = quote then ⟨.ok [], 1⟩
    else ((scanString quote rest).map (Except.map (c :: ·))).behind 1

/-! ### Templates -/

/-- The parts of a template that are still to come: the rest of the text or interpolation being read
comes first in its list. -/
structure TemplateParts where
  chunks : List (List Char)
  sources : List (List Char)
deriving Repr

namespace TemplateParts

def last : TemplateParts := ⟨[[]], []⟩

/-- Puts a character in front of the first of some texts. -/
def consHead (c : Char) : List (List Char) → List (List Char)
  | [] => [[c]]
  | text :: rest => (c :: text) :: rest

def consChunk (c : Char) (p : TemplateParts) : TemplateParts :=
  { p with chunks := consHead c p.chunks }

def consSource (c : Char) (p : TemplateParts) : TemplateParts :=
  { p with sources := consHead c p.sources }

/-- An interpolation starts here, behind the end of a text. -/
def openSource (p : TemplateParts) : TemplateParts := { p with chunks := [] :: p.chunks }

/-- An interpolation ends here, before the start of a text. -/
def closeSource (p : TemplateParts) : TemplateParts := { p with sources := [] :: p.sources }

end TemplateParts

mutual

/-- A template behind its opening quote, or behind an interpolation. -/
def scanTemplate : List Char → Reading (Except Flaw TemplateParts)
  | [] => ⟨.error .unterminatedTemplate, 0⟩
  | '$' :: '{' :: rest => ((scanInterpolation 0 rest).map (Except.map .openSource)).behind 2
  | '\\' :: [] => ⟨.error .unterminatedEscape, 1⟩
  | '\\' :: letter :: rest =>
    match unescape? letter with
    | some c => ((scanTemplate rest).map (Except.map (.consChunk c))).behind 2
    | none => ⟨.error (.unknownEscape letter), 2⟩
  | c :: rest =>
    if c = '\x60' then ⟨.ok .last, 1⟩
    else ((scanTemplate rest).map (Except.map (.consChunk c))).behind 1

/-- The source of an interpolation, `depth` braces deep: it ends at the brace that matches the
opening one.  Braces in quotes do not count. -/
def scanInterpolation (depth : Nat) : List Char → Reading (Except Flaw TemplateParts)
  | [] => ⟨.error .unterminatedInterpolation, 0⟩
  | c :: rest =>
    if c = '}' ∧ depth = 0 then ((scanTemplate rest).map (Except.map .closeSource)).behind 1
    else
      let tail :=
        if c = '{' then scanInterpolation (depth + 1) rest
        else if c = '}' then scanInterpolation (depth - 1) rest
        else if c = '"' ∨ c = '\'' ∨ c = '\x60' then scanQuoted c depth rest
        else scanInterpolation depth rest
      (tail.map (Except.map (.consSource c))).behind 1

/-- Quoted text in an interpolation: it ends at the next such quote that no backslash precedes. -/
def scanQuoted (quote : Char) (depth : Nat) : List Char → Reading (Except Flaw TemplateParts)
  | [] => ⟨.error .unterminatedString, 0⟩
  | '\\' :: [] => ⟨.error .unterminatedString, 1⟩
  | '\\' :: c :: rest =>
    ((scanQuoted quote depth rest).map (Except.map fun p =>
      .consSource '\\' (.consSource c p))).behind 2
  | c :: rest =>
    let tail := if c = quote then scanInterpolation depth rest else scanQuoted quote depth rest
    (tail.map (Except.map (.consSource c))).behind 1

end

def TemplateParts.toKind (p : TemplateParts) : TokenKind :=
  .template (p.chunks.map String.ofList) (p.sources.map String.ofList)

/-! ### Tokens -/

/-- The kind of token that a reading stands for; a failed reading is a flawed token. -/
def TokenKind.ofExcept {α : Type} (f : α → TokenKind) : Except Flaw α → TokenKind
  | .ok a => f a
  | .error flaw => .flawed flaw

/-- `long` when `=` follows, else `plain`. -/
def withEqual (plain long : Mark) : List Char → Reading TokenKind
  | '=' :: _ => ⟨.mark long, 2⟩
  | _ => ⟨.mark plain, 1⟩

/-- `mark` when `second` follows; else the first character alone is malformed. -/
def doubled (first second : Char) (mark : Mark) (rest : List Char) : Reading TokenKind :=
  if rest.head? = some second then ⟨.mark mark, 2⟩ else ⟨.flawed (.incompleteMark second first), 1⟩

/-- The token that starts with `c`, given what follows. -/
def scan (c : Char) (rest : List Char) : Reading TokenKind :=
  match c with
  | '{' => ⟨.mark .leftBrace, 1⟩
  | '}' => ⟨.mark .rightBrace, 1⟩
  | '(' => ⟨.mark .leftParen, 1⟩
  | ')' => ⟨.mark .rightParen, 1⟩
  | '[' => ⟨.mark .leftBracket, 1⟩
  | ']' => ⟨.mark .rightBracket, 1⟩
  | ';' => ⟨.mark .semicolon, 1⟩
  | ',' => ⟨.mark .comma, 1⟩
  | ':' => ⟨.mark .colon, 1⟩
  | '?' => ⟨.mark .question, 1⟩
  | '.' => scanDot rest
  | '+' => if rest.head? = some '+' then ⟨.mark .increment, 2⟩ else withEqual .plus .plusAssign rest
  | '-' =>
    if rest.head? = some '-' then ⟨.mark .decrement, 2⟩ else withEqual .minus .minusAssign rest
  | '*' =>
    match rest with
    | '*' :: tail => (withEqual .power .powerAssign tail).behind 1
    | _ => withEqual .star .starAssign rest
  | '/' => withEqual .slash .slashAssign rest
  | '%' => withEqual .percent .percentAssign rest
  | '<' => withEqual .less .lessEqual rest
  | '>' => withEqual .greater .greaterEqual rest
  | '=' => withEqual .assign .equal rest
  | '!' => withEqual .bang .notEqual rest
  | '&' => doubled '&' '&' .both rest
  | '|' => doubled '|' '|' .either rest
  | '#' => doubled '#' '{' .hashBrace rest
  | '"' => ((scanString '"' rest).map (.ofExcept fun s => .string (String.ofList s))).behind 1
  | '\'' => ((scanString '\'' rest).map (.ofExcept fun s => .string (String.ofList s))).behind 1
  | '\x60' => ((scanTemplate rest).map (.ofExcept TemplateParts.toKind)).behind 1
  | _ =>
    if c.isDigit then scanNumber c rest
    else if isNameStart c then scanName c rest
    else ⟨.flawed (.unexpectedCharacter c), 1⟩

/-- The tokens of a text that starts at byte `start`; `count` bounds their number. -/
def tokensFrom : Nat → Nat → List Char → List Token
  | 0, _, _ => []
  | count + 1, start, cs =>
    let skipped := blanks cs
    let start := start + byteLength (cs.take skipped.length)
    match skipped.value, cs.drop skipped.length with
    | some flaw, _ => [⟨.flawed flaw, ⟨start, start⟩⟩]
    | none, [] => []
    | none, c :: rest =>
      let token := scan c rest
      let stop := start + byteLength ((c :: rest).take token.length)
      ⟨token.value, ⟨start, stop⟩⟩ :: tokensFrom count stop ((c :: rest).drop token.length)

/-- All tokens of a text, without the end of input.  Each takes at least one character, but for the
last one. -/
def tokens (source : String) : List Token := tokensFrom (source.length + 1) 0 source.toList

end StackScript.Syntax
