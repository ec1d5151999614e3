import StackScript.Decimal.Layout
import StackScript.Syntax.Position
import StackScript.Text.Quoted

/-!
# Tokens

The words of the language: literals, names, keywords and marks, and for malformed text the flaw that
was found. Each kind of token has a text that names it in error messages.
-/

namespace StackScript.Syntax

/-- The reserved words. -/
inductive Keyword where
  | letWord | varWord | constWord | functionWord | returnWord | ifWord | elseWord | whileWord
  | forWord | breakWord | trueWord | falseWord | nullWord
deriving DecidableEq, Repr

namespace Keyword

def text : Keyword → String
  | letWord => "let"
  | varWord => "var"
  | constWord => "const"
  | functionWord => "function"
  | returnWord => "return"
  | ifWord => "if"
  | elseWord => "else"
  | whileWord => "while"
  | forWord => "for"
  | breakWord => "break"
  | trueWord => "true"
  | falseWord => "false"
  | nullWord => "null"

def all : List Keyword :=
  [letWord, varWord, constWord, functionWord, returnWord, ifWord, elseWord, whileWord, forWord,
   breakWord, trueWord, falseWord, nullWord]

def ofText? (s : String) : Option Keyword := all.find? fun k => k.text == s

def isLiteral : Keyword → Bool
  | trueWord | falseWord | nullWord => true
  | _ => false

end Keyword

/-- Punctuation and operators. -/
inductive Mark where
  | leftBrace | rightBrace | hashBrace | leftParen | rightParen | leftBracket | rightBracket
  | dot | semicolon | comma | colon | question
  | plus | minus | star | slash | percent | power | increment | decrement | bang
  | equal | notEqual | less | lessEqual | greater | greaterEqual | both | either
  | assign | plusAssign | minusAssign | starAssign | slashAssign | percentAssign | powerAssign
deriving DecidableEq, Repr

def Mark.text : Mark → String
  | leftBrace => "\x7b"
  | rightBrace => "\x7d"
  | hashBrace => "#\x7b"
  | leftParen => "("
  | rightParen => ")"
  | leftBracket => "["
  | rightBracket => "]"
  | dot => "."
  | semicolon => ";"
  | comma => ","
  | colon => ":"
  | question => "?"
  | plus => "+"
  | minus => "-"
  | star => "*"
  | slash => "/"
  | percent => "%"
  | power => "**"
  | increment => "++"
  | decrement => "--"
  | bang => "!"
  | equal => "=="
  | notEqual => "!="
  | less => "<"
  | lessEqual => "<="
  | greater => ">"
  | greaterEqual => ">="
  | both => "&&"
  | either => "||"
  | assign => "="
  | plusAssign => "+="
  | minusAssign => "-="
  | starAssign => "*="
  | slashAssign => "/="
  | percentAssign => "%="
  | powerAssign => "**="

/-- What is wrong with malformed text. -/
inductive Flaw where
  | unterminatedComment
  | unterminatedString
  | unterminatedEscape
  | unknownEscape (c : Char)
  | unterminatedTemplate
  | unterminatedInterpolation
  | incompleteMark (wanted found : Char)
  | noHexDigits
  | integerTooLarge (literal : String)
  | unexpectedCharacter (c : Char)
deriving DecidableEq, Repr

def Flaw.message : Flaw → String
  | unterminatedComment => "unterminated block comment"
  | unterminatedString => "unterminated string"
  | unterminatedEscape => "unterminated escape"
  | unknownEscape c => "unknown escape '\\" ++ c.toString ++ "'"
  | unterminatedTemplate => "unterminated template string"
  | unterminatedInterpolation => "unterminated template interpolation"
  | incompleteMark wanted found =>
    "expected '" ++ wanted.toString ++ "' after '" ++ found.toString ++ "'"
  | noHexDigits => "expected hexadecimal digits"
  | integerTooLarge literal => "integer literal " ++ literal ++ " is out of range"
  | unexpectedCharacter c => "unexpected character '" ++ c.toString ++ "'"

/-- The kinds of tokens, with what each one carries.  A template has the texts around its
interpolations and the source of each interpolation. -/
inductive TokenKind where
  | int (n : Int32)
  | float (x : Float)
  | string (s : String)
  | template (chunks sources : List String)
  | name (s : String)
  | keyword (k : Keyword)
  | mark (m : Mark)
  | endOfInput
  | flawed (f : Flaw)
deriving DecidableEq

namespace TokenKind

def describe : TokenKind → String
  | int n => toString n.toInt
  | float x => Decimal.Layout.display.format x
  | string s => Text.quoted s
  | template _ _ => "template string"
  | name s => "'" ++ s ++ "'"
  | keyword k => "'" ++ k.text ++ "'"
  | mark m => "'" ++ m.text ++ "'"
  | endOfInput => "end of input"
  | flawed f => f.message

def isKeyword : TokenKind → Bool
  | keyword _ => true
  | _ => false

def isLiteral : TokenKind → Bool
  | int _ | float _ | string _ | template _ _ => true
  | keyword k => k.isLiteral
  | _ => false

end TokenKind

/-- A token and its place. -/
structure Token where
  kind : TokenKind
  span : Span
deriving DecidableEq

end StackScript.Syntax
