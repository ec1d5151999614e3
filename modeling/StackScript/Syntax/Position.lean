/-!
# Places in a source text

A place is a byte offset into the UTF-8 form of the text.  For people it is a line and a column,
both counted from one, the column in characters.
-/

namespace StackScript.Syntax

/-- The number of bytes of a text in UTF-8. -/
def byteLength : List Char → Nat
  | [] => 0
  | c :: rest => c.utf8Size + byteLength rest

/-- The bytes from `start` up to, not including, `stop`. -/
structure Span where
  start : Nat
  stop : Nat
deriving DecidableEq, Repr

namespace Span

def length (s : Span) : Nat := s.stop - s.start

def isEmpty (s : Span) : Bool := s.start == s.stop

end Span

/-- A line and a column. -/
structure Position where
  line : Nat
  column : Nat
deriving DecidableEq, Repr

namespace Position

def first : Position := ⟨1, 1⟩

/-- The place behind a character. -/
def after (p : Position) (c : Char) : Position :=
  if c = '\n' then ⟨p.line + 1, 1⟩ else ⟨p.line, p.column + 1⟩

/-- The place `offset` bytes behind `p`; a text that is shorter gives the place behind its end. -/
def walk (p : Position) : List Char → Nat → Position
  | [], _ => p
  | c :: rest, offset => if offset = 0 then p else walk (p.after c) rest (offset - c.utf8Size)

def ofOffset (source : String) (offset : Nat) : Position := walk first source.toList offset

end Position

end StackScript.Syntax
