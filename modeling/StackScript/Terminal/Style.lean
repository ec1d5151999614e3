/-!
# Colours

Texts with the escape sequences that make a terminal show them in a colour, bold or dimmed.  Every
style is ended behind the text it is for.
-/

namespace StackScript.Terminal

/-- Colours of text. -/
inductive Color where
  | red | green | yellow | blue | magenta | cyan | white | brightGreen | brightYellow | brightCyan
deriving DecidableEq, Repr

def Color.number : Color → Nat
  | red => 31
  | green => 32
  | yellow => 33
  | blue => 34
  | magenta => 35
  | cyan => 36
  | white => 37
  | brightGreen => 92
  | brightYellow => 93
  | brightCyan => 96

/-- The escape sequence that switches something on or off. -/
def switch (number : Nat) : String := "\x1b[" ++ toString number ++ "m"

def colored (c : Color) (text : String) : String := switch c.number ++ text ++ switch 39

def bold (text : String) : String := switch 1 ++ text ++ switch 0

def dimmed (text : String) : String := switch 2 ++ text ++ switch 0

/-- A text in a colour, padded with blanks to a width. -/
def coloredColumn (c : Color) (width : Nat) (text : String) : String :=
  colored c (text ++ String.ofList (List.replicate (width - text.length) ' '))

/-- Clears the screen and goes to its first column. -/
def clearScreen : String := "\x1b[2J\x1b[H"

end StackScript.Terminal
