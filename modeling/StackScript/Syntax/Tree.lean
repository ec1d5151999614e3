/-!
# Syntax trees

Programs as the compiler reads them: a list of statements.  Type names are kept as written; a
missing annotation stands for `any`.
-/

namespace StackScript.Syntax

/-- Operators between two operands. -/
inductive BinaryOp where
  | add | sub | mul | div | mod | pow
  | equal | notEqual | less | lessEqual | greater | greaterEqual
  | both | either
deriving DecidableEq, Repr

namespace BinaryOp

def text : BinaryOp → String
  | add => "+"
  | sub => "-"
  | mul => "*"
  | div => "/"
  | mod => "%"
  | pow => "**"
  | equal => "=="
  | notEqual => "!="
  | less => "<"
  | lessEqual => "<="
  | greater => ">"
  | greaterEqual => ">="
  | both => "&&"
  | either => "||"

def all : List BinaryOp :=
  [add, sub, mul, div, mod, pow, equal, notEqual, less, lessEqual, greater, greaterEqual, both,
   either]

def ofText? (s : String) : Option BinaryOp := all.find? fun op => op.text == s

/-- Does the left operand decide whether the right one is evaluated? -/
def isLogical : BinaryOp → Bool
  | both | either => true
  | _ => false

end BinaryOp

/-- Operators on one operand. -/
inductive UnaryOp where
  | minus | not | increment | decrement
deriving DecidableEq, Repr

namespace UnaryOp

def text : UnaryOp → String
  | minus => "-"
  | not => "!"
  | increment => "++"
  | decrement => "--"

def all : List UnaryOp := [minus, not, increment, decrement]

def ofText? (s : String) : Option UnaryOp := all.find? fun op => op.text == s

end UnaryOp

/-- Where an operator on one operand stands. -/
inductive Side where
  | before | after
deriving DecidableEq, Repr

/-- Assignments: plain, or with an operator applied to the old value first. -/
inductive AssignOp where
  | set | add | sub | mul | div | mod | pow
deriving DecidableEq, Repr

namespace AssignOp

/-- The operator that is applied to the old value. -/
def binary? : AssignOp → Option BinaryOp
  | set => none
  | add => some .add
  | sub => some .sub
  | mul => some .mul
  | div => some .div
  | mod => some .mod
  | pow => some .pow

def text (op : AssignOp) : String :=
  match op.binary? with
  | none => "="
  | some binary => binary.text ++ "="

def all : List AssignOp := [set, add, sub, mul, div, mod, pow]

def ofText? (s : String) : Option AssignOp := all.find? fun op => op.text == s

end AssignOp

/-- Literal values. -/
inductive Literal where
  | int (n : Int32)
  | float (x : Float)
  | string (s : String)
  | bool (b : Bool)
  | null
deriving DecidableEq

/-- Expressions.  A template has one text more than it has expressions; an index expression has at
least one index, and several apply one after the other. -/
inductive Expr where
  | literal (value : Literal)
  | template (chunks : List String) (parts : List Expr)
  | name (name : String)
  | unary (op : UnaryOp) (side : Side) (operand : Expr)
  | binary (op : BinaryOp) (left right : Expr)
  | member (object : Expr) (field : String)
  | index (object : Expr) (indices : List Expr)
  | call (callee : Expr) (arguments : List Expr)
  | assign (op : AssignOp) (target value : Expr)
  | array (items : List Expr)
  | set (items : List Expr)
  | object (fields : List (String × Expr))
  | ternary (test yes no : Expr)
deriving Inhabited

/-- The declaration of a variable or constant. -/
structure Declaration where
  name : String
  initial : Option Expr
  constant : Bool
  typeName : String

/-- A parameter of a function. -/
structure Param where
  name : String
  typeName : String
deriving DecidableEq

/-- Statements.  A `while` loop is a loop with only a test; level one of `brk` leaves the innermost
loop. -/
inductive Stmt where
  | declare (declaration : Declaration)
  | function (name : String) (params : List Param) (returns : String) (body : List Stmt)
  | expr (value : Expr)
  | block (body : List Stmt)
  | cond (test : Expr) (yes : Stmt) (no : Option Stmt)
  | loop (initial : Option Stmt) (test step : Option Expr) (body : Option Stmt)
  | brk (level : Nat)
  | ret (value : Option Expr)
  | empty
deriving Inhabited

end StackScript.Syntax
