import StackScript.Proofs.ExactDecimals
import StackScript.Syntax.Parser

/-!
# Programs as text

`print` writes a program: its tokens, a blank behind each one.  Parentheses stand only where an
expression binds less tightly than its place asks for (`Expr.level`, `inPlace`), around a choice that is
assigned to, and around an expression statement that would start like a block.  Templates are left
out: their text is not kept in the tree.
-/

namespace StackScript.Syntax

open Decimal

/-! ### Tokens -/

def escaped (c : Char) : List Char :=
  if c = '\n' then ['\\', 'n'] else if c = '"' ∨ c = '\\' then ['\\', c] else [c]

def TokenKind.written : TokenKind → List Char
  | int n => digitsOf n.toInt.toNat
  | float x => digitsOf (exactly x).digits ++ 'e' :: '-' :: digitsOf (exactly x).exponent.natAbs
  | string s => '"' :: s.toList.flatMap escaped ++ ['"']
  | name s => s.toList
  | keyword k => k.text.toList
  | mark m => m.text.toList
  | template _ _ | endOfInput | flawed _ => []

def layOut (ts : List TokenKind) : List Char := ts.flatMap fun t => t.written ++ [' ']

def BinaryOp.kind : BinaryOp → TokenKind
  | add => .mark .plus
  | sub => .mark .minus
  | mul => .mark .star
  | div => .mark .slash
  | mod => .mark .percent
  | pow => .mark .power
  | equal => .mark .equal
  | notEqual => .mark .notEqual
  | less => .mark .less
  | lessEqual => .mark .lessEqual
  | greater => .mark .greater
  | greaterEqual => .mark .greaterEqual
  | both => .mark .both
  | either => .mark .either

def UnaryOp.kind : UnaryOp → TokenKind
  | minus => .mark .minus
  | not => .mark .bang
  | increment => .mark .increment
  | decrement => .mark .decrement

def AssignOp.kind : AssignOp → TokenKind
  | set => .mark .assign
  | add => .mark .plusAssign
  | sub => .mark .minusAssign
  | mul => .mark .starAssign
  | div => .mark .slashAssign
  | mod => .mark .percentAssign
  | pow => .mark .powerAssign

def Literal.kind : Literal → TokenKind
  | int n => .int n
  | float x => .float x
  | string s => .string s
  | bool true => .keyword .trueWord
  | bool false => .keyword .falseWord
  | null => .keyword .nullWord

/-! ### Expressions -/

/-- The levels of precedence, from the loosest: assignments, choices, the six levels of operators that
associate to the left, operators in front, powers, operators behind, and calls, members and indices;
all else binds tightest. -/
def Expr.level : Expr → Nat
  | .assign _ _ _ => 0
  | .ternary _ _ _ => 1
  | .binary op _ _ => if op = .pow then 9 else op.level + 2
  | .unary _ .before _ => 8
  | .unary _ .after _ => 10
  | .member _ _ | .index _ _ | .call _ _ => 11
  | _ => 12

def BinaryOp.leftLevel (op : BinaryOp) : Nat := if op = .pow then 10 else op.level + 2

def BinaryOp.rightLevel (op : BinaryOp) : Nat := if op = .pow then 8 else op.level + 3

/-- The tokens of an expression in a place for expressions of at least this level. -/
def inPlace (least : Nat) (e : Expr) (ts : List TokenKind) : List TokenKind :=
  if e.level < least then .mark .leftParen :: (ts ++ [.mark .rightParen]) else ts

mutual

def exprTokens : Expr → List TokenKind
  | .literal v => [v.kind]
  | .template _ _ => []
  | .name s => [.name s]
  | .unary op .before operand => op.kind :: inPlace 8 operand (exprTokens operand)
  | .unary op .after operand => inPlace 11 operand (exprTokens operand) ++ [op.kind]
  | .binary op left right =>
    inPlace op.leftLevel left (exprTokens left) ++
      op.kind :: inPlace op.rightLevel right (exprTokens right)
  | .member object field => inPlace 11 object (exprTokens object) ++ [.mark .dot, .name field]
  | .index object indices =>
    inPlace 11 object (exprTokens object) ++ .mark .leftBracket :: (listTokens indices ++
      [.mark .rightBracket])
  | .call callee arguments =>
    inPlace 11 callee (exprTokens callee) ++ .mark .leftParen :: (listTokens arguments ++
      [.mark .rightParen])
  | .assign op target value => inPlace 2 target (exprTokens target) ++ op.kind :: exprTokens value
  | .array items => .mark .leftBracket :: (listTokens items ++ [.mark .rightBracket])
  | .set items => .mark .hashBrace :: (listTokens items ++ [.mark .rightBrace])
  | .object fields => .mark .leftBrace :: (fieldTokens fields ++ [.mark .rightBrace])
  | .ternary test yes no =>
    inPlace 2 test (exprTokens test) ++ .mark .question :: (exprTokens yes ++
      .mark .colon :: exprTokens no)

def listTokens : List Expr → List TokenKind
  | [] => []
  | e :: rest => exprTokens e ++ if rest.isEmpty then [] else .mark .comma :: listTokens rest

def fieldTokens : List (String × Expr) → List TokenKind
  | [] => []
  | f :: rest => fieldToken f ++ if rest.isEmpty then [] else .mark .comma :: fieldTokens rest

def fieldToken : String × Expr → List TokenKind
  | (key, value) => .string key :: .mark .colon :: exprTokens value

end

/-! ### Statements -/

def typeTokens (typeName : String) : List TokenKind :=
  [.mark .colon, if typeName = "null" then .keyword .nullWord else .name typeName]

def declarationTokens (d : Declaration) : List TokenKind :=
  .keyword (if d.constant then .constWord else .letWord) :: .name d.name :: (typeTokens d.typeName ++
    ((match d.initial with
      | none => []
      | some e => .mark .assign :: exprTokens e) ++ [.mark .semicolon]))

def paramTokens : List Param → List TokenKind
  | [] => []
  | p :: rest =>
    .name p.name :: (typeTokens p.typeName ++
      if rest.isEmpty then [] else .mark .comma :: paramTokens rest)

/-- The tokens of an expression as a statement.  A block would start with a brace. -/
def exprStmtTokens (e : Expr) : List TokenKind :=
  (if (exprTokens e).head? = some (.mark .leftBrace) then inPlace 13 e (exprTokens e)
    else exprTokens e) ++ [.mark .semicolon]

def exprTokens? : Option Expr → List TokenKind
  | none => []
  | some e => exprTokens e

mutual

def stmtTokens : Stmt → List TokenKind
  | .declare d => declarationTokens d
  | .function name params returns body =>
    .keyword .functionWord :: .name name :: .mark .leftParen :: (paramTokens params ++
      .mark .rightParen :: (typeTokens returns ++
        .mark .leftBrace :: (stmtsTokens body ++ [.mark .rightBrace])))
  | .expr e => exprStmtTokens e
  | .block body => .mark .leftBrace :: (stmtsTokens body ++ [.mark .rightBrace])
  | .cond test yes no =>
    .keyword .ifWord :: .mark .leftParen :: (exprTokens test ++
      .mark .rightParen :: (stmtTokens yes ++ elseTokens no))
  | .loop initial test step body =>
    .keyword .forWord :: .mark .leftParen :: (initialTokens initial ++ (exprTokens? test ++
      .mark .semicolon :: (exprTokens? step ++ .mark .rightParen :: bodyTokens body)))
  | .brk level => [.keyword .breakWord, .int (Int32.ofNat level), .mark .semicolon]
  | .ret e => .keyword .returnWord :: (exprTokens? e ++ [.mark .semicolon])
  | .empty => [.mark .semicolon]

def stmtsTokens : List Stmt → List TokenKind
  | [] => []
  | s :: rest => stmtTokens s ++ stmtsTokens rest

def elseTokens : Option Stmt → List TokenKind
  | none => []
  | some s => .keyword .elseWord :: stmtTokens s

def initialTokens : Option Stmt → List TokenKind
  | none => [.mark .semicolon]
  | some s => stmtTokens s

def bodyTokens : Option Stmt → List TokenKind
  | none => []
  | some s => stmtTokens s

end

/-- A program as text. -/
def print (body : List Stmt) : String := String.ofList (layOut (stmtsTokens body))

end StackScript.Syntax
