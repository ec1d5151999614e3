import StackScript.Syntax.Scan
import StackScript.Syntax.Tree

/-!
# From tokens to trees

A reader of recursive descent, one function for each level of precedence; the levels of the binary
operators share one function and a table.  From loosest to tightest: assignment (to the right),
`? :`, `||`, `&&`, equality, comparison, sums, products (all to the left), operators in front of an
operand, `**` (to the right, and its right operand may again have operators in front), one operator
behind an operand, and calls, members and indices.

The reader never takes a malformed token: wherever a token is refused and it is malformed, its flaw
is the error. An error stands at the token that was refused; an error in an interpolation stands at
the template.
-/

namespace StackScript.Syntax

variable [Text.IdentifierChars]

/-- What the reader was looking for. -/
inductive Wanted where
  | mark (m : Mark)
  | identifier
  | typeName
  | propertyName
  | expression
  | endOfExpression
deriving DecidableEq, Repr

def Wanted.describe : Wanted → String
  | mark m => (TokenKind.mark m).describe
  | identifier => "identifier"
  | typeName => "type name"
  | propertyName => "property name"
  | expression => "expression"
  | endOfExpression => "end of expression"

/-- Why a text is not a program. -/
inductive SyntaxFault where
  | malformed (flaw : Flaw)
  | unexpected (wanted : Wanted) (found : TokenKind)
  | breakLevelNotPositive
  | constantWithoutValue (name : String)
  | indexMissing
  | inInterpolation (fault : SyntaxFault)
deriving DecidableEq

def SyntaxFault.message : SyntaxFault → String
  | malformed flaw => flaw.message
  | unexpected wanted found => "Expected " ++ wanted.describe ++ ", found " ++ found.describe
  | breakLevelNotPositive => "break level must be positive"
  | constantWithoutValue name => "constant '" ++ name ++ "' needs an initializer"
  | indexMissing => "index expression needs at least one index"
  | inInterpolation fault => "in template interpolation: " ++ fault.message

/-- A fault and the byte offset of the token that shows it. -/
structure SyntaxError where
  fault : SyntaxFault
  offset : Nat
deriving DecidableEq

/-- The tokens still to be read, and the byte offset of the end of the text. -/
structure TokenStream where
  rest : List Token
  stop : Nat

namespace TokenStream

/-- All tokens of a text. -/
def ofSource (source : String) : TokenStream := ⟨tokens source, source.utf8ByteSize⟩

/-- The token at the front; behind the last one, the end of the input. -/
def current (s : TokenStream) : Token := s.rest.head?.getD ⟨.endOfInput, ⟨s.stop, s.stop⟩⟩

def advance (s : TokenStream) : TokenStream := { s with rest := s.rest.tail }

end TokenStream

/-- Readers of tokens.  After an error the tokens from the refused one on are still there. -/
abbrev Parse := EStateM SyntaxError TokenStream

namespace Parse

def kind : Parse TokenKind := do return (← get).current.kind

def advance : Parse Unit := modify TokenStream.advance

def fail {α : Type} (fault : SyntaxFault) : Parse α := do throw ⟨fault, (← get).current.span.start⟩

/-- Refuses the token at the front. -/
def refuse {α : Type} (wanted : Wanted) : Parse α := do
  match ← kind with
  | .flawed flaw => fail (.malformed flaw)
  | found => fail (.unexpected wanted found)

def sees (m : Mark) : Parse Bool := do return (← kind) == .mark m

def atEnd : Parse Bool := do return (← kind) == .endOfInput

/-- Takes this mark, or refuses what is there instead. -/
def expect (m : Mark) : Parse Unit := do
  if ← sees m then advance else refuse (.mark m)

def accept (m : Mark) : Parse Bool := do
  if ← sees m then advance; return true else return false

def identifier : Parse String := do
  match ← kind with
  | .name s => advance; return s
  | _ => refuse .identifier

/-- A type behind a colon; without one, the type is `any`. -/
def annotation : Parse String := do
  if ← accept .colon then
    match ← kind with
    | .name s => advance; return s
    | .keyword .nullWord => advance; return "null"
    | _ => refuse .typeName
  else return "any"

/-- Parameters behind the first, each behind a comma; `count` bounds their number. -/
def paramsBehind : Nat → Parse (List Param)
  | 0 => return []
  | count + 1 => do
    if ← accept .comma then
      let name ← identifier
      let typeName ← annotation
      let rest ← paramsBehind count
      return ⟨name, typeName⟩ :: rest
    else return []

/-- The parameters of a function, up to the closing parenthesis. -/
def params : Parse (List Param) := do
  if ← sees .rightParen then return []
  else
    let name ← identifier
    let typeName ← annotation
    let rest ← paramsBehind (← get).rest.length
    return ⟨name, typeName⟩ :: rest

end Parse

/-! ### Operators -/

def AssignOp.ofKind? : TokenKind → Option AssignOp
  | .mark .assign => some .set
  | .mark .plusAssign => some .add
  | .mark .minusAssign => some .sub
  | .mark .starAssign => some .mul
  | .mark .slashAssign => some .div
  | .mark .percentAssign => some .mod
  | .mark .powerAssign => some .pow
  | _ => none

/-- The operator between two operands that a token stands for, powers apart. -/
def BinaryOp.ofKind? : TokenKind → Option BinaryOp
  | .mark .plus => some .add
  | .mark .minus => some .sub
  | .mark .star => some .mul
  | .mark .slash => some .div
  | .mark .percent => some .mod
  | .mark .equal => some .equal
  | .mark .notEqual => some .notEqual
  | .mark .less => some .less
  | .mark .lessEqual => some .lessEqual
  | .mark .greater => some .greater
  | .mark .greaterEqual => some .greaterEqual
  | .mark .both => some .both
  | .mark .either => some .either
  | _ => none

/-- How tightly an operator binds; the operators of one level associate to the left, but powers to
the right. -/
def BinaryOp.level : BinaryOp → Nat
  | .either => 0
  | .both => 1
  | .equal | .notEqual => 2
  | .less | .lessEqual | .greater | .greaterEqual => 3
  | .add | .sub => 4
  | .mul | .div | .mod => 5
  | .pow => 6

/-- The operator in front of an operand that a token stands for. -/
def UnaryOp.beforeOfKind? : TokenKind → Option UnaryOp
  | .mark .minus => some .minus
  | .mark .bang => some .not
  | .mark .increment => some .increment
  | .mark .decrement => some .decrement
  | _ => none

/-- The operator behind an operand that a token stands for. -/
def UnaryOp.afterOfKind? : TokenKind → Option UnaryOp
  | .mark .increment => some .increment
  | .mark .decrement => some .decrement
  | _ => none

def Literal.ofKind? : TokenKind → Option Literal
  | .int n => some (.int n)
  | .float x => some (.float x)
  | .string s => some (.string s)
  | .keyword .trueWord => some (.bool true)
  | .keyword .falseWord => some (.bool false)
  | .keyword .nullWord => some .null
  | _ => none

/-! ### Expressions

The first argument of each function bounds the depth of its calls.  Every call takes a token or goes
down one of the levels, so a bound in proportion to the length of the text is never reached. -/

namespace Parse

mutual

/-- An expression: an assignment, or anything that binds tighter. -/
def expression : Nat → Parse Expr
  | 0 => refuse .expression
  | depth + 1 => do
    let target ← conditional depth
    match AssignOp.ofKind? (← kind) with
    | none => return target
    | some op =>
      advance
      let value ← expression depth
      return .assign op target value

/-- A choice between two expressions by a third, or anything that binds tighter. -/
def conditional : Nat → Parse Expr
  | 0 => refuse .expression
  | depth + 1 => do
    let test ← binaryFrom depth 0
    if ← accept .question then
      let yes ← expression depth
      expect .colon
      let no ← expression depth
      return .ternary test yes no
    else return test

def binaryFrom : Nat → Nat → Parse Expr
  | 0, _ => refuse .expression
  | depth + 1, level => do
    if level < BinaryOp.level .pow then
      let left ← binaryFrom depth (level + 1)
      binaryBehind depth level left
    else unaryBefore depth

/-- More operators of exactly this level behind an operand. -/
def binaryBehind : Nat → Nat → Expr → Parse Expr
  | 0, _, _ => refuse .expression
  | depth + 1, level, left => do
    match (BinaryOp.ofKind? (← kind)).filter (fun op => op.level == level) with
    | none => return left
    | some op =>
      advance
      let right ← binaryFrom depth (level + 1)
      binaryBehind depth level (.binary op left right)

def unaryBefore : Nat → Parse Expr
  | 0 => refuse .expression
  | depth + 1 => do
    match UnaryOp.beforeOfKind? (← kind) with
    | some op =>
      advance
      let operand ← unaryBefore depth
      return .unary op .before operand
    | none => power depth

/-- A power, or anything that binds tighter. -/
def power : Nat → Parse Expr
  | 0 => refuse .expression
  | depth + 1 => do
    let base ← unaryAfter depth
    if ← accept .power then
      let exponent ← unaryBefore depth
      return .binary .pow base exponent
    else return base

/-- At most one operator behind an operand. -/
def unaryAfter : Nat → Parse Expr
  | 0 => refuse .expression
  | depth + 1 => do
    let first ← primary depth
    let operand ← accessBehind depth first
    match UnaryOp.afterOfKind? (← kind) with
    | some op => advance; return .unary op .after operand
    | none => return operand

def accessBehind : Nat → Expr → Parse Expr
  | 0, _ => refuse .expression
  | depth + 1, operand => do
    match ← kind with
    | .mark .leftParen =>
      advance
      let arguments ← listUntil depth .rightParen
      accessBehind depth (.call operand arguments)
    | .mark .dot =>
      advance
      let field ← identifier
      accessBehind depth (.member operand field)
    | .mark .leftBracket =>
      advance
      let indices ← listUntil depth .rightBracket
      if indices.isEmpty then fail .indexMissing
      else accessBehind depth (.index operand indices)
    | _ => return operand

/-- Expressions with commas between them, and the mark that closes the list.  A comma may stand
behind the last. -/
def listUntil : Nat → Mark → Parse (List Expr)
  | 0, _ => refuse .expression
  | depth + 1, close => do
    if (← sees close) || (← atEnd) then
      expect close
      return []
    else
      let item ← expression depth
      if !(← sees close) then expect .comma
      let rest ← listUntil depth close
      return item :: rest

/-- Fields of an object with commas between them, and the closing brace. -/
def fieldsUntil : Nat → Parse (List (String × Expr))
  | 0 => refuse .expression
  | depth + 1 => do
    if (← sees .rightBrace) || (← atEnd) then
      expect .rightBrace
      return []
    else
      let key ← match ← kind with
        | .name s => pure s
        | .string s => pure s
        | _ => refuse .propertyName
      advance
      expect .colon
      let value ← expression depth
      if !(← sees .rightBrace) then expect .comma
      let rest ← fieldsUntil depth
      return (key, value) :: rest

/-- An operand: a literal, a name, a collection, a template or an expression in parentheses. -/
def primary : Nat → Parse Expr
  | 0 => refuse .expression
  | depth + 1 => do
    let token := (← get).current
    match token.kind with
    | .name s => advance; return .name s
    | .template chunks sources =>
      advance
      let parts ← interpolations depth token.span.start sources
      return .template chunks parts
    | .mark .leftParen =>
      advance
      let inner ← expression depth
      expect .rightParen
      return inner
    | .mark .leftBracket => advance; return .array (← listUntil depth .rightBracket)
    | .mark .hashBrace => advance; return .set (← listUntil depth .rightBrace)
    | .mark .leftBrace => advance; return .object (← fieldsUntil depth)
    | found =>
      match Literal.ofKind? found with
      | some value => advance; return .literal value
      | none => refuse .expression

/-- The expressions of a template that starts at byte `start`, from their sources. -/
def interpolations : Nat → Nat → List String → Parse (List Expr)
  | 0, _, _ => refuse .expression
  | _ + 1, _, [] => return []
  | depth + 1, start, source :: sources => do
    match (standalone depth).run (.ofSource source) with
    | .ok part _ =>
      let parts ← interpolations depth start sources
      return part :: parts
    | .error err _ => throw ⟨.inInterpolation err.fault, start⟩

/-- One expression and nothing behind it. -/
def standalone : Nat → Parse Expr
  | 0 => refuse .expression
  | depth + 1 => do
    let value ← expression depth
    if ← atEnd then return value else refuse .endOfExpression

end

/-! ### Statements -/

def declaration (depth : Nat) : Parse Declaration := do
  let constant := (← kind) == .keyword .constWord
  advance
  let name ← identifier
  let typeName ← annotation
  let initial ←
    if ← accept .assign then some <$> expression depth
    else if constant then fail (.constantWithoutValue name)
    else pure none
  expect .semicolon
  return { name, initial, constant, typeName }

def expressionStatement (depth : Nat) : Parse Stmt := do
  let value ← expression depth
  expect .semicolon
  return .expr value

/-- An expression, unless the mark that would follow it is there already. -/
def expressionUnless (depth : Nat) (m : Mark) : Parse (Option Expr) := do
  if ← sees m then return none else some <$> expression depth

/-- What stands in front of the first semicolon of a `for` loop, and the semicolon. -/
def loopInitial (depth : Nat) : Parse (Option Stmt) := do
  match ← kind with
  | .mark .semicolon => advance; return none
  | .keyword .letWord | .keyword .varWord | .keyword .constWord =>
    return some (.declare (← declaration depth))
  | _ => some <$> expressionStatement depth

/-- How many loops a `break` leaves; without a number, one. -/
def breakLevel : Parse Nat := do
  match ← kind with
  | .int level =>
    if 0 < level then advance; return level.toInt.toNat else fail .breakLevelNotPositive
  | _ => return 1

mutual

def statement : Nat → Parse Stmt
  | 0 => refuse .expression
  | depth + 1 => do
    match ← kind with
    | .keyword .letWord | .keyword .varWord | .keyword .constWord =>
      return .declare (← declaration depth)
    | .keyword .functionWord =>
      advance
      let name ← identifier
      expect .leftParen
      let params ← params
      expect .rightParen
      let returns ← annotation
      expect .leftBrace
      let body ← statementsUntilBrace depth
      return .function name params returns body
    | .keyword .ifWord =>
      advance
      expect .leftParen
      let test ← expression depth
      expect .rightParen
      let yes ← statement depth
      if (← kind) == .keyword .elseWord then
        advance
        let no ← statement depth
        return .cond test yes (some no)
      else return .cond test yes none
    | .keyword .whileWord =>
      advance
      expect .leftParen
      let test ← expression depth
      expect .rightParen
      let body ← statement depth
      return .loop none (some test) none (some body)
    | .keyword .forWord =>
      advance
      expect .leftParen
      let initial ← loopInitial depth
      let test ← expressionUnless depth .semicolon
      expect .semicolon
      let step ← expressionUnless depth .rightParen
      expect .rightParen
      let body ← statement depth
      return .loop initial test step (some body)
    | .keyword .returnWord =>
      advance
      let value ← expressionUnless depth .semicolon
      expect .semicolon
      return .ret value
    | .keyword .breakWord =>
      advance
      let level ← breakLevel
      expect .semicolon
      return .brk level
    | .mark .leftBrace =>
      advance
      let body ← statementsUntilBrace depth
      return .block body
    | .mark .semicolon => advance; return .empty
    | _ => expressionStatement depth

/-- Statements, and the brace that closes them. -/
def statementsUntilBrace : Nat → Parse (List Stmt)
  | 0 => refuse .expression
  | depth + 1 => do
    if (← sees .rightBrace) || (← atEnd) then
      expect .rightBrace
      return []
    else
      let first ← statement depth
      let rest ← statementsUntilBrace depth
      return first :: rest

end

/-- All statements up to the end of the text. -/
def statementsToEnd : Nat → Parse (List Stmt)
  | 0 => refuse .expression
  | depth + 1 => do
    if ← atEnd then return []
    else
      let first ← statement depth
      let rest ← statementsToEnd depth
      return first :: rest

end Parse

/-! ### Texts -/

/-- A depth that reading a text of this length never reaches. -/
def depthBound (source : String) : Nat := 20 * (source.utf8ByteSize + 2)

/-- The outcome of a reader on a whole text. -/
def Parse.runOn {α : Type} (p : Nat → Parse α) (source : String) : Except SyntaxError α :=
  match (p (depthBound source)).run (.ofSource source) with
  | .ok a _ => .ok a
  | .error e _ => .error e

def parseProgram (source : String) : Except SyntaxError (List Stmt) :=
  Parse.runOn Parse.statementsToEnd source

def parseExpression (source : String) : Except SyntaxError Expr :=
  Parse.runOn Parse.standalone source

/-- Reads a statement from the same tokens `count` times, going on at the refused token after an
error. -/
def parseEach (depth : Nat) : Nat → TokenStream → List (Except SyntaxError Stmt)
  | 0, _ => []
  | count + 1, stream =>
    match (Parse.statement depth).run stream with
    | .ok s rest => .ok s :: parseEach depth count rest
    | .error e rest => .error e :: parseEach depth count rest

/-- The outcomes of reading `count` statements from the front of a text. -/
def parseStatements (source : String) (count : Nat) : List (Except SyntaxError Stmt) :=
  parseEach (depthBound source) count (.ofSource source)

end StackScript.Syntax
