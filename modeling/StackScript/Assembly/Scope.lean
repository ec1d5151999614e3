import StackScript.Assembly.CompileError
import StackScript.Host.Environment

/-!
# Scopes

The names that are visible while code is written.  Every function activation has one frame; all
blocks of the function share it, and a local variable's slot is its place in the frame's list of
names, so names stay in the list when their block is closed.  Parameters lie below the frame:

    argument 0 | argument 1 | saved frame | return address | local 0 | local 1 | ...
        -4           -3           -2             -1             0         1

A block may not declare a name again that an open block of the same function, or the function's
frame, has.
-/

namespace StackScript.Assembly

open Typing Bytecode Host

/-- Where the value of a name is found. -/
inductive Location where
  /-- In a slot, counted from the frame of the function that declares the name. -/
  | slot (offset : Int)
  /-- At the first instruction of a function. -/
  | entry (label : Label)
  /-- With the host, by name. -/
  | external
deriving DecidableEq, Repr

/-- The types of a function's parameters and result. -/
structure Signature where
  params : List Ty
  returns : Ty
deriving DecidableEq, Repr

/-- What a name stands for; `frame` counts the functions around the declaration. -/
structure Entity where
  name : String
  type : Ty
  kind : Kind
  location : Location
  frame : Nat
  constant : Bool
  signature : Option Signature
deriving DecidableEq, Repr

def Entity.isAssignable (e : Entity) : Bool :=
  match e.location with
  | .slot _ => !e.constant
  | _ => false

/-- A block: the names it declares, the latest first, and the frame it belongs to. -/
structure Scope where
  entities : List Entity
  frame : Nat
deriving Repr

/-- The entity that a block declares under a name. -/
def Scope.find? (s : Scope) (name : String) : Option Entity :=
  s.entities.find? fun e => e.name == name

def Scope.declares (s : Scope) (name : String) : Bool := (s.find? name).isSome

/-- The open blocks and the open frames.  The block and the frame in use come first; behind `inner`
and `outer` lie the outermost block, which is never closed, and the frame of the top level. -/
structure ScopeChain where
  inner : Scope
  outer : List Scope
  frame : Array String
  frames : List (Array String)
deriving Repr

namespace ScopeChain

/-- Only the outermost block, with nothing in it. -/
def empty : ScopeChain := ⟨⟨[], 0⟩, [], #[], []⟩

/-- The open blocks, innermost first. -/
def scopes (c : ScopeChain) : List Scope := c.inner :: c.outer

def functionDepth (c : ScopeChain) : Nat := c.frames.length

def depth (c : ScopeChain) : Nat := c.scopes.length

def beginScope (c : ScopeChain) : ScopeChain :=
  { c with inner := ⟨[], c.functionDepth⟩, outer := c.scopes }

/-- Closes the innermost block, unless it is the outermost one. -/
def endScope (c : ScopeChain) : ScopeChain :=
  match c.outer with
  | [] => c
  | next :: rest => { c with inner := next, outer := rest }

/-- Opens a function: a frame, and a block in it. -/
def beginFunction (c : ScopeChain) : ScopeChain :=
  { inner := ⟨[], c.functionDepth + 1⟩, outer := c.scopes, frame := #[]
    frames := c.frame :: c.frames }

/-- Closes the innermost blocks that belong to a frame, but never the outermost block. -/
def closeFrame (frame : Nat) : Scope → List Scope → Scope × List Scope
  | inner, [] => (inner, [])
  | inner, next :: rest =>
    if inner.frame == frame then closeFrame frame next rest else (inner, next :: rest)

/-- Closes a function: its blocks and its frame.  The answer is the names in the frame. -/
def endFunction (c : ScopeChain) : Array String × ScopeChain :=
  let (inner, outer) := closeFrame c.functionDepth c.inner c.outer
  match c.frames with
  | [] => (#[], { c with inner, outer })
  | frame :: frames => (c.frame, ⟨inner, outer, frame, frames⟩)

/-- The entity that the innermost block declares under a name. -/
def findCurrent? (c : ScopeChain) (name : String) : Option Entity := c.inner.find? name

/-- Is the name taken, for a new variable?  The open blocks of the function count, and all names in
its frame. -/
def isTaken (c : ScopeChain) (name : String) : Bool :=
  (c.scopes.takeWhile fun s => s.frame == c.functionDepth).any (·.declares name)
    || c.frame.contains name

def add (c : ScopeChain) (e : Entity) : ScopeChain :=
  { c with inner := { c.inner with entities := e :: c.inner.entities } }

/-- Declares a variable, in the next slot of the frame. -/
def declareLocal (c : ScopeChain) (name : String) (constant : Bool) (type : Ty) :
    Except CompileError Entity × ScopeChain :=
  if c.isTaken name then (.error (.duplicateDeclaration name), c)
  else
    let e : Entity :=
      { name, type, kind := if constant then .constant else .var, location := .slot c.frame.size
        frame := c.functionDepth, constant, signature := none }
    (.ok e, { c with frame := c.frame.push name }.add e)

/-- Declares one of `count` parameters. -/
def declareParam (c : ScopeChain) (name : String) (index count : Nat) (type : Ty) :
    Except CompileError Entity × ScopeChain :=
  if c.inner.declares name then (.error (.duplicateDeclaration name), c)
  else
    let e : Entity :=
      { name, type, kind := .var, location := .slot (Int.ofNat index - Int.ofNat count - 2)
        frame := c.functionDepth, constant := false, signature := none }
    (.ok e, c.add e)

def declareFunction (c : ScopeChain) (name : String) (entry : Label) (signature : Signature) :
    Except CompileError Entity × ScopeChain :=
  if c.inner.declares name then (.error (.duplicateDeclaration name), c)
  else
    let e : Entity :=
      { name, type := .function, kind := .function, location := .entry entry
        frame := c.functionDepth, constant := true, signature := some signature }
    (.ok e, c.add e)

/-- What a name stands for: the declaration of the innermost open block that has one, else the
host's binding. -/
def resolve (c : ScopeChain) (env : Environment) (name : String) : Except CompileError Entity :=
  match c.scopes.findSome? fun s => s.find? name with
  | some e => .ok e
  | none =>
    match env.get? name with
    | some b =>
      .ok { name, type := b.type, kind := b.kind, location := .external, frame := 0
            constant := true, signature := none }
    | none => .error (.unknownIdentifier name)

end ScopeChain

end StackScript.Assembly
