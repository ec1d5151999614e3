import Mathlib.Tactic.Common
import StackScript.Assembly.ExprCode
import StackScript.Proofs.Placement

/-!
# Lexical scope

What the names of a program stand for, read off its tree: a name stands for the declaration of the
innermost open block that has one.  Blocks open and close with the statements of the tree, a list's
functions are declared before its statements, and a function sees the names that are visible where
it stands.

* `Stmt.after`: the names that are visible behind a statement.
* `Expr.accesses`, `Stmt.accesses`: the variables that a tree reads and writes, one access for each
  occurrence of a name, in the order in which they are carried out.
* `programFunctions`: the functions of a program, each with the names that its body sees.
* `Function.accesses_known`: a function accesses its own variables and those of the top level only,
  unless it is nested in another function, whose variables it may name.
-/

namespace StackScript.Syntax

/-! ### Names -/

/-- A variable or a parameter: its name, whether it is constant, the number of functions around its
declaration, and its place in the frame of its function.  Variables are numbered from zero on, and
parameters lie below the two cells that a call saves. -/
structure Variable where
  name : String
  constant : Bool
  level : Nat
  place : Int
deriving DecidableEq, Repr

/-- What a name stands for in a program. -/
inductive Referent where
  | cell (v : Variable)
  | function
deriving DecidableEq, Repr

/-- The names that are visible somewhere: those of the open blocks, the innermost block and the latest
name first.  `level` is the number of functions around, and `count` the number of variables that the
innermost one has declared so far. -/
structure Context where
  inner : List (String × Referent)
  outer : List (List (String × Referent))
  level : Nat
  count : Nat
deriving DecidableEq, Repr

namespace Context

/-- At the start of a program no name is visible. -/
def empty : Context := ⟨[], [], 0, 0⟩

/-- What a name stands for: the innermost block that declares it decides. -/
def find? (c : Context) (name : String) : Option Referent :=
  (c.inner :: c.outer).findSome? fun block => block.lookup name

def variableOf (c : Context) (name : String) : Option Variable :=
  match c.find? name with
  | some (.cell v) => some v
  | _ => none

def add (c : Context) (name : String) (b : Referent) : Context :=
  { c with inner := (name, b) :: c.inner }

/-- A new variable takes the next place of the frame. -/
def declare (c : Context) (name : String) (constant : Bool) : Context :=
  { c with count := c.count + 1 }.add name (.cell ⟨name, constant, c.level, c.count⟩)

/-- A function is declared where it stands, unless its block has the name already. -/
def declareFunction (c : Context) (name : String) : Context :=
  if (c.inner.lookup name).isSome then c else c.add name .function

/-- The functions of a list are declared before its statements. -/
def hoist (c : Context) : List Stmt → Context
  | [] => c
  | .function name _ _ _ :: rest => (c.add name .function).hoist rest
  | _ :: rest => c.hoist rest

def openBlock (c : Context) : Context := { c with inner := [], outer := c.inner :: c.outer }

def closeBlock (c : Context) : Context :=
  match c.outer with
  | [] => c
  | block :: outer => { c with inner := block, outer }

/-- Declares parameters, the first of which has the given number among all `count` of them. -/
def addParams (count : Nat) : Nat → List Param → Context → Context
  | _, [], c => c
  | i, p :: rest, c => addParams count (i + 1) rest
      (c.add p.name (.cell ⟨p.name, false, c.level, (i : Int) - count - 2⟩))

def openFunction (c : Context) (params : List Param) : Context :=
  addParams params.length 0 params ⟨[], c.inner :: c.outer, c.level + 1, 0⟩

end Context

mutual

def Stmt.after : Stmt → Context → Context
  | .declare d, c => c.declare d.name d.constant
  | .function name _ _ _, c => c.declareFunction name
  | .block body, c => (afterAll body (c.openBlock.hoist body)).closeBlock
  | .cond _ yes no, c => after? no (yes.after c)
  | .loop none _ _ body, c => after? body c
  | .loop (some initial) _ _ body, c => (after? body (initial.after c.openBlock)).closeBlock
  | .expr _, c | .brk _, c | .ret _, c | .empty, c => c

def afterAll : List Stmt → Context → Context
  | [], c => c
  | s :: rest, c => afterAll rest (s.after c)

def after? : Option Stmt → Context → Context
  | none, c => c
  | some s, c => s.after c

end

/-- The names that are visible behind the first part of a loop, which opens a block of its own. -/
def afterStart (initial : Option Stmt) (c : Context) : Context :=
  match initial with
  | none => c
  | some s => s.after c.openBlock

/-! ### Accesses -/

/-- What is done to a variable.  A declaration stores the variable's initial value. -/
inductive Use where
  | read | assign | update | declare
deriving DecidableEq, Repr

/-- An occurrence of a variable, and what is done to the variable there: an access. -/
structure Occurrence where
  use : Use
  target : Variable
deriving DecidableEq, Repr

/-- The access to what a name stands for, if this is a variable. -/
def Context.uses (c : Context) (use : Use) (name : String) : List Occurrence :=
  match c.variableOf name with
  | some v => [⟨use, v⟩]
  | none => []

def UnaryOp.updates : UnaryOp → Bool
  | increment | decrement => true
  | minus | not => false

mutual

/-- The variables that an expression accesses.  What an operator or an assignment changes is accessed
last; an operator that is combined with an assignment reads its target before. -/
def Expr.accesses (c : Context) : Expr → List Occurrence
  | .literal _ => []
  | .template chunks parts => accessesOfParts c chunks parts
  | .name s => c.uses .read s
  | .unary op _ operand =>
    match operand with
    | .name s => c.uses (if op.updates then .update else .read) s
    | _ => operand.accesses c
  | .binary _ left right => left.accesses c ++ right.accesses c
  | .member object _ => object.accesses c
  | .index object indices => object.accesses c ++ accessesIn c indices
  | .call callee arguments => accessesIn c arguments ++ callee.accesses c
  | .assign op target value =>
    (match op.binary? with
      | some _ => target.accesses c ++ value.accesses c
      | none => value.accesses c) ++
    match target with
    | .name s => c.uses .assign s
    | _ => target.accesses c
  | .array items => accessesIn c items
  | .set items => accessesIn c items
  | .object fields => accessesOfFields c fields
  | .ternary test yes no => test.accesses c ++ (yes.accesses c ++ no.accesses c)

def accessesIn (c : Context) : List Expr → List Occurrence
  | [] => []
  | e :: rest => e.accesses c ++ accessesIn c rest

def accessesOfFields (c : Context) : List (String × Expr) → List Occurrence
  | [] => []
  | f :: rest => accessesOfField c f ++ accessesOfFields c rest

def accessesOfField (c : Context) : String × Expr → List Occurrence
  | (_, e) => e.accesses c

/-- The same for the parts of a template; there is one behind each text at most. -/
def accessesOfParts (c : Context) : List String → List Expr → List Occurrence
  | _ :: chunks, e :: parts => e.accesses c ++ accessesOfParts c chunks parts
  | _, _ => []

end

/-- What is accessed where an operator or an assignment changes an expression: a variable itself, or what
leads to an element or a field. -/
def Expr.changes (c : Context) (use : Use) : Expr → List Occurrence
  | .name s => c.uses use s
  | target => target.accesses c

theorem Expr.accesses_updating {c : Context} {op : UnaryOp} (h : op.updates = true) (side : Side)
    (target : Expr) : (Expr.unary op side target).accesses c = target.changes c .update := by
  rw [Expr.accesses.eq_def]
  cases target <;> simp only [Expr.changes, h, if_true]

theorem Expr.accesses_unary {c : Context} {op : UnaryOp} (h : op.updates = false) (side : Side)
    (operand : Expr) : (Expr.unary op side operand).accesses c = operand.accesses c := by
  rw [Expr.accesses.eq_def]
  cases operand <;> simp only [Expr.accesses, h, Bool.false_eq_true, if_false]

theorem Expr.accesses_assign {c : Context} {op : AssignOp} (target value : Expr) :
    (Expr.assign op target value).accesses c =
      (match op.binary? with
        | some _ => target.accesses c ++ value.accesses c
        | none => value.accesses c) ++ target.changes c .assign := by
  rw [Expr.accesses.eq_def]
  cases target <;> rfl

def accesses? (c : Context) : Option Expr → List Occurrence
  | none => []
  | some e => e.accesses c

/-- The access of a declaration: it stores the initial value. -/
def Declaration.accesses (d : Declaration) (c : Context) : List Occurrence :=
  match d.initial with
  | none => []
  | some e => e.accesses c ++ [⟨.declare, ⟨d.name, d.constant, c.level, c.count⟩⟩]

mutual

/-- The variables that a statement accesses, but for the bodies of functions. -/
def Stmt.accesses (c : Context) : Stmt → List Occurrence
  | .declare d => d.accesses c
  | .function .. => []
  | .expr e => e.accesses c
  | .block body => accessesOfAll (c.openBlock.hoist body) body
  | .cond test yes no => test.accesses c ++ (yes.accesses c ++ accessesOf? (yes.after c) no)
  | .loop initial test step body =>
    accessesOf? c.openBlock initial ++ (accesses? (afterStart initial c) test ++
      (accessesOf? (afterStart initial c) body ++ accesses? (after? body (afterStart initial c)) step))
  | .brk _ => []
  | .ret e => accesses? c e
  | .empty => []

def accessesOfAll (c : Context) : List Stmt → List Occurrence
  | [] => []
  | s :: rest => s.accesses c ++ accessesOfAll (s.after c) rest

def accessesOf? (c : Context) : Option Stmt → List Occurrence
  | none => []
  | some s => s.accesses c

end

/-! ### Functions -/

/-- A function where it stands: the names that its body sees, its parameters, and its body.  A program
is a function without parameters. -/
structure Function where
  context : Context
  params : List Param
  body : List Stmt

mutual

/-- The functions in a statement, in the order of `Stmt.bodies`. -/
def Stmt.functions (c : Context) : Stmt → List Function
  | .function name params _ body =>
    let inside := (c.declareFunction name).openFunction params
    ⟨inside, params, body⟩ :: functionsAll (inside.hoist body) body
  | .block body => functionsAll (c.openBlock.hoist body) body
  | .cond _ yes no => yes.functions c ++ functions? (yes.after c) no
  | .loop initial _ _ body =>
    functions? c.openBlock initial ++ functions? (afterStart initial c) body
  | _ => []

def functionsAll (c : Context) : List Stmt → List Function
  | [] => []
  | s :: rest => s.functions c ++ functionsAll (s.after c) rest

def functions? (c : Context) : Option Stmt → List Function
  | none => []
  | some s => s.functions c

end

/-- The top level of a program, as a function. -/
def mainFunction (body : List Stmt) : Function := ⟨.empty, [], body⟩

/-- A program, and the functions in it in the order in which their code is laid out. -/
def programFunctions (body : List Stmt) : List Function :=
  mainFunction body :: functionsAll (Context.empty.hoist body) body

/-! ### The variables of a function -/

mutual

/-- The declarations of variables in a statement, but for those in the bodies of functions. -/
def Stmt.declarations : Stmt → List Declaration
  | .declare d => [d]
  | .block body => declarationsAll body
  | .cond _ yes no => yes.declarations ++ declarations? no
  | .loop initial _ _ body => declarations? initial ++ declarations? body
  | .function .. | .expr _ | .brk _ | .ret _ | .empty => []

def declarationsAll : List Stmt → List Declaration
  | [] => []
  | s :: rest => s.declarations ++ declarationsAll rest

def declarations? : Option Stmt → List Declaration
  | none => []
  | some s => s.declarations

end

/-- The variables of declarations that take the places from `first` on. -/
def variablesFrom (level : Nat) : Nat → List Declaration → List Variable
  | _, [] => []
  | first, d :: rest => ⟨d.name, d.constant, level, first⟩ :: variablesFrom level (first + 1) rest

/-- Parameters, the first of which has the given number among all `count` of them. -/
def parametersFrom (level count : Nat) : Nat → List Param → List Variable
  | _, [] => []
  | i, p :: rest =>
    ⟨p.name, false, level, (i : Int) - count - 2⟩ :: parametersFrom level count (i + 1) rest

namespace Function

variable (f : Function)

/-- The number of functions around the variables of a function. -/
def level : Nat := f.context.level

/-- The parameters and the variables of a function. -/
def vars : List Variable :=
  parametersFrom f.level f.params.length 0 f.params ++
    variablesFrom f.level 0 (declarationsAll f.body)

/-- What the body of a function accesses. -/
def accesses : List Occurrence := accessesOfAll (f.context.hoist f.body) f.body

end Function

theorem variablesFrom_append (level first : Nat) (ds ds' : List Declaration) :
    variablesFrom level first (ds ++ ds') =
      variablesFrom level first ds ++ variablesFrom level (first + ds.length) ds' := by
  induction ds generalizing first with
  | nil => rfl
  | cons d ds ih =>
    rw [List.cons_append, variablesFrom, ih, variablesFrom, List.cons_append, List.length_cons,
      Nat.add_assoc, Nat.add_comm 1]

theorem place_of_mem_variablesFrom {level first : Nat} {ds : List Declaration} {v : Variable}
    (h : v ∈ variablesFrom level first ds) :
    v.level = level ∧ (first : Int) ≤ v.place ∧ v.place < first + ds.length := by
  induction ds generalizing first with
  | nil => cases h
  | cons d ds ih =>
    rw [List.length_cons]
    rcases List.mem_cons.1 h with rfl | h
    · exact ⟨rfl, Int.le_refl _, by dsimp only; omega⟩
    · obtain ⟨hlevel, hlow, hhigh⟩ := ih h
      exact ⟨hlevel, by omega, by omega⟩

theorem place_of_mem_parametersFrom {level count i : Nat} {ps : List Param} {v : Variable}
    (h : v ∈ parametersFrom level count i ps) :
    v.level = level ∧ v.constant = false ∧ (i : Int) - count - 2 ≤ v.place ∧
      v.place < i + ps.length - count - 2 := by
  induction ps generalizing i with
  | nil => cases h
  | cons p ps ih =>
    rw [List.length_cons]
    rcases List.mem_cons.1 h with rfl | h
    · exact ⟨rfl, rfl, Int.le_refl _, by dsimp only; omega⟩
    · obtain ⟨hlevel, hconstant, hlow, hhigh⟩ := ih h
      exact ⟨hlevel, hconstant, by omega, by omega⟩

theorem places_variablesFrom (level first : Nat) (ds : List Declaration) :
    (variablesFrom level first ds).Pairwise fun v w => v.place < w.place := by
  induction ds generalizing first with
  | nil => exact .nil
  | cons d ds ih =>
    refine .cons (fun w hw => ?_) (ih (first + 1))
    have := (place_of_mem_variablesFrom hw).2.1
    dsimp only
    omega

theorem places_parametersFrom (level count i : Nat) (ps : List Param) :
    (parametersFrom level count i ps).Pairwise fun v w => v.place < w.place := by
  induction ps generalizing i with
  | nil => exact .nil
  | cons p ps ih =>
    refine .cons (fun w hw => ?_) (ih (i + 1))
    have := (place_of_mem_parametersFrom hw).2.2.1
    dsimp only
    omega

namespace Function

variable {f : Function} {v w : Variable}

/-- The variables of a function lie behind each other: first the parameters, then, with two cells
between them, the variables that its body declares. -/
theorem places_vars (f : Function) : f.vars.Pairwise fun v w => v.place < w.place := by
  refine List.pairwise_append.2
    ⟨places_parametersFrom _ _ _ _, places_variablesFrom _ _ _, fun v hv w hw => ?_⟩
  have hparam := (place_of_mem_parametersFrom hv).2.2.2
  have hlocal := (place_of_mem_variablesFrom hw).2.1
  omega

/-- Where the variables of a function lie. -/
theorem place_of_mem (h : v ∈ f.vars) :
    v.level = f.level ∧ ((0 ≤ v.place ∧ v.place < (declarationsAll f.body).length) ∨
      (-2 - f.params.length ≤ v.place ∧ v.place < -2 ∧ v.constant = false)) := by
  rcases List.mem_append.1 h with h | h
  · obtain ⟨hlevel, hconstant, hlow, hhigh⟩ := place_of_mem_parametersFrom h
    exact ⟨hlevel, .inr ⟨by omega, by omega, hconstant⟩⟩
  · obtain ⟨hlevel, hlow, hhigh⟩ := place_of_mem_variablesFrom h
    exact ⟨hlevel, .inl ⟨by omega, by omega⟩⟩

/-- The place tells which variable it is. -/
theorem eq_of_place (hv : v ∈ f.vars) (hw : w ∈ f.vars) (h : v.place = w.place) : v = w := by
  have hplaces := List.pairwise_iff_getElem.1 (places_vars f)
  obtain ⟨i, hi, rfl⟩ := List.getElem_of_mem hv
  obtain ⟨j, hj, rfl⟩ := List.getElem_of_mem hw
  rcases Nat.lt_trichotomy i j with hlt | rfl | hlt
  · have := hplaces i j hi hj hlt
    omega
  · rfl
  · have := hplaces j i hj hi hlt
    omega

end Function

/-! ### What names can stand for -/

/-- The variables that are visible are among those of the functions around; `around` gives the
variables of the function at each level. -/
def Context.Sees (c : Context) (around : Nat → List Variable) : Prop :=
  ∀ block ∈ c.inner :: c.outer, ∀ p ∈ block, ∀ v, p.2 = .cell v →
    v.level ≤ c.level ∧ v ∈ around v.level

section Sees

variable {c : Context} {around : Nat → List Variable}

theorem Context.Sees.add (h : c.Sees around) {name : String} {b : Referent}
    (hb : ∀ v, b = .cell v → v.level ≤ c.level ∧ v ∈ around v.level) :
    (c.add name b).Sees around := by
  intro block hblock p hp v hv
  rcases List.mem_cons.1 hblock with rfl | hblock
  · rcases List.mem_cons.1 hp with rfl | hp
    · exact hb v hv
    · exact h _ List.mem_cons_self p hp v hv
  · exact h _ (List.mem_cons_of_mem _ hblock) p hp v hv

theorem Context.Sees.declareFunction (h : c.Sees around) (name : String) :
    (c.declareFunction name).Sees around := by
  unfold Context.declareFunction
  split
  · exact h
  · exact h.add nofun

theorem Context.Sees.hoist (h : c.Sees around) (body : List Stmt) : (c.hoist body).Sees around := by
  induction body generalizing c with
  | nil => exact h
  | cons s rest ih =>
    cases s <;> first | exact ih h | exact ih (h.add nofun)

theorem Context.Sees.openBlock (h : c.Sees around) : c.openBlock.Sees around := by
  intro block hblock
  rcases List.mem_cons.1 hblock with rfl | hblock
  · nofun
  · exact h block hblock

theorem Context.Sees.closeBlock (h : c.Sees around) : c.closeBlock.Sees around := by
  unfold Context.closeBlock
  split
  · exact h
  · next block outer houter =>
    intro b hb
    exact h b (List.mem_cons_of_mem _ (houter ▸ hb))

theorem Context.Sees.addParams {count i : Nat} {ps : List Param} (h : c.Sees around)
    (hp : parametersFrom c.level count i ps ⊆ around c.level) :
    (Context.addParams count i ps c).Sees around := by
  induction ps generalizing i c with
  | nil => exact h
  | cons p ps ih =>
    refine ih (h.add fun v hv => ?_) fun v hv => hp (List.mem_cons_of_mem _ hv)
    obtain rfl := Referent.cell.inj hv
    exact ⟨Nat.le_refl _, hp List.mem_cons_self⟩

theorem Context.Sees.uses (h : c.Sees around) {use : Use} {name : String} {a : Occurrence}
    (ha : a ∈ c.uses use name) : a.target ∈ around a.target.level := by
  unfold Context.uses Context.variableOf at ha
  split at ha
  · next v hv =>
    split at hv
    · next w hw =>
      obtain rfl := Option.some.inj hv
      obtain ⟨block, hblock, hlookup⟩ := List.exists_of_findSome?_eq_some hw
      obtain rfl := List.mem_singleton.1 ha
      obtain ⟨front, rest, rfl, -⟩ := List.lookup_eq_some_iff.1 hlookup
      exact (h _ hblock (name, .cell w) (List.mem_append_right _ List.mem_cons_self) w rfl).2
    · cases hv
  · cases ha

end Sees

/-! ### Names along a tree -/

section Counts

variable {c : Context}

@[simp] theorem Context.level_add (name : String) (b : Referent) : (c.add name b).level = c.level := rfl
@[simp] theorem Context.count_add (name : String) (b : Referent) : (c.add name b).count = c.count := rfl
@[simp] theorem Context.level_openBlock : c.openBlock.level = c.level := rfl
@[simp] theorem Context.count_openBlock : c.openBlock.count = c.count := rfl

@[simp] theorem Context.level_closeBlock : c.closeBlock.level = c.level := by
  unfold closeBlock
  split <;> rfl

@[simp] theorem Context.count_closeBlock : c.closeBlock.count = c.count := by
  unfold closeBlock
  split <;> rfl

@[simp] theorem Context.level_declareFunction (name : String) :
    (c.declareFunction name).level = c.level := by
  unfold declareFunction
  split <;> rfl

@[simp] theorem Context.count_declareFunction (name : String) :
    (c.declareFunction name).count = c.count := by
  unfold declareFunction
  split <;> rfl

@[simp] theorem Context.level_hoist (body : List Stmt) : (c.hoist body).level = c.level := by
  induction body generalizing c with
  | nil => rfl
  | cons s rest ih => cases s <;> exact ih

@[simp] theorem Context.count_hoist (body : List Stmt) : (c.hoist body).count = c.count := by
  induction body generalizing c with
  | nil => rfl
  | cons s rest ih => cases s <;> exact ih

@[simp] theorem Context.level_addParams (count i : Nat) (ps : List Param) :
    (Context.addParams count i ps c).level = c.level := by
  induction ps generalizing i c with
  | nil => rfl
  | cons p ps ih => exact ih (i + 1)

@[simp] theorem Context.count_addParams (count i : Nat) (ps : List Param) :
    (Context.addParams count i ps c).count = c.count := by
  induction ps generalizing i c with
  | nil => rfl
  | cons p ps ih => exact ih (i + 1)

end Counts

mutual

/-- A statement counts its declarations, and leads into no other function. -/
theorem Stmt.after_counts : (s : Stmt) → (c : Context) →
    (s.after c).level = c.level ∧ (s.after c).count = c.count + s.declarations.length
  | .declare d, _ => ⟨rfl, rfl⟩
  | .function .., c => by simp [Stmt.after, Stmt.declarations]
  | .block body, c => by
    simpa [Stmt.after, Stmt.declarations] using afterAll_counts body (c.openBlock.hoist body)
  | .cond _ yes no, c => by
    obtain ⟨hlevel, hcount⟩ := yes.after_counts c
    obtain ⟨hlevel', hcount'⟩ := after?_counts no (yes.after c)
    simp only [Stmt.after, Stmt.declarations, List.length_append]
    exact ⟨hlevel'.trans hlevel, by omega⟩
  | .loop none _ _ body, c => by
    simpa [Stmt.after, Stmt.declarations, declarations?] using after?_counts body c
  | .loop (some initial) _ _ body, c => by
    obtain ⟨hlevel, hcount⟩ := initial.after_counts c.openBlock
    obtain ⟨hlevel', hcount'⟩ := after?_counts body (initial.after c.openBlock)
    simp only [Stmt.after, Stmt.declarations, declarations?, List.length_append,
      Context.level_closeBlock, Context.count_closeBlock]
    rw [Context.level_openBlock] at hlevel
    rw [Context.count_openBlock] at hcount
    exact ⟨hlevel'.trans hlevel, by omega⟩
  | .expr _, _ | .brk _, _ | .ret _, _ | .empty, _ => ⟨rfl, rfl⟩

theorem afterAll_counts : (body : List Stmt) → (c : Context) →
    (afterAll body c).level = c.level ∧ (afterAll body c).count = c.count + (declarationsAll body).length
  | [], _ => ⟨rfl, rfl⟩
  | s :: rest, c => by
    obtain ⟨hlevel, hcount⟩ := s.after_counts c
    obtain ⟨hlevel', hcount'⟩ := afterAll_counts rest (s.after c)
    simp only [afterAll, declarationsAll, List.length_append]
    exact ⟨hlevel'.trans hlevel, by omega⟩

theorem after?_counts : (s : Option Stmt) → (c : Context) →
    (after? s c).level = c.level ∧ (after? s c).count = c.count + (declarations? s).length
  | none, _ => ⟨rfl, rfl⟩
  | some s, c => s.after_counts c

end

section Sees

variable {around : Nat → List Variable}

/-- The declarations in a part of a function are among the function's variables. -/
def Context.Owns (c : Context) (around : Nat → List Variable) (ds : List Declaration) : Prop :=
  variablesFrom c.level c.count ds ⊆ around c.level

theorem Context.Owns.append {c c' : Context} {ds ds' : List Declaration}
    (h : c.Owns around (ds ++ ds')) (hlevel : c'.level = c.level)
    (hcount : c'.count = c.count + ds.length) : c.Owns around ds ∧ c'.Owns around ds' := by
  unfold Context.Owns at *
  rw [variablesFrom_append, List.append_subset] at h
  rw [hlevel, hcount]
  exact h

mutual

theorem Stmt.after_sees : (s : Stmt) → {c : Context} → c.Sees around → c.Owns around s.declarations →
    (s.after c).Sees around
  | .declare d, c, h, ho => by
    refine Context.Sees.add (c := { c with count := c.count + 1 }) h fun v hv => ?_
    obtain rfl := Referent.cell.inj hv
    exact ⟨Nat.le_refl _, ho List.mem_cons_self⟩
  | .function name _ _ _, c, h, _ => h.declareFunction name
  | .block body, c, h, ho => by
    refine (afterAll_sees body (h.openBlock.hoist body) ?_).closeBlock
    simpa [Context.Owns, Stmt.declarations] using ho
  | .cond _ yes no, c, h, ho => by
    obtain ⟨hlevel, hcount⟩ := yes.after_counts c
    obtain ⟨hyes, hno⟩ := ho.append hlevel hcount
    exact after?_sees no (yes.after_sees h hyes) hno
  | .loop none _ _ body, c, h, ho => after?_sees body h ho
  | .loop (some initial) _ _ body, c, h, ho => by
    obtain ⟨hlevel, hcount⟩ := initial.after_counts c.openBlock
    obtain ⟨hinitial, hbody⟩ := Context.Owns.append (c := c.openBlock) ho hlevel hcount
    exact (after?_sees body (initial.after_sees h.openBlock hinitial) hbody).closeBlock
  | .expr _, c, h, _ | .brk _, c, h, _ | .ret _, c, h, _ | .empty, c, h, _ => h

theorem afterAll_sees : (body : List Stmt) → {c : Context} → c.Sees around →
    c.Owns around (declarationsAll body) → (afterAll body c).Sees around
  | [], _, h, _ => h
  | s :: rest, c, h, ho => by
    obtain ⟨hlevel, hcount⟩ := s.after_counts c
    obtain ⟨hs, hrest⟩ := ho.append hlevel hcount
    exact afterAll_sees rest (s.after_sees h hs) hrest

theorem after?_sees : (s : Option Stmt) → {c : Context} → c.Sees around →
    c.Owns around (declarations? s) → (after? s c).Sees around
  | none, _, h, _ => h
  | some s, _, h, ho => s.after_sees h ho

end

end Sees

/-! ### What a function accesses -/

/-- All accessed variables are among those of the functions around. -/
def Known (around : Nat → List Variable) (accesses : List Occurrence) : Prop :=
  ∀ a ∈ accesses, a.target ∈ around a.target.level

section Known

variable {around : Nat → List Variable}

theorem Known.nil : Known around [] := nofun

theorem Known.append {l l' : List Occurrence} (h : Known around l) (h' : Known around l') :
    Known around (l ++ l') := fun a ha =>
  (List.mem_append.1 ha).elim (h a) (h' a)

theorem Known.uses {c : Context} (h : c.Sees around) (use : Use) (name : String) :
    Known around (c.uses use name) := fun _ ha => h.uses ha

mutual

theorem Expr.accesses_known {c : Context} (h : c.Sees around) : (e : Expr) →
    Known around (e.accesses c)
  | .literal _ => .nil
  | .template chunks parts => accessesOfParts_known h chunks parts
  | .name s => .uses h .read s
  | .unary op _ operand => by
    rw [Expr.accesses.eq_def]
    dsimp only
    split
    · exact .uses h _ _
    · exact operand.accesses_known h
  | .binary _ left right => (left.accesses_known h).append (right.accesses_known h)
  | .member object _ => object.accesses_known h
  | .index object indices => (object.accesses_known h).append (accessesIn_known h indices)
  | .call callee arguments => (accessesIn_known h arguments).append (callee.accesses_known h)
  | .assign op target value => by
    rw [Expr.accesses.eq_def]
    dsimp only
    refine .append ?_ ?_
    · split
      · exact (target.accesses_known h).append (value.accesses_known h)
      · exact value.accesses_known h
    · split
      · exact .uses h _ _
      · exact target.accesses_known h
  | .array items => accessesIn_known h items
  | .set items => accessesIn_known h items
  | .object fields => accessesOfFields_known h fields
  | .ternary test yes no =>
    (test.accesses_known h).append ((yes.accesses_known h).append (no.accesses_known h))

theorem accessesIn_known {c : Context} (h : c.Sees around) : (es : List Expr) →
    Known around (accessesIn c es)
  | [] => .nil
  | e :: rest => (e.accesses_known h).append (accessesIn_known h rest)

theorem accessesOfFields_known {c : Context} (h : c.Sees around) : (fs : List (String × Expr)) →
    Known around (accessesOfFields c fs)
  | [] => .nil
  | f :: rest => (accessesOfField_known h f).append (accessesOfFields_known h rest)

theorem accessesOfField_known {c : Context} (h : c.Sees around) : (f : String × Expr) →
    Known around (accessesOfField c f)
  | (_, e) => e.accesses_known h

theorem accessesOfParts_known {c : Context} (h : c.Sees around) : (chunks : List String) →
    (parts : List Expr) → Known around (accessesOfParts c chunks parts)
  | _ :: chunks, e :: parts => (e.accesses_known h).append (accessesOfParts_known h chunks parts)
  | [], _ => by
    rw [accessesOfParts]
    · exact .nil
    · nofun
  | _ :: _, [] => by
    rw [accessesOfParts]
    · exact .nil
    · nofun

end

theorem accesses?_known {c : Context} (h : c.Sees around) : (e : Option Expr) →
    Known around (accesses? c e)
  | none => .nil
  | some e => e.accesses_known h

mutual

theorem Stmt.accesses_known : (s : Stmt) → {c : Context} → c.Sees around →
    c.Owns around s.declarations → Known around (s.accesses c)
  | .declare d, c, h, ho => by
    rw [Stmt.accesses, Declaration.accesses]
    split
    · exact .nil
    · next e _ =>
      refine (e.accesses_known h).append fun a ha => ?_
      obtain rfl := List.mem_singleton.1 ha
      exact ho List.mem_cons_self
  | .function .., _, _, _ => .nil
  | .expr e, _, h, _ => e.accesses_known h
  | .block body, c, h, ho => by
    refine accessesOfAll_known body (h.openBlock.hoist body) ?_
    simpa [Context.Owns, Stmt.declarations] using ho
  | .cond test yes no, c, h, ho => by
    obtain ⟨hlevel, hcount⟩ := yes.after_counts c
    obtain ⟨hyes, hno⟩ := ho.append hlevel hcount
    exact (test.accesses_known h).append ((yes.accesses_known h hyes).append
      (accessesOf?_known no (yes.after_sees h hyes) hno))
  | .loop none test step body, c, h, ho =>
    Known.nil.append ((accesses?_known h test).append ((accessesOf?_known body h ho).append
      (accesses?_known (after?_sees body h ho) step)))
  | .loop (some initial) test step body, c, h, ho => by
    -- the name of the loop is known in its test, its step and its body
    obtain ⟨hlevel, hcount⟩ := initial.after_counts c.openBlock
    obtain ⟨hinitial, hbody⟩ := Context.Owns.append (c := c.openBlock) ho hlevel hcount
    have hstart := initial.after_sees h.openBlock hinitial
    exact (initial.accesses_known h.openBlock hinitial).append
      ((accesses?_known hstart test).append ((accessesOf?_known body hstart hbody).append
        (accesses?_known (after?_sees body hstart hbody) step)))
  | .brk _, _, _, _ => .nil
  | .ret e, _, h, _ => accesses?_known h e
  | .empty, _, _, _ => .nil

theorem accessesOfAll_known : (body : List Stmt) → {c : Context} → c.Sees around →
    c.Owns around (declarationsAll body) → Known around (accessesOfAll c body)
  | [], _, _, _ => .nil
  | s :: rest, c, h, ho => by
    obtain ⟨hlevel, hcount⟩ := s.after_counts c
    obtain ⟨hs, hrest⟩ := ho.append hlevel hcount
    exact (s.accesses_known h hs).append (accessesOfAll_known rest (s.after_sees h hs) hrest)

theorem accessesOf?_known : (s : Option Stmt) → {c : Context} → c.Sees around →
    c.Owns around (declarations? s) → Known around (accessesOf? c s)
  | none, _, _, _ => .nil
  | some s, _, h, ho => s.accesses_known h ho

end

end Known

/-! ### The functions of a program -/

/-- A function by the number of its parameters and its body. -/
def Function.code (f : Function) : Nat × List Stmt := (f.params.length, f.body)

mutual

theorem Stmt.functions_code : (s : Stmt) → (c : Context) → (s.functions c).map Function.code = s.bodies
  | .function name params _ body, c => by
    rw [Stmt.functions, Stmt.bodies, List.map_cons, functionsAll_code body]
    rfl
  | .block body, c => functionsAll_code body _
  | .cond _ yes no, c => by
    rw [Stmt.functions, Stmt.bodies, List.map_append, yes.functions_code, functions?_code]
  | .loop initial _ _ body, c => by
    rw [Stmt.functions, Stmt.bodies, List.map_append, functions?_code, functions?_code]
  | .declare _, _ | .expr _, _ | .brk _, _ | .ret _, _ | .empty, _ => rfl

theorem functionsAll_code : (body : List Stmt) → (c : Context) →
    (functionsAll c body).map Function.code = bodiesAll body
  | [], _ => rfl
  | s :: rest, c => by
    rw [functionsAll, bodiesAll, List.map_append, s.functions_code, functionsAll_code rest]

theorem functions?_code : (s : Option Stmt) → (c : Context) →
    (functions? c s).map Function.code = bodies? s
  | none, _ => rfl
  | some s, c => s.functions_code c

end

theorem Stmt.functions_length (s : Stmt) (c : Context) : (s.functions c).length = s.bodies.length := by
  rw [← s.functions_code c, List.length_map]

theorem functionsAll_length (body : List Stmt) (c : Context) :
    (functionsAll c body).length = (bodiesAll body).length := by
  rw [← functionsAll_code body c, List.length_map]

/-- A function that stands where all visible variables are among those of the functions around. -/
structure Function.Stands (f : Function) (around : Nat → List Variable) : Prop where
  sees : f.context.Sees around
  own : around f.level = f.vars
  start : f.context.count = 0

/-- The variables around a function that is nested in others. -/
def nested (around : Nat → List Variable) (f : Function) (level : Nat) : List Variable :=
  if level = f.level then f.vars else around level

section Functions

variable {around : Nat → List Variable} {f : Function}

theorem Function.Stands.owns (h : f.Stands around) :
    (f.context.hoist f.body).Owns around (declarationsAll f.body) := by
  unfold Context.Owns
  rw [Context.level_hoist, Context.count_hoist, h.start]
  exact h.own ▸ List.subset_append_right _ _

/-- The body of a function sees its parameters, and what is visible where the function stands. -/
theorem Context.Sees.openFunction {c : Context} (h : c.Sees around) (params : List Param)
    (body : List Stmt) :
    Function.Stands ⟨c.openFunction params, params, body⟩
      (nested around ⟨c.openFunction params, params, body⟩) := by
  have hlevel : (c.openFunction params).level = c.level + 1 := by simp [Context.openFunction]
  refine ⟨?_, if_pos rfl, by simp [Context.openFunction]⟩
  refine Context.Sees.addParams (fun block hblock p hp v hv => ?_) fun v hv => ?_
  · rcases List.mem_cons.1 hblock with rfl | hblock
    · cases hp
    · obtain ⟨hle, hmem⟩ := h block hblock p hp v hv
      refine ⟨Nat.le_succ_of_le hle, ?_⟩
      rwa [nested, if_neg]
      show v.level ≠ (c.openFunction params).level
      omega
  · have hown : c.level + 1 = Function.level ⟨c.openFunction params, params, body⟩ := hlevel.symm
    show v ∈ nested _ _ (c.level + 1)
    rw [nested, if_pos hown, Function.vars, ← hown]
    exact List.mem_append_left _ hv

/-- A function that stands somewhere in a part of a program in which these variables are around. -/
def Nested (around : Nat → List Variable) (f : Function) : Prop :=
  ∃ around', around' 0 = around 0 ∧ f.Stands around'

theorem nested_zero {c : Context} {params : List Param} {body : List Stmt} :
    nested around ⟨c.openFunction params, params, body⟩ 0 = around 0 := by
  refine if_neg ?_
  show 0 ≠ (c.openFunction params).level
  simp [Context.openFunction]

mutual

theorem Stmt.functions_stand : (s : Stmt) → {c : Context} → {around : Nat → List Variable} →
    c.Sees around → c.Owns around s.declarations → ∀ f ∈ s.functions c, Nested around f
  | .function name params _ body, c, around, h, _ => by
    have hstands := (h.declareFunction name).openFunction params body
    -- the function itself, and what is declared in its body
    intro f hf
    rcases List.mem_cons.1 hf with rfl | hf
    · exact ⟨_, nested_zero, hstands⟩
    · obtain ⟨around', hzero, hf⟩ :=
        functionsAll_stand body (hstands.sees.hoist body) hstands.owns f hf
      exact ⟨around', hzero.trans nested_zero, hf⟩
  | .block body, c, around, h, ho => by
    refine functionsAll_stand body (h.openBlock.hoist body) ?_
    simpa [Context.Owns, Stmt.declarations] using ho
  | .cond _ yes no, c, around, h, ho => by
    obtain ⟨hlevel, hcount⟩ := yes.after_counts c
    obtain ⟨hyes, hno⟩ := ho.append hlevel hcount
    intro f hf
    rcases List.mem_append.1 hf with hf | hf
    · exact yes.functions_stand h hyes f hf
    · exact functions?_stand no (yes.after_sees h hyes) hno f hf
  | .loop none _ _ body, c, around, h, ho => fun f hf => functions?_stand body h ho f hf
  | .loop (some initial) _ _ body, c, around, h, ho => by
    obtain ⟨hlevel, hcount⟩ := initial.after_counts c.openBlock
    obtain ⟨hinitial, hbody⟩ := Context.Owns.append (c := c.openBlock) ho hlevel hcount
    intro f hf
    rcases List.mem_append.1 hf with hf | hf
    · exact initial.functions_stand h.openBlock hinitial f hf
    · exact functions?_stand body (initial.after_sees h.openBlock hinitial) hbody f hf
  | .declare _, _, _, _, _ | .expr _, _, _, _, _ | .brk _, _, _, _, _ | .ret _, _, _, _, _
  | .empty, _, _, _, _ => nofun

theorem functionsAll_stand : (body : List Stmt) → {c : Context} → {around : Nat → List Variable} →
    c.Sees around → c.Owns around (declarationsAll body) → ∀ f ∈ functionsAll c body, Nested around f
  | [], _, _, _, _ => nofun
  | s :: rest, c, around, h, ho => by
    obtain ⟨hlevel, hcount⟩ := s.after_counts c
    obtain ⟨hs, hrest⟩ := ho.append hlevel hcount
    intro f hf
    rcases List.mem_append.1 hf with hf | hf
    · exact s.functions_stand h hs f hf
    · exact functionsAll_stand rest (s.after_sees h hs) hrest f hf

theorem functions?_stand : (s : Option Stmt) → {c : Context} → {around : Nat → List Variable} →
    c.Sees around → c.Owns around (declarations? s) → ∀ f ∈ functions? c s, Nested around f
  | none, _, _, _, _ => nofun
  | some s, _, _, h, ho => s.functions_stand h ho

end

/-- All functions of a program stand where the variables of the top level are around. -/
theorem programFunctions_stand {body : List Stmt} (hf : f ∈ programFunctions body) :
    Nested (fun _ => (mainFunction body).vars) f := by
  have htop : (mainFunction body).Stands fun _ => (mainFunction body).vars := by
    refine ⟨fun block hblock p hp => ?_, rfl, rfl⟩
    obtain rfl : block = [] := by simpa [mainFunction, Context.empty] using hblock
    cases hp
  rcases List.mem_cons.1 hf with rfl | hf
  · exact ⟨_, rfl, htop⟩
  · exact functionsAll_stand body (htop.sees.hoist body) htop.owns f hf

/-- No variable of a function is declared where its body starts. -/
theorem start_of_mem {body : List Stmt} (hf : f ∈ programFunctions body) : f.context.count = 0 :=
  have ⟨_, _, hstands⟩ := programFunctions_stand hf
  hstands.start

/-- What a function of a program accesses at its own level is one of its variables, and what it
accesses at the top level is one of the program's. -/
theorem accesses_known {body : List Stmt} (hf : f ∈ programFunctions body) {a : Occurrence}
    (ha : a ∈ f.accesses) :
    (a.target.level = f.level → a.target ∈ f.vars) ∧
      (a.target.level = 0 → a.target ∈ (mainFunction body).vars) := by
  obtain ⟨around, hzero, hstands⟩ := programFunctions_stand hf
  have hknown := accessesOfAll_known f.body (hstands.sees.hoist f.body) hstands.owns a ha
  constructor
  · intro hlevel
    rwa [hlevel, hstands.own] at hknown
  · intro hlevel
    rwa [hlevel, hzero] at hknown

end Functions

end StackScript.Syntax
