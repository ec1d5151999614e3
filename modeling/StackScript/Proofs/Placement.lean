import Mathlib.Tactic.Common
import StackScript.Syntax.Tree

/-!
# Where functions are declared

Functions are meant to stand in statement lists, where all of a list's functions are declared before
any statement is written (`Listed`).  A function that is the body of a condition or of a loop is
declared in the block around it when it is reached; if the block has a function of this name
already, that one gets a second body.  `Steady` programs are those in which this does not change the
number of its parameters.  All programs whose functions are listed are steady.
-/

namespace StackScript.Syntax

/-! ### The functions of a program -/

mutual

/-- The functions in a statement, each by the number of its parameters and its body, in the order in
which the bodies are written. -/
def Stmt.bodies : Stmt → List (Nat × List Stmt)
  | .function _ params _ body => (params.length, body) :: bodiesAll body
  | .block body => bodiesAll body
  | .cond _ yes no => yes.bodies ++ bodies? no
  | .loop initial _ _ body => bodies? initial ++ bodies? body
  | _ => []

def bodiesAll : List Stmt → List (Nat × List Stmt)
  | [] => []
  | s :: rest => s.bodies ++ bodiesAll rest

def bodies? : Option Stmt → List (Nat × List Stmt)
  | none => []
  | some s => s.bodies

end

mutual

/-- The functions that a statement declares in the block around it, with the numbers of their
parameters. -/
def Stmt.own : Stmt → List (String × Nat)
  | .function name params _ _ => [(name, params.length)]
  | .cond _ yes no => yes.own ++ own? no
  | .loop none _ _ body => own? body
  | _ => []

def own? : Option Stmt → List (String × Nat)
  | none => []
  | some s => s.own

end

/-- The functions that the statements of a list declare in its block. -/
def ownAll (body : List Stmt) : List (String × Nat) := body.flatMap Stmt.own

def Stmt.isFunction : Stmt → Bool
  | .function .. => true
  | _ => false

def listed (body : List Stmt) : List (String × Nat) := ownAll (body.filter Stmt.isFunction)

/-- The functions of a list's block that stand deeper than in the list itself. -/
def deeper (body : List Stmt) : List (String × Nat) := ownAll (body.filter fun s => !s.isFunction)

/-! ### Steady programs -/

/-- Functions of one name have one number of parameters. -/
def Consistent (functions : List (String × Nat)) : Prop :=
  ∀ f ∈ functions, ∀ g ∈ functions, f.1 = g.1 → f.2 = g.2

/-- The functions of a list's block that stand deeper agree with all of the block's functions. -/
def SteadyBlock (body : List Stmt) : Prop :=
  ∀ f ∈ deeper body, ∀ g ∈ ownAll body, f.1 = g.1 → f.2 = g.2

mutual

/-- Whatever declares a function again that its block has already, leaves the number of parameters
as it was. -/
def Stmt.Steady : Stmt → Prop
  | .function _ _ _ body => SteadyBlock body ∧ SteadyAll body
  | .block body => SteadyBlock body ∧ SteadyAll body
  | .cond _ yes no => yes.Steady ∧ Steady? no
  | .loop none _ _ body => Steady? body
  | .loop (some initial) _ _ body =>
    Consistent (initial.own ++ own? body) ∧ initial.Steady ∧ Steady? body
  | _ => True

def SteadyAll : List Stmt → Prop
  | [] => True
  | s :: rest => s.Steady ∧ SteadyAll rest

def Steady? : Option Stmt → Prop
  | none => True
  | some s => s.Steady

end

/-- Whatever declares a function of a program again leaves the number of parameters as it was. -/
def SteadyProgram (body : List Stmt) : Prop := SteadyBlock body ∧ SteadyAll body

/-! ### Listed functions -/

mutual

/-- Do the functions in a statement stand only in statement lists?  The statement itself may be the
declaration of a function. -/
def Stmt.functionsListed : Stmt → Bool
  | .function _ _ _ body => allListed body
  | .block body => allListed body
  | .cond _ yes no => !yes.isFunction && yes.functionsListed && bodyListed no
  | .loop initial _ _ body => bodyListed initial && bodyListed body
  | _ => true

def allListed : List Stmt → Bool
  | [] => true
  | s :: rest => s.functionsListed && allListed rest

/-- The same for a statement that may be missing and may not declare a function. -/
def bodyListed : Option Stmt → Bool
  | none => true
  | some s => !s.isFunction && s.functionsListed

end

mutual

theorem own_of_listed : (s : Stmt) → s.isFunction = false → s.functionsListed = true → s.own = []
  | .function .., hf, _ => absurd hf nofun
  | .cond _ yes no, _, h => by
    simp only [Stmt.functionsListed, Bool.and_eq_true, Bool.not_eq_true'] at h
    rw [Stmt.own, own_of_listed yes h.1.1 h.1.2, own?_of_listed no h.2]
    rfl
  | .loop none _ _ body, _, h => by
    simp only [Stmt.functionsListed, Bool.and_eq_true] at h
    rw [Stmt.own, own?_of_listed body h.2]
  | .loop (some _) _ _ _, _, _ => by rw [Stmt.own] <;> nofun
  | .declare _, _, _ => by rw [Stmt.own] <;> nofun
  | .expr _, _, _ => by rw [Stmt.own] <;> nofun
  | .block _, _, _ => by rw [Stmt.own] <;> nofun
  | .brk _, _, _ => by rw [Stmt.own] <;> nofun
  | .ret _, _, _ => by rw [Stmt.own] <;> nofun
  | .empty, _, _ => by rw [Stmt.own] <;> nofun

theorem own?_of_listed : (s : Option Stmt) → bodyListed s = true → own? s = []
  | none, _ => by rw [own?]
  | some s, h => by
    simp only [bodyListed, Bool.and_eq_true, Bool.not_eq_true'] at h
    rw [own?, own_of_listed s h.1 h.2]

end

theorem functionsListed_of_mem {body : List Stmt} (h : allListed body = true) {s : Stmt}
    (hs : s ∈ body) : s.functionsListed = true := by
  induction body with
  | nil => cases hs
  | cons t rest ih =>
    rw [allListed, Bool.and_eq_true] at h
    rcases List.mem_cons.1 hs with rfl | hs
    · exact h.1
    · exact ih h.2 hs

theorem deeper_of_listed {body : List Stmt} (h : allListed body = true) : deeper body = [] := by
  refine List.flatMap_eq_nil_iff.2 fun s hs => ?_
  obtain ⟨hs, hf⟩ := List.mem_filter.1 hs
  exact own_of_listed s (by simpa using hf) (functionsListed_of_mem h hs)

theorem steadyBlock_of_listed {body : List Stmt} (h : allListed body = true) : SteadyBlock body := by
  intro f hf
  rw [deeper_of_listed h] at hf
  cases hf

mutual

theorem steady_of_listed : (s : Stmt) → s.functionsListed = true → s.Steady
  | .function _ _ _ body, h => by
    rw [Stmt.functionsListed] at h
    rw [Stmt.Steady]
    exact ⟨steadyBlock_of_listed h, steadyAll_of_listed body h⟩
  | .block body, h => by
    rw [Stmt.functionsListed] at h
    rw [Stmt.Steady]
    exact ⟨steadyBlock_of_listed h, steadyAll_of_listed body h⟩
  | .cond _ yes no, h => by
    simp only [Stmt.functionsListed, Bool.and_eq_true, Bool.not_eq_true'] at h
    rw [Stmt.Steady]
    exact ⟨steady_of_listed yes h.1.2, steady?_of_listed no h.2⟩
  | .loop none _ _ body, h => by
    simp only [Stmt.functionsListed, Bool.and_eq_true] at h
    rw [Stmt.Steady]
    exact steady?_of_listed body h.2
  | .loop (some initial) _ _ body, h => by
    simp only [Stmt.functionsListed, Bool.and_eq_true] at h
    have hi := h.1
    rw [bodyListed, Bool.and_eq_true, Bool.not_eq_true'] at hi
    rw [Stmt.Steady, own_of_listed initial hi.1 hi.2, own?_of_listed body h.2]
    exact ⟨nofun, steady_of_listed initial hi.2, steady?_of_listed body h.2⟩
  | .declare _, _ => by rw [Stmt.Steady] <;> first | trivial | nofun
  | .expr _, _ => by rw [Stmt.Steady] <;> first | trivial | nofun
  | .brk _, _ => by rw [Stmt.Steady] <;> first | trivial | nofun
  | .ret _, _ => by rw [Stmt.Steady] <;> first | trivial | nofun
  | .empty, _ => by rw [Stmt.Steady] <;> first | trivial | nofun

theorem steadyAll_of_listed : (body : List Stmt) → allListed body = true → SteadyAll body
  | [], _ => by rw [SteadyAll]; trivial
  | s :: rest, h => by
    rw [allListed, Bool.and_eq_true] at h
    rw [SteadyAll]
    exact ⟨steady_of_listed s h.1, steadyAll_of_listed rest h.2⟩

theorem steady?_of_listed : (s : Option Stmt) → bodyListed s = true → Steady? s
  | none, _ => by rw [Steady?]; trivial
  | some s, h => by
    simp only [bodyListed, Bool.and_eq_true] at h
    rw [Steady?]
    exact steady_of_listed s h.2

end

/-- A program whose functions are listed is steady. -/
theorem steadyProgram_of_listed {body : List Stmt} (h : allListed body = true) :
    SteadyProgram body := ⟨steadyBlock_of_listed h, steadyAll_of_listed body h⟩

end StackScript.Syntax
