import Mathlib.Logic.Relation
import StackScript.Proofs.Exchange

/-!
# Programs with functions in another order

A run of functions somewhere in a tree is put in another order (`Permuted`, `Somewhere`).  Every order is
reached by exchanging neighbours (`Somewhere.exchanges`), and the two orders of neighbours are written to
twins (`program_exchanged`).
-/

namespace StackScript.Syntax

/-! ### Orders of functions -/

/-- A run of functions in a statement list has another order. -/
inductive Permuted : List Stmt → List Stmt → Prop
  | intro (before : List Stmt) {run run' : List Stmt} (after : List Stmt) (h : run.Perm run')
      (hf : ∀ s ∈ run, s.isFunction = true) : Permuted (before ++ run ++ after) (before ++ run' ++ after)

/-- Two functions that stand next to each other change places. -/
inductive Exchanged : List Stmt → List Stmt → Prop
  | intro (before : List Stmt) {f g : Stmt} (after : List Stmt) (hf : f.isFunction = true) (hg : g.isFunction = true) :
      Exchanged (before ++ f :: g :: after) (before ++ g :: f :: after)

mutual

/-- One statement list of a tree is changed. -/
inductive Somewhere (R : List Stmt → List Stmt → Prop) : List Stmt → List Stmt → Prop
  | here {body body' : List Stmt} (h : R body body') : Somewhere R body body'
  | inside (before : List Stmt) {s s' : Stmt} (after : List Stmt) (h : SomewhereStmt R s s') :
      Somewhere R (before ++ s :: after) (before ++ s' :: after)

/-- One statement list in a statement is changed. -/
inductive SomewhereStmt (R : List Stmt → List Stmt → Prop) : Stmt → Stmt → Prop
  | function (name : String) (params : List Param) (returns : String) {body body' : List Stmt}
      (h : Somewhere R body body') :
      SomewhereStmt R (.function name params returns body) (.function name params returns body')
  | block {body body' : List Stmt} (h : Somewhere R body body') : SomewhereStmt R (.block body) (.block body')
  | yes (test : Expr) {s s' : Stmt} (no : Option Stmt) (h : SomewhereStmt R s s') :
      SomewhereStmt R (.cond test s no) (.cond test s' no)
  | no (test : Expr) (yes : Stmt) {s s' : Stmt} (h : SomewhereStmt R s s') :
      SomewhereStmt R (.cond test yes (some s)) (.cond test yes (some s'))
  | initial {s s' : Stmt} (test step : Option Expr) (body : Option Stmt) (h : SomewhereStmt R s s') :
      SomewhereStmt R (.loop (some s) test step body) (.loop (some s') test step body)
  | body (initial : Option Stmt) (test step : Option Expr) {s s' : Stmt} (h : SomewhereStmt R s s') :
      SomewhereStmt R (.loop initial test step (some s)) (.loop initial test step (some s'))

end

/-- Every order of a run is reached by exchanging neighbours. -/
theorem Permuted.exchanges {body body' : List Stmt} (h : Permuted body body') :
    Relation.ReflTransGen Exchanged body body' := by
  obtain ⟨before, after, hperm, hf⟩ := h
  induction hperm generalizing before with
  | nil => exact .refl
  | cons s _ ih =>
    have hrest := ih (before ++ [s]) fun t ht => hf t (List.mem_cons_of_mem _ ht)
    simpa only [List.append_assoc, List.cons_append, List.nil_append] using hrest
  | swap f g run =>
    refine .single ?_
    have := Exchanged.intro before (run ++ after) (hf g List.mem_cons_self)
      (hf f (List.mem_cons_of_mem _ List.mem_cons_self))
    simpa only [List.append_assoc, List.cons_append] using this
  | trans hfirst _ ih ih' =>
    exact (ih before hf).trans (ih' before fun s hs => hf s (hfirst.mem_iff.2 hs))

section Trees

variable {R S : List Stmt → List Stmt → Prop}

mutual

/-- What is changed in steps is changed in steps wherever it stands. -/
theorem Somewhere.steps (hRS : ∀ body body', R body body' → Relation.ReflTransGen S body body')
    {body body' : List Stmt} :
    Somewhere R body body' → Relation.ReflTransGen (Somewhere S) body body'
  | .here h => (hRS _ _ h).lift id fun _ _ => .here
  | .inside before after h => (SomewhereStmt.steps hRS h).lift (before ++ · :: after) fun _ _ => .inside before after

theorem SomewhereStmt.steps (hRS : ∀ body body', R body body' → Relation.ReflTransGen S body body') {s s' : Stmt} :
    SomewhereStmt R s s' → Relation.ReflTransGen (SomewhereStmt S) s s'
  | .function name params returns h =>
    (Somewhere.steps hRS h).lift (Stmt.function name params returns) fun _ _ => .function name params returns
  | .block h => (Somewhere.steps hRS h).lift Stmt.block fun _ _ => .block
  | .yes test no h => (SomewhereStmt.steps hRS h).lift (Stmt.cond test · no) fun _ _ => .yes test no
  | .no test yes h => (SomewhereStmt.steps hRS h).lift (fun s => Stmt.cond test yes (some s)) fun _ _ => .no test yes
  | .initial test step body h =>
    (SomewhereStmt.steps hRS h).lift (fun s => Stmt.loop (some s) test step body) fun _ _ => .initial test step body
  | .body initial test step h =>
    (SomewhereStmt.steps hRS h).lift (fun s => Stmt.loop initial test step (some s)) fun _ _ => .body initial test step

end

/-- Every order of a run of functions, wherever it stands, is reached by exchanging neighbours. -/
theorem Somewhere.exchanges {body body' : List Stmt} (h : Somewhere Permuted body body') :
    Relation.ReflTransGen (Somewhere Exchanged) body body' := h.steps fun _ _ => Permuted.exchanges

end Trees

end StackScript.Syntax

namespace StackScript.Assembly

open Typing Bytecode Host Syntax Assembly.Write

/-! ### Statement lists, piece by piece -/

theorem hoist_append (body body' : List Stmt) : hoist (body ++ body') = (do hoist body; hoist body') := by
  induction body with
  | nil => rfl
  | cons s rest ih =>
    cases s <;> simp only [List.cons_append, hoist, ih, bind_assoc]

theorem stmts_append (setting : Setting) (body body' : List Stmt) :
    stmts setting (body ++ body') = (do stmts setting body; stmts setting body') := by
  induction body with
  | nil =>
    rw [stmts]
    rfl
  | cons s rest ih => simp only [List.cons_append, stmts, ih, bind_assoc]

theorem topLevel_append (setting : Setting) (body : List Stmt) {body' : List Stmt} (h : body' ≠ []) :
    topLevel setting (body ++ body') = (do stmts setting body; topLevel setting body') := by
  induction body with
  | nil =>
    rw [stmts]
    rfl
  | cons s rest ih =>
    rw [stmts, List.cons_append, topLevel, ih]
    · simp only [bind_assoc]
    · exact fun hrest => h (List.append_eq_nil_iff.1 hrest).2

def functionCode (setting : Setting) : Stmt → Write Unit
  | .function name params returns body => function name params returns (do hoist body; stmts setting body)
  | _ => return ()

def declaration : Stmt → Write Unit
  | .function name params returns _ => declareFunction name params returns
  | _ => return ()

section Functions

variable {f : Stmt} (hf : f.isFunction = true)
include hf

theorem stmts_function (setting : Setting) (rest : List Stmt) :
    stmts setting (f :: rest) = (do functionCode setting f; stmts setting rest) := by
  cases f with
  | function name params returns body => rw [stmts, stmt, discard_return, functionCode]
  | _ => cases hf

theorem topLevel_function (setting : Setting) (rest : List Stmt) :
    topLevel setting (f :: rest) = (do functionCode setting f; topLevel setting rest) := by
  cases f with
  | function name params returns body =>
    cases rest with
    | nil => rw [topLevel, topLevel, stmt, functionCode]
    | cons s rest => rw [topLevel_cons, stmt, discard_return, functionCode]
  | _ => cases hf

theorem hoist_function (rest : List Stmt) : hoist (f :: rest) = (do declaration f; hoist rest) := by
  cases f with
  | function name params returns body => rfl
  | _ => cases hf

end Functions

/-! ### Neighbours -/

variable {split : Bool} {s₁ s₂ : Setting} {f g : Stmt}

theorem neighbours_run {α : Type} (setting : Setting) (before after : List Stmt) (hf : f.isFunction = true)
    (hg : g.isFunction = true) (z : Write α) :
    (do hoist (before ++ f :: g :: after); stmts setting before; functionCode setting f; functionCode setting g; z) =
      (do
        hoist before
        (do declaration f; declaration g)
        hoist after
        stmts setting before
        (do functionCode setting f; functionCode setting g)
        z) := by
  rw [hoist_append, hoist_function hf, hoist_function hg]
  simp only [bind_assoc]

/-- Two functions and what comes behind them, with the functions in either order. -/
theorem exchanged_parallel {α : Type} {R : Pairing → Writer → Writer → α → α → Prop} {z z' : Write α}
    (hs : Beside split s₁ s₂) (before after : List Stmt) (hf : f.isFunction = true) (hg : g.isFunction = true)
    (hz : Parallel split R z z') :
    Parallel split R
      (do hoist (before ++ f :: g :: after); stmts s₁ before; functionCode s₁ f; functionCode s₁ g; z)
      (do hoist (before ++ g :: f :: after); stmts s₂ before; functionCode s₂ g; functionCode s₂ f; z') := by
  rw [neighbours_run s₁ before after hf hg, neighbours_run s₂ before after hg hf]
  cases f with
  | function name params returns body =>
    cases g with
    | function name' params' returns' body' =>
      intro T w₁ w₂ h
      refine (Together.hoist h before).bind fun _ _ _ _ _ hp _ => ?_
      refine (Together.declareBoth hp.twin name name' params params' returns returns').bind
        fun _ _ _ _ _ hp₁ hknows => ?_
      refine (Together.hoist hp₁.twin after).bind fun _ _ _ _ _ hp₂ _ => ?_
      refine (stmts_parallel hs before hp₂.twin).bind fun _ _ _ _ _ hp₃ _ => ?_
      obtain ⟨l, s, l', s', hl, hl', hne⟩ := hknows.later (hp₂.trans hp₃).left.scopes
      have hbodies := hp₃.twin.exchange params params' returns returns' hne hl hl'
        (listed_parallel body (stmts_parallel hs body)) (listed_parallel body' (stmts_parallel hs body'))
      exact hbodies.bind fun _ _ _ _ _ hp₄ _ => hz hp₄.twin
    | _ => cases hg
  | _ => cases hf

/-! ### Trees -/

theorem SomewhereStmt.hoist {R : List Stmt → List Stmt → Prop} {s s' : Stmt} (h : SomewhereStmt R s s')
    (rest : List Stmt) :
    hoist (s' :: rest) = hoist (s :: rest) := by
  cases h <;> rfl

mutual

/-- The code of a statement in which two functions change places. -/
theorem stmt_exchanged (hs : Beside split s₁ s₂) (keep : Bool) {s s' : Stmt} :
    SomewhereStmt Exchanged s s' → Parallel split Equal (stmt s₁ keep s) (stmt s₂ keep s')
  | .function name params returns h => by
    rw [stmt, stmt]
    exact unvalued_parallel (function_parallel (stmts_exchanged hs h))
  | .block h => by
    have hbody := block_parallel (stmts_exchanged hs h)
    rw [stmt, stmt]
    simpa only [bind_assoc] using unvalued_parallel hbody
  | .yes test no h => by
    rw [stmt, stmt]
    exact unvalued_parallel (cond_parallel hs (expr_parallel hs test) (discard_parallel (stmt_exchanged hs false h))
      (stmt?_parallel hs no))
  | .no test yes h => by
    rw [stmt, stmt, stmt?, stmt?]
    exact unvalued_parallel (cond_parallel hs (expr_parallel hs test) (discard_parallel (stmt_parallel hs false yes))
      (.some (discard_parallel (stmt_exchanged hs false h))))
  | .initial test step body h => by
    rw [stmt, stmt, stmt?, stmt?]
    exact unvalued_parallel (loop_parallel hs (.some (discard_parallel (stmt_exchanged hs false h)))
      (expr?_parallel hs test) (stmt?_parallel hs body) (expr?_parallel hs step))
  | .body initial test step h => by
    rw [stmt, stmt]
    refine unvalued_parallel (loop_parallel hs (stmt?_parallel hs initial) (expr?_parallel hs test) ?_
      (expr?_parallel hs step))
    rw [stmt?, stmt?]
    exact .some (discard_parallel (stmt_exchanged hs false h))

theorem stmts_exchanged (hs : Beside split s₁ s₂) {body body' : List Stmt} :
    Somewhere Exchanged body body' → Parallel split Any (do hoist body; stmts s₁ body) (do hoist body'; stmts s₂ body')
  | .here h => by
    obtain ⟨before, after, hf, hg⟩ := h
    rw [stmts_append, stmts_append, stmts_function hf, stmts_function hg, stmts_function hg, stmts_function hf]
    exact exchanged_parallel hs before after hf hg (stmts_parallel hs after)
  | .inside before after h => by
    rw [stmts_append, stmts_append, hoist_append, hoist_append, SomewhereStmt.hoist h, stmts, stmts, ← hoist_append]
    intro T w₁ w₂ ht
    refine (Together.hoist ht _).bind fun _ _ _ _ _ hp _ => ?_
    refine (stmts_parallel hs before hp.twin).bind fun _ _ _ _ _ hp₁ _ => ?_
    refine (discard_parallel (stmt_exchanged hs false h) hp₁.twin).bind fun _ _ _ _ _ hp₂ _ => ?_
    exact stmts_parallel hs after hp₂.twin

end

/-- The code of a program in which two functions change places. -/
theorem topLevel_exchanged (hs : Beside split s₁ s₂) {body body' : List Stmt} (h : Somewhere Exchanged body body') :
    Parallel split Equal (do hoist body; topLevel s₁ body) (do hoist body'; topLevel s₂ body') := by
  cases h with
  | here h =>
    obtain ⟨before, after, hf, hg⟩ := h
    rw [topLevel_append _ _ (List.cons_ne_nil _ _), topLevel_append _ _ (List.cons_ne_nil _ _),
      topLevel_function hf, topLevel_function hg, topLevel_function hg, topLevel_function hf]
    exact exchanged_parallel hs before after hf hg (topLevel_parallel hs after)
  | @inside before s s' after h =>
    rw [topLevel_append _ _ (List.cons_ne_nil _ _), topLevel_append _ _ (List.cons_ne_nil _ _), hoist_append,
      hoist_append, SomewhereStmt.hoist h, ← hoist_append]
    intro T w₁ w₂ ht
    refine (Together.hoist ht _).bind fun _ _ _ _ _ hp _ => ?_
    refine (stmts_parallel hs before hp.twin).bind fun _ _ _ _ _ hp₁ _ => ?_
    cases after with
    | nil =>
      rw [topLevel, topLevel]
      exact stmt_exchanged hs true h hp₁.twin
    | cons t after =>
      rw [topLevel_cons, topLevel_cons]
      exact (discard_parallel (stmt_exchanged hs false h) hp₁.twin).bind fun _ _ _ _ _ hp₂ _ =>
        topLevel_parallel hs (t :: after) hp₂.twin

end StackScript.Assembly
