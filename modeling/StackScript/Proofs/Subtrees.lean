import StackScript.Proofs.Placement

/-!
# Tests of all expressions in a tree

`Expr.every` and `everyAll` hold if a test holds of each expression in a tree.  What the parser
guarantees of index expressions, and what keeps a program free of calls, are such tests.
-/

namespace StackScript.Syntax

section

variable (ok : Expr → Bool)

mutual

/-- Does the test hold of an expression and of all expressions in it? -/
def Expr.every : Expr → Bool
  | .literal v => ok (.literal v)
  | .name s => ok (.name s)
  | .template chunks parts => ok (.template chunks parts) && everyIn parts
  | .unary op side operand => ok (.unary op side operand) && operand.every
  | .binary op left right => ok (.binary op left right) && left.every && right.every
  | .member object field => ok (.member object field) && object.every
  | .index object indices => ok (.index object indices) && object.every && everyIn indices
  | .call callee arguments => ok (.call callee arguments) && callee.every && everyIn arguments
  | .assign op target value => ok (.assign op target value) && target.every && value.every
  | .array items => ok (.array items) && everyIn items
  | .set items => ok (.set items) && everyIn items
  | .object fields => ok (.object fields) && everyField fields
  | .ternary test yes no => ok (.ternary test yes no) && test.every && yes.every && no.every

def everyIn : List Expr → Bool
  | [] => true
  | e :: rest => e.every && everyIn rest

def everyField : List (String × Expr) → Bool
  | [] => true
  | f :: rest => everyOf f && everyField rest

def everyOf : String × Expr → Bool
  | (_, e) => e.every

end

def every? : Option Expr → Bool
  | none => true
  | some e => e.every ok

mutual

/-- Does the test hold of all expressions in a statement? -/
def Stmt.every : Stmt → Bool
  | .declare d => every? ok d.initial
  | .function _ _ _ body => everyAll body
  | .expr e => e.every ok
  | .block body => everyAll body
  | .cond test yes no => test.every ok && yes.every && everyStmt? no
  | .loop initial test step body =>
    everyStmt? initial && every? ok test && every? ok step && everyStmt? body
  | .brk _ => true
  | .ret e => every? ok e
  | .empty => true

def everyAll : List Stmt → Bool
  | [] => true
  | s :: rest => s.every && everyAll rest

def everyStmt? : Option Stmt → Bool
  | none => true
  | some s => s.every

end

end

variable {ok : Expr → Bool}

/-- A test that holds of all expressions in a tree holds of the tree itself. -/
theorem Expr.every_self {e : Expr} (h : e.every ok = true) : ok e = true := by
  cases e <;> simp only [Expr.every, Bool.and_eq_true] at h <;> tauto

mutual

/-- What passes one test everywhere passes another one that follows from it. -/
theorem Expr.every_mono {ok ok' : Expr → Bool} (h : ∀ e, ok e = true → ok' e = true) :
    {e : Expr} → e.every ok = true → e.every ok' = true
  | .literal _, ht | .name _, ht => h _ ht
  | .template .., ht | .array _, ht | .set _, ht => by
    simp only [Expr.every, Bool.and_eq_true] at ht ⊢
    exact ⟨h _ ht.1, everyIn_mono h ht.2⟩
  | .unary .., ht | .member .., ht => by
    simp only [Expr.every, Bool.and_eq_true] at ht ⊢
    exact ⟨h _ ht.1, Expr.every_mono h ht.2⟩
  | .binary .., ht | .assign .., ht => by
    simp only [Expr.every, Bool.and_eq_true] at ht ⊢
    exact ⟨⟨h _ ht.1.1, Expr.every_mono h ht.1.2⟩, Expr.every_mono h ht.2⟩
  | .index .., ht | .call .., ht => by
    simp only [Expr.every, Bool.and_eq_true] at ht ⊢
    exact ⟨⟨h _ ht.1.1, Expr.every_mono h ht.1.2⟩, everyIn_mono h ht.2⟩
  | .object _, ht => by
    simp only [Expr.every, Bool.and_eq_true] at ht ⊢
    exact ⟨h _ ht.1, everyField_mono h ht.2⟩
  | .ternary .., ht => by
    simp only [Expr.every, Bool.and_eq_true] at ht ⊢
    exact ⟨⟨⟨h _ ht.1.1.1, Expr.every_mono h ht.1.1.2⟩, Expr.every_mono h ht.1.2⟩,
      Expr.every_mono h ht.2⟩

theorem everyIn_mono {ok ok' : Expr → Bool} (h : ∀ e, ok e = true → ok' e = true) :
    {es : List Expr} → everyIn ok es = true → everyIn ok' es = true
  | [], _ => rfl
  | _ :: _, ht => by
    simp only [everyIn, Bool.and_eq_true] at ht ⊢
    exact ⟨Expr.every_mono h ht.1, everyIn_mono h ht.2⟩

theorem everyField_mono {ok ok' : Expr → Bool} (h : ∀ e, ok e = true → ok' e = true) :
    {fields : List (String × Expr)} → everyField ok fields = true → everyField ok' fields = true
  | [], _ => rfl
  | (_, _) :: _, ht => by
    simp only [everyField, everyOf, Bool.and_eq_true] at ht ⊢
    exact ⟨Expr.every_mono h ht.1, everyField_mono h ht.2⟩

end

section And

variable {ok ok' : Expr → Bool}

mutual

/-- What passes two tests everywhere passes both at once. -/
theorem Expr.every_and : {e : Expr} → e.every ok = true → e.every ok' = true →
    e.every (fun e => ok e && ok' e) = true
  | .literal _, h, h' | .name _, h, h' => by
    rw [Expr.every] at h h' ⊢
    rw [h, h']
    rfl
  | .template .., h, h' | .array _, h, h' | .set _, h, h' => by
    simp only [Expr.every, Bool.and_eq_true] at h h' ⊢
    exact ⟨⟨h.1, h'.1⟩, everyIn_and h.2 h'.2⟩
  | .unary .., h, h' | .member .., h, h' => by
    simp only [Expr.every, Bool.and_eq_true] at h h' ⊢
    exact ⟨⟨h.1, h'.1⟩, Expr.every_and h.2 h'.2⟩
  | .binary .., h, h' | .assign .., h, h' => by
    simp only [Expr.every, Bool.and_eq_true] at h h' ⊢
    exact ⟨⟨⟨h.1.1, h'.1.1⟩, Expr.every_and h.1.2 h'.1.2⟩, Expr.every_and h.2 h'.2⟩
  | .index .., h, h' | .call .., h, h' => by
    simp only [Expr.every, Bool.and_eq_true] at h h' ⊢
    exact ⟨⟨⟨h.1.1, h'.1.1⟩, Expr.every_and h.1.2 h'.1.2⟩, everyIn_and h.2 h'.2⟩
  | .object _, h, h' => by
    simp only [Expr.every, Bool.and_eq_true] at h h' ⊢
    exact ⟨⟨h.1, h'.1⟩, everyField_and h.2 h'.2⟩
  | .ternary .., h, h' => by
    simp only [Expr.every, Bool.and_eq_true] at h h' ⊢
    exact ⟨⟨⟨⟨h.1.1.1, h'.1.1.1⟩, Expr.every_and h.1.1.2 h'.1.1.2⟩, Expr.every_and h.1.2 h'.1.2⟩,
      Expr.every_and h.2 h'.2⟩

theorem everyIn_and : {es : List Expr} → everyIn ok es = true → everyIn ok' es = true →
    everyIn (fun e => ok e && ok' e) es = true
  | [], _, _ => rfl
  | _ :: _, h, h' => by
    simp only [everyIn, Bool.and_eq_true] at h h' ⊢
    exact ⟨Expr.every_and h.1 h'.1, everyIn_and h.2 h'.2⟩

theorem everyField_and : {fields : List (String × Expr)} → everyField ok fields = true →
    everyField ok' fields = true → everyField (fun e => ok e && ok' e) fields = true
  | [], _, _ => rfl
  | (_, _) :: _, h, h' => by
    simp only [everyField, everyOf, Bool.and_eq_true] at h h' ⊢
    exact ⟨Expr.every_and h.1 h'.1, everyField_and h.2 h'.2⟩

end

theorem every?_and {e : Option Expr} (h : every? ok e = true) (h' : every? ok' e = true) :
    every? (fun e => ok e && ok' e) e = true := by
  cases e with
  | none => rfl
  | some e => exact Expr.every_and h h'

mutual

theorem Stmt.every_and : {s : Stmt} → s.every ok = true → s.every ok' = true →
    s.every (fun e => ok e && ok' e) = true
  | .declare _, h, h' | .ret _, h, h' => every?_and h h'
  | .function .., h, h' | .block _, h, h' => by
    rw [Stmt.every] at h h' ⊢
    exact everyAll_and h h'
  | .expr _, h, h' => Expr.every_and h h'
  | .cond .., h, h' => by
    simp only [Stmt.every, Bool.and_eq_true] at h h' ⊢
    exact ⟨⟨Expr.every_and h.1.1 h'.1.1, Stmt.every_and h.1.2 h'.1.2⟩, everyStmt?_and h.2 h'.2⟩
  | .loop .., h, h' => by
    simp only [Stmt.every, Bool.and_eq_true] at h h' ⊢
    exact ⟨⟨⟨everyStmt?_and h.1.1.1 h'.1.1.1, every?_and h.1.1.2 h'.1.1.2⟩, every?_and h.1.2 h'.1.2⟩,
      everyStmt?_and h.2 h'.2⟩
  | .brk _, _, _ | .empty, _, _ => rfl

theorem everyAll_and : {body : List Stmt} → everyAll ok body = true → everyAll ok' body = true →
    everyAll (fun e => ok e && ok' e) body = true
  | [], _, _ => rfl
  | _ :: _, h, h' => by
    simp only [everyAll, Bool.and_eq_true] at h h' ⊢
    exact ⟨Stmt.every_and h.1 h'.1, everyAll_and h.2 h'.2⟩

theorem everyStmt?_and : {s : Option Stmt} → everyStmt? ok s = true → everyStmt? ok' s = true →
    everyStmt? (fun e => ok e && ok' e) s = true
  | none, _, _ => rfl
  | some _, h, h' => by
    rw [everyStmt?] at h h' ⊢
    exact Stmt.every_and h h'

end

end And

mutual

/-- What holds of all expressions of a program holds of those of its functions. -/
theorem Stmt.every_bodies : (s : Stmt) → s.every ok = true → ∀ f ∈ s.bodies, everyAll ok f.2 = true
  | .function _ _ _ body, h, f, hf => by
    rw [Stmt.every] at h
    rw [Stmt.bodies] at hf
    rcases List.mem_cons.1 hf with rfl | hf
    · exact h
    · exact everyAll_bodies body h f hf
  | .block body, h, f, hf => by
    rw [Stmt.every] at h
    rw [Stmt.bodies] at hf
    exact everyAll_bodies body h f hf
  | .cond _ yes no, h, f, hf => by
    simp only [Stmt.every, Bool.and_eq_true] at h
    rw [Stmt.bodies] at hf
    rcases List.mem_append.1 hf with hf | hf
    · exact Stmt.every_bodies yes h.1.2 f hf
    · exact every?_bodies no h.2 f hf
  | .loop initial _ _ body, h, f, hf => by
    simp only [Stmt.every, Bool.and_eq_true] at h
    rw [Stmt.bodies] at hf
    rcases List.mem_append.1 hf with hf | hf
    · exact every?_bodies initial h.1.1.1 f hf
    · exact every?_bodies body h.2 f hf
  | .declare _, _, f, hf => by
    rw [Stmt.bodies] at hf
    · cases hf
    all_goals exact nofun
  | .expr _, _, f, hf => by
    rw [Stmt.bodies] at hf
    · cases hf
    all_goals exact nofun
  | .brk _, _, f, hf => by
    rw [Stmt.bodies] at hf
    · cases hf
    all_goals exact nofun
  | .ret _, _, f, hf => by
    rw [Stmt.bodies] at hf
    · cases hf
    all_goals exact nofun
  | .empty, _, f, hf => by
    rw [Stmt.bodies] at hf
    · cases hf
    all_goals exact nofun

theorem everyAll_bodies : (body : List Stmt) → everyAll ok body = true →
    ∀ f ∈ bodiesAll body, everyAll ok f.2 = true
  | [], _, f, hf => by
    rw [bodiesAll] at hf
    cases hf
  | s :: rest, h, f, hf => by
    rw [everyAll, Bool.and_eq_true] at h
    rw [bodiesAll] at hf
    rcases List.mem_append.1 hf with hf | hf
    · exact Stmt.every_bodies s h.1 f hf
    · exact everyAll_bodies rest h.2 f hf

theorem every?_bodies : (s : Option Stmt) → everyStmt? ok s = true →
    ∀ f ∈ bodies? s, everyAll ok f.2 = true
  | none, _, f, hf => by
    rw [bodies?] at hf
    cases hf
  | some s, h, f, hf => by
    rw [everyStmt?] at h
    rw [bodies?] at hf
    exact Stmt.every_bodies s h f hf

end

mutual

/-- A test that holds of every expression holds of all expressions in a tree. -/
theorem Expr.every_of_all (h : ∀ e, ok e = true) : (e : Expr) → e.every ok = true
  | .literal _ => h _
  | .name _ => h _
  | .template _ parts => by simp [Expr.every, h, everyIn_of_all h parts]
  | .unary _ _ operand => by simp [Expr.every, h, operand.every_of_all h]
  | .binary _ left right => by simp [Expr.every, h, left.every_of_all h, right.every_of_all h]
  | .member object _ => by simp [Expr.every, h, object.every_of_all h]
  | .index object indices => by simp [Expr.every, h, object.every_of_all h, everyIn_of_all h indices]
  | .call callee arguments => by
    simp [Expr.every, h, callee.every_of_all h, everyIn_of_all h arguments]
  | .assign _ target value => by simp [Expr.every, h, target.every_of_all h, value.every_of_all h]
  | .array items => by simp [Expr.every, h, everyIn_of_all h items]
  | .set items => by simp [Expr.every, h, everyIn_of_all h items]
  | .object fields => by simp [Expr.every, h, everyField_of_all h fields]
  | .ternary test yes no => by
    simp [Expr.every, h, test.every_of_all h, yes.every_of_all h, no.every_of_all h]

theorem everyIn_of_all (h : ∀ e, ok e = true) : (es : List Expr) → everyIn ok es = true
  | [] => rfl
  | e :: rest => by simp [everyIn, e.every_of_all h, everyIn_of_all h rest]

theorem everyField_of_all (h : ∀ e, ok e = true) : (fields : List (String × Expr)) → everyField ok fields = true
  | [] => rfl
  | (_, e) :: rest => by simp [everyField, everyOf, e.every_of_all h, everyField_of_all h rest]

end

theorem every?_of_all (h : ∀ e, ok e = true) (e : Option Expr) : every? ok e = true := by
  cases e with
  | none => rfl
  | some e => exact e.every_of_all h

mutual

theorem Stmt.every_of_all (h : ∀ e, ok e = true) : (s : Stmt) → s.every ok = true
  | .declare d => every?_of_all h d.initial
  | .function _ _ _ body => by simp [Stmt.every, everyAll_of_all h body]
  | .expr e => e.every_of_all h
  | .block body => by simp [Stmt.every, everyAll_of_all h body]
  | .cond test yes no => by
    simp [Stmt.every, test.every_of_all h, yes.every_of_all h, everyStmt?_of_all h no]
  | .loop initial test step body => by
    simp [Stmt.every, everyStmt?_of_all h initial, every?_of_all h, everyStmt?_of_all h body]
  | .brk _ => rfl
  | .ret e => every?_of_all h e
  | .empty => rfl

theorem everyAll_of_all (h : ∀ e, ok e = true) : (body : List Stmt) → everyAll ok body = true
  | [] => rfl
  | s :: rest => by simp [everyAll, s.every_of_all h, everyAll_of_all h rest]

theorem everyStmt?_of_all (h : ∀ e, ok e = true) : (s : Option Stmt) → everyStmt? ok s = true
  | none => rfl
  | some s => by simp [everyStmt?, s.every_of_all h]

end

/-- An index expression has an index. -/
def Expr.indexed : Expr → Bool
  | .index _ indices => !indices.isEmpty
  | _ => true

def Expr.plain : Expr → Bool
  | .call .. => false
  | _ => true

end StackScript.Syntax
