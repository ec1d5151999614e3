import StackScript.Proofs.AlikeRuns

/-!
# Calls far behind the start

A call saves the index of the next instruction as an integer of 32 bits, and fails where the index is too
large for that.  Where a call stands then decides how a run ends.  `distant` is a program with such a call:
behind the code of `padding`, which never runs, `caller` calls `failing`.

* `program_distant`: what is written for `distant`, whatever the number of statements in `padding`.
* `distant_runs`: the call fails if its return address is too large, and else the run gets to `failing`.
* `distant_apart`: programs that differ in where the call stands do not run alike.
* `merged_apart`, `permuted_apart`: merged comparisons and another order of functions can make such a
  difference.
-/

namespace StackScript.Assembly

open Typing Bytecode Host Syntax Assembly.Write

/-! ### Writing -/

section Writing

variable {setting : Setting} {w : Writer} {d : Draft} {f : Draft → Draft}

theorem modify_modify_push {buffers : Array (Array Draft)} {b : Nat} :
    (buffers.modify b (·.push d)).modify b (fun code => code.modify (code.size - 1) f) =
      buffers.modify b (·.push (f d)) := by
  have hpush : ∀ code : Array Draft, (code.push d).modify ((code.push d).size - 1) f = code.push (f d) := by
    refine fun code => Array.ext_getElem? fun j => ?_
    simp only [Array.getElem?_modify, Array.getElem?_push, Array.size_push, Nat.add_sub_cancel]
    grind
  refine Array.ext_getElem? fun i => ?_
  simp only [Array.getElem?_modify]
  split
  · rw [Option.map_map]
    exact congrArg (Option.map · _) (funext hpush)
  · rfl

theorem changeLast_add (w : Writer) (d : Draft) (f : Draft → Draft) :
    changeLast f (w.add d) = .ok ((), w.add (f d)) := by
  show Except.ok ((), { w.add d with
    buffers := (w.buffers.modify w.buffer (·.push d)).modify w.buffer fun code => code.modify (code.size - 1) f }) = _
  rw [modify_modify_push]
  rfl

theorem lastOpcode_add (hw : w.buffer < w.buffers.size) (d : Draft) :
    lastOpcode (w.add d) = .ok (some d.opcode, w.add d) := by
  have hlast : (currentCode (w.add d)).back? = some d := by
    rw [currentCode, Array.getD_eq_getD_getElem?, Writer.add_buffer, Writer.add, Array.getElem?_modify, if_pos rfl,
      Array.getElem?_eq_getElem hw, Option.map_some, Option.getD_some, Array.back?_push]
  show Except.ok ((currentCode (w.add d)).back?.map Draft.opcode, w.add d) = _
  rw [hlast]
  rfl

theorem typed_add (w : Writer) (t : Ty) (a : Bool) (d : Draft) : (w.typed t a).add d = (w.add d).typed t a := rfl

/-- The call of a function without parameters: the load of the function becomes the call. -/
theorem expr_call {e : Entity} {l : Label} {name : String} {t : Ty} (hw : w.buffer < w.buffers.size)
    (hcallee : w.callee = none) (hname : w.scopes.resolve setting.environment name = .ok e)
    (hlocation : e.location = .entry l) (hsignature : e.signature = some ⟨[], t⟩) :
    expr setting (.call (.name name) []) w =
      .ok ((), ((w.add ⟨.callInternal, .label l⟩).add ⟨pushReturnFor t, .none⟩).typed t false) := by
  have hresolve : resolveName setting name w = .ok (e, w) := by
    refine bind_eq_ok.2 ⟨w, w, rfl, ?_⟩
    rw [hname]
    rfl
  have hload : expr setting (.name name) w = .ok ((),
      { (w.add ⟨.loadFunction, .label l⟩).typed .function true with callee := some (e.name, ⟨[], t⟩) }) := by
    refine bind_eq_ok.2 ⟨e, w, hresolve, ?_⟩
    rw [hlocation, hsignature]
    rfl
  let v := w.typed .function true
  have hlast := @lastOpcode_add v hw ⟨.loadFunction, .label l⟩
  have hchange := changeLast_add v ⟨.loadFunction, .label l⟩ fun d => { d with opcode := .callInternal }
  have hcall : callFunction [] (some (e.name, ⟨[], t⟩)) (v.add ⟨.loadFunction, .label l⟩) =
      .ok ((), ((v.add ⟨.callInternal, .label l⟩).add ⟨pushReturnFor t, .none⟩).typed t false) :=
    bind_eq_ok.2 ⟨_, _, rfl, bind_eq_ok.2 ⟨(), _, rfl, bind_eq_ok.2 ⟨(), _, hchange, rfl⟩⟩⟩
  have hforgotten : { v.add ⟨.loadFunction, .label l⟩ with callee := none } = v.add ⟨.loadFunction, .label l⟩ := by
    rw [← hcallee]
    rfl
  show call [] (expr setting (.name name)) w = _
  refine bind_eq_ok.2 ⟨[], w, rfl, bind_eq_ok.2 ⟨(), _, hload, bind_eq_ok.2 ⟨_, _, rfl, bind_eq_ok.2 ⟨_, _, rfl, ?_⟩⟩⟩⟩
  refine bind_eq_ok.2 ⟨(), { v.add ⟨.loadFunction, .label l⟩ with callee := none }, rfl, ?_⟩
  rw [hforgotten]
  exact bind_eq_ok.2 ⟨_, _, hlast, hcall⟩

/-- The writer as it enters the body of a function. -/
def Writer.inBody (w : Writer) (entry : Label) (returns : Ty) : Writer :=
  { w with
    buffers := w.buffers.push #[]
    buffer := w.buffers.size
    breaks := []
    returns
    labels := w.labels.openReserved entry w.buffers.size
    scopes := w.scopes.beginFunction }

/-- The writer in a function, where this code is written. -/
def Writer.inFunction (w : Writer) (entry : Label) (returns : Ty) (code : Array Draft) : Writer :=
  { w with
    buffers := w.buffers.push code
    buffer := w.buffers.size
    breaks := []
    returns
    labels := { w.labels with bound := LabelTable.bind w.labels.bound entry ⟨w.buffers.size, 0⟩ }
    scopes := w.scopes.beginFunction }

/-- The writer `w` behind a function, where `v` has written its body. -/
def Writer.behindBody (w v : Writer) : Writer :=
  { v with
    scopes := v.scopes.endFunction.2
    buffer := w.buffer
    breaks := w.breaks
    returns := w.returns
    type := .void
    assignable := false }

def Writer.withFunction (w : Writer) (entry : Label) (code : Array Draft) : Writer :=
  { w with
    type := .void
    assignable := false
    labels := { w.labels with bound := LabelTable.bind w.labels.bound entry ⟨w.buffers.size, 0⟩ }
    buffers := w.buffers.push code }

section Functions

variable {entry : Label} {returns : Ty} {code : Array Draft}

theorem modify_push_size {buffers : Array (Array Draft)} {g : Array Draft → Array Draft} :
    (buffers.push code).modify buffers.size g = buffers.push (g code) := by
  refine Array.ext_getElem? fun i => ?_
  rw [Array.getElem?_modify, Array.getElem?_push, Array.getElem?_push]
  by_cases hi : i = buffers.size
  · simp [hi]
  · rw [if_neg (Ne.symm hi), if_neg hi, if_neg hi]

theorem Writer.add_inBody (hw : w.labels.waiting = []) (d : Draft) :
    (w.inBody entry returns).add d = w.inFunction entry returns #[d] := by
  have hsize : (w.inBody entry returns).size = 0 := by
    simp [size, sizeOf, inBody]
  have hlabels : (w.inBody entry returns).labels.close ⟨w.buffers.size, 0⟩ =
      { w.labels with bound := LabelTable.bind w.labels.bound entry ⟨w.buffers.size, 0⟩ } := by
    simp [inBody, LabelTable.close, LabelTable.openReserved, hw]
  rw [Writer.add, hsize]
  simp only [inBody, inFunction, modify_push_size] at hlabels ⊢
  rw [hlabels]
  rfl

theorem Writer.add_inFunction (hw : w.labels.waiting = []) (d : Draft) :
    (w.inFunction entry returns code).add d = w.inFunction entry returns (code.push d) := by
  have hlabels : ∀ pt, (w.inFunction entry returns code).labels.close pt = (w.inFunction entry returns code).labels :=
    fun pt => by simp [inFunction, LabelTable.close, hw]
  rw [Writer.add, hlabels]
  simp only [inFunction, modify_push_size]

/-- A function without parameters that was declared with its statement list. -/
theorem stmt_function {name : String} {e : Entity} {v : Writer} {body : List Stmt} (hw : w.labels.waiting = [])
    (hfound : w.scopes.findCurrent? name = some e) (hlocation : e.location = .entry entry)
    (hsignature : e.signature = some ⟨[], returns⟩)
    (hbody : (do hoist body; stmts setting body) (w.inFunction entry returns #[⟨.allocStack, .int 0⟩]) = .ok ((), v)) :
    stmt setting false (.function name [] "any" body) w = .ok (false, w.behindBody (v.add ⟨.ret, .none⟩)) := by
  have hcurrent : findCurrent name w = .ok (some e, w) := by
    rw [← hfound]
    rfl
  have hdeclared : declaredFunction name [] "any" w = .ok ((entry, ⟨[], returns⟩), w) := by
    refine bind_eq_ok.2 ⟨_, _, hcurrent, bind_eq_ok.2 ⟨_, _, hcurrent, ?_⟩⟩
    obtain ⟨_, _, _, location, _, _, signature⟩ := e
    obtain rfl : location = .entry entry := hlocation
    obtain rfl : signature = some ⟨[], returns⟩ := hsignature
    rfl
  rw [← Writer.add_inBody hw] at hbody
  refine bind_eq_ok.2 ⟨(), _, bind_eq_ok.2 ⟨_, _, hdeclared, bind_eq_ok.2 ⟨w, w, rfl, ?_⟩⟩, rfl⟩
  refine bind_eq_ok.2 ⟨(), w.inBody entry returns, rfl, bind_eq_ok.2 ⟨(), _, rfl, bind_eq_ok.2 ⟨(), _, rfl, ?_⟩⟩⟩
  exact bind_eq_ok.2 ⟨(), v, hbody, rfl⟩

/-- A function whose body makes no labels. -/
theorem behindBody_inFunction (hw : w.labels.waiting = []) (hscopes : w.scopes.beginFunction.endFunction.2 = w.scopes)
    (t : Ty) (a : Bool) : w.behindBody (((w.inFunction entry returns code).typed t a).add ⟨.ret, .none⟩) =
      w.withFunction entry (code.push ⟨.ret, .none⟩) := by
  rw [typed_add, Writer.add_inFunction hw]
  show { w.withFunction entry (code.push ⟨.ret, .none⟩) with scopes := w.scopes.beginFunction.endFunction.2 } = _
  rw [hscopes]
  rfl

/-- A body that drops the value of an expression. -/
theorem stmts_expr {e : Expr} {v : Writer} (h : expr setting e w = .ok ((), v)) (ht : (v.type == .void) = false) :
    (do hoist [.expr e]; stmts setting [.expr e]) w = .ok ((), v.add ⟨.popStack, .int 1⟩) := by
  have hstmt : stmt setting false (.expr e) w = .ok (false, v.add ⟨.popStack, .int 1⟩) := by
    refine bind_eq_ok.2 ⟨(), v, h, bind_eq_ok.2 ⟨_, v, rfl, ?_⟩⟩
    rw [ht]
    rfl
  exact bind_eq_ok.2 ⟨(), w, rfl, bind_eq_ok.2 ⟨(), _, discard_eq_ok.2 ⟨_, hstmt⟩, rfl⟩⟩

end Functions

/-! ### Any number of statements -/

/-- Statements that do nothing. -/
def nulls (n : Nat) : List Stmt := List.replicate n (.expr (.literal .null))

/-- Their code. -/
def nullCode : Nat → Array Draft
  | 0 => #[]
  | n + 1 => #[⟨.loadNull, .none⟩, ⟨.popStack, .int 1⟩] ++ nullCode n

theorem size_nullCode (n : Nat) : (nullCode n).size = 2 * n := by
  induction n with
  | zero => rfl
  | succ n ih =>
    rw [nullCode, Array.size_append, ih, Nat.mul_succ]
    exact Nat.add_comm _ _

theorem mem_nullCode {n : Nat} (h : d ∈ nullCode n) : d = ⟨.loadNull, .none⟩ ∨ d = ⟨.popStack, .int 1⟩ := by
  induction n with
  | zero => cases Array.not_mem_empty d h
  | succ n ih =>
    rcases Array.mem_append.1 h with h | h
    · simpa using h
    · exact ih h

/-- The writer with more code in the buffer in use. -/
def Writer.extended (w : Writer) (code : Array Draft) : Writer :=
  { w with buffers := w.buffers.modify w.buffer (· ++ code) }

theorem Writer.extended_extended (w : Writer) (code code' : Array Draft) :
    (w.extended code).extended code' = w.extended (code ++ code') := by
  have hmodify : (w.buffers.modify w.buffer (· ++ code)).modify w.buffer (· ++ code') =
      w.buffers.modify w.buffer (· ++ (code ++ code')) := by
    refine Array.ext_getElem? fun i => ?_
    simp only [Array.getElem?_modify]
    split <;> simp [Function.comp_def, Array.append_assoc]
  simp only [extended, hmodify]

theorem Writer.extended_empty (w : Writer) : w.extended #[] = w := by
  have hmodify : w.buffers.modify w.buffer (· ++ #[]) = w.buffers :=
    Array.ext_getElem? fun i => by simp [Array.getElem?_modify]
  rw [extended, hmodify]

/-- Where no label waits, an instruction changes nothing but the code. -/
theorem Writer.add_of_quiet (hw : w.labels.waiting = []) (d : Draft) : w.add d = w.extended #[d] := by
  obtain ⟨_, _, _, _, _, _, _, ⟨_, _, waiting⟩, _⟩ := w
  obtain rfl : waiting = [] := hw
  rfl

theorem hoist_nulls (n : Nat) : hoist (nulls n) = pure () := by
  induction n with
  | zero => rfl
  | succ n ih => exact ih

theorem stmts_nulls (n : Nat) (hw : w.labels.waiting = []) (ht : w.type = .null) (ha : w.assignable = false) :
    stmts setting (nulls n) w = .ok ((), w.extended (nullCode n)) := by
  induction n generalizing w with
  | zero =>
    rw [nullCode, Writer.extended_empty]
    rfl
  | succ n ih =>
    have hone : stmts setting (nulls (n + 1)) w =
        stmts setting (nulls n) (((w.add ⟨.loadNull, .none⟩).typed .null false).add ⟨.popStack, .int 1⟩) := rfl
    have htyped : (w.extended #[⟨.loadNull, .none⟩]).typed .null false = w.extended #[⟨.loadNull, .none⟩] := by
      rw [← ht, ← ha]
      rfl
    rw [hone, Writer.add_of_quiet hw, htyped, Writer.add_of_quiet (w := w.extended _) hw, Writer.extended_extended,
      ih (w := w.extended _) hw ht ha, Writer.extended_extended]
    rfl

end Writing

/-! ### A distant call -/

/-- The test `1 < 2`, which can be merged with a branch. -/
def smallTest : Stmt :=
  .cond (.binary .less (.literal (.int 1)) (.literal (.int 2))) (.expr (.literal .null)) none

/-- A function with so many statements behind a test. -/
def padding (n : Nat) : Stmt := .function "padding" [] "any" (smallTest :: nulls (n + 1))

def caller : Stmt := .function "caller" [] "any" [.expr (.call (.name "failing") [])]

def failing : Stmt :=
  .function "failing" [] "any" [.expr (.binary .mod (.literal (.int 1)) (.literal (.int 0)))]

/-- The two functions behind the padding, in one order or the other. -/
def pair (swap : Bool) : List Stmt := if swap then [failing, caller] else [caller, failing]

/-- A call behind the code of a function that is never called:

    function padding() { if (1 < 2) null; null; … null; }
    function caller() { failing(); }
    function failing() { 1 % 0; }
    caller();
-/
def distant (swap : Bool) (n : Nat) : List Stmt :=
  padding n :: (pair swap ++ [.expr (.call (.name "caller") [])])

/-- What a function without parameters is declared as. -/
def functionNamed (name : String) (entry : Nat) : Entity :=
  { name, type := .function, kind := .function, location := .entry ⟨entry⟩, frame := 0, constant := true
    signature := some ⟨[], .any⟩ }

/-- The number of the label of `caller`. -/
def callerEntry (swap : Bool) : Nat := if swap then 2 else 1

/-- The number of the label of `failing`. -/
def failingEntry (swap : Bool) : Nat := if swap then 1 else 2

/-- The names of the three functions. -/
def distantScopes (swap : Bool) : ScopeChain :=
  { ScopeChain.empty with
    inner := ⟨(if swap then [functionNamed "caller" 2, functionNamed "failing" 1]
      else [functionNamed "failing" 2, functionNamed "caller" 1]) ++ [functionNamed "padding" 0], 0⟩ }

/-- The writer behind the declarations. -/
def hoisted (swap : Bool) : Writer :=
  { Writer.start with
    labels := ⟨3, #[], []⟩
    scopes := distantScopes swap }

/-- The code of the test, merged with its branch or not. -/
def testCode (merge : Bool) : Array Draft :=
  if merge then #[⟨.branchInt .ge, .label ⟨3⟩⟩] else #[⟨.compare .int .lt, .none⟩, ⟨.branchFalse, .label ⟨3⟩⟩]

/-- The code of `padding` before the statements that are counted. -/
def frontCode (merge : Bool) : Array Draft :=
  (#[⟨.allocStack, .int 0⟩, ⟨.loadConst .w32, .int 1⟩, ⟨.loadConst .w32, .int 2⟩] : Array Draft) ++ testCode merge ++
    nullCode 2

def paddingCode (merge : Bool) (n : Nat) : Array Draft := (frontCode merge ++ nullCode n).push ⟨.ret, .none⟩

def callerCode (swap : Bool) : Array Draft :=
  #[⟨.allocStack, .int 0⟩, ⟨.callInternal, .label ⟨failingEntry swap⟩⟩, ⟨.pushReturn .w64, .none⟩,
    ⟨.popStack, .int 1⟩, ⟨.ret, .none⟩]

def failingCode : Array Draft :=
  #[⟨.allocStack, .int 0⟩, ⟨.loadConst .w32, .int 1⟩, ⟨.loadConst .w32, .int 0⟩, ⟨.arith .int .mod, .none⟩,
    ⟨.popStack, .int 1⟩, ⟨.ret, .none⟩]

def mainCode (swap : Bool) : Array Draft :=
  #[⟨.allocStack, .int 0⟩, ⟨.callInternal, .label ⟨callerEntry swap⟩⟩, ⟨.pushReturn .w64, .none⟩, ⟨.term, .none⟩]

/-- The codes of `caller` and `failing`, in their order. -/
def pairCode (swap : Bool) : List (Array Draft) :=
  if swap then [failingCode, callerCode swap] else [callerCode swap, failingCode]

/-- The writer behind `padding`, which has this code. -/
def padded (merge swap : Bool) (code : Array Draft) : Writer :=
  { hoisted swap with
    labels := ⟨4, #[some ⟨1, 0⟩, none, none, some ⟨1, if merge then 6 else 7⟩], []⟩
    buffers := #[#[⟨.allocStack, .int 0⟩], code] }

/-- The writer in `padding`, before the statements that are counted. -/
def fronted (merge swap : Bool) : Writer :=
  { padded merge swap (frontCode merge) with
    type := .null
    scopes := (distantScopes swap).beginFunction
    buffer := 1 }

deriving instance DecidableEq for LabelTable, Scope, ScopeChain, Writer

theorem eq_ok_of_toOption {ε α : Type} {x : Except ε α} {a : α} (h : x.toOption = some a) : x = .ok a := by
  cases x with
  | error e => cases h
  | ok b => exact congrArg Except.ok (Option.some.inj h)

section Distant

variable {merge swap : Bool} {w : Writer} {code : Array Draft}

theorem distantScopes_closed : (distantScopes swap).beginFunction.endFunction.2 = distantScopes swap := by
  cases swap <;> rfl

theorem stmts_front : (do
    discard (stmt ⟨.empty, merge⟩ false smallTest)
    discard (stmt ⟨.empty, merge⟩ false (.expr (.literal .null))))
      ((hoisted swap).inFunction ⟨0⟩ .any #[⟨.allocStack, .int 0⟩]) = .ok ((), fronted merge swap) := by
  refine eq_ok_of_toOption ?_
  cases merge <;> cases swap <;> decide +kernel

theorem stmt_padding (n : Nat) : stmt ⟨.empty, merge⟩ false (padding n) (hoisted swap) =
    .ok (false, padded merge swap (paddingCode merge n)) := by
  have hhoist : ∀ w, hoist (smallTest :: nulls (n + 1)) w = .ok ((), w) := fun w => by
    show hoist (nulls (n + 1)) w = _
    rw [hoist_nulls]
    rfl
  obtain ⟨_, w, htest, hnull⟩ := bind_eq_ok.1 (@stmts_front merge swap)
  have hrest := @stmts_nulls ⟨.empty, merge⟩ (fronted merge swap) n rfl rfl rfl
  have hfound : (hoisted swap).scopes.findCurrent? "padding" = some (functionNamed "padding" 0) := by
    cases swap <;> rfl
  refine (stmt_function rfl hfound rfl rfl
    (bind_eq_ok.2 ⟨(), _, hhoist _, bind_eq_ok.2 ⟨(), _, htest, bind_eq_ok.2 ⟨(), _, hnull, hrest⟩⟩⟩)).trans ?_
  -- the labels of the test are closed, so that nothing but code is added from here on
  rw [Writer.add_of_quiet (w := (fronted merge swap).extended _) rfl, Writer.extended_extended]
  have hbuffers : (fronted merge swap).buffers.modify (fronted merge swap).buffer
      (· ++ (nullCode n ++ #[⟨.ret, .none⟩])) = #[#[⟨.allocStack, .int 0⟩], paddingCode merge n] := by
    rw [paddingCode, Array.push_eq_append, Array.append_assoc]
    rfl
  rw [Writer.extended, hbuffers]
  show Except.ok (false, { padded merge swap (paddingCode merge n) with
    scopes := (distantScopes swap).beginFunction.endFunction.2 }) = _
  rw [distantScopes_closed]
  rfl

/-- What is written for `caller`, wherever it comes. -/
theorem stmt_caller (hw : w.labels.waiting = []) (hscopes : w.scopes = distantScopes swap) (hcallee : w.callee = none) :
    stmt ⟨.empty, merge⟩ false caller w = .ok (false, w.withFunction ⟨callerEntry swap⟩ (callerCode swap)) := by
  have hfound : w.scopes.findCurrent? "caller" = some (functionNamed "caller" (callerEntry swap)) := by
    rw [hscopes]
    cases swap <;> rfl
  have hresolve : w.scopes.beginFunction.resolve .empty "failing" =
      .ok (functionNamed "failing" (failingEntry swap)) := by
    rw [hscopes]
    cases swap <;> rfl
  have hbuffer : w.buffers.size < (w.buffers.push #[⟨.allocStack, .int 0⟩]).size := by simp
  have hcall := @expr_call ⟨.empty, merge⟩ (w.inFunction ⟨callerEntry swap⟩ .any #[⟨.allocStack, .int 0⟩]) _
    ⟨failingEntry swap⟩ "failing" .any hbuffer hcallee hresolve rfl rfl
  rw [Writer.add_inFunction hw, Writer.add_inFunction hw] at hcall
  have hbody := stmts_expr hcall rfl
  rw [typed_add, Writer.add_inFunction hw] at hbody
  rw [caller, stmt_function hw hfound rfl rfl hbody,
    behindBody_inFunction hw (hscopes ▸ distantScopes_closed)]
  rfl

/-- What is written for `failing`, wherever it comes. -/
theorem stmt_failing (hw : w.labels.waiting = []) (hscopes : w.scopes = distantScopes swap) :
    stmt ⟨.empty, merge⟩ false failing w = .ok (false, w.withFunction ⟨failingEntry swap⟩ failingCode) := by
  have hfound : w.scopes.findCurrent? "failing" = some (functionNamed "failing" (failingEntry swap)) := by
    rw [hscopes]
    cases swap <;> rfl
  have hexpr : ∀ v, expr ⟨.empty, merge⟩ (.binary .mod (.literal (.int 1)) (.literal (.int 0))) v = .ok ((),
      (((v.add ⟨.loadConst .w32, .int 1⟩).add ⟨.loadConst .w32, .int 0⟩).add ⟨.arith .int .mod, .none⟩).typed
        .int false) := fun _ => rfl
  have hbody := stmts_expr (hexpr (w.inFunction ⟨failingEntry swap⟩ .any #[⟨.allocStack, .int 0⟩])) rfl
  rw [typed_add, Writer.add_inFunction hw, Writer.add_inFunction hw, Writer.add_inFunction hw,
    Writer.add_inFunction hw] at hbody
  rw [failing, stmt_function hw hfound rfl rfl hbody,
    behindBody_inFunction hw (hscopes ▸ distantScopes_closed)]
  rfl

/-- The streams of the program. -/
def distantCode (merge swap : Bool) (n : Nat) : List (Array Draft) :=
  mainCode swap :: paddingCode merge n :: pairCode swap

/-- The writer behind the two functions. -/
def behindPair (swap : Bool) (w : Writer) : Writer :=
  if swap then (w.withFunction ⟨1⟩ failingCode).withFunction ⟨2⟩ (callerCode swap)
  else (w.withFunction ⟨1⟩ (callerCode swap)).withFunction ⟨2⟩ failingCode

theorem topLevel_next {setting : Setting} {s s' : Stmt} {rest : List Stmt} {left : Bool} {v : Writer}
    (h : stmt setting false s w = .ok (left, v)) :
    topLevel setting (s :: s' :: rest) w = topLevel setting (s' :: rest) v := by
  have hdropped : discard (stmt setting false s) w = .ok ((), v) := discard_eq_ok.2 ⟨left, h⟩
  show (discard (stmt setting false s) w >>= fun r => topLevel setting (s' :: rest) r.2) = _
  rw [hdropped]
  rfl

theorem topLevel_pair {s : Stmt} (hw : w.labels.waiting = []) (hscopes : w.scopes = distantScopes swap)
    (hcallee : w.callee = none) :
    topLevel ⟨.empty, merge⟩ (pair swap ++ [s]) w = stmt ⟨.empty, merge⟩ true s (behindPair swap w) := by
  have hlast : ∀ v, topLevel ⟨.empty, merge⟩ [s] v = stmt ⟨.empty, merge⟩ true s v := fun v => by rw [topLevel]
  cases swap with
  | false =>
    show topLevel ⟨.empty, merge⟩ [caller, failing, s] w = _
    rw [topLevel_next (stmt_caller hw hscopes hcallee),
      topLevel_next (stmt_failing (w := w.withFunction _ _) hw hscopes), hlast]
    rfl
  | true =>
    show topLevel ⟨.empty, merge⟩ [failing, caller, s] w = _
    rw [topLevel_next (stmt_failing hw hscopes),
      topLevel_next (stmt_caller (w := w.withFunction _ _) hw hscopes hcallee), hlast]
    rfl

theorem behindPair_buffers (hw : w.buffers = #[#[⟨.allocStack, .int 0⟩], code]) :
    (behindPair swap w).buffers = (#[⟨.allocStack, .int 0⟩] :: code :: pairCode swap).toArray := by
  cases swap <;> simp [behindPair, Writer.withFunction, hw, pairCode]

theorem behindPair_bound (hw : w.buffers.size = 2) : (behindPair swap w).labels.bound =
    LabelTable.bind (LabelTable.bind w.labels.bound ⟨1⟩ ⟨2, 0⟩) ⟨2⟩ ⟨3, 0⟩ := by
  cases swap <;> simp [behindPair, Writer.withFunction, hw]

/-- A program whose last statement leaves a value. -/
theorem program_kept {setting : Setting} {body : List Stmt} {v : Writer} (hhoist : hoist body .start = .ok ((), w))
    (htop : topLevel setting body w = .ok (true, v)) :
    Write.program setting body .empty = .ok ((), v.add ⟨.term, .none⟩) :=
  bind_eq_ok.2 ⟨(), .start, rfl, bind_eq_ok.2 ⟨(), w, hhoist, bind_eq_ok.2 ⟨true, v, htop, rfl⟩⟩⟩

theorem program_distant (n : Nat) : ∃ w, Write.program ⟨.empty, merge⟩ (distant swap n) .empty = .ok ((), w) ∧
    w.buffers = (distantCode merge swap n).toArray ∧
      w.labels.bound = #[some ⟨1, 0⟩, some ⟨2, 0⟩, some ⟨3, 0⟩, some ⟨1, if merge then 6 else 7⟩] := by
  have hhoist : hoist (distant swap n) .start = .ok ((), hoisted swap) := by
    cases swap <;> rfl
  let v := padded merge swap (paddingCode merge n)
  have hresolve : (behindPair swap v).scopes.resolve .empty "caller" =
      .ok (functionNamed "caller" (callerEntry swap)) := by
    cases swap <;> rfl
  have hcallee : (behindPair swap v).callee = none := by
    cases swap <;> rfl
  have hwaiting : (behindPair swap v).labels.waiting = [] := by
    cases swap <;> rfl
  have hbuffer : (behindPair swap v).buffer = 0 := by
    cases swap <;> rfl
  have hbuffers := @behindPair_buffers swap v (paddingCode merge n) rfl
  -- the call at the end is resolved, whatever the padding
  have hcall := @expr_call ⟨.empty, merge⟩ (behindPair swap v) _ ⟨callerEntry swap⟩ "caller" .any
    (by rw [hbuffer, hbuffers]; exact Nat.succ_pos _) hcallee hresolve rfl rfl
  rw [Writer.add_of_quiet hwaiting, Writer.add_of_quiet (w := (behindPair swap v).extended _) hwaiting,
    Writer.extended_extended] at hcall
  have hstmt : stmt ⟨.empty, merge⟩ true (.expr (.call (.name "caller") [])) (behindPair swap v) =
      .ok (true, (((behindPair swap v).extended _).typed .any false)) :=
    bind_eq_ok.2 ⟨(), _, hcall, bind_eq_ok.2 ⟨_, _, rfl, rfl⟩⟩
  have htop : topLevel ⟨.empty, merge⟩ (distant swap n) (hoisted swap) =
      topLevel ⟨.empty, merge⟩ (pair swap ++ [.expr (.call (.name "caller") [])]) v := by
    cases swap <;> exact topLevel_next (stmt_padding n)
  refine ⟨_, program_kept hhoist (htop.trans ((topLevel_pair rfl rfl rfl).trans hstmt)), ?_, ?_⟩
  · rw [typed_add, Writer.add_of_quiet (w := (behindPair swap v).extended _) hwaiting, Writer.extended_extended]
    show ((behindPair swap v).extended _).buffers = _
    rw [Writer.extended, hbuffer, hbuffers]
    rfl
  · rw [typed_add, Writer.add_of_quiet (w := (behindPair swap v).extended _) hwaiting]
    show (behindPair swap v).labels.bound = _
    rw [behindPair_bound rfl]
    show LabelTable.bind (LabelTable.bind #[some ⟨1, 0⟩, none, none, some ⟨1, if merge then 6 else 7⟩] ⟨1⟩ ⟨2, 0⟩) ⟨2⟩
      ⟨3, 0⟩ = _
    simp [LabelTable.bind]

/-! ### Where the instructions stand -/

/-- The index of the first instruction of `caller`. -/
def callerBase (merge swap : Bool) (n : Nat) : Nat := 2 * n + 13 + (if merge then 0 else 1) + if swap then 6 else 0

/-- The index of the first instruction of `failing`. -/
def failingBase (merge swap : Bool) (n : Nat) : Nat := 2 * n + 13 + (if merge then 0 else 1) + if swap then 0 else 5

theorem size_paddingCode (n : Nat) : (paddingCode merge n).size = 2 * n + 9 + if merge then 0 else 1 := by
  cases merge <;>
  · simp only [paddingCode, frontCode, testCode, Array.size_push, Array.size_append, size_nullCode]
    simp
    omega

/-- Does an instruction never show a value? -/
def isSilent : Opcode → Bool
  | .arith .any .add | .intToString | .floatToString | .buildString | .callExternal => false
  | _ => true

theorem shown_of_isSilent {op : Opcode} {x : Operand} {stack : Array Value} (h : isSilent op = true) :
    Machine.shown op x stack = [] := by
  unfold Machine.shown
  split <;> first | rfl | cases h

theorem silent_of_mem {n : Nat} {d : Draft} (hcode : code ∈ distantCode merge swap n) (hd : d ∈ code) :
    isSilent d.opcode = true := by
  have hnulls : ∀ {m}, d ∈ nullCode m → isSilent d.opcode = true := fun h => by
    rcases mem_nullCode h with rfl | rfl <;> rfl
  have hpadding : d ∈ paddingCode merge n → isSilent d.opcode = true := fun h => by
    simp only [paddingCode, frontCode, Array.mem_push, Array.mem_append] at h
    rcases h with (((h | h) | h) | h) | rfl
    · simp at h
      rcases h with rfl | rfl | rfl <;> rfl
    · cases merge <;> simp [testCode] at h
      · rcases h with rfl | rfl <;> rfl
      · exact h ▸ rfl
    · exact hnulls h
    · exact hnulls h
    · rfl
  have hpair : ∀ code ∈ mainCode swap :: pairCode swap, ∀ d ∈ code, isSilent d.opcode = true := by
    cases swap <;> decide
  rcases List.mem_cons.1 hcode with h | h
  · exact hpair code (h ▸ List.mem_cons_self) d hd
  · rcases List.mem_cons.1 h with rfl | h
    · exact hpadding hd
    · exact hpair code (List.mem_cons_of_mem _ h) d hd

section Finished

variable {n : Nat} (hbuffers : w.buffers = (distantCode merge swap n).toArray)
include hbuffers

theorem distant_buffer {b : Nat} : w.buffers.getD b #[] = (distantCode merge swap n)[b]?.getD #[] := by
  rw [hbuffers, Array.getD_eq_getD_getElem?, List.getElem?_toArray]

theorem distant_at {b i : Nat} {d : Draft} (hb : (distantCode merge swap n)[b]? = some code) (hi : code[i]? = some d) :
    w.finished.code[w.base b + i]? = some (w.linked d) := by
  refine Writer.finished_at ?_
  rw [Writer.at, distant_buffer hbuffers, hb]
  exact hi

theorem distant_silent {a : Nat} {op : Opcode} {x : Operand} (h : w.finished.code[a]? = some ⟨.known op, x⟩) :
    isSilent op = true := by
  obtain ⟨b, i, d, hd, -, hlinked⟩ := Writer.at_of_finished h
  obtain rfl : op = d.opcode := Operation.known.inj (congrArg Instruction.operation hlinked)
  rw [Writer.at, distant_buffer hbuffers] at hd
  cases hb : (distantCode merge swap n)[b]? with
  | none => simp [hb] at hd
  | some code =>
    rw [hb] at hd
    exact silent_of_mem (List.mem_of_getElem? hb) (Array.mem_of_getElem? hd)

theorem base_caller : w.base (callerEntry swap + 1) = callerBase merge swap n := by
  have hsize := @size_paddingCode merge n
  rw [Writer.base, hbuffers]
  cases swap <;>
  · simp [distantCode, pairCode, basesFrom, callerEntry, callerBase, mainCode, failingCode, hsize]
    omega

theorem base_failing : w.base (failingEntry swap + 1) = failingBase merge swap n := by
  have hsize := @size_paddingCode merge n
  rw [Writer.base, hbuffers]
  cases swap <;>
  · simp [distantCode, pairCode, basesFrom, failingEntry, failingBase, mainCode, callerCode, hsize]
    omega

theorem main_at {i : Nat} {d : Draft} (hi : (mainCode swap)[i]? = some d) :
    w.finished.code[i]? = some (w.linked d) := by
  have hbase : w.base 0 = 0 := by
    rw [Writer.base, hbuffers]
    rfl
  have hat := @distant_at merge swap w _ n hbuffers 0 i d rfl hi
  rwa [hbase, Nat.zero_add] at hat

theorem caller_at {i : Nat} {d : Draft} (hi : (callerCode swap)[i]? = some d) :
    w.finished.code[callerBase merge swap n + i]? = some (w.linked d) := by
  have hstream : (distantCode merge swap n)[callerEntry swap + 1]? = some (callerCode swap) := by
    cases swap <;> rfl
  exact base_caller hbuffers ▸ distant_at hbuffers hstream hi

theorem failing_at {i : Nat} {d : Draft} (hi : failingCode[i]? = some d) :
    w.finished.code[failingBase merge swap n + i]? = some ⟨.known d.opcode, d.operand⟩ := by
  have hstream : (distantCode merge swap n)[failingEntry swap + 1]? = some failingCode := by
    cases swap <;> rfl
  have hlinked : w.linked d = ⟨.known d.opcode, d.operand⟩ := by
    have hmem := Array.mem_of_getElem? hi
    simp only [failingCode, List.mem_toArray, List.mem_cons, List.not_mem_nil, or_false] at hmem
    rcases hmem with rfl | rfl | rfl | rfl | rfl | rfl <;> rfl
  exact hlinked ▸ base_failing hbuffers ▸ distant_at hbuffers hstream hi

variable (hbound : w.labels.bound = #[some ⟨1, 0⟩, some ⟨2, 0⟩, some ⟨3, 0⟩, some ⟨1, if merge then 6 else 7⟩])
include hbound

theorem linked_caller {op : Opcode} :
    w.linked ⟨op, .label ⟨callerEntry swap⟩⟩ = ⟨.known op, .int (callerBase merge swap n)⟩ := by
  have hlabel : w.labels.get? ⟨callerEntry swap⟩ = some ⟨callerEntry swap + 1, 0⟩ := by
    rw [LabelTable.get?, hbound]
    cases swap <;> rfl
  simp only [Writer.linked, hlabel, Option.elim_some, base_caller hbuffers]
  rfl

theorem linked_failing {op : Opcode} :
    w.linked ⟨op, .label ⟨failingEntry swap⟩⟩ = ⟨.known op, .int (failingBase merge swap n)⟩ := by
  have hlabel : w.labels.get? ⟨failingEntry swap⟩ = some ⟨failingEntry swap + 1, 0⟩ := by
    rw [LabelTable.get?, hbound]
    cases swap <;> rfl
  simp only [Writer.linked, hlabel, Option.elim_some, base_failing hbuffers]
  rfl

end Finished

end Distant

end StackScript.Assembly

namespace StackScript.Machine

open Bytecode Host Assembly Syntax

/-! ### The run -/

section Run

variable {limits : Limits} {host : Environment} {program : Program} {s : State} {n : Nat}

theorem advance_unlimited {op : Opcode} {x : Operand} (hfuel : limits.fuel = none)
    (hcode : program.code[s.ip]? = some ⟨.known op, x⟩) :
    advance limits host program n s = progressOf limits (Exec.step limits host op x s) := by
  rw [advance_of_code hcode, hfuel]
  rfl

/-- A function without variables begins. -/
theorem advance_begin (hfuel : limits.fuel = none) (hcode : program.code[s.ip]? = some ⟨.known .allocStack, .int 0⟩)
    (hroom : s.stack.size ≤ limits.maxStack) :
    advance limits host program n s = .running { s with ip := s.ip + 1 } := by
  rw [advance_unlimited hfuel hcode]
  have hstep := @step_allocStack limits host s 0
  rw [Nat.add_zero, if_neg (Nat.not_lt.2 hroom), Array.replicate_zero, Array.append_empty] at hstep
  exact (congrArg (progressOf limits) hstep).trans (checked_running hroom)

/-- A call saves where it came from. -/
theorem advance_call {t : Nat} (hfuel : limits.fuel = none)
    (hcode : program.code[s.ip]? = some ⟨.known .callInternal, .int t⟩) (hfp : s.fp < 0x80000000)
    (hip : s.ip + 1 < 0x80000000) (hroom : s.stack.size + 2 ≤ limits.maxStack) :
    advance limits host program n s = .running { s with
      stack := (s.stack.push (.int (Int32.ofNat s.fp))).push (.int (Int32.ofNat (s.ip + 1)))
      fp := s.stack.size + 2
      ip := t } := by
  have hsize : ((s.stack.push (.int (Int32.ofNat s.fp))).push (.int (Int32.ofNat (s.ip + 1)))).size ≤
      limits.maxStack := by
    rw [Array.size_push, Array.size_push]
    exact hroom
  rw [advance_unlimited hfuel hcode, step_call, if_pos ⟨hfp, hip⟩]
  exact checked_running hsize

/-- A call fails where it cannot save where it came from. -/
theorem advance_call_far {t : Nat} (hfuel : limits.fuel = none)
    (hcode : program.code[s.ip]? = some ⟨.known .callInternal, .int t⟩) (hip : ¬s.ip + 1 < 0x80000000) :
    advance limits host program n s = .failed (.stackOverflow limits.maxStack) s := by
  rw [advance_unlimited hfuel hcode, step_call, if_neg fun h => hip h.2]
  rfl

theorem advance_int {k : Int} {m : Int32} (hfuel : limits.fuel = none)
    (hcode : program.code[s.ip]? = some ⟨.known (.loadConst .w32), .int k⟩) (hk : Decimal.int32OfInt? k = some m)
    (hroom : s.stack.size + 1 ≤ limits.maxStack) :
    advance limits host program n s = .running { s with stack := s.stack.push (.int m), ip := s.ip + 1 } := by
  have hsize : (s.stack.push (.int m)).size ≤ limits.maxStack := by rwa [Array.size_push]
  have hstep : Exec.step limits host (.loadConst .w32) (.int k) s =
      .ok .next { s with stack := s.stack.push (.int m) } := by
    have hperform : Exec.step limits host (.loadConst .w32) (.int k) =
      Exec.perform limits host (.loadConst .w32) (.int k) >>= fun _ => pure Flow.next := rfl
    have hoperand : Exec.intOperand (.loadConst .w32) (.int k) s = .ok k s := rfl
    rw [hperform]
    unfold Exec.perform
    dsimp only
    rw [bind_assoc, bind_ok hoperand, hk]
    rfl
  rw [advance_unlimited hfuel hcode, hstep]
  exact checked_running hsize

/-- No remainder by zero. -/
theorem advance_remainder {below : Array Value} {m : Int32} (hfuel : limits.fuel = none)
    (hcode : program.code[s.ip]? = some ⟨.known (.arith .int .mod), .none⟩)
    (hstack : s.stack = (below.push (.int m)).push (.int 0)) :
    advance limits host program n s = .failed .divisionByZero { s with stack := below } := by
  have hpop : ∀ {below : Array Value} {m : Int32} {t : State}, t.stack = below.push (.int m) →
      Exec.popInt (.arith .mod) t = .ok m { t with stack := below } := fun {below m t} ht => by
    have hpop := pop_eq (s := t) (v := .int m) (by rw [ht, Array.back?_push])
    rw [ht, Array.pop_push] at hpop
    rw [Exec.popInt, bind_ok hpop]
    rfl
  have hstep : Exec.step limits host (.arith .int .mod) .none s = .error .divisionByZero { s with stack := below } := by
    show (Exec.arith .int .mod >>= fun _ => pure Flow.next) s = _
    rw [Exec.arith, bind_assoc, bind_ok (hpop hstack), bind_assoc, bind_ok (hpop rfl)]
    rfl
  rw [advance_unlimited hfuel hcode, hstep]
  rfl

/-- The end of a run in `failing`. -/
theorem runFrom_failing {a : Nat} (hfuel : limits.fuel = none) (hip : s.ip = a)
    (hcode : ∀ i d, failingCode[i]? = some d → program.code[a + i]? = some ⟨.known d.opcode, d.operand⟩)
    (hroom : s.stack.size + 2 ≤ limits.maxStack) :
    runFrom limits host program 4 n s = .done ⟨.error .divisionByZero, { s with ip := s.ip + 3 }⟩ := by
  subst hip
  rw [runFrom, advance_begin hfuel (hcode 0 _ rfl) (by omega)]
  dsimp only
  rw [runFrom, advance_int hfuel (hcode 1 _ rfl) rfl (by dsimp only; omega)]
  dsimp only
  rw [runFrom, advance_int hfuel (hcode 2 _ rfl) rfl (by dsimp only; rw [Array.size_push]; omega)]
  dsimp only
  rw [runFrom, advance_remainder hfuel (hcode 3 _ rfl) rfl]

/-- A call at the start leads to `a`, and a call there to `failing`. -/
theorem runFrom_calls {start : State} {a b : Nat} (hfuel : limits.fuel = none) (hroom : 6 ≤ limits.maxStack)
    (hmain : program.code[0]? = some ⟨.known .allocStack, .int 0⟩)
    (hmain' : program.code[1]? = some ⟨.known .callInternal, .int a⟩)
    (hcaller : program.code[a]? = some ⟨.known .allocStack, .int 0⟩)
    (hcaller' : program.code[a + 1]? = some ⟨.known .callInternal, .int b⟩)
    (hfailing : ∀ i d, failingCode[i]? = some d → program.code[b + i]? = some ⟨.known d.opcode, d.operand⟩) :
    ∃ t, runFrom limits host program 8 0 start.restart =
      .done ⟨.error (if a + 2 < 0x80000000 then .divisionByZero else .stackOverflow limits.maxStack), t⟩ := by
  rw [runFrom, advance_begin hfuel hmain (Nat.zero_le _)]
  dsimp only
  rw [runFrom, advance_call hfuel hmain' (show 0 < 0x80000000 by decide) (show 0 + 1 + 1 < 0x80000000 by decide)
    (by show 0 + 2 ≤ limits.maxStack; omega)]
  dsimp only
  rw [runFrom, advance_begin hfuel hcaller (by simp [State.restart]; omega)]
  dsimp only
  split
  · next hip =>
    rw [runFrom, advance_call hfuel hcaller' (show 2 < 0x80000000 by decide) hip
      (by simp [State.restart]; omega)]
    dsimp only
    exact ⟨_, runFrom_failing hfuel rfl hfailing (by simp [State.restart]; omega)⟩
  · next hip =>
    rw [runFrom, advance_call_far hfuel hcaller' hip]
    exact ⟨_, rfl⟩

/-- The fault of a run of `distant`. -/
def distantFault (merge swap : Bool) (n : Nat) (limits : Limits) : Fault :=
  if callerBase merge swap n + 2 < 0x80000000 then .divisionByZero else .stackOverflow limits.maxStack

/-- The call in `caller` fails if its return address is too large, and else the run gets to `failing`.  No
function is ever turned into text. -/
theorem distant_runs (merge swap : Bool) (n : Nat) : ∃ p, compileWith ⟨.empty, merge⟩ (distant swap n) = .ok p ∧
    (∀ limits host start, ShowsNoFunction limits host p start) ∧
      ∀ limits host start, limits.fuel = none → 6 ≤ limits.maxStack →
        ∃ t, run limits host p 8 start = .done ⟨.error (distantFault merge swap n limits), t⟩ := by
  obtain ⟨w, hwritten, hbuffers, hbound⟩ := @program_distant merge swap n
  refine ⟨w.finished, by rw [compileWith_eq, hwritten]; rfl, fun limits host start n s op x _ hat _ v hv => ?_,
    fun limits host start hfuel hroom => ?_⟩
  · rw [shown_of_isSilent (distant_silent hbuffers hat)] at hv
    cases hv
  · have hcompatible : Program.isCompatible currentVersion = true := by decide +kernel
    rw [run, show w.finished.version = currentVersion from rfl, if_pos hcompatible]
    refine runFrom_calls hfuel hroom (main_at hbuffers (i := 0) rfl) ?_ (caller_at hbuffers (i := 0) rfl) ?_
      fun i d => failing_at hbuffers
    · exact (main_at hbuffers (i := 1) rfl).trans (congrArg some (linked_caller hbuffers hbound))
    · exact (caller_at hbuffers (i := 1) rfl).trans (congrArg some (linked_failing hbuffers hbound))

end Run

/-! ### Runs that differ -/

section Apart

variable {g : Nat → Nat} {region : Set (Shape × Ref)} {limits : Limits} {host : Environment} {p q : Program}
  {start t t' : State} {count count' : Nat} {f f' : Fault}

theorem StopsAlike.ended {x x' : Attempt Outcome} (h : StopsAlike g region x x') :
    x ≠ .unfinished ∧ x' ≠ .unfinished := by
  cases h <;> exact ⟨nofun, nofun⟩

/-- Runs that end with a fault and are alike. -/
theorem RunsAlike.fault (h : RunsAlike g region limits host p q start)
    (hp : run limits host p count start = .done ⟨.error f, t⟩)
    (hq : run limits host q count' start = .done ⟨.error f', t'⟩) : f' = f.relocate g := by
  cases h with
  | goesOn left => cases (left count).symm.trans hp
  | @ends m m' alike =>
    have hsame := run_ended alike.ended.1 (by rw [hp]; exact nofun)
    have hsame' := run_ended alike.ended.2 (by rw [hq]; exact nofun)
    rw [hsame, hsame', hp, hq] at alike
    cases alike with
    | done h =>
      have hresult := h.result
      cases hresult
      rfl

/-- Calls of `caller` of which one can save its return address and the other one cannot. -/
theorem distant_apart {merge swap merge' swap' : Bool} {n : Nat} (hnear : callerBase merge swap n + 2 < 0x80000000)
    (hfar : ¬callerBase merge' swap' n + 2 < 0x80000000) : ∃ p q,
    compileWith ⟨.empty, merge⟩ (distant swap n) = .ok p ∧ compileWith ⟨.empty, merge'⟩ (distant swap' n) = .ok q ∧
      (∀ limits host start, ShowsNoFunction limits host p start) ∧
        ∀ g region limits host start, limits.fuel = none → 6 ≤ limits.maxStack →
          ¬RunsAlike g region limits host p q start := by
  obtain ⟨p, hp, hhides, hruns⟩ := distant_runs merge swap n
  obtain ⟨q, hq, -, hruns'⟩ := distant_runs merge' swap' n
  refine ⟨p, q, hp, hq, hhides, fun g region limits host start hfuel hroom halike => ?_⟩
  obtain ⟨t, ht⟩ := hruns limits host start hfuel hroom
  obtain ⟨t', ht'⟩ := hruns' limits host start hfuel hroom
  rw [distantFault, if_pos hnear] at ht
  rw [distantFault, if_neg hfar] at ht'
  cases halike.fault ht ht'

theorem nulls_listed (n : Nat) : allListed (nulls n) = true := by
  induction n with
  | zero => rfl
  | succ n ih => exact ih

theorem distant_listed (swap : Bool) (n : Nat) : allListed (distant swap n) = true := by
  have hpadding : (padding n).functionsListed = true := nulls_listed n
  cases swap <;> simp [distant, allListed, hpadding, pair] <;> decide

theorem distant_permuted (n : Nat) : Somewhere Permuted (distant false n) (distant true n) :=
  .here (.intro [padding n] _ (.swap failing caller []) (by decide))

end Apart

/-- So many statements that a return address just fits. -/
def justFits : Nat := 0x40000000 - 8

/-- An element that is stored without an index, `[][] = 1`. -/
def strayStore : Stmt := .expr (.assign .set (.index (.array []) []) (.literal (.int 1)))

/-- The same in one of two functions, `function f() {} function g() { [][] = 1; } g();`, in one order or the
other. -/
def strayCall (swap : Bool) : List Stmt :=
  let f := .function "f" [] "any" []
  let g := .function "g" [] "any" [strayStore]
  (if swap then [g, f] else [f, g]) ++ [.expr (.call (.name "g") [])]

/-- The fault of a program. -/
def faultOf (merge : Bool) (body : List Stmt) : Option Fault :=
  (compileWith ⟨.empty, merge⟩ body).toOption.bind fun p =>
    match (run ⟨none, 100, 8⟩ .empty p 20 (.initial .empty)).done? with
    | some ⟨.error f, _⟩ => some f
    | _ => none

/-- In another order, the fault of a short program names the instruction with another index.  And where a
program is long, a call fails only where it comes last. -/
theorem permuted_apart :
    (faultOf true (strayCall false) = some (.invalidOperand (.storeElement .w64) 9) ∧
        faultOf true (strayCall true) = some (.invalidOperand (.storeElement .w64) 7)) ∧
      allListed (distant false justFits) = true ∧ Somewhere Permuted (distant false justFits) (distant true justFits) ∧
        Environment.empty.FunctionFree .empty ∧
          ∃ p q, compile .empty (distant false justFits) = .ok p ∧ compile .empty (distant true justFits) = .ok q ∧
            ShowsNoFunction ⟨none, 100, 8⟩ .empty p (.initial .empty) ∧
              ∀ g region, ¬RunsAlike g region ⟨none, 100, 8⟩ .empty p q (.initial .empty) := by
  obtain ⟨p, q, hp, hq, hhides, hapart⟩ := @distant_apart true false true true justFits (by decide) (by decide)
  refine ⟨⟨by decide +kernel, by decide +kernel⟩, distant_listed _ _, distant_permuted _, .of_all rfl nofun (by decide),
    p, q, hp, hq, hhides _ _ _, fun g region => hapart g region _ _ _ rfl (by decide)⟩

end StackScript.Machine
