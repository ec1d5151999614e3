import StackScript.Proofs.Addressing
import StackScript.Proofs.Calls

/-!
# Variables without an initial value

The variables of a function get their cells, all of them null, when a call of the function begins.  A
declaration without an initial value does nothing, so such a variable is null until it is first assigned
to in the call, and keeps what was last assigned to it, however often control passes its declaration.

* `Initialised`: accesses that store an initial value belong to declarations that have one.
* `Assigns`: the next instruction assigns to a variable of a call, or updates it.
* `CarriedOut`: what an access has done to the cell of its variable.
* `locals_kept`: in every run, a variable declared without an initial value is null until it is assigned
  to in its call, and is changed by nothing else.
-/

namespace StackScript.Syntax

/-! ### Declarations with initial values -/

/-- No access stores an initial value. -/
def Plain (accesses : List Occurrence) : Prop := ∀ a ∈ accesses, a.use ≠ .declare

/-- The accesses that store an initial value belong to declarations that have one, where the variables of
the declarations take the places from `first` on. -/
def Initialised (level first : Nat) (ds : List Declaration) (accesses : List Occurrence) : Prop :=
  ∀ a ∈ accesses, a.use = .declare → ∃ (i : Nat) (d : Declaration), ds[i]? = some d ∧
    d.initial.isSome = true ∧ a.target = ⟨d.name, d.constant, level, first + i⟩

section Initialised

variable {level first : Nat} {ds ds' : List Declaration} {l l' : List Occurrence}

theorem Plain.nil : Plain [] := nofun

theorem Plain.append (h : Plain l) (h' : Plain l') : Plain (l ++ l') := fun a ha =>
  (List.mem_append.1 ha).elim (h a) (h' a)

theorem Plain.uses (c : Context) (use : Use) (huse : use ≠ .declare) (name : String) :
    Plain (c.uses use name) := by
  intro a ha
  unfold Context.uses at ha
  split at ha
  · obtain rfl := List.mem_singleton.1 ha
    exact huse
  · cases ha

theorem Plain.initialised (h : Plain l) : Initialised level first ds l :=
  fun a ha huse => absurd huse (h a ha)

theorem Initialised.append (h : Initialised level first ds l)
    (h' : Initialised level (first + ds.length) ds' l') : Initialised level first (ds ++ ds') (l ++ l') := by
  intro a ha huse
  rcases List.mem_append.1 ha with ha | ha
  · obtain ⟨i, d, hd, hinitial, htarget⟩ := h a ha huse
    have hi := (List.getElem?_eq_some_iff.1 hd).1
    exact ⟨i, d, (List.getElem?_append_left hi).trans hd, hinitial, htarget⟩
  · obtain ⟨i, d, hd, hinitial, htarget⟩ := h' a ha huse
    refine ⟨ds.length + i, d, ?_, hinitial, ?_⟩
    · rw [List.getElem?_append_right (Nat.le_add_right _ _), Nat.add_sub_cancel_left]
      exact hd
    · rw [htarget]
      congr 1
      push_cast
      omega

theorem Plain.before (h : Plain l) (h' : Initialised level first ds l') :
    Initialised level first ds (l ++ l') := by
  have hfront : Initialised level first [] l := h.initialised
  exact hfront.append h'

theorem Initialised.then_plain (h : Initialised level first ds l) (h' : Plain l') :
    Initialised level first ds (l ++ l') := by
  have hback : Initialised level (first + ds.length) [] l' := h'.initialised
  have hboth := h.append hback
  rwa [List.append_nil] at hboth

mutual

/-- An expression stores no initial value. -/
theorem Expr.accesses_plain (c : Context) : (e : Expr) → Plain (e.accesses c)
  | .literal _ => .nil
  | .template chunks parts => accessesOfParts_plain c chunks parts
  | .name s => .uses c .read nofun s
  | .unary op _ operand => by
    rw [Expr.accesses.eq_def]
    dsimp only
    split
    · refine .uses c _ ?_ _
      split <;> nofun
    · exact operand.accesses_plain c
  | .binary _ left right => (left.accesses_plain c).append (right.accesses_plain c)
  | .member object _ => object.accesses_plain c
  | .index object indices => (object.accesses_plain c).append (accessesIn_plain c indices)
  | .call callee arguments => (accessesIn_plain c arguments).append (callee.accesses_plain c)
  | .assign op target value => by
    rw [Expr.accesses.eq_def]
    dsimp only
    refine .append ?_ ?_
    · split
      · exact (target.accesses_plain c).append (value.accesses_plain c)
      · exact value.accesses_plain c
    · split
      · exact .uses c .assign nofun _
      · exact target.accesses_plain c
  | .array items => accessesIn_plain c items
  | .set items => accessesIn_plain c items
  | .object fields => accessesOfFields_plain c fields
  | .ternary test yes no =>
    (test.accesses_plain c).append ((yes.accesses_plain c).append (no.accesses_plain c))

theorem accessesIn_plain (c : Context) : (es : List Expr) → Plain (accessesIn c es)
  | [] => .nil
  | e :: rest => (e.accesses_plain c).append (accessesIn_plain c rest)

theorem accessesOfFields_plain (c : Context) : (fs : List (String × Expr)) →
    Plain (accessesOfFields c fs)
  | [] => .nil
  | f :: rest => (accessesOfField_plain c f).append (accessesOfFields_plain c rest)

theorem accessesOfField_plain (c : Context) : (f : String × Expr) → Plain (accessesOfField c f)
  | (_, e) => e.accesses_plain c

theorem accessesOfParts_plain (c : Context) : (chunks : List String) → (parts : List Expr) →
    Plain (accessesOfParts c chunks parts)
  | _ :: chunks, e :: parts => (e.accesses_plain c).append (accessesOfParts_plain c chunks parts)
  | [], _ => by
    rw [accessesOfParts]
    · exact .nil
    · nofun
  | _ :: _, [] => by
    rw [accessesOfParts]
    · exact .nil
    · nofun

end

theorem accesses?_plain (c : Context) : (e : Option Expr) → Plain (accesses? c e)
  | none => .nil
  | some e => e.accesses_plain c

mutual

theorem Stmt.accesses_initialised : (s : Stmt) → (c : Context) →
    Initialised c.level c.count s.declarations (s.accesses c)
  | .declare d, c => by
    rw [Stmt.accesses, Declaration.accesses]
    split
    · exact Plain.nil.initialised
    · next e he =>
      refine (e.accesses_plain c).before fun a ha _ => ?_
      obtain rfl := List.mem_singleton.1 ha
      exact ⟨0, d, rfl, by rw [he]; rfl, rfl⟩
  | .function .., _ => Plain.nil.initialised
  | .expr e, c => (e.accesses_plain c).initialised
  | .block body, c => by
    have hbody := accessesOfAll_initialised body (c.openBlock.hoist body)
    rwa [Context.level_hoist, Context.count_hoist] at hbody
  | .cond test yes no, c => by
    obtain ⟨hlevel, hcount⟩ := yes.after_counts c
    have hno := accessesOf?_initialised no (yes.after c)
    rw [hlevel, hcount] at hno
    exact (test.accesses_plain c).before ((yes.accesses_initialised c).append hno)
  | .loop none test step body, c =>
    Plain.nil.before ((accesses?_plain _ test).before
      ((accessesOf?_initialised body c).then_plain (accesses?_plain _ step)))
  | .loop (some initial) test step body, c => by
    obtain ⟨hlevel, hcount⟩ := initial.after_counts c.openBlock
    have hbody := accessesOf?_initialised body (initial.after c.openBlock)
    rw [hlevel, hcount] at hbody
    exact (initial.accesses_initialised c.openBlock).append ((accesses?_plain _ test).before
      (hbody.then_plain (accesses?_plain _ step)))
  | .brk _, _ => Plain.nil.initialised
  | .ret e, c => (accesses?_plain c e).initialised
  | .empty, _ => Plain.nil.initialised

theorem accessesOfAll_initialised : (body : List Stmt) → (c : Context) →
    Initialised c.level c.count (declarationsAll body) (accessesOfAll c body)
  | [], _ => Plain.nil.initialised
  | s :: rest, c => by
    obtain ⟨hlevel, hcount⟩ := s.after_counts c
    have hrest := accessesOfAll_initialised rest (s.after c)
    rw [hlevel, hcount] at hrest
    exact (s.accesses_initialised c).append hrest

theorem accessesOf?_initialised : (s : Option Stmt) → (c : Context) →
    Initialised c.level c.count (declarations? s) (accessesOf? c s)
  | none, _ => Plain.nil.initialised
  | some s, c => s.accesses_initialised c

end

end Initialised

/-- The variable of the `i`th declaration in a function. -/
def Function.variable (f : Function) (i : Nat) (d : Declaration) : Variable :=
  ⟨d.name, d.constant, f.level, i⟩

section Variable

variable {f : Function} {i : Nat} {d : Declaration}

theorem mem_variablesFrom {level first : Nat} {ds : List Declaration} (hd : ds[i]? = some d) :
    (⟨d.name, d.constant, level, (first + i : Nat)⟩ : Variable) ∈ variablesFrom level first ds := by
  induction ds generalizing first i with
  | nil => cases hd
  | cons e ds ih =>
    cases i with
    | zero =>
      obtain rfl := Option.some.inj hd
      exact List.mem_cons_self
    | succ i =>
      have hmem : ⟨d.name, d.constant, level, (first + 1 + i : Nat)⟩ ∈ variablesFrom level (first + 1) ds :=
        ih hd
      rw [Nat.add_assoc, Nat.add_comm 1] at hmem
      exact List.mem_cons_of_mem _ hmem

theorem Function.variable_mem (hd : (declarationsAll f.body)[i]? = some d) : f.variable i d ∈ f.vars := by
  have hmem : ⟨d.name, d.constant, f.level, (0 + i : Nat)⟩ ∈ variablesFrom f.level 0 (declarationsAll f.body) :=
    mem_variablesFrom hd
  rw [Nat.zero_add] at hmem
  exact List.mem_append_right _ hmem

/-- No access stores an initial value in a variable that is declared without one. -/
theorem Function.initial_of_declare {body : List Stmt} (hf : f ∈ programFunctions body)
    (hd : (declarationsAll f.body)[i]? = some d) {a : Occurrence} (ha : a ∈ f.accesses)
    (htarget : a.target = f.variable i d) (huse : a.use = .declare) : d.initial.isSome = true := by
  have hall := accessesOfAll_initialised f.body (f.context.hoist f.body)
  rw [Context.count_hoist, start_of_mem hf] at hall
  obtain ⟨j, d', hd', hinitial, htarget'⟩ := hall a ha huse
  have hplace : ((0 : Nat) + (j : Nat) : Int) = i := congrArg Variable.place (htarget'.symm.trans htarget)
  obtain rfl : j = i := by omega
  obtain rfl := Option.some.inj (hd'.symm.trans hd)
  exact hinitial

end Variable

end StackScript.Syntax

namespace StackScript.Machine

open Bytecode Host Assembly Syntax

/-- The next instruction assigns to a variable of a call, or updates it. -/
def Assigns (body : List Stmt) (streams : List (List Instruction)) (s : State) (calls : List Call)
    (B : Call) (v : Variable) : Prop :=
  ∃ g a, Accesses body streams s calls g a B ∧ a.target = v ∧ (a.use = .assign ∨ a.use = .update)

/-- Does the instruction at an address assign to a place, or update what is there? -/
def changesPlace (program : Program) (address : Nat) (place : Int) : Bool :=
  ((program.code[address]?).bind slotAt?).any fun slot => decide (slot.touch ≠ .load ∧ slot.place = place)

/-- What an access has done to the cell of its variable: a read pushes what the cell holds, an assignment
stores the value on top of the stack there, and an update makes the number there greater or less by one. -/
inductive CarriedOut (s s' : State) (cell : Nat) : Touch → Prop
  | load {x} (held : s.stack[cell]? = some x) (pushed : s'.stack = s.stack.push x) :
      CarriedOut s s' cell .load
  | store {x} (top : s.stack.back? = some x) (stored : s'.stack[cell]? = some x) :
      CarriedOut s s' cell .store
  | update {u x y} (held : s.stack[cell]? = some x) (bumped : bump u x = .ok y)
      (stored : s'.stack[cell]? = some y) : CarriedOut s s' cell .update

section Emitted

variable {body : List Stmt} {program : Program} {streams : List (List Instruction)}

/-- An assignment is one of the place of its variable. -/
theorem Assigns.changes {s : State} {calls : List Call} {B : Call} {v : Variable}
    (hassigns : Assigns body streams s calls B v) (h : Accessed body program streams) :
    changesPlace program s.ip v.place = true := by
  obtain ⟨g, a, haccesses, rfl, huse⟩ := hassigns
  obtain ⟨i, hi, hslot⟩ := h.emitted haccesses.emitted
  have htouch : touchOf a.use ≠ .load := by
    rcases huse with huse | huse <;> rw [huse] <;> exact nofun
  simp [changesPlace, hi, hslot, slotOfAccess, htouch]

end Emitted

section Frames

variable {L : Layout} {strict : Prop} {body : List Stmt} {streams : List (List Instruction)}
  {s s' : State} {calls : List Call} {A : Activation} {rest others : List Activation} {B : Call}
  {f g : Function} {v : Variable} {a : Occurrence} {i : Nat} {d : Declaration}

/-- What changes a variable that is declared without an initial value is an assignment or an update. -/
theorem Accesses.assigns (haccesses : Accesses body streams s calls g a B) (h : Laid L body streams)
    (hf : IsCallOf body streams B f) (hd : (declarationsAll f.body)[i]? = some d) (hinitial : d.initial = none)
    (htarget : a.target = f.variable i d) (huse : a.use ≠ .read) :
    Assigns body streams s calls B (f.variable i d) := by
  refine ⟨g, a, haccesses, htarget, ?_⟩
  cases huse' : a.use with
  | read => exact absurd huse' huse
  | assign => exact .inl rfl
  | update => exact .inr rfl
  | declare =>
    obtain ⟨k, j, code, instruction, hg, -, -, -, -, ha⟩ := haccesses.emitted
    have hlawful := h.accessed.lawful g (List.mem_of_getElem? hg) a (List.mem_of_getElem? ha)
    obtain ⟨C, others, hcalls, hC⟩ := haccesses.running
    cases haccesses.holds with
    | own hrunning =>
      obtain ⟨rfl, -⟩ := List.cons.inj (hrunning.symm.trans hcalls)
      obtain rfl := isCallOf_inj h hC hf
      have hsome := Function.initial_of_declare (List.mem_of_getElem? hg) hd (List.mem_of_getElem? ha)
        htarget huse'
      rw [hinitial] at hsome
      cases hsome
    | top other => exact absurd (hlawful.declares huse') other

/-- Where a call begins, it gets its cells, which are null. -/
theorem alloc_advance {program : Program} {limits : Limits} {host : Environment} {n k : Nat}
    (hcode : program.code[s.ip]? = some ⟨.known .allocStack, .int (k : Nat)⟩)
    (hadvance : advance limits host program n s = .running s') :
    s'.stack = s.stack ++ Array.replicate k .null := by
  unfold advance at hadvance
  rw [hcode] at hadvance
  dsimp only at hadvance
  split at hadvance
  · cases hadvance
  · have hstep : Exec.step limits host .allocStack (.int (k : Nat)) s =
        if limits.maxStack < s.stack.size + k then .error (.stackOverflow limits.maxStack) s
        else .ok .next { s with stack := s.stack ++ Array.replicate k .null } := by
      change (Exec.perform limits host .allocStack (.int (k : Nat)) >>= fun _ => pure Flow.next) s = _
      -- the only failure is that there is no room for so many cells
      have hperform : Exec.perform limits host .allocStack (.int (k : Nat)) s =
          if limits.maxStack < s.stack.size + k then .error (.stackOverflow limits.maxStack) s
          else .ok () { s with stack := s.stack ++ Array.replicate k .null } := by
        unfold Exec.perform
        dsimp only
        rw [bind_ok (countOperand_eq _ _ s), bind_get]
        split <;> rfl
      by_cases hroom : limits.maxStack < s.stack.size + k
      · rw [if_pos hroom] at hperform ⊢
        rw [bind_error hperform]
      · rw [if_neg hroom] at hperform ⊢
        rw [bind_ok hperform]
        rfl
    rw [hstep] at hadvance
    split at hadvance
    · next heq =>
      split at heq
      · cases heq
      · cases heq
        unfold proceed proceed.checked at hadvance
        dsimp only at hadvance
        split at hadvance
        · cases hadvance
        · obtain rfl := Progress.running.inj hadvance
          rfl
    · exact absurd hadvance Progress.stopped_ne_running

/-- The variables of a call are null as soon as it has begun. -/
theorem Tracked.begins {limits : Limits} {host : Environment} {n : Nat}
    (ht : Tracked L strict body s calls A rest) (h : Laid L body streams) (hentry : s.ip = B.entry)
    (hrunning : calls.head? = some B) (hadvance : advance limits host L.program n s = .running s')
    (hf : IsCallOf body streams B f) (hd : (declarationsAll f.body)[i]? = some d) :
    s'.stack[(B.cell (f.variable i d)).toNat]? = some .null := by
  rw [ht.same] at hrunning
  obtain rfl : A.call = B := Option.some.inj hrunning
  obtain ⟨k, g, hexecutes⟩ := ht.executes A List.mem_cons_self
  obtain rfl := isCallOf_inj h (hexecutes.isCallOf h) hf
  have hroom := hexecutes.declared
  have hi := (List.getElem?_eq_some_iff.1 hd).1
  have hcell : (A.call.cell (g.variable i d)).toNat = A.base + i := by
    show ((A.base : Int) + (i : Int)).toNat = A.base + i
    omega
  obtain ⟨size, hsize, hstands⟩ := ht.run.stands
  generalize hip : s.ip = a at hstands
  obtain rfl : a = A.first := hip.symm.trans hentry
  cases hstands with
  | entering room =>
    rw [alloc_advance (hip.symm ▸ room) hadvance, hcell, Array.getElem?_append_right (by omega),
      Array.getElem?_replicate, if_pos (by omega)]
  | inside fits =>
    have hbounds := Assembly.Fits.bounds fits
    omega

/-- Where the cell of an accessed variable lies. -/
theorem Tracked.cell_eq (ht : Tracked L strict body s calls A rest) (h : Laid L body streams)
    (haccesses : Accesses body streams s calls g a B) :
    B.cell a.target = areaBase s (if a.target.level = g.level then .own else .top) + a.target.place ∧
      0 ≤ B.cell a.target ∧ B.cell a.target < A.base + A.room.slots := by
  obtain ⟨f, hf, hv⟩ := haccesses.declared
  cases haccesses.holds with
  | own hrunning hlevel =>
    have hB : B ∈ calls := hrunning ▸ List.mem_cons_self
    refine ⟨?_, ht.cell_bounds h hB hf hv⟩
    rw [ht.same] at hrunning
    obtain ⟨rfl, -⟩ := List.cons.inj hrunning
    rw [if_pos hlevel]
    show (A.base : Int) + a.target.place = s.fp + a.target.place
    rw [ht.run.frame]
  | top hlevel =>
    refine ⟨?_, ht.cell_bounds h (List.mem_of_getLast? ht.outermost) hf hv⟩
    rw [if_neg hlevel]
    rfl

/-- An access does to the cell of its variable what its use says. -/
theorem Tracked.carriesOut {A' : Activation} (ht : Tracked L strict body s calls A rest)
    (h : Laid L body streams) (hmoves : Moves L s s' A rest A' others)
    (haccesses : Accesses body streams s calls g a B) :
    CarriedOut s s' (B.cell a.target).toNat (touchOf a.use) := by
  -- the instruction that is emitted for an access names its slot, so it is a load, a store or an update
  obtain ⟨⟨operation, operand⟩, hcode, hslot⟩ := h.accessed.emitted haccesses.emitted
  obtain ⟨hcell, hnonneg, hbound⟩ := ht.cell_eq h haccesses
  cases operation with
  | unassigned c => cases hslot
  | known op =>
    have has : L.Has s.ip ⟨op, operand⟩ := hcode
    cases hmoves with
    | stay has' _ _ _ touches =>
      cases OkAt.has_inj has has'
      cases touches with
      | load _ found held pushed =>
        obtain ⟨htouch, rfl, rfl⟩ := Slot.mk.inj (Option.some.inj hslot)
        rw [hcell, ← found, Int.toNat_natCast, ← htouch]
        exact .load held pushed
      | store _ found top height stack =>
        obtain ⟨htouch, rfl, rfl⟩ := Slot.mk.inj (Option.some.inj hslot)
        rw [hcell, ← found, Int.toNat_natCast, ← htouch]
        refine .store top ?_
        rw [stack, Array.getElem?_setIfInBounds_self_of_lt]
        rw [Array.size_pop]
        omega
      | update _ found held bumped stack =>
        obtain ⟨htouch, rfl, rfl⟩ := Slot.mk.inj (Option.some.inj hslot)
        rw [hcell, ← found, Int.toNat_natCast, ← htouch]
        refine .update held bumped ?_
        rw [stack, Array.getElem?_setIfInBounds_self_of_lt]
        exact (Array.getElem?_eq_some_iff.1 held).1
      | other plain =>
        cases op with
        | load | store | update => cases plain
        | _ => cases hslot
    | call has' => cases OkAt.has_inj has has'; cases hslot
    | back _ value =>
      rcases value with ⟨has', -⟩ | ⟨w, has', -⟩
      · cases OkAt.has_inj has has'; cases hslot
      · cases OkAt.has_inj has has'; cases hslot

end Frames

section Compiled

variable {environment : Environment} {body : List Stmt} {program : Program}

/-- The call goes on from the `m`th instruction of a run to the `n`th, and on the way nothing is assigned to
the variable. -/
structure Unassigned (body : List Stmt) (streams : List (List Instruction)) (limits : Limits)
    (host : Environment) (program : Program) (start : State) (B : Call) (v : Variable) (m n : Nat) : Prop where
  lives : ∀ k, m ≤ k → k ≤ n → B ∈ callsAfter limits host program start k
  quiet : ∀ k u, m ≤ k → k < n → stateAfter limits host program start k = some u →
    ¬Assigns body streams u (callsAfter limits host program start k) B v

/-- A variable that is declared without an initial value is null from the beginning of its call until the
call assigns to it, and keeps what was assigned to it until the next assignment.  An assignment leaves the
assigned value in the variable, an update leaves it greater or less by one, and a read pushes what it holds.
That control passes the declaration, for the first time or again, changes nothing. -/
theorem locals_kept (hlisted : allListed body = true) (hcompile : compile environment body = .ok program) :
    ∃ streams, Accessed body program streams ∧
      ∀ (limits : Limits) (host : Environment) (start : State) (B : Call) (f : Function) (i : Nat)
        (d : Declaration), IsCallOf body streams B f → (declarationsAll f.body)[i]? = some d →
        d.initial = none →
        (∀ m n s t, m < n → stateAfter limits host program start.restart m = some s →
          stateAfter limits host program start.restart n = some t → s.ip = B.entry →
          (callsAfter limits host program start.restart m).head? = some B →
          Unassigned body streams limits host program start.restart B (f.variable i d) (m + 1) n →
          t.stack[(B.cell (f.variable i d)).toNat]? = some .null) ∧
        (∀ m n s t, m ≤ n → stateAfter limits host program start.restart m = some s →
          stateAfter limits host program start.restart n = some t →
          Unassigned body streams limits host program start.restart B (f.variable i d) m n →
          ∀ x, s.stack[(B.cell (f.variable i d)).toNat]? = some x →
            t.stack[(B.cell (f.variable i d)).toNat]? = some x) ∧
        ∀ n s t g a, stateAfter limits host program start.restart n = some s →
          stateAfter limits host program start.restart (n + 1) = some t →
          Accesses body streams s (callsAfter limits host program start.restart n) g a B →
          a.target = f.variable i d →
          CarriedOut s t (B.cell (f.variable i d)).toNat (touchOf a.use) := by
  obtain ⟨L, streams, rfl, hlaid⟩ := laid_of_compile hlisted hcompile
  refine ⟨streams, hlaid.accessed, fun limits host start B f i d hf hd hinitial => ?_⟩
  have hmem := Function.variable_mem hd
  have hkept : ∀ m n s t, m ≤ n → stateAfter limits host L.program start.restart m = some s →
      stateAfter limits host L.program start.restart n = some t →
      Unassigned body streams limits host L.program start.restart B (f.variable i d) m n →
      ∀ x, s.stack[(B.cell (f.variable i d)).toNat]? = some x →
        t.stack[(B.cell (f.variable i d)).toNat]? = some x := by
    intro m n s t hmn hs ht hun x hx
    induction hmn generalizing t with
    | refl =>
      obtain rfl := Option.some.inj (hs.symm.trans ht)
      exact hx
    | @step n hmn ih =>
      obtain ⟨u, hu, -⟩ := stateAfter_succ ht
      have hbefore := ih u hu ⟨fun k hk hkn => hun.lives k hk (Nat.le_succ_of_le hkn),
        fun k w hk hkn => hun.quiet k w hk (Nat.lt_succ_of_lt hkn)⟩
      have hsize : B.cell (f.variable i d) < u.stack.size := by
        have hlt := (Array.getElem?_eq_some_iff.1 hbefore).1
        omega
      -- an instruction that changes the cell would be an assignment
      rcases (addressed_after hlaid hu ht).kept B f _ (hun.lives n hmn (Nat.le_succ n))
          (hun.lives _ (Nat.le_succ_of_le hmn) (Nat.le_refl _)) hf hmem hsize
        with hsame | ⟨g, a, haccesses, htarget, huse⟩
      · rw [hsame, hbefore]
      · exact absurd (haccesses.assigns hlaid hf hd hinitial htarget huse)
          (hun.quiet n u hmn (Nat.lt_succ_self n) hu)
  refine ⟨?begins, hkept, ?accesses⟩
  case begins =>
    intro m n s t hmn hs ht hentry hrunning hun
    -- the first instruction of the activation makes its variables null
    obtain ⟨A, rest, htracked⟩ := tracked_after hlaid.code hs
    obtain ⟨u, hu⟩ : ∃ u, stateAfter limits host L.program start.restart (m + 1) = some u :=
      stateAfter_of_le hmn ht
    obtain ⟨s₀, hs₀, hadvance⟩ := stateAfter_succ hu
    obtain rfl := Option.some.inj (hs.symm.trans hs₀)
    exact hkept (m + 1) n u t hmn hu ht hun .null
      (htracked.begins hlaid hentry hrunning hadvance hf hd)
  case accesses =>
    intro n s t g a hs ht haccesses htarget
    obtain ⟨A, rest, htracked⟩ := tracked_after hlaid.code hs
    obtain ⟨u, hu, hnext⟩ := stateAfter_succ ht
    obtain rfl := Option.some.inj (hs.symm.trans hu)
    have hmeets := htracked.run.advances (starts_of_code hlaid.code start).1 limits host n
    rw [hnext] at hmeets
    obtain ⟨A', others, hmoves, -⟩ := hmeets
    rw [← htarget]
    exact htracked.carriesOut hlaid hmoves haccesses

end Compiled

/-- A loop that declares a variable without an initial value, reads it and assigns to it:

    let i = 0;
    let r = 0;
    while (i < 2) { let x; r = x; x = 1; i += 1; }
    r;
-/
def leftOver : List Stmt :=
  [.declare ⟨"i", some (.literal (.int 0)), false, "any"⟩,
    .declare ⟨"r", some (.literal (.int 0)), false, "any"⟩,
    .loop none (some (.binary .less (.name "i") (.literal (.int 2)))) none
      (some (.block [.declare ⟨"x", none, false, "any"⟩,
        .expr (.assign .set (.name "r") (.name "x")),
        .expr (.assign .set (.name "x") (.literal (.int 1))),
        .expr (.assign .add (.name "i") (.literal (.int 1)))])),
    .expr (.name "r")]

/-- A function that is declared again outside of a statement list takes over the entry of the first one,
with more parameters than its calls pass:

    let x;
    function f(p: any) {}
    if (true) function f(c: any, d: any) { c = 7; }
    f(null);
    x;
-/
def borrowedCell : List Stmt :=
  [.declare ⟨"x", none, false, "any"⟩,
    .function "f" [⟨"p", "any"⟩] "any" [],
    .cond (.literal (.bool true))
      (.function "f" [⟨"c", "any"⟩, ⟨"d", "any"⟩] "any"
        [.expr (.assign .set (.name "c") (.literal (.int 7)))]) none,
    .expr (.call (.name "f") [.literal .null]),
    .expr (.name "x")]

/-- The end of a run, by its value. -/
theorem exists_of_value {limits : Limits} {environment : Environment} {program : Program} {count : Nat}
    {s : State} {v : Value}
    (h : (run limits environment program count s).done?.bind (·.result.toOption) = some v) :
    ∃ t, run limits environment program count s = .done ⟨.ok v, t⟩ := by
  obtain ⟨⟨result, t⟩, ho, hv⟩ := Option.bind_eq_some_iff.1 h
  cases result with
  | ok w =>
    obtain rfl := Option.some.inj hv
    exact ⟨t, Attempt.eq_done ho⟩
  | error f => cases hv

/-- The second time that control passes the declaration, the variable holds what was assigned to it the
first time, and not null.  And a function that is declared again outside of a statement list can write
to a variable to which nothing is assigned. -/
theorem leftOver_leaks :
    (∃ t, run .standard .empty (compiled .empty leftOver) 60 (.initial .empty) = .done ⟨.ok (.int 1), t⟩) ∧
      ∃ t, run .standard .empty (compiled .empty borrowedCell) 60 (.initial .empty) =
        .done ⟨.ok (.int 7), t⟩ :=
  ⟨exists_of_value (by decide +kernel), exists_of_value (by decide +kernel)⟩

/-- In the first round the variable is null up to the read; from the assignment on it holds what was
assigned, also in the second round, where the read pushes that. -/
theorem leftOver_kept : ∃ s t u v,
    stateAfter .standard .empty (compiled .empty leftOver) (State.initial .empty).restart 8 = some s ∧
    stateAfter .standard .empty (compiled .empty leftOver) (State.initial .empty).restart 12 = some t ∧
    stateAfter .standard .empty (compiled .empty leftOver) (State.initial .empty).restart 20 = some u ∧
    stateAfter .standard .empty (compiled .empty leftOver) (State.initial .empty).restart 21 = some v ∧
    s.stack[2]? = some .null ∧ t.stack[2]? = some (.int 1) ∧ u.stack[2]? = some (.int 1) ∧
    CarriedOut u v 2 .load := by
  have hcompile : (compile .empty leftOver).isOk = true := by decide +kernel
  let after (n : Nat) : Option State :=
    stateAfter .standard .empty (compiled .empty leftOver) (State.initial .empty).restart n
  let calls (n : Nat) : List Call :=
    callsAfter .standard .empty (compiled .empty leftOver) (State.initial .empty).restart n
  have hs : after 8 = some ⟨#[.int 0, .int 0, .null], 8, 0, .null, .empty, ""⟩ := by decide +kernel
  have ht : after 12 = some ⟨#[.int 0, .null, .int 1], 12, 0, .null, .empty, ""⟩ := by decide +kernel
  have hu : after 20 = some ⟨#[.int 1, .null, .int 1], 8, 0, .null, .empty, ""⟩ := by decide +kernel
  have hv : after 21 = some ⟨#[.int 1, .null, .int 1, .int 1], 9, 0, .null, .empty, ""⟩ := by decide +kernel
  have hcalls : ∀ k, k < 21 → calls k = [⟨0, 0⟩] := by decide +kernel
  have hchanges : ∀ k, k < 20 → k ≠ 11 → (after k).all (fun u =>
      !changesPlace (compiled .empty leftOver) u.ip 2) = true := by decide +kernel
  have hslot : ((compiled .empty leftOver).code[8]?).bind slotAt? = some ⟨.load, .own, 2⟩ := by decide +kernel
  obtain ⟨streams, haccessed, hkept⟩ := locals_kept (by decide) (compile_eq_compiled hcompile)
  have hmain : IsCallOf leftOver streams ⟨0, 0⟩ (mainFunction leftOver) := ⟨0, rfl, rfl⟩
  obtain ⟨hbegins, hlater, hcarried⟩ := hkept .standard .empty (State.initial .empty) ⟨0, 0⟩
    (mainFunction leftOver) 2 ⟨"x", none, false, "any"⟩ hmain rfl rfl
  -- the variable is assigned to by the twelfth instruction only
  have hquiet : ∀ m n, n ≤ 20 → (∀ k, m ≤ k → k < n → k ≠ 11) →
      Unassigned leftOver streams .standard .empty (compiled .empty leftOver) (State.initial .empty).restart
        ⟨0, 0⟩ ((mainFunction leftOver).variable 2 ⟨"x", none, false, "any"⟩) m n := by
    refine fun m n hn hne => ⟨fun k _ hk => ?_, fun k u hlow hk hstate hassigns => ?_⟩
    · rw [show callsAfter _ _ _ _ k = [⟨0, 0⟩] from hcalls k (by omega)]
      exact List.mem_cons_self
    · have := (Option.all_eq_true _ _).1 (hchanges k (by omega) (hne k hlow hk)) u hstate
      simp [show changesPlace _ u.ip 2 = true from hassigns.changes haccessed] at this
  -- the read in the second round is the one of the variable
  have hstreams : streams = [(compiled .empty leftOver).code.toList] := haccessed.integral.eq_singleton
  have hread : Accesses leftOver streams ⟨#[.int 1, .null, .int 1], 8, 0, .null, .empty, ""⟩ (calls 20)
      (mainFunction leftOver) ⟨.read, (mainFunction leftOver).variable 2 ⟨"x", none, false, "any"⟩⟩ ⟨0, 0⟩ := by
    obtain ⟨i, hi, hi'⟩ := Option.bind_eq_some_iff.1 hslot
    refine ⟨⟨⟨0, 0⟩, [], hcalls 20 (by omega), hmain⟩, ⟨0, 8, _, i, rfl, by rw [hstreams]; rfl, rfl, ?_, hi', ?_⟩,
      .own (hcalls 20 (by omega)) rfl, mainFunction leftOver, hmain, Function.variable_mem rfl⟩
    · rw [Array.getElem?_toList, hi]
    · decide +kernel
  exact ⟨_, _, _, _, hs, ht, hu, hv,
    hbegins 0 8 _ _ (by omega) rfl hs rfl rfl (hquiet 1 8 (by omega) (by omega)), rfl,
    hlater 12 20 _ _ (by omega) ht hu (hquiet 12 20 (by omega) (by omega)) _ rfl,
    hcarried 20 _ _ _ _ hu hv hread rfl⟩

end StackScript.Machine
