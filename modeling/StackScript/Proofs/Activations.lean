import StackScript.Proofs.Fitting

/-!
# Activations

* `Activation`: a call that has not returned.  Each one stands above its caller on the stack:

      ... | variables and values of the caller | arguments | frame | address | variables and values ...

* `Chained`: the addresses that the calls have saved are in place, and the code of each caller fits
  where it will go on.
* `Running.advance`: an instruction keeps this, and changes nothing below the running function but
  its arguments and the variables of the top level.
-/

namespace StackScript.Machine

open Bytecode Host

/-! ### Steps one after the other -/

section Bind

variable {α β : Type} {x : Exec α} {f : α → Exec β} {s s' : State}

theorem bind_ok {a : α} (h : x s = .ok a s') : (x >>= f) s = f a s' := by
  show EStateM.bind x f s = _
  rw [EStateM.bind, h]

theorem bind_error {e : Fault} (h : x s = .error e s') : (x >>= f) s = .error e s' := by
  show EStateM.bind x f s = _
  rw [EStateM.bind, h]

theorem bind_get {f : State → Exec β} : ((get : Exec State) >>= f) s = f s s := rfl

theorem bind_modify {g : State → State} {f : Unit → Exec β} :
    ((modify g : Exec Unit) >>= f) s = f () (g s) := rfl

end Bind

theorem countOperand_eq (op : Opcode) (n : Nat) (s : State) :
    Exec.countOperand op (.int n) s = .ok n s := by
  unfold Exec.countOperand
  rw [bind_ok (show Exec.intOperand op (.int n) s = .ok n s from rfl), if_pos (Int.natCast_nonneg n),
    Int.toNat_natCast]
  rfl

theorem pop_eq {s : State} {v : Value} (h : s.stack.back? = some v) :
    Exec.pop s = .ok v { s with stack := s.stack.pop } := by
  rw [Exec.pop, h]

theorem pop_eq_extract (stack : Array Value) : stack.pop = stack.extract 0 (stack.size - 1) := by
  ext i hi hlt
  · simp
  · simp

/-! ### Addresses on the stack -/

/-- A saved address is there as an integer. -/
def Saved (stack : Array Value) (i address : Nat) : Prop :=
  ∃ n : Int32, n.toInt = Int.ofNat address ∧ stack[i]? = some (.int n)

theorem encodeAddress_eq (limits : Limits) (address : Nat) (s : State) :
    (∃ n : Int32, n.toInt = Int.ofNat address ∧
      Exec.encodeAddress limits address s = .ok (.int n) s) ∨
    Exec.encodeAddress limits address s = .error (.stackOverflow limits.maxStack) s := by
  unfold Exec.encodeAddress
  split
  · next h => exact .inl ⟨Int32.ofNat address, Int32.toInt_ofNat_of_lt h, rfl⟩
  · exact .inr rfl

/-- A call saves the frame pointer and the place behind it, and starts a frame above them. -/
theorem enter_eq (limits : Limits) (target : Nat) (s : State) :
    (∃ fp ret : Int32, fp.toInt = Int.ofNat s.fp ∧ ret.toInt = Int.ofNat (s.ip + 1) ∧
      Exec.enter limits target s = .ok (.jump target)
        { s with stack := (s.stack.push (.int fp)).push (.int ret), fp := s.stack.size + 2 }) ∨
    Exec.enter limits target s = .error (.stackOverflow limits.maxStack) s := by
  rw [Exec.enter, bind_get]
  rcases encodeAddress_eq limits s.fp s with ⟨fp, hfp, hf⟩ | hf
  · rw [bind_ok hf]
    rcases encodeAddress_eq limits (s.ip + 1) s with ⟨ret, hret, hr⟩ | hr
    · rw [bind_ok hr]
      refine .inl ⟨fp, ret, hfp, hret, ?_⟩
      rw [← show ((s.stack.push (Value.int fp)).push (.int ret)).size = s.stack.size + 2 by simp]
      rfl
    · rw [bind_error hr]
      exact .inr rfl
  · rw [bind_error hf]
    exact .inr rfl

theorem popAddress_eq {s : State} {a : Nat} (h : Saved s.stack (s.stack.size - 1) a) :
    Exec.popAddress s = .ok a { s with stack := s.stack.pop } := by
  obtain ⟨n, hn, hback⟩ := h
  unfold Exec.popAddress
  rw [bind_ok (pop_eq hback)]
  have hpos : 0 ≤ n := by
    rw [Int32.le_iff_toInt_le, hn]
    exact Int.natCast_nonneg a
  simp only [if_pos hpos]
  show EStateM.Result.ok n.toInt.toNat _ = _
  rw [hn]
  rfl

/-- A return takes the frame and the two addresses below it off the stack. -/
theorem leave_eq {s : State} {v : Value} {ret fp : Nat} (hfp : 2 ≤ s.fp)
    (hsize : s.fp ≤ s.stack.size) (hret : Saved s.stack (s.fp - 1) ret)
    (hsaved : Saved s.stack (s.fp - 2) fp) :
    Exec.leave v s =
      .ok (.jump ret) { s with stack := s.stack.extract 0 (s.fp - 2), fp, returned := v } := by
  let frame : State := { s with returned := v, stack := s.stack.shrink s.fp }
  have hframe : frame.stack.size = s.fp := by simp [frame, hsize]
  -- with the frame off the stack, the two saved cells are on top
  have htarget : Exec.popAddress frame = .ok ret { frame with stack := frame.stack.pop } := by
    obtain ⟨n, hn, hcell⟩ := hret
    refine popAddress_eq ⟨n, hn, ?_⟩
    rw [hframe, ← hcell]
    simp only [frame, Array.shrink_eq_take, Array.take_eq_extract, Array.getElem?_extract]
    rw [if_pos (by omega), Nat.zero_add]
  have hbase : Exec.popAddress { frame with stack := frame.stack.pop } =
      .ok fp { frame with stack := frame.stack.pop.pop } := by
    obtain ⟨n, hn, hcell⟩ := hsaved
    refine popAddress_eq ⟨n, hn, ?_⟩
    show frame.stack.pop[frame.stack.pop.size - 1]? = _
    rw [Array.size_pop, hframe, ← hcell]
    simp only [frame, Array.shrink_eq_take, Array.take_eq_extract, Array.getElem?_pop,
      Array.getElem?_extract, Array.size_extract]
    rw [if_pos (by omega), if_pos (by omega)]
    congr 1
    omega
  have hrest : frame.stack.pop.pop = s.stack.extract 0 (s.fp - 2) := by
    simp only [frame, Array.shrink_eq_take, Array.take_eq_extract]
    ext i hi hi'
    · simp
      omega
    · simp
  have hne : ¬(s.fp == 0) = true := by
    rw [beq_iff_eq]
    omega
  unfold Exec.leave
  rw [bind_modify, bind_get, if_neg hne, bind_modify, bind_ok htarget, bind_ok hbase, ← hrest]
  rfl

/-- At the top level a return ends the run. -/
theorem leave_top {s : State} {v : Value} (hfp : s.fp = 0) :
    Exec.leave v s = .ok .halt { s with stack := s.stack.push v, returned := v } := by
  have hzero : (s.fp == 0) = true := by simp [hfp]
  unfold Exec.leave
  rw [bind_modify, bind_get, if_pos hzero]
  rfl

/-! ### The steps of a run -/

def changesFrame : Opcode → Bool
  | .callInternal | .ret | .retWith _ => true
  | _ => false

/-- Does the operation read or write the cell of a variable? -/
def accessesSlot : Opcode → Bool
  | .load _ _ | .store _ _ | .update _ _ => true
  | _ => false

/-- Where control goes after an operation, the new state has the property; a fault is structural only
if the code is not looked at strictly. -/
def Meets (strict : Prop) (post : State → Prop) : EStateM.Result Fault State Flow → Prop
  | .ok .next s => post { s with ip := s.ip + 1 }
  | .ok (.jump target) s => post { s with ip := target }
  | .ok .halt _ => True
  | .error f _ => strict → f.structural = false

/-- The same for the progress of a run. -/
def Progress.Meets (strict : Prop) (post : State → Prop) : Progress → Prop
  | .running s => post s
  | .halted _ | .panicked _ => True
  | .failed f _ => strict → f.structural = false

section Step

variable {L : Assembly.Layout} {strict : Prop} {limits : Limits} {environment : Environment}
  {s : State} {post : State → Prop} {op : Opcode} {x : Operand}

theorem meets_proceed {flow : Flow} (h : Meets strict post (.ok flow s)) :
    (proceed limits flow s).Meets strict post := by
  cases flow with
  | halt => trivial
  | next =>
    show (proceed.checked limits _).Meets strict post
    unfold proceed.checked
    split
    · exact fun _ => rfl
    · exact h
  | jump target =>
    show (proceed.checked limits _).Meets strict post
    unfold proceed.checked
    split
    · exact fun _ => rfl
    · exact h

theorem Limits.spent_eq_none {executed : Nat} (hfuel : ∀ limit, limits.fuel = some limit → executed < limit) :
    limits.fuel.filter (· ≤ executed) = none := by
  cases hf : limits.fuel with
  | none => rfl
  | some limit => simp [Option.filter, hfuel limit hf]

/-- While there is fuel, the instruction at the place of control is carried out. -/
theorem advance_eq {executed : Nat} (has : L.Has s.ip ⟨op, x⟩)
    (hfuel : ∀ limit, limits.fuel = some limit → executed < limit) :
    advance limits environment L.program executed s = match Exec.step limits environment op x s with
      | .ok flow t => proceed limits flow t
      | .error f t => .stopped f t := by
  have hcode : L.program.code[s.ip]? = some ⟨.known op, x⟩ := has
  cases hstep : Exec.step limits environment op x s <;>
    simp only [advance, hcode, Limits.spent_eq_none hfuel, hstep]

theorem meets_advance {executed : Nat} (has : L.Has s.ip ⟨op, x⟩)
    (h : Meets strict post (Exec.step limits environment op x s)) :
    (advance limits environment L.program executed s).Meets strict post := by
  have hcode : L.program.code[s.ip]? = some ⟨.known op, x⟩ := has
  unfold advance
  rw [hcode]
  dsimp only
  split
  · exact fun _ => rfl
  · revert h
    rcases Exec.step limits environment op x s with ⟨flow, t⟩ | ⟨f, t⟩
    · exact meets_proceed
    · cases f <;> first | exact id | exact fun _ => trivial

/-- An operation that does not change the order of instructions goes on with the next one. -/
theorem meets_perform (hstep : Exec.step limits environment op x =
      Exec.perform limits environment op x >>= fun _ => pure .next)
    (h : match Exec.perform limits environment op x s with
      | .ok _ s => post { s with ip := s.ip + 1 }
      | .error f _ => strict → f.structural = false) :
    Meets strict post (Exec.step limits environment op x s) := by
  rw [hstep]
  revert h
  rcases hp : Exec.perform limits environment op x s with ⟨u, t⟩ | ⟨f, t⟩
  · rw [bind_ok hp]
    exact id
  · rw [bind_error hp]
    exact id

theorem step_of_effect {m g : Nat} (h : Effect op x m g) : Exec.step limits environment op x =
    Exec.perform limits environment op x >>= fun _ => pure .next := by
  cases h with
  | binary h => cases op <;> first | rfl | exact absurd h Bool.false_ne_true
  | unary h => cases op <;> first | rfl | exact absurd h Bool.false_ne_true
  | _ => rfl

/-- An operation that takes and leaves values is no call and no return. -/
theorem Effect.plain {m g : Nat} (h : Effect op x m g) : changesFrame op = false := by
  cases h with
  | binary h => cases op <;> first | rfl | exact absurd h Bool.false_ne_true
  | unary h => cases op <;> first | rfl | exact absurd h Bool.false_ne_true
  | _ => rfl

/-- An operation that takes and leaves values accesses no variable. -/
theorem Effect.accessesNoSlot {m g : Nat} (h : Effect op x m g) : accessesSlot op = false := by
  cases h with
  | binary h => cases op <;> first | rfl | exact absurd h Bool.false_ne_true
  | unary h => cases op <;> first | rfl | exact absurd h Bool.false_ne_true
  | _ => rfl

/-- An operation that takes the `m` values on top of the stack leaves `n` in their place. -/
theorem meets_effect {m n : Nat} (h : Effect op x m n) (hm : m ≤ s.stack.size)
    (hpost : ∀ vs : Array Value, vs.size = n → ∀ w : World,
      post (w.state (s.stack.extract 0 (s.stack.size - m) ++ vs) (s.ip + 1) s.fp)) :
    Meets strict post (Exec.step limits environment op x s) := by
  refine meets_perform (step_of_effect h) ?_
  let args := s.stack.extract (s.stack.size - m) s.stack.size
  have hargs : args.size = m := by
    simp only [args, Array.size_extract]
    omega
  have hstack : s.stack.extract 0 (s.stack.size - m) ++ args = s.stack := by
    simp only [args, Array.extract_append_extract]
    rw [Nat.zero_min, Nat.max_eq_right (Nat.sub_le _ _), Array.extract_size]
  obtain ⟨r, hr, hmeets⟩ : Local (Exec.perform limits environment op x) (Leaves n) args s.world :=
    perform_local h hargs
  have hs := hr (s.stack.extract 0 (s.stack.size - m)) s.ip s.fp
  rw [hstack, State.world_state] at hs
  rw [hs]
  cases r with
  | done u vs w => exact hpost vs hmeets w
  | failed f vs w => exact fun _ => hmeets

end Step

/-! ### Variables -/

def areaBase (s : State) : Area → Nat
  | .own => s.fp
  | .top => 0

theorem baseOf_eq (a : Area) (s : State) : Exec.baseOf a s = .ok (areaBase s a) s := by
  cases a <;> rfl

/-- A slot that is on the stack is found if its place fits in 64 bits. -/
theorem variablePlace_if {a : Area} (op : Opcode) {i : Int} {s : State} {place : Nat}
    (hplace : (place : Int) = areaBase s a + i) (hlt : place < s.stack.size) :
    Exec.variablePlace a op (.int i) s =
      if Exec.addressLimit ≤ (place : Int) then .error .addressOverflow s else .ok place s := by
  have hsum : Int.ofNat (areaBase s a) + i = place := hplace.symm
  unfold Exec.variablePlace
  rw [bind_ok (baseOf_eq a s)]
  unfold Exec.slot
  rw [bind_ok (show Exec.intOperand op (.int i) s = .ok i s from rfl), bind_get, hsum]
  split
  · rfl
  · rw [if_pos ⟨Int.natCast_nonneg _, Int.ofNat_lt.2 hlt⟩]
    rfl

/-- A slot that is on the stack is found, unless its place does not fit in 64 bits. -/
theorem variablePlace_eq {a : Area} (op : Opcode) {i : Int} {s : State} {place : Nat}
    (hplace : (place : Int) = areaBase s a + i) (hlt : place < s.stack.size) :
    Exec.variablePlace a op (.int i) s = .ok place s ∨
      Exec.variablePlace a op (.int i) s = .error .addressOverflow s := by
  rw [variablePlace_if op hplace hlt]
  split
  · exact .inr rfl
  · exact .inl rfl

section Variables

variable {limits : Limits} {environment : Environment} {a : Area} {w : Width} {u : Update} {i : Int}
  {s : State} {place : Nat} {strict : Prop} {post : State → Prop}

theorem meets_load (hplace : (place : Int) = areaBase s a + i) (hlt : place < s.stack.size)
    (hpost : ∀ v, s.stack[place]? = some v →
      post { s with stack := s.stack.push v, ip := s.ip + 1 }) :
    Meets strict post (Exec.step limits environment (.load a w) (.int i) s) := by
  refine meets_perform rfl ?_
  have hperform : Exec.perform limits environment (.load a w) (.int i) =
    Exec.variablePlace a (.load a w) (.int i) >>= Exec.loadVariable := rfl
  rw [hperform]
  rcases variablePlace_eq (.load a w) hplace hlt with h | h
  · rw [bind_ok h]
    have hcell : s.stack[place]? = some (s.stack.getD place .null) := by
      rw [Array.getD_eq_getD_getElem?, Array.getElem?_eq_getElem hlt, Option.getD_some]
    exact hpost _ hcell
  · rw [bind_error h]
    exact fun _ => rfl

theorem meets_store {v : Value} (hback : s.stack.back? = some v)
    (hplace : (place : Int) = areaBase s a + i) (hlt : place + 1 < s.stack.size)
    (hpost : post { s with stack := s.stack.pop.setIfInBounds place v, ip := s.ip + 1 }) :
    Meets strict post (Exec.step limits environment (.store a w) (.int i) s) := by
  refine meets_perform rfl ?_
  have hperform : Exec.perform limits environment (.store a w) (.int i) =
    Exec.pop >>= fun v => Exec.variablePlace a (.store a w) (.int i) >>= fun place =>
      Exec.storeVariable place v := rfl
  rw [hperform, bind_ok (pop_eq hback)]
  have hplace' : (place : Int) = areaBase { s with stack := s.stack.pop } a + i := by
    cases a <;> exact hplace
  have hlt' : place < s.stack.pop.size := by
    rw [Array.size_pop]
    omega
  rcases variablePlace_eq (.store a w) hplace' hlt' with h | h
  · rw [bind_ok h]
    exact hpost
  · rw [bind_error h]
    exact fun _ => rfl

theorem meets_update (hplace : (place : Int) = areaBase s a + i) (hlt : place < s.stack.size)
    (hpost : ∀ v v', s.stack[place]? = some v → bump u v = .ok v' →
      post { s with stack := s.stack.setIfInBounds place v', ip := s.ip + 1 }) :
    Meets strict post (Exec.step limits environment (.update a u) (.int i) s) := by
  refine meets_perform rfl ?_
  have hperform : Exec.perform limits environment (.update a u) (.int i) =
    Exec.variablePlace a (.update a u) (.int i) >>= fun place => Exec.updateVariable place u := rfl
  rw [hperform]
  rcases variablePlace_eq (.update a u) hplace hlt with h | h
  · rw [bind_ok h]
    unfold Exec.updateVariable
    rw [bind_get]
    rcases hb : bump u (s.stack.getD place .null) with f | v
    · exact fun _ => Fault.not_structural (Benign.bump f hb)
    · refine hpost _ v ?_ hb
      rw [Array.getD_eq_getD_getElem?, Array.getElem?_eq_getElem hlt, Option.getD_some]
  · rw [bind_error h]
    exact fun _ => rfl

end Variables

/-! ### Activations -/

open Assembly

/-- A call that has not returned: the variables of its function, the place of the function's first
instruction, the place behind its last one, and the frame pointer. -/
structure Activation where
  room : Room
  first : Nat
  stop : Nat
  base : Nat

section Activations

variable (L : Layout) (strict : Prop)

/-- The code of the function fits from a place on, with so many values above its variables. -/
def Activation.Fits (A : Activation) (a k : Nat) : Prop :=
  Assembly.Fits L strict A.room (A.first + 1) A.stop a k

/-- Control can be at a place of the function with so many cells above the frame pointer: before the
variables are there, or behind that. -/
inductive Activation.Stands (A : Activation) : Nat → Nat → Prop
  | entering (room : L.Has A.first ⟨.allocStack, .int (A.room.slots : Nat)⟩)
      (fits : A.Fits L strict (A.first + 1) 0) : Stands A A.first 0
  | inside {a k} (fits : A.Fits L strict a k) : Stands A a (A.room.slots + k)

/-- Is the cell one of the call's arguments? -/
def Activation.IsArgument (A : Activation) (i : Nat) : Prop :=
  A.base - 2 - A.room.params ≤ i ∧ i < A.base - 2

/-- The calls that have not returned, the latest first: the addresses that they have saved are in
place, and the code of each caller fits where it will go on. -/
inductive Chained (stack : Array Value) : List Activation → Prop
  | top {A} (room : A.room = ⟨0, L.top⟩) (base : A.base = 0) : Chained stack [A]
  | call {A B rest ret k} (caller : Chained stack (B :: rest))
      (above : A.base = B.base + B.room.slots + k + A.room.params + 2)
      (frame : Saved stack (A.base - 2) B.base) (address : Saved stack (A.base - 1) ret)
      (fits : B.Fits L strict ret (k + A.room.params)) : Chained stack (A :: B :: rest)

/-- Below the running function, nothing but its arguments and the variables of the top level changes. -/
def Activation.Spares (A : Activation) (stack stack' : Array Value) : Prop :=
  ∀ i, i < A.base → L.top ≤ i → ¬A.IsArgument i → stack'[i]? = stack[i]?

/-- A state in which the first of the calls runs. -/
structure Running (s : State) (A : Activation) (rest : List Activation) : Prop where
  chained : Chained L strict s.stack (A :: rest)
  frame : s.fp = A.base
  stands : ∃ size, s.stack.size = A.base + size ∧ A.Stands L strict s.ip size

end Activations

section Chained

variable {L : Layout} {strict : Prop} {stack stack' : Array Value} {A : Activation}
  {rest : List Activation}

/-- A call is that of the top level, or it lies above the variables of the top level. -/
theorem Chained.base_cases (h : Chained L strict stack (A :: rest)) :
    (A.base = 0 ∧ A.room = ⟨0, L.top⟩ ∧ rest = []) ∨
      (L.top ≤ A.base ∧ 2 + A.room.params ≤ A.base) := by
  generalize hacts : A :: rest = acts at h
  induction h generalizing A rest with
  | top room base =>
    obtain ⟨rfl, rfl⟩ := List.cons.inj hacts
    exact .inl ⟨base, room, rfl⟩
  | call caller above frame address fits ih =>
    obtain ⟨rfl, -⟩ := List.cons.inj hacts
    refine .inr ⟨?_, by omega⟩
    rcases ih rfl with ⟨-, hroom, -⟩ | ⟨htop, -⟩
    · rw [hroom] at above
      dsimp only at above
      omega
    · omega

theorem Chained.top_le (h : Chained L strict stack (A :: rest)) :
    L.top ≤ A.base + A.room.slots := by
  rcases h.base_cases with ⟨-, hroom, -⟩ | ⟨htop, -⟩
  · rw [hroom]
    exact Nat.le_add_left _ _
  · omega

/-- Saved addresses are no arguments and no variables. -/
theorem Chained.spared (h : Chained L strict stack (A :: rest)) (hk : A.Spares L stack stack') :
    Chained L strict stack' (A :: rest) := by
  generalize hacts : A :: rest = acts at h
  induction h generalizing A rest with
  | top room base => exact .top room base
  | @call C B others ret k caller above frame address fits ih =>
    obtain ⟨rfl, -⟩ := List.cons.inj hacts
    have htop := caller.top_le
    refine .call (ih ?_ rfl) above ?_ ?_ fits
    · intro i hi hlow harg
      refine hk i (by omega) hlow ?_
      rintro ⟨hfrom, -⟩
      omega
    · obtain ⟨n, hn, hcell⟩ := frame
      refine ⟨n, hn, ?_⟩
      rw [hk _ (by omega) (by omega) (fun harg => by have := harg.2; omega), hcell]
    · obtain ⟨n, hn, hcell⟩ := address
      refine ⟨n, hn, ?_⟩
      rw [hk _ (by omega) (by omega) (fun harg => by have := harg.2; omega), hcell]

end Chained

/-! ### What an instruction keeps -/

/-- The value that the return at the place of control brings back. -/
def BringsBack (L : Layout) (s : State) (v : Value) : Prop :=
  (L.Has s.ip ⟨.ret, .none⟩ ∧ v = .null) ∨
    ∃ w, L.Has s.ip ⟨.retWith w, .none⟩ ∧ s.stack.back? = some v

/-- The call is one of the `i`th function. -/
structure Activation.IsOf (L : Layout) (A : Activation) (i : Nat) : Prop where
  params : A.room.params = L.params i
  first : A.first = L.start i
  stop : A.stop = L.stop i
  room : L.Has A.first ⟨.allocStack, .int (A.room.slots : Nat)⟩

/-- What an instruction that stays in its function does to the variables: it reads or writes one of
those that the function reaches, or it leaves all of them as they are. -/
inductive Touches (L : Layout) (A : Activation) (s s' : State) : Opcode → Operand → Prop
  | load {a w i v} {place : Nat} (reached : L.Reaches A.room a i)
      (found : (place : Int) = areaBase s a + i) (cell : s.stack[place]? = some v)
      (stack : s'.stack = s.stack.push v) : Touches L A s s' (.load a w) (.int i)
  | store {a w i v} {place : Nat} (reached : L.Reaches A.room a i)
      (found : (place : Int) = areaBase s a + i) (value : s.stack.back? = some v)
      (height : A.base + A.room.slots < s.stack.size)
      (stack : s'.stack = s.stack.pop.setIfInBounds place v) :
      Touches L A s s' (.store a w) (.int i)
  | update {a u i v v'} {place : Nat} (reached : L.Reaches A.room a i)
      (found : (place : Int) = areaBase s a + i) (cell : s.stack[place]? = some v)
      (value : bump u v = .ok v') (stack : s'.stack = s.stack.setIfInBounds place v') :
      Touches L A s s' (.update a u) (.int i)
  | other {op x} (plain : accessesSlot op = false)
      (kept : ∀ i, i < A.base + A.room.slots → i < s.stack.size → s'.stack[i]? = s.stack[i]?) :
      Touches L A s s' op x

/-- How an instruction gets from one state to the next, and from one running call to the next. -/
inductive Moves (L : Layout) (s s' : State) (A : Activation) (rest : List Activation) :
    Activation → List Activation → Prop
  | stay {op x} (has : L.Has s.ip ⟨op, x⟩) (plain : changesFrame op = false) (frame : s'.fp = s.fp)
      (spared : A.Spares L s.stack s'.stack) (touches : Touches L A s s' op x) :
      Moves L s s' A rest A rest
  | call {B q i} (has : L.Has s.ip ⟨.callInternal, .int (B.first : Nat)⟩)
      (number : i ≠ 0 ∧ i < L.count) (code : B.IsOf L i) (drop : DropCode L B.room.params (s.ip + 1) q)
      (start : s'.ip = B.first)
      (base : B.base = s.stack.size + 2) (arguments : B.room.params ≤ s.stack.size)
      (below : ∀ i, i < s.stack.size → s'.stack[i]? = s.stack[i]?)
      (frame : Saved s'.stack (B.base - 2) s.fp) (address : Saved s'.stack (B.base - 1) (s.ip + 1)) :
      Moves L s s' A rest B (A :: rest)
  | back {B others} (caller : rest = B :: others) (value : BringsBack L s s'.returned)
      (stack : s'.stack = s.stack.extract 0 (A.base - 2)) (frame : Saved s.stack (A.base - 2) s'.fp)
      (address : Saved s.stack (A.base - 1) s'.ip) : Moves L s s' A rest B others

/-- The code of all functions of the program fits. -/
def Callable (L : Layout) (strict : Prop) : Prop :=
  ∀ i, i ≠ 0 → i < L.count → ∃ slots : Nat, L.Has (L.start i) ⟨.allocStack, .int slots⟩ ∧
    Assembly.Fits L strict ⟨L.params i, slots⟩ (L.start i + 1) (L.stop i) (L.start i + 1) 0

/-- The state goes on from another one. -/
def GoesOn (L : Layout) (strict : Prop) (s : State) (A : Activation) (rest : List Activation)
    (s' : State) : Prop :=
  ∃ B others, Moves L s s' A rest B others ∧ Running L strict s' B others

section Running

variable {L : Layout} {strict : Prop} {limits : Limits} {environment : Environment} {s s' : State}
  {A : Activation} {rest : List Activation} {k : Nat}

/-- A variable that code reaches lies in the frame of the running function, or is one of its arguments,
or belongs to the top level. -/
theorem Running.reached (hr : Running L strict s A rest) {area : Area} {i : Int} {place : Nat}
    (hi : L.Reaches A.room area i) (hplace : (place : Int) = areaBase s area + i) :
    A.base ≤ place ∨ place < L.top ∨ A.IsArgument place := by
  have hframe := hr.frame
  cases area with
  | own =>
    have hplace : (place : Int) = (s.fp : Int) + i := hplace
    rcases hi with ⟨hlow, hhigh⟩ | ⟨hlow, hhigh⟩
    · exact .inl (by omega)
    · exact .inr (.inr ⟨by omega, by omega⟩)
  | top =>
    have hplace : (place : Int) = ((0 : Nat) : Int) + i := hplace
    obtain ⟨hlow, hhigh⟩ := hi
    exact .inr (.inl (by omega))

/-- A step that stays in the running function spares what lies below. -/
theorem Touches.spares {op : Opcode} {x : Operand} (h : Touches L A s s' op x)
    (hr : Running L strict s A rest) : A.Spares L s.stack s'.stack := by
  obtain ⟨size, hsize, -⟩ := hr.stands
  intro i hi hlow harg
  have hset : ∀ {place : Nat} {a : Area} {n : Int} {v : Value} {stack : Array Value},
      L.Reaches A.room a n → (place : Int) = areaBase s a + n →
      (stack.setIfInBounds place v)[i]? = stack[i]? := by
    intro place a n v stack reached hplace
    rw [Array.getElem?_setIfInBounds_ne]
    rintro rfl
    rcases hr.reached reached hplace with h | h | h
    · omega
    · omega
    · exact harg h
  cases h with
  | load _ _ _ stack => rw [stack, Array.getElem?_push, if_neg (by omega)]
  | store reached place _ height stack =>
    rw [stack, hset reached place, Array.getElem?_pop, if_pos (by omega)]
  | update reached place _ _ stack => rw [stack, hset reached place]
  | other _ kept => exact kept i (by omega) (by omega)

/-- A step that stays in the running function. -/
theorem Running.stay {op : Opcode} {x : Operand} (hr : Running L strict s A rest)
    (has : L.Has s.ip ⟨op, x⟩) (hplain : changesFrame op = false) (hframe : s'.fp = s.fp)
    (hsize : s'.stack.size = A.base + (A.room.slots + k)) (hfits : A.Fits L strict s'.ip k)
    (htouches : Touches L A s s' op x) : GoesOn L strict s A rest s' := by
  have hspared := htouches.spares hr
  refine ⟨A, rest, .stay has hplain hframe hspared htouches, ?_⟩
  exact ⟨hr.chained.spared hspared, hframe.trans hr.frame, _, hsize, .inside hfits⟩

/-- A variable that code reaches is on the stack. -/
theorem Running.place (hr : Running L strict s A rest)
    (hsize : s.stack.size = A.base + (A.room.slots + k)) {area : Area} {i : Int}
    (hi : L.Reaches A.room area i) : ∃ place : Nat, (place : Int) = areaBase s area + i ∧
      place + k < s.stack.size := by
  have htop := hr.chained.top_le
  have hframe := hr.frame
  cases area with
  | own =>
    -- a variable stands above the base, a parameter below the two saved cells
    rcases hi with ⟨hlow, hhigh⟩ | ⟨hlow, hhigh⟩
    · refine ⟨A.base + i.toNat, ?_, by omega⟩
      show _ = (s.fp : Int) + i
      omega
    · have hbase : 2 + A.room.params ≤ A.base := by
        rcases hr.chained.base_cases with ⟨-, hroom, -⟩ | ⟨-, hbase⟩
        · rw [hroom] at hlow
          dsimp only at hlow
          omega
        · exact hbase
      refine ⟨(A.base + i).toNat, ?_, by omega⟩
      show _ = (s.fp : Int) + i
      omega
  | top =>
    obtain ⟨hlow, hhigh⟩ := hi
    refine ⟨i.toNat, ?_, by omega⟩
    show _ = ((0 : Nat) : Int) + i
    omega

/-- Behind its first instruction, a function has room for its variables. -/
theorem Running.inside {op : Opcode} {x : Operand} (hr : Running L strict s A rest)
    (has : L.Has s.ip ⟨op, x⟩) (hop : op ≠ .allocStack) :
    ∃ k, s.stack.size = A.base + (A.room.slots + k) ∧ A.Fits L strict s.ip k := by
  obtain ⟨size, hsize, hstands⟩ := hr.stands
  generalize hip : s.ip = a at hstands has
  cases hstands with
  | entering room fits =>
    cases OkAt.has_inj has room
    exact absurd rfl hop
  | @inside _ k fits => exact ⟨k, hsize, fits⟩

/-- The first instruction of a function makes room for its variables. -/
theorem Running.enters (hr : Running L strict s A rest) (hsize : s.stack.size = A.base)
    (has : L.Has s.ip ⟨.allocStack, .int (A.room.slots : Nat)⟩)
    (hfits : A.Fits L strict (s.ip + 1) 0) : Meets strict (GoesOn L strict s A rest)
      (Exec.step limits environment .allocStack (.int (A.room.slots : Nat)) s) := by
  refine meets_perform rfl ?_
  unfold Exec.perform
  dsimp only
  rw [bind_ok (countOperand_eq _ _ s), bind_get]
  by_cases hroom : limits.maxStack < s.stack.size + A.room.slots
  · rw [if_pos hroom]
    exact fun _ => rfl
  · rw [if_neg hroom]
    refine hr.stay (k := 0) has rfl rfl ?_ hfits (.other rfl fun i _ hi => ?_)
    · show (s.stack ++ Array.replicate A.room.slots Value.null).size = _
      simp [hsize]
    · exact Array.getElem?_append_left hi

/-- A branch takes the value that it tests. -/
theorem meets_branch {op : Opcode} {t : Nat} {v : Value} {post : State → Prop}
    (hop : op = .branchFalse ∨ op = .branchTrue) (hback : s.stack.back? = some v)
    (htaken : post { s with stack := s.stack.pop, ip := t })
    (hnext : post { s with stack := s.stack.pop, ip := s.ip + 1 }) :
    Meets strict post (Exec.step limits environment op (.int t) s) := by
  have hflow : ∀ taken, Meets strict post
      (.ok (Exec.branch t taken) { s with stack := s.stack.pop }) := by
    rintro (_ | _)
    · exact hnext
    · exact htaken
  unfold Exec.step
  rcases hop with rfl | rfl
  · dsimp only
    rw [bind_ok (countOperand_eq _ _ s), bind_ok (pop_eq hback)]
    exact hflow _
  · dsimp only
    rw [bind_ok (countOperand_eq _ _ s), bind_ok (pop_eq hback)]
    exact hflow _

theorem popInt_eq (task : Task) {s : State} {v : Value} (hback : s.stack.back? = some v) :
    (∃ n, Exec.popInt task s = .ok n { s with stack := s.stack.pop }) ∨
      ∃ f t, Exec.popInt task s = .error f t ∧ f.structural = false := by
  unfold Exec.popInt
  rw [bind_ok (pop_eq hback)]
  split
  · exact .inl ⟨_, rfl⟩
  · exact .inr ⟨_, _, rfl, rfl⟩

/-- A branch on two integers takes both. -/
theorem meets_branchInt {rel : Relation} {t : Nat} {post : State → Prop} (hsize : 2 ≤ s.stack.size)
    (htaken : post { s with stack := s.stack.pop.pop, ip := t })
    (hnext : post { s with stack := s.stack.pop.pop, ip := s.ip + 1 }) :
    Meets strict post (Exec.step limits environment (.branchInt rel) (.int t) s) := by
  obtain ⟨v, hv⟩ : ∃ v, s.stack.back? = some v := ⟨_, Array.getElem?_eq_getElem (by omega)⟩
  obtain ⟨u, hu⟩ : ∃ u, s.stack.pop.back? = some u :=
    ⟨_, Array.getElem?_eq_getElem (by rw [Array.size_pop]; omega)⟩
  unfold Exec.step
  dsimp only
  rw [bind_ok (countOperand_eq _ _ s)]
  rcases popInt_eq .comparison hv with ⟨b, hb⟩ | ⟨f, _, hb, hf⟩
  · rw [bind_ok hb]
    rcases popInt_eq .comparison (s := { s with stack := s.stack.pop }) hu with
      ⟨a, ha⟩ | ⟨f, _, ha, hf⟩
    · rw [bind_ok ha]
      show Meets strict post (.ok (Exec.branch t (Exec.intHolds rel a b)) _)
      cases Exec.intHolds rel a b
      · exact hnext
      · exact htaken
    · rw [bind_error ha]
      exact fun _ => hf
  · rw [bind_error hb]
    exact fun _ => hf

/-- A call starts a function above its arguments. -/
theorem Running.calls (hr : Running L strict s A rest) (hcallable : Callable L strict) {t n j q : Nat}
    (hsize : s.stack.size = A.base + (A.room.slots + (j + n)))
    (has : L.Has s.ip ⟨.callInternal, .int (t : Nat)⟩) (entry : L.Entry n t)
    (drop : DropCode L n (s.ip + 1) q) (hfits : A.Fits L strict (s.ip + 1) (j + n)) :
    Meets strict (GoesOn L strict s A rest)
      (Exec.step limits environment .callInternal (.int (t : Nat)) s) := by
  obtain ⟨i, hi, hlt, rfl, rfl⟩ := entry
  obtain ⟨slots, room, hstart⟩ := hcallable i hi hlt
  let B : Activation := ⟨⟨L.params i, slots⟩, L.start i, L.stop i, s.stack.size + 2⟩
  have hstep : Exec.step limits environment .callInternal (.int (L.start i : Nat)) =
    Exec.countOperand .callInternal (.int (L.start i : Nat)) >>= Exec.enter limits := rfl
  rw [hstep, bind_ok (countOperand_eq _ (L.start i) s)]
  rcases enter_eq limits (L.start i) s with ⟨fp, ret, hfp, hret, h⟩ | h
  · rw [h]
    -- the call succeeds: two cells are pushed, and everything below them stays
    let stack := (s.stack.push (.int fp)).push (.int ret)
    have hbelow : ∀ j, j < s.stack.size → stack[j]? = s.stack[j]? := by
      intro j hj
      rw [Array.getElem?_push, if_neg (by simp; omega), Array.getElem?_push, if_neg (by omega)]
    have hframe : Saved stack (B.base - 2) s.fp := by
      refine ⟨fp, hfp, ?_⟩
      show stack[s.stack.size + 2 - 2]? = _
      rw [Nat.add_sub_cancel, Array.getElem?_push, if_neg (by simp), Array.getElem?_push, if_pos rfl]
    have haddress : Saved stack (B.base - 1) (s.ip + 1) := by
      refine ⟨ret, hret, ?_⟩
      show stack[s.stack.size + 2 - 1]? = _
      rw [Array.getElem?_push, if_pos (by simp)]
    have hcaller : Chained L strict stack (A :: rest) :=
      hr.chained.spared fun i hi _ _ => hbelow i (by omega)
    have harguments : L.params i ≤ s.stack.size := by omega
    refine ⟨B, A :: rest, .call has ⟨hi, hlt⟩ ⟨rfl, rfl, rfl, room⟩ drop rfl rfl harguments hbelow hframe haddress, ?_⟩
    refine ⟨.call hcaller ?_ (hr.frame ▸ hframe) haddress hfits, rfl, 0, ?_, .entering room hstart⟩
    · show s.stack.size + 2 = A.base + A.room.slots + j + L.params i + 2
      omega
    · show ((s.stack.push _).push _).size = _
      simp [B]
  · rw [h]
    -- an address does not fit in an integer, and the run ends with a fault
    exact fun _ => rfl

/-- A return goes back to where the call has been, and takes away what the call has put on the stack. -/
theorem Running.leave {u : State} {v : Value} {j : Nat} {B : Activation} {others : List Activation}
    (hr : Running L strict s A (B :: others)) (hj : A.base ≤ j) (hle : j ≤ s.stack.size)
    (hstack : u.stack = s.stack.extract 0 j) (hfp : u.fp = s.fp) :
    ∃ ret k, Saved s.stack (A.base - 2) B.base ∧ Saved s.stack (A.base - 1) ret ∧
      Chained L strict s.stack (B :: others) ∧ B.Fits L strict ret k ∧
      A.base - 2 = B.base + (B.room.slots + k) ∧
      Exec.leave v u = .ok (.jump ret)
        { u with stack := s.stack.extract 0 (A.base - 2), fp := B.base, returned := v } := by
  obtain ⟨hchained, hframe, -⟩ := hr
  cases hchained with
  | @call _ _ _ ret k caller above frame address fits =>
    have hfp' : u.fp = A.base := hfp.trans hframe
    have hsize : u.stack.size = j := by simp [hstack, hle]
    have hcell : ∀ i, i < A.base → u.stack[i]? = s.stack[i]? := by
      intro i hi
      rw [hstack, Array.getElem?_extract, if_pos (by omega), Nat.zero_add]
    have haddress : Saved u.stack (u.fp - 1) ret := by
      obtain ⟨n, hn, h⟩ := address
      refine ⟨n, hn, ?_⟩
      rw [hfp', hcell _ (by omega), h]
    have hsaved : Saved u.stack (u.fp - 2) B.base := by
      obtain ⟨n, hn, h⟩ := frame
      refine ⟨n, hn, ?_⟩
      rw [hfp', hcell _ (by omega), h]
    have hrest : u.stack.extract 0 (A.base - 2) = s.stack.extract 0 (A.base - 2) := by
      rw [hstack, Array.extract_extract, Nat.zero_add, Nat.zero_add, Nat.min_eq_left (by omega)]
    refine ⟨ret, k + A.room.params, frame, address, caller, fits, by omega, ?_⟩
    rw [leave_eq (by omega) (by omega) haddress hsaved, hfp', hrest]

/-- A return goes on with the caller, whose part of the stack is as the call left it. -/
theorem Running.leaves {u : State} {v : Value} {j : Nat} (hr : Running L strict s A rest)
    (hj : A.base ≤ j) (hle : j ≤ s.stack.size) (hstack : u.stack = s.stack.extract 0 j)
    (hfp : u.fp = s.fp) (hvalue : BringsBack L s v) :
    Meets strict (GoesOn L strict s A rest) (Exec.leave v u) := by
  cases rest with
  | nil =>
    cases hr.chained with
    | top room base =>
      rw [leave_top (hfp.trans (hr.frame.trans base))]
      trivial
  | cons B others =>
    obtain ⟨ret, k, frame, address, caller, fits, hbase, h⟩ := hr.leave (v := v) hj hle hstack hfp
    rw [h]
    refine ⟨B, others, .back rfl hvalue rfl frame address, ?_⟩
    refine ⟨caller.spared ?_, rfl, _, ?_, .inside fits⟩
    · intro i hi _ _
      show (s.stack.extract 0 (A.base - 2))[i]? = _
      rw [Array.getElem?_extract, if_pos (by omega), Nat.zero_add]
    · show (s.stack.extract 0 (A.base - 2)).size = _
      rw [Array.size_extract]
      omega

/-- A change above a cell leaves it as it is. -/
theorem getElem?_extract_append {stack vs : Array Value} {i j : Nat} (hi : i < j)
    (hj : j ≤ stack.size) : (stack.extract 0 j ++ vs)[i]? = stack[i]? := by
  have hsize : (stack.extract 0 j).size = j := by simp [hj]
  rw [Array.getElem?_append_left (by omega), Array.getElem?_extract, if_pos (by omega), Nat.zero_add]

/-- Where an element is to be changed, there has to be an index. -/
theorem perform_noElement (limits : Limits) (environment : Environment) {op : Opcode}
    (element : (∃ w, op = .storeElement w) ∨ ∃ u, op = .updateElement u) (s : State) :
    ∃ f t, Exec.perform limits environment op (.int (0 : Nat)) s = .error f t := by
  have htarget : ∃ f t, Exec.elementTarget op (.int (0 : Nat)) s = .error f t := by
    have hnone : Exec.popMany 0 s = .ok #[] s := by
      simp [Exec.popMany]
    unfold Exec.elementTarget
    rw [bind_ok (countOperand_eq _ 0 s), bind_ok hnone]
    cases hback : s.stack.back? with
    | none => exact ⟨_, _, bind_error (show Exec.pop s = .error _ s by rw [Exec.pop, hback])⟩
    | some v => exact ⟨_, _, by rw [bind_ok (pop_eq hback)]; rfl⟩
  obtain ⟨f, t, hf⟩ := htarget
  refine ⟨f, t, ?_⟩
  rcases element with ⟨w, rfl⟩ | ⟨u, rfl⟩
  · exact bind_error hf
  · exact bind_error hf

/-- An instruction of code that fits goes on with code that fits. -/
theorem Running.steps (hr : Running L strict s A rest) (hcallable : Callable L strict)
    (hsize : s.stack.size = A.base + (A.room.slots + k)) (hfits : A.Fits L strict s.ip k) :
    ∃ op x, L.Has s.ip ⟨op, x⟩ ∧
      Meets strict (GoesOn L strict s A rest) (Exec.step limits environment op x s) := by
  cases hfits.okAt with
  | @plain op x m g j has effect height next =>
    refine ⟨op, x, has, meets_effect effect (by omega) fun vs hvs w => ?_⟩
    refine hr.stay has effect.plain rfl ?_ next (.other effect.accessesNoSlot fun i hi _ => ?_)
    · show (s.stack.extract 0 (s.stack.size - m) ++ vs).size = _
      rw [Array.size_append, Array.size_extract, hvs]
      omega
    · exact getElem?_extract_append (by omega) (Nat.sub_le _ _)
  | @load area w i has reached next =>
    obtain ⟨place, hplace, hlt⟩ := hr.place hsize reached
    refine ⟨_, _, has, meets_load hplace (by omega) fun v hv => ?_⟩
    refine hr.stay has rfl rfl ?_ next (.load reached hplace hv rfl)
    show (s.stack.push v).size = _
    rw [Array.size_push]
    omega
  | @store area w i j has reached height next =>
    obtain ⟨place, hplace, hlt⟩ := hr.place hsize reached
    obtain ⟨v, hv⟩ : ∃ v, s.stack.back? = some v := ⟨_, Array.getElem?_eq_getElem (by omega)⟩
    have htouches : Touches L A s { s with stack := s.stack.pop.setIfInBounds place v, ip := s.ip + 1 }
        (.store area w) (.int i) := .store reached hplace hv (by omega) rfl
    refine ⟨_, _, has, meets_store hv hplace (by omega) (hr.stay has rfl rfl ?_ next htouches)⟩
    show (s.stack.pop.setIfInBounds place v).size = _
    rw [Array.size_setIfInBounds, Array.size_pop]
    omega
  -- an update reads and writes the same cell, which keeps its place
  | @update area u i has reached next =>
    obtain ⟨place, hplace, hlt⟩ := hr.place hsize reached
    refine ⟨_, _, has, meets_update hplace (by omega) fun v v' hv hv' => ?_⟩
    refine hr.stay has rfl rfl ?_ next (.update reached hplace hv hv' rfl)
    show (s.stack.setIfInBounds place v').size = _
    rw [Array.size_setIfInBounds]
    exact hsize
  | @fails op lenient has element =>
    refine ⟨op, _, has, meets_perform ?_ ?_⟩
    · rcases element with ⟨w, rfl⟩ | ⟨u, rfl⟩ <;> rfl
    · -- without an element there is none to store: the instruction fails, and nothing is promised
      obtain ⟨f, t, hf⟩ := perform_noElement limits environment element s
      rw [hf]
      exact fun h => absurd h lenient
  | @jump t has next =>
    have hstep : Exec.step limits environment .jump (.int t) =
      Exec.countOperand .jump (.int t) >>= fun t => pure (.jump t) := rfl
    refine ⟨_, _, has, ?_⟩
    rw [hstep, bind_ok (countOperand_eq _ t s)]
    exact hr.stay has rfl rfl hsize next (.other rfl fun i _ _ => rfl)
  | @branch op t j has test height taken next =>
    obtain ⟨v, hv⟩ : ∃ v, s.stack.back? = some v := ⟨_, Array.getElem?_eq_getElem (by omega)⟩
    -- a branch takes a temporary off; the variables below it stay
    have hpop : s.stack.pop.size = A.base + (A.room.slots + j) := by
      rw [Array.size_pop]
      omega
    have hkept : ∀ i, i < A.base + A.room.slots → i < s.stack.size → s.stack.pop[i]? = s.stack[i]? := by
      intro i hi _
      rw [Array.getElem?_pop, if_pos (by omega)]
    have hplain : changesFrame op = false := by rcases test with rfl | rfl <;> rfl
    have hslot : accessesSlot op = false := by rcases test with rfl | rfl <;> rfl
    refine ⟨op, _, has, meets_branch test hv ?_ ?_⟩
    · exact hr.stay has hplain rfl hpop taken (.other hslot hkept)
    · exact hr.stay has hplain rfl hpop next (.other hslot hkept)
  | @branchInt rel t j has height taken next =>
    have hpop : s.stack.pop.pop.size = A.base + (A.room.slots + j) := by
      rw [Array.size_pop, Array.size_pop]
      omega
    have hkept : ∀ i, i < A.base + A.room.slots → i < s.stack.size →
        s.stack.pop.pop[i]? = s.stack[i]? := by
      intro i hi _
      rw [Array.getElem?_pop, if_pos (by rw [Array.size_pop]; omega), Array.getElem?_pop,
        if_pos (by omega)]
    refine ⟨_, _, has, meets_branchInt (by omega) ?_ ?_⟩
    · exact hr.stay has rfl rfl hpop taken (.other rfl hkept)
    · exact hr.stay has rfl rfl hpop next (.other rfl hkept)
  | @call t n j b has entry drop height next =>
    refine ⟨_, _, has, hr.calls hcallable (j := j) (by omega) has entry drop ?_⟩
    rwa [height] at next
  | ret has =>
    refine ⟨_, _, has, hr.leaves (j := s.stack.size) (by omega) (Nat.le_refl _) ?_ rfl (.inl ⟨has, rfl⟩)⟩
    exact Array.extract_size.symm
  | @retWith w j has height =>
    obtain ⟨v, hv⟩ : ∃ v, s.stack.back? = some v := ⟨_, Array.getElem?_eq_getElem (by omega)⟩
    refine ⟨_, _, has, ?_⟩
    have hstep : Exec.step limits environment (.retWith w) .none = Exec.pop >>= Exec.leave := rfl
    rw [hstep, bind_ok (pop_eq hv)]
    refine hr.leaves (j := s.stack.size - 1) (by omega) (Nat.sub_le _ _) ?_ rfl (.inr ⟨w, has, hv⟩)
    exact pop_eq_extract s.stack
  | term has _ =>
    exact ⟨_, _, has, trivial⟩

end Running

end StackScript.Machine
