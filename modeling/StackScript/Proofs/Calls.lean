import StackScript.Proofs.Runs

/-!
# Calls and returns

* `CallReturns`: the call that a run carries out at one point returns at a later one.
* `call_returns`: the caller goes on behind the call with the stack that it had, but for the arguments
  and the variables of the top level.

`Waiting` is what every instruction between the two keeps: the caller's part of the stack and the
addresses saved by the call stay as they are, whatever is called in the meantime.
-/

namespace StackScript.Machine

open Bytecode Host Assembly Syntax

/-! ### Calls in programs -/

section Program

variable (program : Program)

/-- The number of variables of the top level: so much room is made by the first instruction. -/
def topVariables : Nat :=
  match (program.code[0]? : Option Instruction) with
  | some ⟨.known .allocStack, .int n⟩ => n.toNat
  | _ => 0

/-- The number of arguments of the call at a place: so many values are dropped behind it. -/
def argumentsAt (a : Nat) : Nat :=
  match (program.code[a + 1]? : Option Instruction) with
  | some ⟨.known .popStack, .int n⟩ => n.toNat
  | _ => 0

/-- Does the instruction at a place call a function of the program? -/
def callsAt (a : Nat) : Bool :=
  match (program.code[a]? : Option Instruction) with
  | some ⟨.known .callInternal, _⟩ => true
  | _ => false

/-- Does the instruction at a place leave a function? -/
def returnsAt (a : Nat) : Bool :=
  match (program.code[a]? : Option Instruction) with
  | some ⟨.known .ret, _⟩ | some ⟨.known (.retWith _), _⟩ => true
  | _ => false

/-- The value of the return that a state is about to carry out: null, or what is on top of the stack. -/
def ReturnValue (u : State) (v : Value) : Prop :=
  ((∃ x, program.code[u.ip]? = some ⟨.known .ret, x⟩) ∧ v = .null) ∨
    (∃ w x, program.code[u.ip]? = some ⟨.known (.retWith w), x⟩) ∧ u.stack.back? = some v

/-- The call that a run carries out in state `s`, after `m` instructions, returns in state `u`, after
`k` instructions: this is the first return in the frame that the call has made. -/
structure CallReturns (limits : Limits) (host : Environment) (start : State) (m k : Nat)
    (s u : State) : Prop where
  before : stateAfter limits host program start m = some s
  calls : callsAt program s.ip = true
  later : m < k
  after : stateAfter limits host program start k = some u
  returns : returnsAt program u.ip = true
  frame : u.fp = s.stack.size + 2
  first : ∀ i v, m < i → i < k → stateAfter limits host program start i = some v →
    v.fp = s.stack.size + 2 → returnsAt program v.ip = false

variable {program}

theorem callsAt_eq_true {a : Nat} (h : callsAt program a = true) :
    ∃ x, program.code[a]? = some ⟨.known .callInternal, x⟩ := by
  unfold callsAt at h
  split at h
  · next x hx => exact ⟨x, hx⟩
  · cases h

theorem returnsAt_iff {a : Nat} : returnsAt program a = true ↔
    ∃ op x, program.code[a]? = some ⟨.known op, x⟩ ∧ (op = .ret ∨ ∃ w, op = .retWith w) := by
  constructor
  · intro h
    unfold returnsAt at h
    split at h
    · next x hx => exact ⟨_, x, hx, .inl rfl⟩
    · next w x hx => exact ⟨_, x, hx, .inr ⟨w, rfl⟩⟩
    · cases h
  · rintro ⟨op, x, hx, rfl | ⟨w, rfl⟩⟩
    · rw [returnsAt, hx]
    · rw [returnsAt, hx]

end Program

/-! ### While a call runs -/

/-- Two states in which the first of the calls runs. -/
theorem Chained.above {L : Layout} {strict : Prop} {stack : Array Value} {A B : Activation}
    {others : List Activation} (h : Chained L strict stack (A :: others)) (hB : B ∈ others) :
    B.base ≤ A.base - 2 - A.room.params := by
  generalize hacts : A :: others = acts at h
  induction h generalizing A others with
  | top =>
    obtain ⟨rfl, rfl⟩ := List.cons.inj hacts
    cases hB
  | call caller above frame address fits ih =>
    obtain ⟨rfl, rfl⟩ := List.cons.inj hacts
    rcases List.mem_cons.1 hB with rfl | hB
    · omega
    · have := ih hB rfl
      omega

/-- What stays as it is while a call runs that was made in state `s`: `C` is the call, and `A` and
`rest` are its callers. -/
structure Waiting (L : Layout) (s : State) (C A : Activation) (rest : List Activation)
    (stack : Array Value) (B : Activation) (others : List Activation) : Prop where
  calls : ∃ inside, B :: others = inside ++ C :: A :: rest
  below : ∀ i, i < s.stack.size - C.room.params → L.top ≤ i → stack[i]? = s.stack[i]?
  frame : Saved stack (C.base - 2) s.fp
  address : Saved stack (C.base - 1) (s.ip + 1)

section Waiting

variable {L : Layout} {strict : Prop} {s v v' : State} {C A B D : Activation}
  {rest others more : List Activation}

theorem Saved.congr {stack stack' : Array Value} {i a : Nat} (h : Saved stack i a)
    (hi : stack'[i]? = stack[i]?) : Saved stack' i a := by
  obtain ⟨n, hn, hcell⟩ := h
  exact ⟨n, hn, hi.trans hcell⟩

theorem Saved.inj {stack : Array Value} {i a b : Nat} (ha : Saved stack i a) (hb : Saved stack i b) :
    a = b := by
  obtain ⟨m, hm, hcell⟩ := ha
  obtain ⟨n, hn, hcell'⟩ := hb
  obtain rfl := Value.int.inj (Option.some.inj (hcell.symm.trans hcell'))
  exact Int.ofNat.inj (hm.symm.trans hn)

/-- The call is the running one, or lies below it. -/
theorem Waiting.cases (h : Waiting L s C A rest v.stack B others) (hr : Running L strict v B others) :
    (B = C ∧ others = A :: rest) ∨
      (C.base ≤ B.base - 2 - B.room.params ∧ ∃ inside, others = inside ++ C :: A :: rest) := by
  obtain ⟨inside, hinside⟩ := h.calls
  cases inside with
  | nil => exact .inl (List.cons.inj hinside)
  | cons D inside =>
    obtain ⟨rfl, rfl⟩ := List.cons.inj hinside
    exact .inr ⟨hr.chained.above (by simp), inside, rfl⟩

/-- An instruction keeps what stays as it is, unless it is the return of the call. -/
theorem Waiting.next (h : Waiting L s C A rest v.stack B others) (hr : Running L strict v B others)
    (hbase : C.base = s.stack.size + 2) (htop : L.top ≤ s.stack.size)
    (hmoves : Moves L v v' B others D more) (hnot : B = C → ∀ w, ¬BringsBack L v w) :
    Waiting L s C A rest v'.stack D more := by
  have hcases := h.cases hr
  cases hmoves with
  | stay _ _ _ spared _ =>
    -- what the callee may change are its parameters and the variables of the program
    have hkeep : ∀ i, i < C.base → L.top ≤ i →
        (s.stack.size - C.room.params ≤ i → s.stack.size ≤ i) → v'.stack[i]? = v.stack[i]? := by
      intro i hi hlow harg
      rcases hcases with ⟨rfl, -⟩ | ⟨hle, -⟩
      · refine spared i hi hlow ?_
        rintro ⟨hfrom, hto⟩
        omega
      · refine spared i (by omega) hlow ?_
        rintro ⟨hfrom, -⟩
        omega
    refine ⟨h.calls, fun i hi hlow => ?_, ?_, ?_⟩
    · rw [hkeep i (by omega) hlow (by omega), h.below i hi hlow]
    · exact h.frame.congr (hkeep _ (by omega) (by omega) (by omega))
    · exact h.address.congr (hkeep _ (by omega) (by omega) (by omega))
  | call _ _ _ _ _ _ _ below =>
    obtain ⟨size, hsize, -⟩ := hr.stands
    -- a call from within the callee leaves everything below it alone
    have hle : C.base ≤ v.stack.size := by
      rcases hcases with ⟨rfl, -⟩ | ⟨hle, -⟩ <;> omega
    obtain ⟨inside, hinside⟩ := h.calls
    refine ⟨⟨D :: inside, by rw [hinside]; rfl⟩, fun i hi hlow => ?_, ?_, ?_⟩
    · rw [below i (by omega), h.below i hi hlow]
    · exact h.frame.congr (below _ (by omega))
    · exact h.address.congr (below _ (by omega))
  | back caller value stack _ _ =>
    rcases hcases with ⟨rfl, -⟩ | ⟨hle, inside, hinside⟩
    · -- the callee itself does not return yet, so this is a return to it or to above it
      exact absurd value (hnot rfl _)
    · have hpos : 0 < C.base := by omega
      have hkeep : ∀ i, i < C.base → v'.stack[i]? = v.stack[i]? := by
        intro i hi
        rw [stack, Array.getElem?_extract, Nat.zero_add]
        split
        · rfl
        · next hout =>
          rw [Array.getElem?_eq_none (by omega)]
      refine ⟨⟨inside, by rw [← caller, hinside]⟩, fun i hi hlow => ?_, ?_, ?_⟩
      · rw [hkeep i (by omega), h.below i hi hlow]
      · exact h.frame.congr (hkeep _ (by omega))
      · exact h.address.congr (hkeep _ (by omega))

end Waiting

section Runs

variable {L : Layout} {strict : Prop} {limits : Limits} {host : Environment} {start s u : State}
  {m k : Nat} {A : Activation} {rest : List Activation}

theorem stateAfter_of_le {program : Program} {i : Nat} (hi : i ≤ k)
    (h : stateAfter limits host program start k = some u) :
    ∃ v, stateAfter limits host program start i = some v := by
  induction hi generalizing u with
  | refl => exact ⟨u, h⟩
  | step _ ih =>
    obtain ⟨w, hw, -⟩ := stateAfter_succ h
    exact ih hw

/-- The instruction that calls starts the wait for the return. -/
theorem Moves.waits {s' : State} {B : Activation} {others : List Activation}
    (hcalls : callsAt L.program s.ip = true) (hmoves : Moves L s s' A rest B others) :
    B.base = s.stack.size + 2 ∧ (∃ q, DropCode L B.room.params (s.ip + 1) q) ∧
      Waiting L s B A rest s'.stack B others := by
  obtain ⟨x, hx⟩ := callsAt_eq_true hcalls
  have has : L.Has s.ip ⟨.callInternal, x⟩ := hx
  cases hmoves with
  | stay has' plain _ _ _ =>
    cases OkAt.has_inj has has'
    cases plain
  | @call _ q _ _ _ _ drop _ base arguments below frame address =>
    exact ⟨base, ⟨q, drop⟩, ⟨[], rfl⟩, fun i hi _ => below i (by omega), frame, address⟩
  | back _ value _ _ _ =>
    rcases value with ⟨has', -⟩ | ⟨w, has', -⟩
    · cases OkAt.has_inj has has'
    · cases OkAt.has_inj has has'

/-- As many values are dropped behind a call as it has arguments. -/
theorem argumentsAt_of_drop {n a q : Nat} (h : DropCode L n (a + 1) q) (hn : n ≠ 0) :
    argumentsAt L.program a = n := by
  cases h with
  | none => exact absurd rfl hn
  | some _ drop =>
    have hcode : L.program.code[a + 1]? = some ⟨.known .popStack, .int (n : Nat)⟩ := drop
    rw [argumentsAt, hcode]
    exact Int.toNat_natCast n

theorem le_argumentsAt_of_drop {n a q : Nat} (h : DropCode L n (a + 1) q) :
    n ≤ argumentsAt L.program a := by
  by_cases hn : n = 0
  · exact hn ▸ Nat.zero_le _
  · exact Nat.le_of_eq (argumentsAt_of_drop h hn).symm

theorem BringsBack.returns {w : Value} (h : BringsBack L u w) : returnsAt L.program u.ip = true := by
  rw [returnsAt_iff]
  rcases h with ⟨has, -⟩ | ⟨x, has, -⟩
  · exact ⟨_, _, has, .inl rfl⟩
  · exact ⟨_, _, has, .inr ⟨x, rfl⟩⟩

/-- From a call up to its return, the caller's part of the stack stays as it is. -/
theorem waiting_until (hr : Running L strict start A rest) (hcallable : Callable L strict)
    (h : CallReturns L.program limits host start m k s u) :
    ∃ C B others, Running L strict s B others ∧ C.base = s.stack.size + 2 ∧
      (∃ q, DropCode L C.room.params (s.ip + 1) q) ∧
      ∀ i, m < i → i ≤ k → ∀ v, stateAfter limits host L.program start i = some v →
        ∃ D more, Running L strict v D more ∧ Waiting L s C B others v.stack D more := by
  obtain ⟨B, others, hrun⟩ := running_after hr hcallable h.before
  -- the variables of the program stand below every frame
  have hlow : L.top ≤ s.stack.size := by
    obtain ⟨x, hx⟩ := callsAt_eq_true h.calls
    have has : L.Has s.ip ⟨.callInternal, x⟩ := hx
    obtain ⟨_, hsize, -⟩ := hrun.inside has nofun
    have htop := hrun.chained.top_le
    omega
  obtain ⟨v₁, hv₁⟩ := stateAfter_of_le (i := m + 1) h.later h.after
  obtain ⟨s', hs', hnext⟩ := stateAfter_succ hv₁
  obtain rfl := Option.some.inj (h.before.symm.trans hs')
  have hmeets := hrun.advances hcallable limits host m
  rw [hnext] at hmeets
  obtain ⟨C, more, hmoves, hrun₁⟩ := hmeets
  obtain ⟨hbase, hdrop, hwaiting⟩ := hmoves.waits h.calls
  refine ⟨C, B, others, hrun, hbase, hdrop, fun i hi => ?_⟩
  -- the induction is over the instructions behind the call, up to the first return in its frame
  induction hi with
  | refl =>
    intro _ v hv
    obtain rfl := Option.some.inj (hv₁.symm.trans hv)
    exact ⟨C, more, hrun₁, hwaiting⟩
  | @step i hi ih =>
    intro hik v hv
    obtain ⟨w, hw, hnext⟩ := stateAfter_succ hv
    obtain ⟨D, inner, hrunw, hwaits⟩ := ih (by omega) w hw
    have hmeets := hrunw.advances hcallable limits host i
    rw [hnext] at hmeets
    obtain ⟨E, last, hmoves, hrunv⟩ := hmeets
    refine ⟨E, last, hrunv, hwaits.next hrunw hbase hlow hmoves ?_⟩
    rintro rfl x hx
    have hfirst := h.first i w hi (by omega) hw (by rw [hrunw.frame, hbase])
    rw [hx.returns] at hfirst
    cases hfirst

/-- A return in a function that was called goes back to its caller, with a value. -/
theorem Running.returns {C : Activation} (hr : Running L strict u C (A :: rest))
    (hreturns : returnsAt L.program u.ip = true) (limits : Limits) (host : Environment) :
    ∃ op x v ret, L.Has u.ip ⟨op, x⟩ ∧ ReturnValue L.program u v ∧
      Saved u.stack (C.base - 2) A.base ∧ Saved u.stack (C.base - 1) ret ∧
      Exec.step limits host op x u = .ok (.jump ret)
        { u with stack := u.stack.extract 0 (C.base - 2), fp := A.base, returned := v } := by
  obtain ⟨op, x, hcode, hop⟩ := returnsAt_iff.1 hreturns
  have has : L.Has u.ip ⟨op, x⟩ := hcode
  rcases hop with rfl | ⟨w, rfl⟩
  · obtain ⟨k, hsize, -⟩ := hr.inside has nofun
    obtain ⟨ret, _, frame, address, -, -, -, hleave⟩ := hr.leave (u := u) (v := .null)
      (j := u.stack.size) (by omega) (Nat.le_refl _) Array.extract_size.symm rfl
    exact ⟨_, x, .null, ret, has, .inl ⟨⟨x, hcode⟩, rfl⟩, frame, address, hleave⟩
  · obtain ⟨k, hsize, fits⟩ := hr.inside has nofun
    -- the value that is returned is a temporary, which the code guarantees
    have hk : 0 < k := by
      cases fits.okAt with
      | retWith _ height => omega
      | plain has' effect _ _ =>
        cases OkAt.has_inj has has'
        cases effect.plain
      | branch has' test _ _ _ =>
        cases OkAt.has_inj has has'
        rcases test with h | h <;> cases h
      | fails _ has' element =>
        cases OkAt.has_inj has has'
        rcases element with ⟨_, h⟩ | ⟨_, h⟩ <;> cases h
      | _ => cases OkAt.has_inj has ‹_›
    obtain ⟨v, hv⟩ : ∃ v, u.stack.back? = some v := ⟨_, Array.getElem?_eq_getElem (by omega)⟩
    obtain ⟨ret, _, frame, address, -, -, -, hleave⟩ := hr.leave (u := { u with stack := u.stack.pop })
      (v := v) (j := u.stack.size - 1) (by omega) (Nat.sub_le _ _) (pop_eq_extract _) rfl
    refine ⟨_, x, v, ret, has, .inr ⟨⟨w, x, hcode⟩, hv⟩, frame, address, ?_⟩
    have hstep : Exec.step limits host (.retWith w) x = Exec.pop >>= Exec.leave := rfl
    rw [hstep, bind_ok (pop_eq hv), hleave]

end Runs

/-! ### The protocol -/

section Height

variable {limits : Limits} {host : Environment} {program : Program} {start s t : State} {n : Nat}

theorem checked_running (h : s.stack.size ≤ limits.maxStack) :
    proceed.checked limits s = .running s := by
  rw [proceed.checked, if_neg (Nat.not_lt.2 h)]

theorem size_of_checked (h : proceed.checked limits s = .running t) :
    t.stack.size ≤ limits.maxStack := by
  unfold proceed.checked at h
  split at h
  · cases h
  · next hle =>
    obtain rfl := Progress.running.inj h
    exact Nat.not_lt.1 hle

theorem size_of_advance (h : advance limits host program n s = .running t) :
    t.stack.size ≤ limits.maxStack := by
  unfold advance at h
  split at h
  · cases h
  · cases h
  · split at h
    · cases h
    · split at h
      · next flow u _ =>
        cases flow with
        | halt => cases h
        | next => exact size_of_checked h
        | jump target => exact size_of_checked h
      · exact absurd h Progress.stopped_ne_running

/-- In a run that starts low enough, the stack never gets higher than it may. -/
theorem size_of_stateAfter (hstart : start.stack.size ≤ limits.maxStack)
    (h : stateAfter limits host program start n = some s) : s.stack.size ≤ limits.maxStack := by
  cases n with
  | zero =>
    obtain rfl := Option.some.inj h
    exact hstart
  | succ n =>
    obtain ⟨u, -, hnext⟩ := stateAfter_succ h
    exact size_of_advance hnext

end Height

section Compiled

variable {environment host : Environment} {body : List Stmt} {program : Program} {limits : Limits}
  {start s u : State} {m k : Nat}

/-- A call that returns goes on behind the call, in the caller's frame and with the value of the
return.  The stack is what it was before the call, but for the arguments on top of it and the
variables of the top level. -/
theorem call_returns (hlisted : allListed body = true)
    (hcompile : compile environment body = .ok program)
    (h : CallReturns program limits host start.restart m k s u)
    (hfuel : ∀ limit, limits.fuel = some limit → k < limit) :
    ∃ v, stateAfter limits host program start.restart (k + 1) = some v ∧
      v.ip = s.ip + 1 ∧ v.fp = s.fp ∧ v.stack.size = s.stack.size ∧
      (∀ i, i < s.stack.size - argumentsAt program s.ip → topVariables program ≤ i →
        v.stack[i]? = s.stack[i]?) ∧
      ReturnValue program u v.returned := by
  have hdemands : Demands False fun _ => true := ⟨fun _ _ _ => rfl, nofun⟩
  obtain ⟨L, rfl, hroom, hcallable, hstart⟩ := fits_of_compile (steadyProgram_of_listed hlisted)
    hcompile hdemands (everyAll_of_all (fun _ => rfl) body)
  obtain ⟨A, hrun⟩ := hstart start
  obtain ⟨C, B, others, hcaller, hbase, ⟨q, hdrop⟩, huntil⟩ := waiting_until hrun hcallable h
  obtain ⟨D, more, hcallee, hwaiting⟩ := huntil k h.later (Nat.le_refl k) u h.after
  have htop : topVariables L.program = L.top := by
    have hcode : L.program.code[0]? = some ⟨.known .allocStack, .int (L.top : Nat)⟩ := hroom
    rw [topVariables, hcode]
    exact Int.toNat_natCast L.top
  -- The return is that of the call, as it is carried out in the frame of the call.
  obtain ⟨rfl, rfl⟩ : D = C ∧ more = B :: others := by
    rcases hwaiting.cases hcallee with heq | ⟨hle, -⟩
    · exact heq
    · have hframe := hcallee.frame.symm.trans h.frame
      omega
  obtain ⟨op, x, v, ret, has, hvalue, hframe, haddress, hstep⟩ :=
    hcallee.returns h.returns limits host
  have hfp : B.base = s.fp := hframe.inj hwaiting.frame
  have hret : ret = s.ip + 1 := haddress.inj hwaiting.address
  let w : State := { u with
    stack := u.stack.extract 0 (D.base - 2), ip := ret, fp := B.base, returned := v }
  have hle : D.base ≤ u.stack.size := by
    obtain ⟨size, hsize, -⟩ := hcallee.stands
    omega
  have hsize : w.stack.size = s.stack.size := by
    show (u.stack.extract 0 (D.base - 2)).size = _
    rw [Array.size_extract]
    omega
  have hlow : s.stack.size ≤ limits.maxStack := size_of_stateAfter (Nat.zero_le _) h.before
  have hnext : advance limits host L.program k u = .running w := by
    rw [advance_eq has hfuel, hstep]
    exact checked_running (hsize ▸ hlow)
  refine ⟨w, ?_, hret, hfp, hsize, fun i hi hlow => ?_, hvalue⟩
  · rw [stateAfter, h.after]
    dsimp only
    rw [hnext]
  · have hcount := le_argumentsAt_of_drop hdrop
    show (u.stack.extract 0 (D.base - 2))[i]? = _
    rw [Array.getElem?_extract, if_pos (by omega), Nat.zero_add]
    exact hwaiting.below i (by omega) (by rwa [htop] at hlow)

end Compiled

/-- `function f(n: int): int { if (n < 1) { return 0; } return f(n - 1); } f(1);` -/
def descent : List Stmt :=
  [.function "f" [⟨"n", "int"⟩] "int"
    [.cond (.binary .less (.name "n") (.literal (.int 1)))
        (.block [.ret (some (.literal (.int 0)))]) none,
      .ret (some (.call (.name "f") [.binary .sub (.name "n") (.literal (.int 1))]))],
    .expr (.call (.name "f") [.literal (.int 1)])]

/-- The outer call is carried out after two instructions and returns after nineteen; the function has
called itself and returned in between. -/
theorem descent_returns : ∃ s u v,
    stateAfter .standard .empty (compiled .empty descent) (State.initial .empty).restart 2 = some s ∧
    stateAfter .standard .empty (compiled .empty descent) (State.initial .empty).restart 19 = some u ∧
    stateAfter .standard .empty (compiled .empty descent) (State.initial .empty).restart 20 = some v ∧
    v.ip = s.ip + 1 ∧ v.fp = s.fp ∧ v.stack.size = s.stack.size ∧
    (∀ i, i < s.stack.size - argumentsAt (compiled .empty descent) s.ip →
      topVariables (compiled .empty descent) ≤ i → v.stack[i]? = s.stack[i]?) ∧
    ReturnValue (compiled .empty descent) u v.returned := by
  have hcompile : (compile .empty descent).isOk = true := by decide +kernel
  let after (n : Nat) : Option State :=
    stateAfter .standard .empty (compiled .empty descent) (State.initial .empty).restart n
  have hs : after 2 = some ⟨#[.int 1], 2, 0, .null, .empty, ""⟩ := by decide +kernel
  have hu : after 19 = some ⟨#[.int 1, .int 0, .int 3, .int 0], 18, 3, .int 0, .empty, ""⟩ := by
    decide +kernel
  have hbetween : ∀ i, i < 19 → 2 < i → (after i).all (fun v =>
      v.fp != 3 || !returnsAt (compiled .empty descent) v.ip) = true := by decide +kernel
  have hcall : CallReturns (compiled .empty descent) .standard .empty (State.initial .empty).restart 2 19
      ⟨#[.int 1], 2, 0, .null, .empty, ""⟩
      ⟨#[.int 1, .int 0, .int 3, .int 0], 18, 3, .int 0, .empty, ""⟩ := by
    refine ⟨hs, by decide +kernel, by decide, hu, by decide +kernel, rfl, fun i v hlow hhigh hv hfp => ?_⟩
    have := (Option.all_eq_true _ _).1 (hbetween i hhigh hlow) v hv
    simpa [show v.fp = 3 from hfp] using this
  obtain ⟨v, hv, hend⟩ := call_returns (by decide) (compile_eq_compiled hcompile) hcall nofun
  exact ⟨_, _, v, hs, hu, hv, hend⟩

end StackScript.Machine
