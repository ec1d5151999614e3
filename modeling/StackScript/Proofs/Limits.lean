import StackScript.Proofs.OwnFaults
import StackScript.Proofs.Runs

/-!
# Limits only cut runs short

A run with more fuel, a higher stack or longer lists goes as the run with less, up to the place where
the run with less stops at a limit.

* `EndsAlike`: two computations end alike, unless the first one stops at a limit.
* `advance_endsAlike`: an instruction under tighter and under wider limits.
* `limits_cut_short`: the whole run, and when it is out of fuel.
-/

namespace StackScript.Machine

open Bytecode Host

/-- Does the fault say that a limit is reached? -/
def Fault.isLimit : Fault → Bool
  | .outOfFuel _ | .stackOverflow _ | .listTooLong _ _ => true
  | _ => false

/-- Every limit is at most the other's.  No limit on fuel is the largest one. -/
structure Limits.AtMost (l m : Limits) : Prop where
  fuel : ∀ n, m.fuel = some n → ∃ k ≤ n, l.fuel = some k
  stack : l.maxStack ≤ m.maxStack
  list : l.maxListLen ≤ m.maxListLen

/-! ### Ending alike -/

/-- The first ends as the second does, or stops at a limit. -/
def GivesAlike {α : Type} (x y : Except Fault α) : Prop :=
  x = y ∨ ∃ f, x = .error f ∧ f.isLimit = true

theorem GivesAlike.bind {α β : Type} (x : Except Fault α) {f g : α → Except Fault β}
    (hf : ∀ a, GivesAlike (f a) (g a)) : GivesAlike (x >>= f) (x >>= g) := by
  cases x with
  | ok a => exact hf a
  | error e => exact .inl rfl

/-- From every state, the first computation ends as the second does, or stops at a limit. -/
def EndsAlike {α : Type} (x y : Exec α) : Prop :=
  ∀ s, x s = y s ∨ ∃ f t, x s = .error f t ∧ f.isLimit = true

namespace EndsAlike

variable {α β : Type}

theorem refl (x : Exec α) : EndsAlike x x := fun _ => .inl rfl

theorem bind {x y : Exec α} {f g : α → Exec β} (hx : EndsAlike x y) (hf : ∀ a, EndsAlike (f a) (g a)) :
    EndsAlike (x >>= f) (y >>= g) := by
  intro s
  rcases hx s with hsame | ⟨e, t, he, hlimit⟩
  · cases hy : y s with
    | ok a t =>
      rw [bind_ok (hsame.trans hy), bind_ok hy]
      exact hf a t
    | error e t =>
      rw [bind_error (hsame.trans hy), bind_error hy]
      exact .inl rfl
  · exact .inr ⟨e, t, bind_error he, hlimit⟩

theorem throw {e : Fault} (hlimit : e.isLimit = true) (y : Exec α) : EndsAlike (throw e) y :=
  fun s => .inr ⟨e, s, rfl, hlimit⟩

theorem store {plan plan' : Heap → Except Fault (Ref × Write)}
    (hplan : ∀ heap, GivesAlike (plan heap) (plan' heap)) :
    EndsAlike (Exec.store plan) (Exec.store plan') := by
  refine .bind (.refl _) fun s => ?_
  rcases hplan s.heap with hsame | ⟨f, hf, hlimit⟩
  · rw [hsame]
    exact .refl _
  · rw [hf]
    exact .bind (.throw hlimit _) fun _ => .refl _

theorem encodeAddress (l m : Limits) (address : Nat) :
    EndsAlike (Exec.encodeAddress l address) (Exec.encodeAddress m address) := by
  unfold Exec.encodeAddress
  split
  · exact .refl _
  · exact .throw rfl _

theorem enter (l m : Limits) (target : Nat) : EndsAlike (Exec.enter l target) (Exec.enter m target) :=
  .bind (.refl _) fun _ =>
    .bind (encodeAddress l m _) fun _ => .bind (encodeAddress l m _) fun _ => .refl _

end EndsAlike

/-! ### One instruction -/

section Step

variable {l m : Limits} (h : l.AtMost m)
include h

theorem storeElement_givesAlike (heap : Heap) (v index new : Value) :
    GivesAlike (storeElement heap l.maxListLen v index new)
      (storeElement heap m.maxListLen v index new) := by
  unfold storeElement
  split
  · next r =>
    cases placeOf index with
    | error e => exact .inl rfl
    | ok place =>
      cases place with
      | none => cases index <;> exact .inl rfl
      | some place =>
        have hlist := h.list
        by_cases hgrows : (heap.items r).size ≤ place ∧ l.maxListLen ≤ place
        · right
          exact ⟨.listTooLong place l.maxListLen, if_pos hgrows, rfl⟩
        · left
          exact (if_neg hgrows).trans (if_neg (by omega)).symm
  all_goals exact .inl rfl

theorem perform_endsAlike (environment : Environment) (op : Opcode) (x : Operand) :
    EndsAlike (Exec.perform l environment op x) (Exec.perform m environment op x) := by
  cases op with
  | allocStack =>
    refine .bind (.refl _) fun count => .bind (.refl _) fun s => ?_
    by_cases hhigh : l.maxStack < s.stack.size + count
    · rw [if_pos hhigh]
      exact .throw rfl _
    · have hstack := h.stack
      rw [if_neg hhigh, if_neg (by omega)]
      exact .refl _
  | storeElement w =>
    exact .bind (.refl _) fun _ => .bind (.refl _) fun _ => .store fun heap =>
      storeElement_givesAlike h heap ..
  | updateElement u =>
    refine .bind (.refl _) fun target => .store fun heap => ?_
    refine .bind _ fun old => .bind _ fun new => ?_
    exact storeElement_givesAlike h heap ..
  | loadConst w => cases w <;> exact .refl _
  | _ => exact .refl _

theorem step_endsAlike (environment : Environment) (op : Opcode) (x : Operand) :
    EndsAlike (Exec.step l environment op x) (Exec.step m environment op x) := by
  cases op with
  | term | jump | branchFalse | branchTrue | branchInt _ | ret | retWith _ =>
    exact .refl _
  | callInternal => exact .bind (.refl _) fun target => .enter l m target
  | _ => exact .bind (perform_endsAlike h environment _ x) fun _ => .refl _

end Step

/-! ### Whole runs -/

section Runs

variable {environment : Environment} {program : Program} {l m : Limits}

theorem proceed_endsAlike (h : l.AtMost m) (flow : Flow) (s : State) :
    proceed l flow s = proceed m flow s ∨
      ∃ f t, proceed l flow s = .failed f t ∧ f.isLimit = true := by
  have hchecked (t : State) : proceed.checked l t = proceed.checked m t ∨
      ∃ f u, proceed.checked l t = .failed f u ∧ f.isLimit = true := by
    by_cases hhigh : l.maxStack < t.stack.size
    · exact .inr ⟨.stackOverflow l.maxStack, t, if_pos hhigh, rfl⟩
    · have hstack := h.stack
      exact .inl ((if_neg hhigh).trans (if_neg (by omega)).symm)
  cases flow with
  | halt => exact .inl rfl
  | next => exact hchecked _
  | jump target => exact hchecked _

theorem filter_fuel (h : l.AtMost m) {executed : Nat} (hl : l.fuel.filter (· ≤ executed) = none) :
    m.fuel.filter (· ≤ executed) = none := by
  cases hm : m.fuel with
  | none => rfl
  | some n =>
    obtain ⟨k, hk, hfuel⟩ := h.fuel n hm
    have : ¬k ≤ executed := by simpa [hfuel, Option.filter] using hl
    simp only [Option.filter, decide_eq_true_eq, ite_eq_right_iff]
    omega

/-- An instruction goes the same way under wider limits, unless it stops at a limit. -/
theorem advance_endsAlike (h : l.AtMost m) (executed : Nat) (s : State) :
    advance l environment program executed s =
        advance m environment program executed s ∨
      ∃ f t, advance l environment program executed s = .failed f t ∧
        f.isLimit = true := by
  unfold advance
  split
  · exact .inl rfl
  · exact .inl rfl
  · next op x _ =>
    cases hl : l.fuel.filter (· ≤ executed) with
    | some limit => exact .inr ⟨.outOfFuel limit, s, rfl, rfl⟩
    | none =>
      rw [filter_fuel h hl]
      rcases step_endsAlike h environment op x s with hsame | ⟨f, t, hf, hlimit⟩
      · dsimp only
        rw [hsame]
        split
        · exact proceed_endsAlike h _ _
        · exact .inl rfl
      · right
        dsimp only
        rw [hf]
        refine ⟨f, t, ?_, hlimit⟩
        cases f <;> first | rfl | cases hlimit

/-- A run goes the same way under wider limits, unless it stops at a limit. -/
theorem runFrom_endsAlike (h : l.AtMost m) (count executed : Nat) (s : State) :
    runFrom l environment program count executed s =
        runFrom m environment program count executed s ∨
      ∃ f t, runFrom l environment program count executed s = .done ⟨.error f, t⟩ ∧
        f.isLimit = true := by
  induction count generalizing executed s with
  | zero => exact .inl rfl
  | succ count ih =>
    simp only [runFrom]
    rcases @advance_endsAlike environment program _ _ h executed s with hsame | ⟨f, t, hf, hlimit⟩
    · rw [hsame]
      split
      · exact ih _ _
      all_goals exact .inl rfl
    · rw [hf]
      exact .inr ⟨f, t, rfl, hlimit⟩

/-! ### Out of fuel -/

def Limits.unfuelled (l : Limits) : Limits := { l with fuel := none }

omit environment program in
/-- No instruction looks at the fuel. -/
theorem step_unfuelled (environment : Environment) (op : Opcode) (x : Operand) :
    Exec.step l.unfuelled environment op x =
      Exec.step l environment op x := by
  cases op <;> rfl

theorem advance_unfuelled {n executed : Nat} (hfuel : l.fuel = some n) (hleft : executed < n) (s : State) :
    advance l.unfuelled environment program executed s =
      advance l environment program executed s := by
  have hnone : l.fuel.filter (· ≤ executed) = none := by simp [hfuel, Option.filter, hleft]
  unfold advance
  simp only [step_unfuelled]
  rw [hnone]
  rfl

/-- An instruction for which there is no fuel left is looked up, and is not carried out. -/
theorem advance_outOfFuel {n : Nat} (hfuel : l.fuel = some n) {s t : State} :
    advance l environment program n s = .failed (.outOfFuel n) t ↔
      t = s ∧ ∃ op x, program.code[s.ip]? = some ⟨.known op, x⟩ := by
  have hsome : l.fuel.filter (· ≤ n) = some n := by simp [hfuel, Option.filter]
  unfold advance
  rw [hsome]
  constructor
  · intro h
    split at h
    · cases h
    · cases h
    · next op x hcode =>
      obtain rfl := (Progress.failed.inj h).2
      exact ⟨rfl, op, x, hcode⟩
  · rintro ⟨rfl, op, x, hcode⟩
    rw [hcode]

/-- Without fuel left, no instruction is carried out. -/
theorem advance_spent {n : Nat} (hfuel : l.fuel = some n) (s : State) :
    ∃ f, advance l environment program n s = .failed f s := by
  have hsome : l.fuel.filter (· ≤ n) = some n := by simp [hfuel, Option.filter]
  unfold advance
  rw [hsome]
  split
  · exact ⟨_, rfl⟩
  · exact ⟨_, rfl⟩
  · exact ⟨_, rfl⟩

/-- With fuel left, an instruction does not fail for want of it. -/
theorem advance_fuelled {n executed : Nat} (hleft : ∀ limit, l.fuel = some limit → executed < limit)
    {s t : State} {f : Fault} (h : advance l environment program executed s = .failed f t) :
    f ≠ .outOfFuel n := by
  unfold advance at h
  rw [Limits.spent_eq_none hleft] at h
  split at h
  · cases h
    exact nofun
  · cases h
    exact nofun
  · next op x _ =>
    dsimp only at h
    split at h
    · next flow u _ =>
      have hchecked (v : State) (hv : proceed.checked l v = .failed f t) : f ≠ .outOfFuel n := by
        unfold proceed.checked at hv
        split at hv <;> cases hv
        exact nofun
      cases flow with
      | halt => cases h
      | next => exact hchecked _ h
      | jump target => exact hchecked _ h
    · next e u he =>
      obtain ⟨rfl, rfl⟩ := Progress.eq_of_stopped h
      have hstep := OwnFaults.step l environment s e u he
      rintro rfl
      cases hstep

theorem stateAfter_eq {start s : State} {n : Nat}
    (h : stateAfter l environment program start n = some s) :
    stateAfter l environment program start (n + 1) =
      match advance l environment program n s with
      | .running s' => some s'
      | _ => none := by
  cases hnext : advance l environment program n s <;> simp only [stateAfter, h, hnext]

/-- A run that has ended has no later state. -/
theorem stateAfter_none {start : State} {k n : Nat} (hle : k ≤ n)
    (h : stateAfter l environment program start k = none) :
    stateAfter l environment program start n = none := by
  induction hle with
  | refl => exact h
  | step _ ih => rw [stateAfter, ih]

/-- How a run ends is how it ends behind its next instruction. -/
theorem runFrom_ends_iff {executed : Nat} {s : State} {o : Outcome} :
    (∃ count, runFrom l environment program count executed s = .done o) ↔
      match advance l environment program executed s with
      | .running s' =>
        ∃ count, runFrom l environment program count (executed + 1) s' = .done o
      | .halted s' => finish s' = o
      | .failed f s' => ⟨.error f, s'⟩ = o
      | .panicked _ => False := by
  have hlater : (∃ count, runFrom l environment program count executed s = .done o) ↔
      ∃ count, runFrom l environment program (count + 1) executed s = .done o := by
    refine ⟨fun ⟨count, hrun⟩ => ?_, fun ⟨count, hrun⟩ => ⟨count + 1, hrun⟩⟩
    cases count with
    | zero => cases hrun
    | succ count => exact ⟨count, hrun⟩
  rw [hlater]
  simp only [runFrom]
  cases advance l environment program executed s with
  | running s' => exact Iff.rfl
  | halted s' => simp only [Attempt.done.injEq, exists_const]
  | failed f s' => simp only [Attempt.done.injEq, exists_const]
  | panicked s' => simp only [reduceCtorEq, exists_const]

/-- From a state that the run reaches, it runs out of fuel where the fuel is used up and an instruction
stands. -/
theorem runFrom_outOfFuel {n : Nat} (hfuel : l.fuel = some n) {start t : State} (left : Nat)
    {executed : Nat} {s : State} (hn : executed + left = n)
    (hs : stateAfter l.unfuelled environment program start executed = some s) :
    (∃ count, runFrom l environment program count executed s =
        .done ⟨.error (.outOfFuel n), t⟩) ↔
      stateAfter l.unfuelled environment program start n = some t ∧
        ∃ op x, program.code[t.ip]? = some ⟨.known op, x⟩ := by
  induction left generalizing executed s with
  | zero =>
    -- the fuel is used up here, so the next instruction decides
    obtain rfl : executed = n := hn
    rw [hs, Option.some.injEq, runFrom_ends_iff]
    constructor
    · intro h
      obtain ⟨f, hf⟩ := @advance_spent environment program _ _ hfuel s
      rw [hf] at h
      obtain rfl := Except.error.inj (congrArg Outcome.result h)
      obtain rfl := congrArg Outcome.state h
      exact ⟨rfl, ((advance_outOfFuel hfuel).1 hf).2⟩
    · rintro ⟨rfl, hstands⟩
      rw [(advance_outOfFuel hfuel).2 ⟨rfl, hstands⟩]
  | succ left ih =>
    have hleft : executed < n := by omega
    have hnext := stateAfter_eq hs
    rw [advance_unfuelled hfuel hleft] at hnext
    rw [runFrom_ends_iff]
    cases ha : advance l environment program executed s with
    | running s' =>
      rw [ha] at hnext
      exact ih (by omega) hnext
    | halted s' =>
      rw [ha] at hnext
      rw [stateAfter_none (show executed + 1 ≤ n by omega) hnext]
      exact ⟨fun h => absurd (congrArg Outcome.result h) nofun, fun h => nomatch h.1⟩
    | failed f s' =>
      rw [ha] at hnext
      rw [stateAfter_none (show executed + 1 ≤ n by omega) hnext]
      -- there is fuel left, and the fault is another one
      have hfault := advance_fuelled (n := n) (fun limit hl => by
        obtain rfl := Option.some.inj (hfuel.symm.trans hl)
        exact hleft) ha
      refine ⟨fun h => absurd ?_ hfault, fun h => nomatch h.1⟩
      exact Except.error.inj (congrArg Outcome.result h)
    | panicked s' =>
      rw [ha] at hnext
      rw [stateAfter_none (show executed + 1 ≤ n by omega) hnext]
      exact ⟨False.elim, fun h => nomatch h.1⟩

end Runs

/-- Limits only cut runs short.  A run that does not stop at a limit ends in the same way under any
wider limits, with the same machine behind it, or goes on for ever under both.  And a run with fuel for
`n` instructions is out of fuel exactly when it does not end within `n` instructions without that limit
and an operation stands where it is then. -/
theorem limits_cut_short (environment : Environment) (program : Program) (s : State)
    {l m : Limits} (h : l.AtMost m) :
    (∀ count, (∀ f t, run l environment program count s = .done ⟨.error f, t⟩ →
          f.isLimit = false) →
        run m environment program count s =
          run l environment program count s) ∧
      ∀ n t, l.fuel = some n →
        ((∃ count, run l environment program count s =
            .done ⟨.error (.outOfFuel n), t⟩) ↔
          Program.isCompatible program.version = true ∧
            stateAfter l.unfuelled environment program s.restart n = some t ∧
              ∃ op x, program.code[t.ip]? = some ⟨.known op, x⟩) := by
  unfold run
  constructor
  · intro count hunlimited
    split
    · next hversion =>
      -- the run goes as with more, or a limit ends it
      rcases @runFrom_endsAlike environment program _ _ h count 0 s.restart with hsame | ⟨f, t, hf, hlimit⟩
      · exact hsame.symm
      · rw [if_pos hversion] at hunlimited
        exact absurd hlimit (by rw [hunlimited f t hf]; exact Bool.false_ne_true)
    · rfl
  · intro n t hfuel
    split
    · next hversion =>
      rw [runFrom_outOfFuel hfuel n (Nat.zero_add n) rfl]
      exact (and_iff_right hversion).symm
    · next hversion =>
      refine ⟨?_, fun hends => absurd hends.1 hversion⟩
      rintro ⟨count, hrun⟩
      exact absurd (Except.error.inj (congrArg Outcome.result (Attempt.done.inj hrun))) (by simp)

/-- Stores the third element of an empty list. -/
def writeBehind : Program := .ofCode #[
  ⟨.known (.loadConst .w32), .int 5⟩, ⟨.known .newArray, .int 0⟩, ⟨.known (.loadConst .w32), .int 2⟩,
  ⟨.known (.storeElement .w32), .int 1⟩, ⟨.known .term, .none⟩]

/-- The write goes the same way in twice the space, and a jump to itself uses up all fuel. -/
theorem writeBehind_limits :
    run ⟨none, 6, 6⟩ .empty writeBehind 5 (.initial .empty) =
        run ⟨some 5, 3, 3⟩ .empty writeBehind 5 (.initial .empty) ∧
      ∃ count t, run ⟨some 5, 3, 3⟩ .empty (.ofCode #[⟨.known .jump, .int 0⟩]) count (.initial .empty) =
        .done ⟨.error (.outOfFuel 5), t⟩ := by
  have hatMost : Limits.AtMost ⟨some 5, 3, 3⟩ ⟨none, 6, 6⟩ := ⟨nofun, by decide, by decide⟩
  have hwrite : (run ⟨some 5, 3, 3⟩ .empty writeBehind 5 (.initial .empty)).done?.any
      (fun o => o.result.isOk) = true := by decide +kernel
  have hloop : (stateAfter ⟨none, 3, 3⟩ .empty (.ofCode #[⟨.known .jump, .int 0⟩])
      (.initial .empty) 5).any (fun t => t.ip == 0) = true := by decide +kernel
  constructor
  · refine (limits_cut_short .empty writeBehind (.initial .empty) hatMost).1 5 fun f t hrun => ?_
    rw [hrun] at hwrite
    cases hwrite
  · obtain ⟨t, ht, hstart⟩ := (Option.any_eq_true _ _).1 hloop
    obtain ⟨count, hrun⟩ := ((limits_cut_short .empty (.ofCode #[⟨.known .jump, .int 0⟩])
      (.initial .empty) hatMost).2 5 t rfl).2 ⟨by decide, ht, .jump, .int 0, by rw [eq_of_beq hstart]; rfl⟩
    exact ⟨count, t, hrun⟩

end StackScript.Machine
