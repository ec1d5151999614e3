import StackScript.Proofs.Activations
import StackScript.Proofs.ProgramWriting

/-!
# Runs of compiled programs

* `stateAfter`: the state of a run after so many instructions.
* `running_after`: in a run of a compiled program, code fits in every state.
* `compiled_run_fits`: no run of a compiled program fails because its code does not fit together.
-/

namespace StackScript.Machine

open Bytecode Host Assembly Syntax

/-- The state of a run after so many instructions, if it has not ended before. -/
def stateAfter (limits : Limits) (environment : Environment) (program : Program) (start : State) :
    Nat → Option State
  | 0 => some start
  | n + 1 =>
    match stateAfter limits environment program start n with
    | none => none
    | some s =>
      match advance limits environment program n s with
      | .running s' => some s'
      | _ => none

section Runs

variable {limits : Limits} {environment : Environment} {program : Program} {start s : State} {n : Nat}

theorem stateAfter_succ {s' : State} (h : stateAfter limits environment program start (n + 1) = some s') :
    ∃ s, stateAfter limits environment program start n = some s ∧
      advance limits environment program n s = .running s' := by
  rw [stateAfter] at h
  split at h
  · cases h
  · next s hs =>
    split at h
    · next t ht =>
      obtain rfl := Option.some.inj h
      exact ⟨s, hs, ht⟩
    · cases h

/-- A run that ends has a last state, and ends with what the next instruction does there. -/
theorem runFrom_ends {count : Nat} {o : Outcome}
    (hs : stateAfter limits environment program start n = some s)
    (h : runFrom limits environment program count n s = .done o) :
    ∃ m u, stateAfter limits environment program start m = some u ∧
      ((∃ t, advance limits environment program m u = .halted t ∧ o = finish t) ∨
        ∃ f t, advance limits environment program m u = .failed f t ∧ o = ⟨.error f, t⟩) := by
  induction count generalizing n s with
  | zero => cases h
  | succ count ih =>
    rw [runFrom] at h
    split at h
    · next t ht =>
      refine ih ?_ h
      rw [stateAfter, hs]
      dsimp only
      rw [ht]
    · next t ht => exact ⟨n, s, hs, .inl ⟨t, ht, (Attempt.done.inj h).symm⟩⟩
    · next f t ht => exact ⟨n, s, hs, .inr ⟨f, t, ht, (Attempt.done.inj h).symm⟩⟩
    · cases h

end Runs

/-! ### Runs of code that fits -/

section Running

variable {L : Layout} {strict : Prop} {limits : Limits} {environment : Environment} {start s s' : State}
  {n : Nat}

/-- The next instruction of a run is there, and what it does goes on with code that fits. -/
theorem Running.stepped {A : Activation} {rest : List Activation} (hr : Running L strict s A rest)
    (hcallable : Callable L strict) (limits : Limits) (environment : Environment) :
    ∃ op x, L.Has s.ip ⟨op, x⟩ ∧
      Meets strict (GoesOn L strict s A rest) (Exec.step limits environment op x s) := by
  obtain ⟨size, hsize, hstands⟩ := hr.stands
  generalize hip : s.ip = a at hstands
  cases hstands with
  | entering room fits =>
    rw [← hip] at room fits
    exact ⟨_, _, hip ▸ room, hr.enters hsize room fits⟩
  | inside fits =>
    rw [← hip] at fits
    exact hip ▸ hr.steps hcallable hsize fits

/-- The next instruction of a run goes on with code that fits. -/
theorem Running.advances {A : Activation} {rest : List Activation} (hr : Running L strict s A rest)
    (hcallable : Callable L strict) (limits : Limits) (environment : Environment) (n : Nat) :
    (advance limits environment L.program n s).Meets strict (GoesOn L strict s A rest) := by
  obtain ⟨op, x, has, hmeets⟩ := hr.stepped hcallable limits environment
  exact meets_advance has hmeets

/-- In all states of a run of a program whose code fits, one of the calls runs. -/
theorem running_after {A : Activation} {rest : List Activation} (hr : Running L strict start A rest)
    (hcallable : Callable L strict) (h : stateAfter limits environment L.program start n = some s) :
    ∃ A rest, Running L strict s A rest := by
  induction n generalizing s with
  | zero =>
    obtain rfl := Option.some.inj h
    exact ⟨A, rest, hr⟩
  | succ n ih =>
    obtain ⟨u, hu, hnext⟩ := stateAfter_succ h
    obtain ⟨B, others, hrun⟩ := ih hu
    have hmeets := hrun.advances hcallable limits environment n
    rw [hnext] at hmeets
    obtain ⟨C, more, -, hrun'⟩ := hmeets
    exact ⟨C, more, hrun'⟩

end Running

/-! ### Compiled programs -/

/-- The top level, as a call that never returns. -/
def topCall (L : Layout) : Activation := ⟨⟨0, L.top⟩, 0, L.stop 0, 0⟩

section Compiled

variable {setting : Setting} {body : List Stmt} {program : Program} {strict : Prop} {ok : Expr → Bool}

/-- What holds in all expressions of a program holds in those of its functions. -/
theorem everyAll_functions {ok : Expr → Bool} (hevery : everyAll ok body = true) {f : Function}
    (hf : f ∈ programFunctions body) : everyAll ok f.body = true := by
  rcases List.mem_cons.1 hf with rfl | hf
  · exact hevery
  · refine everyAll_bodies body hevery f.code ?_
    rw [← functionsAll_code]
    exact List.mem_map_of_mem hf

/-- The functions of a program that has the shape of its tree fit. -/
theorem callable_of_code {L : Layout} (hcode : ProgramCode L body) (hok : Demands strict ok)
    (hevery : everyAll ok body = true) : Callable L strict := by
  intro i hi hlt
  have hf := List.getElem?_eq_getElem (hcode.count ▸ hlt)
  obtain ⟨hparams, hfunction⟩ := hcode.functions i _ hi hf
  rw [hparams]
  exact hfunction.fits hok (everyAll_functions hevery (List.mem_of_getElem? hf))

/-- A run of a program that has the shape of its tree starts with code that fits. -/
theorem running_of_code {L : Layout} (hcode : ProgramCode L body) (hok : Demands strict ok)
    (hevery : everyAll ok body = true) (s : State) :
    Running L strict s.restart (topCall L) [] :=
  ⟨.top rfl rfl, rfl, 0, rfl, .entering hcode.room (hcode.fits hok hevery)⟩

/-- The calls of a compiled program lead to code that fits, and so does its start. -/
theorem fits_of_compile (hsteady : SteadyProgram body)
    (hcompile : compileWith setting body = .ok program) (hok : Demands strict ok)
    (hevery : everyAll ok body = true) :
    ∃ L : Layout, L.program = program ∧ L.Has 0 ⟨.allocStack, .int (L.top : Nat)⟩ ∧
      Callable L strict ∧ ∀ s : State, ∃ A, Running L strict s.restart A [] := by
  obtain ⟨L, hprogram, -, hcode⟩ := code_of_compile hsteady hcompile
  exact ⟨L, hprogram, hcode.room, callable_of_code hcode hok hevery, fun s =>
    ⟨_, running_of_code hcode hok hevery s⟩⟩

/-- No run of a compiled program ends because its code does not fit together. -/
theorem compiled_run_fits {environment host : Environment} (hlisted : allListed body = true)
    (hindexed : everyAll Expr.indexed body = true) (hcompile : compile environment body = .ok program)
    (limits : Limits) (count : Nat) (s : State) {f : Fault} {t : State}
    (hrun : run limits host program count s = .done ⟨.error f, t⟩) : f.structural = false := by
  have hdemands : Demands True Expr.indexed := ⟨fun _ _ _ => rfl, fun _ _ h => h⟩
  obtain ⟨L, rfl, -, hcallable, hstart⟩ :=
    fits_of_compile (steadyProgram_of_listed hlisted) hcompile hdemands hindexed
  obtain ⟨A, hr⟩ := hstart s
  unfold run at hrun
  split at hrun
  · obtain ⟨m, u, hu, hend⟩ := @runFrom_ends _ _ _ s.restart _ _ _ _ rfl hrun
    obtain ⟨B, others, hrun⟩ := running_after hr hcallable hu
    have hmeets := hrun.advances hcallable limits host m
    rcases hend with ⟨v, -, ho⟩ | ⟨g, v, hv, ho⟩
    · exact absurd (congrArg Outcome.result ho) nofun
    · rw [hv] at hmeets
      obtain rfl := Except.error.inj (congrArg Outcome.result ho)
      exact hmeets trivial
  · obtain rfl := Except.error.inj (congrArg Outcome.result (Attempt.done.inj hrun))
    rfl

end Compiled

/-- The program that a tree compiles to, if it does. -/
def compiled (environment : Environment) (body : List Stmt) : Program :=
  match compile environment body with
  | .ok program => program
  | .error _ => .ofCode #[]

theorem compile_eq_compiled {environment : Environment} {body : List Stmt}
    (h : (compile environment body).isOk = true) :
    compile environment body = .ok (compiled environment body) := by
  unfold compiled
  cases hc : compile environment body with
  | ok program => rfl
  | error e =>
    rw [hc] at h
    cases h

/-- A function that calls itself without end, from within a division, and changes a variable of the top
level and an element of a list on the way:

    let total: int = 6;
    function f(n: int): int { let a = [n]; a[0] = total; --total; return f(n - 1) / n; }
    f(1);
-/
def endlessDescent : List Stmt :=
  [.declare ⟨"total", some (.literal (.int 6)), false, "int"⟩,
    .function "f" [⟨"n", "int"⟩] "int"
      [.declare ⟨"a", some (.array [.name "n"]), false, "any"⟩,
        .expr (.assign .set (.index (.name "a") [.literal (.int 0)]) (.name "total")),
        .expr (.unary .decrement .before (.name "total")),
        .ret (some (.binary .div
          (.call (.name "f") [.binary .sub (.name "n") (.literal (.int 1))]) (.name "n")))],
    .expr (.call (.name "f") [.literal (.int 1)])]

/-- The stack gets too high at last, which is no fault of the code. -/
theorem endlessDescent_fits : ∃ f t,
    run ⟨none, 30, 8⟩ .empty (compiled .empty endlessDescent) 200 (.initial .empty) = .done ⟨.error f, t⟩ ∧
      f.structural = false := by
  have hcompile : (compile .empty endlessDescent).isOk = true := by decide +kernel
  have hrun : (run ⟨none, 30, 8⟩ .empty (compiled .empty endlessDescent) 200 (.initial .empty)).done?.any
      (fun o => !o.result.isOk) = true := by decide +kernel
  obtain ⟨⟨result, t⟩, ho, hfailed⟩ := (Option.any_eq_true _ _).1 hrun
  have ho := Attempt.eq_done ho
  cases result with
  | ok v => cases hfailed
  | error f =>
    exact ⟨f, t, ho, compiled_run_fits (by decide) (by decide) (compile_eq_compiled hcompile) _ _ _ ho⟩

end StackScript.Machine
