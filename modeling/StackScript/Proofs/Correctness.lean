import StackScript.Proofs.Runs
import StackScript.Proofs.StmtMeaning

/-!
# Correctness of compiled programs

* `RunsTo`: how a run ends.  It ends in one way only (`RunsTo.unique`).
* `evaluate_followed`: from its start on, the machine does what the evaluation of a program says.
* `compile_correct`: a program without calls and functions means the same on the machine and in direct
  evaluation, where the height of the stack allows the run.
-/

namespace StackScript.Syntax

mutual

/-- A statement without functions has none in a wrong place. -/
theorem listed_of_bodies : (s : Stmt) → s.bodies = [] → s.isFunction = false ∧ s.functionsListed = true
  | .function .., h => by simp [Stmt.bodies] at h
  | .block body, h => by
    rw [Stmt.bodies] at h
    exact ⟨rfl, allListed_of_bodies body h⟩
  | .cond _ yes no, h => by
    rw [Stmt.bodies, List.append_eq_nil_iff] at h
    refine ⟨rfl, ?_⟩
    simp [Stmt.functionsListed, listed_of_bodies yes h.1, bodyListed_of_bodies no h.2]
  | .loop initial _ _ body, h => by
    rw [Stmt.bodies, List.append_eq_nil_iff] at h
    refine ⟨rfl, ?_⟩
    simp [Stmt.functionsListed, bodyListed_of_bodies initial h.1, bodyListed_of_bodies body h.2]
  | .declare _, _ | .expr _, _ | .brk _, _ | .ret _, _ | .empty, _ => ⟨rfl, rfl⟩

theorem allListed_of_bodies : (body : List Stmt) → bodiesAll body = [] → allListed body = true
  | [], _ => rfl
  | s :: rest, h => by
    rw [bodiesAll, List.append_eq_nil_iff] at h
    simp [allListed, listed_of_bodies s h.1, allListed_of_bodies rest h.2]

theorem bodyListed_of_bodies : (s : Option Stmt) → bodies? s = [] → bodyListed s = true
  | none, _ => rfl
  | some s, h => by
    rw [bodies?] at h
    simp [bodyListed, listed_of_bodies s h]

end

end StackScript.Syntax

namespace StackScript.Machine

open Bytecode Host

/-! ### How a run ends -/

/-- Does a run end because its stack gets too high, for its limit or for the address of a cell? -/
def overflows : Attempt Outcome → Bool
  | .done ⟨.error f, _⟩ => f.isOverflow
  | .panicked => true
  | .done ⟨.ok _, _⟩ | .unfinished => false

section Runs

variable (limits : Limits) (environment : Environment) (program : Program)

/-- A run from a state ends with this value or fault, and leaves this of the world. -/
def RunsTo (s : State) (result : Except Fault Value) (w : World) : Prop :=
  ∃ count o, run limits environment program count s = .done o ∧
    o.result.mapError Fault.unplaced = result ∧ o.state.world = w

end Runs

section Runs

variable {limits : Limits} {environment : Environment} {program : Program} {s : State}
  {count count' : Nat} {o o' : Outcome}

/-- A run that has ended stays as it is. -/
theorem runFrom_more {executed : Nat} (more : Nat)
    (h : runFrom limits environment program count executed s ≠ .unfinished) :
    runFrom limits environment program (count + more) executed s =
      runFrom limits environment program count executed s := by
  induction count generalizing executed s with
  | zero => exact absurd rfl h
  | succ count ih =>
    rw [Nat.succ_add, runFrom, runFrom]
    rw [runFrom] at h
    cases ha : advance limits environment program executed s with
    | running t =>
      rw [ha] at h
      exact ih h
    | _ => rfl

theorem run_more (more : Nat) (h : run limits environment program count s ≠ .unfinished) :
    run limits environment program (count + more) s = run limits environment program count s := by
  unfold run at h ⊢
  split
  · next hc =>
    rw [if_pos hc] at h
    exact runFrom_more more h
  · rfl

/-- A run ends in one way only. -/
theorem run_ended (h : run limits environment program count s ≠ .unfinished)
    (h' : run limits environment program count' s ≠ .unfinished) :
    run limits environment program count s = run limits environment program count' s := by
  rw [← run_more count' h, ← run_more count h', Nat.add_comm]

theorem run_unique (h : run limits environment program count s = .done o)
    (h' : run limits environment program count' s = .done o') : o = o' := by
  have hsame := run_ended (by rw [h]; exact nofun) (by rw [h']; exact nofun)
  rw [h, h'] at hsame
  exact Attempt.done.inj hsame

theorem RunsTo.unique {result result' : Except Fault Value} {w w' : World}
    (h : RunsTo limits environment program s result w)
    (h' : RunsTo limits environment program s result' w') : result = result' ∧ w = w' := by
  obtain ⟨count, o, ho, rfl, rfl⟩ := h
  obtain ⟨count', o', ho', rfl, rfl⟩ := h'
  obtain rfl := run_unique ho ho'
  exact ⟨rfl, rfl⟩

/-- The stack of a run that ends otherwise never gets too high. -/
theorem not_overflows_of_done (h : run limits environment program count s = .done o)
    (ho : overflows (.done o) = false) (other : Nat) :
    overflows (run limits environment program other s) = false := by
  by_cases hend : run limits environment program other s = .unfinished
  · rw [hend]
    rfl
  · rwa [← run_more count hend, Nat.add_comm, run_more other (by rw [h]; exact nofun), h]

end Runs

end StackScript.Machine

namespace StackScript.Evaluation

open Typing Bytecode Host Syntax Machine Assembly

variable {limits : Limits} {L : Layout} {s : State}

/-! ### The start of a program -/

theorem slots_null (top : Nat) (F : Array String) :
    slots top F (fun _ => .null) = Array.replicate top .null := by
  ext i hi hi'
  · simp
  · simp only [slots, Array.getElem_ofFn, Array.getElem_replicate]
    cases F[i]? <;> rfl

/-- A program starts with the room for its variables. -/
theorem Leads.start (hfuel : limits.fuel = none) (F : Array String)
    (has : L.Has 0 ⟨.allocStack, .int (L.top : Nat)⟩) :
    Leads limits L (· = place L F ⟨fun _ => .null, s.restart.world⟩ #[] 1) s.restart := by
  have hstep : Exec.step limits L.environment .allocStack (.int (L.top : Nat)) =
      Exec.perform limits L.environment .allocStack (.int (L.top : Nat)) >>= fun _ => pure .next := rfl
  have hstep := congrFun hstep s.restart
  by_cases hroom : limits.maxStack < s.restart.stack.size + L.top
  · have hperform : Exec.perform limits L.environment .allocStack (.int (L.top : Nat)) s.restart =
        .error (.stackOverflow limits.maxStack) s.restart := by
      unfold Exec.perform
      dsimp only
      rw [bind_ok (countOperand_eq _ _ _), bind_get, if_pos hroom]
      rfl
    rw [bind_error hperform] at hstep
    have hnext := next_of_has (s := s.restart) hfuel has
    rw [hstep] at hnext
    exact .overflow (hnext ▸ rfl)
  · have hperform : Exec.perform limits L.environment .allocStack (.int (L.top : Nat)) s.restart =
        .ok () { s.restart with stack := s.restart.stack ++ Array.replicate L.top .null } := by
      unfold Exec.perform
      dsimp only
      rw [bind_ok (countOperand_eq _ _ _), bind_get, if_neg hroom]
      rfl
    rw [bind_ok hperform] at hstep
    refine Leads.next hfuel has hstep (.here ?_)
    simp [place, slots_null, World.state, State.world, State.restart]

/-! ### The machine does what a program means -/

/-- From a state on, the machine comes to the end of an evaluation; where that goes round too often,
the machine goes on for `n` instructions. -/
def Ending.Followed (limits : Limits) (L : Layout) (n : Nat) (s : State) : Ending → Prop
  | .ended (.ok v) w => Leads limits L (Stops limits L v w) s
  | .ended (.error f) w => Leads limits L (Fails limits L f w) s
  | .unfinished => Lasts limits L n s
  | .meaningless => False

/-- The machine does what the program means, from its start on. -/
theorem evaluate_followed {body : List Stmt} (hfuel : limits.fuel = none) (hcode : ProgramCode L body)
    (hcalls : everyAll Expr.plain body = true) (hfunctions : bodiesAll body = []) (n : Nat) :
    (evaluate limits L.environment n body s.restart.world).Followed limits L n s.restart := by
  obtain ⟨c, q, kept, hhoists, htop, -, hend⟩ := hcode.main
  obtain rfl := eq_of_hoists hhoists hfunctions
  obtain ⟨F, -, hfollows⟩ := top_follows hfuel htop .empty hfunctions hcalls fun hk => by
    rcases hend with ⟨hkept, -⟩ | ⟨-, null, -⟩
    · exact absurd (hk.symm.trans hkept) Bool.false_ne_true
    · exact null
  have hterm : L.Has (if kept then q else q + 1) ⟨.term, .none⟩ := by
    rcases hend with ⟨rfl, term, -⟩ | ⟨rfl, -, term, -⟩ <;> exact term
  have hprogram := (hfollows n ⟨fun _ => .null, s.restart.world⟩).before (Leads.start hfuel F hcode.room)
  unfold Follows at hprogram
  unfold evaluate
  rcases hr : program limits L.environment n [[]] body ⟨fun _ => .null, s.restart.world⟩
    with ⟨v, μ⟩ | ⟨f | more | v | _ | _, μ⟩
  all_goals
    have hprogram : Agrees limits L F n [] _ s.restart (program limits L.environment n [[]] body _) :=
      hprogram
    rw [hr] at hprogram
  · exact Leads.bind hprogram fun _ ht => ht ▸ Leads.stop hfuel hterm
  · exact hprogram
  · obtain ⟨_, hexit, -⟩ := hprogram
    cases hexit
  · exact hprogram
  · exact hprogram
  · exact hprogram

/-! ### Runs and what the machine comes to -/

section Runs

variable {P : State → Prop} {Q : Outcome → Prop} {count executed n : Nat} {o : Outcome}
  (hfuel : limits.fuel = none)
include hfuel

/-- Without a limit for the instructions it does not matter how many are behind. -/
theorem advance_next : advance limits L.environment L.program executed s = next limits L s := by
  simp only [next, advance, hfuel, Option.filter_none]

theorem runFrom_running {t : State} (h : next limits L s = .running t) :
    runFrom limits L.environment L.program (count + 1) executed s =
      runFrom limits L.environment L.program count (executed + 1) t := by
  rw [runFrom, advance_next hfuel, h]

theorem runFrom_halted {t : State} (h : next limits L s = .halted t) :
    runFrom limits L.environment L.program (count + 1) executed s = .done (finish t) := by
  rw [runFrom, advance_next hfuel, h]

theorem runFrom_failed {f : Fault} {t : State} (h : next limits L s = .failed f t) :
    runFrom limits L.environment L.program (count + 1) executed s = .done ⟨.error f, t⟩ := by
  rw [runFrom, advance_next hfuel, h]

theorem runFrom_overflows (h : (next limits L s).overflows = true) :
    overflows (runFrom limits L.environment L.program (count + 1) executed s) = true := by
  rw [runFrom, advance_next hfuel]
  cases hn : next limits L s with
  | failed f t =>
    rw [hn] at h
    exact h
  | panicked t => rfl
  | running t | halted t =>
    rw [hn] at h
    cases h

/-- A run that comes to a state where it ends does end, there or because its stack gets too high. -/
theorem Leads.ends (h : Leads limits L P s)
    (hP : ∀ t, P t → ∀ executed, ∃ o, runFrom limits L.environment L.program 1 executed t = .done o ∧ Q o)
    (executed : Nat) : ∃ count, (∃ o, runFrom limits L.environment L.program count executed s = .done o ∧ Q o) ∨
      overflows (runFrom limits L.environment L.program count executed s) = true := by
  induction h generalizing executed with
  | here h => exact ⟨1, .inl (hP _ h executed)⟩
  | step h _ ih =>
    obtain ⟨count, hend⟩ := ih (executed + 1)
    rw [← runFrom_running hfuel h] at hend
    exact ⟨count + 1, hend⟩
  | overflow high => exact ⟨1, .inr (runFrom_overflows hfuel high)⟩

/-- A run that lasts for so many instructions does not end before, unless its stack gets too high. -/
theorem Lasts.unfinished (h : Lasts limits L n s) (k : Nat) :
    runFrom limits L.environment L.program n k s = .unfinished ∨
      overflows (runFrom limits L.environment L.program n k s) = true := by
  induction n generalizing s k with
  | zero => exact .inl rfl
  | succ n ih =>
    rcases h with ⟨s', hs, hlasts⟩ | high
    · rw [runFrom_running hfuel hs]
      exact ih hlasts _
    · exact .inr (runFrom_overflows hfuel high)

theorem Stops.ends {v : Value} {w : World} (h : Stops limits L v w s) (executed : Nat) :
    ∃ o, runFrom limits L.environment L.program 1 executed s = .done o ∧
      o.result.mapError Fault.unplaced = .ok v ∧ o.state.world = w := by
  obtain ⟨t, ht, hv, rfl⟩ := h
  refine ⟨finish t, runFrom_halted hfuel ht, ?_, rfl⟩
  simp [finish, hv, Except.mapError]

theorem Fails.ends {f : Fault} {w : World} (h : Fails limits L f w s) (executed : Nat) :
    ∃ o, runFrom limits L.environment L.program 1 executed s = .done o ∧
      o.result.mapError Fault.unplaced = .error f ∧ o.state.world = w := by
  obtain ⟨g, t, ht, rfl, rfl⟩ := h
  exact ⟨⟨.error g, t⟩, runFrom_failed hfuel ht, rfl, rfl⟩

/-- A run follows an evaluation that ends. -/
theorem Ending.Followed.ends {result : Except Fault Value} {w : World}
    (h : (Ending.ended result w).Followed limits L n s) :
    ∃ count, (∃ o, runFrom limits L.environment L.program count 0 s = .done o ∧
        o.result.mapError Fault.unplaced = result ∧ o.state.world = w) ∨
      overflows (runFrom limits L.environment L.program count 0 s) = true := by
  cases result with
  | ok v => exact Leads.ends hfuel h (fun _ ht => Stops.ends hfuel ht) 0
  | error f => exact Leads.ends hfuel h (fun _ ht => Fails.ends hfuel ht) 0

end Runs

/-! ### The main result -/

/-- A program without calls and functions ends on the machine as it does in direct evaluation: with the
same value or the same fault, and it leaves the same heap and the same output.  It runs forever if in
direct evaluation some loop goes round more often than any number says.  There is no limit for the
number of instructions, and the stack does not get too high. -/
theorem compile_correct {environment : Environment} {body : List Stmt} {program : Program}
    (hcalls : everyAll Expr.plain body = true) (hfunctions : bodiesAll body = [])
    (hcompile : compile environment body = .ok program) (hfuel : limits.fuel = none)
    (hheight : ∀ count, overflows (run limits environment program count s) = false) :
    (∀ result w, RunsTo limits environment program s result w ↔
      ∃ n, evaluate limits environment n body s.restart.world = .ended result w) ∧
    ((∀ count, run limits environment program count s = .unfinished) ↔
      ∀ n, evaluate limits environment n body s.restart.world = .unfinished) := by
  obtain ⟨L, rfl, rfl, hcode⟩ :=
    code_of_compile (steadyProgram_of_listed (allListed_of_bodies body hfunctions)) hcompile
  have hfollowed := evaluate_followed (s := s) hfuel hcode hcalls hfunctions
  have hrun : ∀ count, run limits L.environment L.program count s =
      runFrom limits L.environment L.program count 0 s.restart := fun count => by
    rw [run, hcode.version, if_pos (by decide)]
  -- An evaluation that ends is followed by a run that does, in the same way.
  have hended : ∀ n result w, evaluate limits L.environment n body s.restart.world = .ended result w →
      RunsTo limits L.environment L.program s result w := fun n result w he => by
    have h := hfollowed n
    rw [he] at h
    obtain ⟨count, ⟨o, ho, hsame⟩ | hover⟩ := h.ends hfuel
    · exact ⟨count, o, (hrun count).trans ho, hsame⟩
    · rw [← hrun count, hheight count] at hover
      cases hover
  -- An evaluation that is not finished within `n` rounds leaves the run going on for so long.
  have hgoing : ∀ n, evaluate limits L.environment n body s.restart.world = .unfinished →
      run limits L.environment L.program n s = .unfinished := fun n he => by
    have h := hfollowed n
    rw [he] at h
    rcases h.unfinished hfuel 0 with ho | hover
    · exact (hrun n).trans ho
    · rw [← hrun n, hheight n] at hover
      cases hover
  -- there is no third case, since the code of the program is the code of its tree
  have hcases : ∀ n, (∃ result w, evaluate limits L.environment n body s.restart.world = .ended result w) ∨
      evaluate limits L.environment n body s.restart.world = .unfinished := fun n => by
    have h := hfollowed n
    cases he : evaluate limits L.environment n body s.restart.world with
    | ended result w => exact .inl ⟨result, w, rfl⟩
    | unfinished => exact .inr rfl
    | meaningless =>
      rw [he] at h
      exact h.elim
  refine ⟨fun result w => ⟨fun hto => ?_, fun ⟨n, he⟩ => hended n result w he⟩, fun hnone n => ?_,
    fun hall count => hgoing count (hall count)⟩
  · obtain ⟨count, o, ho, -⟩ := id hto
    rcases hcases count with ⟨result', w', he⟩ | he
    · obtain ⟨rfl, rfl⟩ := hto.unique (hended count result' w' he)
      exact ⟨count, he⟩
    · exact absurd (hgoing count he) (by simp [ho])
  · rcases hcases n with ⟨result, w, he⟩ | he
    · obtain ⟨count, o, ho, -⟩ := hended n result w he
      exact absurd (hnone count) (by simp [ho])
    · exact he

/-- A loop that is left from within another one:

    let total: int = 0;
    for (let i: int = 0; true; ++i) { while (true) { if (i == 3) break 2; total += i; break; } }
    total * 2;
-/
def nestedBreak : List Stmt :=
  [.declare ⟨"total", some (.literal (.int 0)), false, "int"⟩,
    .loop (some (.declare ⟨"i", some (.literal (.int 0)), false, "int"⟩)) (some (.literal (.bool true)))
      (some (.unary .increment .before (.name "i")))
      (some (.block [.loop none (some (.literal (.bool true))) none (some (.block
        [.cond (.binary .equal (.name "i") (.literal (.int 3))) (.brk 2) none,
          .expr (.assign .add (.name "total") (.name "i")),
          .brk 1]))])),
    .expr (.binary .mul (.name "total") (.literal (.int 2)))]

/-- Its direct evaluation ends with the value that the machine computes. -/
theorem nestedBreak_means : ∃ n w,
    evaluate ⟨none, 100, 8⟩ .empty n nestedBreak (State.initial .empty).restart.world =
      .ended (.ok (.int 6)) w := by
  have hcompile : (compile .empty nestedBreak).isOk = true := by decide +kernel
  have hrun : (run ⟨none, 100, 8⟩ .empty (compiled .empty nestedBreak) 200 (.initial .empty)).done?.any
      (·.result.toOption == some (.int 6)) = true := by decide +kernel
  obtain ⟨⟨result, t⟩, ho, hvalue⟩ := (Option.any_eq_true _ _).1 hrun
  have ho := Attempt.eq_done ho
  obtain rfl : result = .ok (.int 6) := by
    cases result with
    | ok v => exact congrArg _ (Option.some.inj (eq_of_beq hvalue))
    | error f => cases hvalue
  have hto : RunsTo ⟨none, 100, 8⟩ .empty (compiled .empty nestedBreak) (.initial .empty) (.ok (.int 6))
      t.world := ⟨200, _, ho, rfl, rfl⟩
  obtain ⟨n, he⟩ := ((compile_correct (by decide) (by decide) (compile_eq_compiled hcompile) rfl
    (not_overflows_of_done ho rfl)).1 _ _).1 hto
  exact ⟨n, t.world, he⟩

end StackScript.Evaluation
