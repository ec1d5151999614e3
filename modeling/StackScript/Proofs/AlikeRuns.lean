import StackScript.Host.Builtins
import StackScript.Proofs.Calls
import StackScript.Proofs.Correctness
import StackScript.Proofs.ShadowSteps

/-!
# Programs that run alike

Comparisons merged into branches, and functions in another order, change nothing but where the
instructions of a program stand.  The run of one program is followed by the run of the other one: for
every instruction there is the same instruction, or a comparison and a branch.

* `ShowsNoFunction`: in a run, no function of the program is turned into text.
* `ReturnsAlike`: in a run, the indices that calls save fit at both places or at none.
* `Alongside.step`: one instruction of the first program, and one or two of the second one.
* `RunsAlike`: both runs end alike, or neither of them ends.
* `merged_runs_alike`, `permuted_runs_alike`: what this means for the two ways of compiling a tree, and for
  the orders of its functions.
-/

namespace StackScript

open Machine Host

/-! ### What programs can get at -/

/-- The collections that programs can get at: all new ones, those that the host has bound, and what is in
one of them. -/
inductive Host.Environment.Offers (host : Environment) (h : Heap) : Shape → Ref → Prop
  | new (shape : Shape) {r : Ref} (hr : h.cells.size ≤ r) : host.Offers h shape r
  | bound {name : String} {b : Binding} {shape : Shape} {r : Ref} (hb : host.get? name = some b)
      (hv : b.value = .ref shape r) : host.Offers h shape r
  | member {shape shape' : Shape} {r q : Ref} (hr : host.Offers h shape r)
      (hq : .ref shape' q ∈ (h.cell r).values) : host.Offers h shape' q

/-- The collections that programs can get at. -/
def Host.Environment.region (host : Environment) (h : Heap) : Set (Shape × Ref) := {p | host.Offers h p.1 p.2}

def Value.isFunction : Value → Bool
  | .function _ => true
  | _ => false

/-- The host has no functions of its own.  It has bound no function of a program, and there is none in the
collections that programs can get at. -/
structure Host.Environment.FunctionFree (host : Environment) (h : Heap) : Prop where
  own : host.own = noOwn
  bindings : ∀ name b, host.get? name = some b → b.value.isFunction = false
  cells : ∀ shape r, host.Offers h shape r → ∀ v ∈ (h.cell r).values, v.isFunction = false

section FunctionFree

variable {g : Nat → Nat} {host : Environment} {h : Heap} {v : Value} {r : Ref}

theorem Value.relocate_of_isFunction (hv : v.isFunction = false) : v.relocate g = v := by
  cases v <;> first | rfl | cases hv

theorem Cell.relocate_of_isFunction {c : Cell} (hc : ∀ v ∈ c.values, v.isFunction = false) : c.relocate g = c :=
  (Cell.map_congr fun v hv => Value.relocate_of_isFunction (hc v hv)).trans Cell.map_id

namespace Host.Environment.FunctionFree

variable (hf : host.FunctionFree h)
include hf

theorem settled : Settled g (host.region h) host :=
  ⟨hf.own, fun name b hb =>
    ⟨(Value.relocate_of_isFunction (hf.bindings name b hb)).symm, fun _ _ hv => .bound hb hv⟩⟩

/-- Where there are no functions, it does not matter where they stand. -/
theorem heaps : (Chart.shifted g (host.region h)).Heaps h h where
  size _ := rfl
  cell shape r hr := (Cell.relocate_of_isFunction (hf.cells shape r hr)).symm
  inside _ _ hr _ hw _ _ hv := .member hr (hv ▸ hw)

omit hf in
/-- There are no functions at all. -/
theorem of_all (hown : host.own = noOwn) (hbindings : ∀ p ∈ host.bindings, p.2.value.isFunction = false)
    (hcells : ∀ c ∈ h.cells.toList, ∀ v ∈ c.values, v.isFunction = false) : host.FunctionFree h where
  own := hown
  bindings _ _ hb := hbindings _ (mem_of_lookup hb)
  cells _ r _ := by
    by_cases hlt : r < h.cells.size
    · exact hcells _ (Array.mem_toList_iff.2 (Array.mem_of_getElem? (Heap.getElem?_eq_cell hlt)))
    · rw [Heap.cell_eq_default (Nat.le_of_not_lt hlt)]
      exact nofun

end Host.Environment.FunctionFree

/-- In the environment that every engine starts with, there is no function of a program. -/
theorem functionFree_standard : Host.standard.1.FunctionFree Host.standard.2 :=
  .of_all rfl (by decide +kernel) (by decide +kernel)

end FunctionFree

end StackScript

namespace StackScript.Machine

open Bytecode Host Assembly Syntax

/-! ### Two runs -/

/-- In a run of the program, no function of the program is turned into text. -/
def ShowsNoFunction (limits : Limits) (host : Environment) (program : Program) (start : State) : Prop :=
  ∀ n s op x, stateAfter limits host program start.restart n = some s →
    program.code[s.ip]? = some ⟨.known op, x⟩ → (∀ limit, limits.fuel = some limit → n < limit) →
      HidesFunctions op x s

/-- A call saves the index of the next instruction as an integer of 32 bits, and fails where the index is too
large for that.  In a run of the program, the index behind a call fits wherever its new place does. -/
def ReturnsAlike (g : Nat → Nat) (limits : Limits) (host : Environment) (program : Program) (start : State) : Prop :=
  ∀ n s x, stateAfter limits host program start.restart n = some s →
    program.code[s.ip]? = some ⟨.known .callInternal, x⟩ → (∀ limit, limits.fuel = some limit → n < limit) →
      (s.ip + 1 < 0x80000000 ↔ g s.ip + 1 < 0x80000000)

/-- Short programs have no index that is too large. -/
theorem returnsAlike_of_size {split : Bool} {g : Nat → Nat} {p q : Program} {limits : Limits}
    {host : Environment} {start : State} (h : Relocates split g p q) (hp : p.code.size < 0x80000000)
    (hq : q.code.size < 0x80000000) : ReturnsAlike g limits host p start := by
  intro n s x _ hat _
  have hlt := (Array.getElem?_eq_some_iff.1 hat).1
  have hlt' : g s.ip < q.code.size := by
    cases h.code s.ip _ x hat with
    | same hat' => exact (Array.getElem?_eq_some_iff.1 hat').1
  omega

/-- Two runs have ended alike, but for the places of instructions, or both machines have panicked. -/
inductive StopsAlike (g : Nat → Nat) (region : Set (Shape × Ref)) : Attempt Outcome → Attempt Outcome → Prop
  | done {o o' : Outcome} (h : o.Moved g region o') : StopsAlike g region (.done o) (.done o')
  | panicked : StopsAlike g region .panicked .panicked

/-- Both runs end alike, with functions and failing instructions where the other program has them, or neither
of them ends. -/
inductive RunsAlike (g : Nat → Nat) (region : Set (Shape × Ref)) (limits : Limits) (host : Environment)
    (p q : Program) (start : State) : Prop
  | ends {count count' : Nat}
      (alike : StopsAlike g region (run limits host p count start) (run limits host q count' start))
  | goesOn (left : ∀ count, run limits host p count start = .unfinished)
      (right : ∀ count, run limits host q count start = .unfinished)

/-- What the next instructions of two runs come to: both runs go on, or both end alike. -/
inductive ProgressAlike (g : Nat → Nat) (region : Set (Shape × Ref)) (R : State → State → Prop) :
    Progress → Progress → Prop
  | running {t t' : State} (h : R t t') : ProgressAlike g region R (.running t) (.running t')
  | halted {t t' : State} (h : (finish t).Moved g region (finish t')) :
      ProgressAlike g region R (.halted t) (.halted t')
  | failed {f f' : Fault} {t t' : State} (h : Outcome.Moved g region ⟨.error f, t⟩ ⟨.error f', t'⟩) :
      ProgressAlike g region R (.failed f t) (.failed f' t')
  | panicked {t t' : State} : ProgressAlike g region R (.panicked t) (.panicked t')

/-- The first machine runs a program whose code fits, and the second one is its shadow. -/
def Shadowed (g : Nat → Nat) (region : Set (Shape × Ref)) (L : Layout) (s s' : State) : Prop :=
  ∃ A rest, Running L False s A rest ∧ Shadows g region (A :: rest) s s'

/-- The program `q` runs alongside the program of `L`. -/
structure Alongside (split : Bool) (g : Nat → Nat) (region : Set (Shape × Ref)) (limits : Limits) (host : Environment)
    (L : Layout) (q : Program) (start : State) : Prop where
  code : Relocates split g L.program q
  callable : Callable L False
  settled : Settled g region host
  returns : ReturnsAlike g limits host L.program start
  /-- A comparison and a branch are two instructions, where there was one. -/
  unlimited : split = true → limits.fuel = none
  hides : ShowsNoFunction limits host L.program start

section Steps

variable {split : Bool} {g : Nat → Nat} {region : Set (Shape × Ref)} {limits : Limits} {host : Environment} {L : Layout}
  {q program : Program} {start s s' : State} {A : Activation} {rest : List Activation} {n n' : Nat}
  {op : Opcode} {x : Operand} {y y' : EStateM.Result Fault State Flow}

/-- What an instruction comes to, as the progress of a run. -/
def progressOf (limits : Limits) : EStateM.Result Fault State Flow → Progress
  | .ok flow t => proceed limits flow t
  | .error f t => .stopped f t

theorem advance_of_code (hcode : program.code[s.ip]? = some ⟨.known op, x⟩) :
    advance limits host program n s = match limits.fuel.filter (· ≤ n) with
      | some limit => .failed (.outOfFuel limit) s
      | none => progressOf limits (Exec.step limits host op x s) := by
  rw [advance, hcode]
  rfl

theorem stateAfter_next {t : State} (hreach : stateAfter limits host program start n = some s)
    (hnext : advance limits host program n s = .running t) :
    stateAfter limits host program start (n + 1) = some t := by
  rw [stateAfter, hreach]
  dsimp only
  rw [hnext]

theorem Shadowed.checked (h : Shadowed g region L s s') :
    ProgressAlike g region (Shadowed g region L) (proceed.checked limits s) (proceed.checked limits s') := by
  obtain ⟨A, rest, -, hs⟩ := id h
  unfold proceed.checked
  rw [hs.stack.size]
  split
  · exact .failed (.failed rfl hs.world)
  · exact .running h

theorem StepAlike.progress (h : StepAlike g region (Shadowed g region L) y y') :
    ProgressAlike g region (Shadowed g region L) (progressOf limits y) (progressOf limits y') := by
  cases h with
  | next h | jump h => exact h.checked
  | halt h => exact .halted h
  | @error f f' t t' h =>
    -- only a fault that names no instruction makes the machines panic
    have hresult := h.result
    cases hresult with
    | error => cases f <;> first | exact .panicked | exact .failed h

/-- An instruction that is followed by its shadow leads to a program whose code fits. -/
theorem StepAlike.shadowed (h : StepAlike g region (Follows g region L s A rest) y y')
    (hmeets : Meets False (GoesOn L False s A rest) y) : StepAlike g region (Shadowed g region L) y y' := by
  cases h with
  | next h =>
    obtain ⟨B, others, hm, hr⟩ := hmeets
    exact .next ⟨B, others, hr, h B others hm⟩
  | jump h =>
    obtain ⟨B, others, hm, hr⟩ := hmeets
    exact .jump ⟨B, others, hr, h B others hm⟩
  | halt h => exact .halt h
  | error h => exact .error h

/-- A branch on two integers finds them above the frames of all calls. -/
theorem Running.two_above {r : Relation} (hr : Running L False s A rest) (has : L.Has s.ip ⟨.branchInt r, x⟩) :
    ∀ B ∈ A :: rest, B.base + 2 ≤ s.stack.size := by
  obtain ⟨size, hsize, hstands⟩ := hr.stands
  suffices htwo : 2 ≤ size by
    intro B hB
    have := hr.chained.base_le hB
    omega
  generalize hip : s.ip = a at hstands
  cases hstands with
  | entering room fits =>
    -- at its entry a function makes room for its variables, and does not branch
    rw [← hip] at room
    cases OkAt.has_inj has room
  | inside fits =>
    subst hip
    cases fits.okAt with
    | plain has' effect =>
      cases OkAt.has_inj has has'
      cases effect with
      | binary hop | unary hop => cases hop
    | branchInt _ height => omega
    | fails _ has' element =>
      cases OkAt.has_inj has has'
      rcases element with ⟨w, h⟩ | ⟨u, h⟩ <;> cases h
    | branch has' test =>
      cases OkAt.has_inj has has'
      rcases test with h | h <;> cases h
    | load has' | store has' | update has' | jump has' | call has' | ret has' | retWith has' | term has' =>
      cases OkAt.has_inj has has'

namespace Alongside

variable (h : Alongside split g region limits host L q start)
include h

/-- The next instruction of the second machine is the same one. -/
theorem same {x' : Operand} (hr : Running L False s A rest) (hs : Shadows g region (A :: rest) s s')
    (hreach : stateAfter limits host L.program start.restart n = some s) (hn : n' = n ∨ limits.fuel = none)
    (has : L.Has s.ip ⟨op, x⟩) (hat : q.code[g s.ip]? = some ⟨.known op, x'⟩) (hx : OperandMoved g op x x')
    (hnext : op ≠ .term → op ≠ .ret → g (s.ip + 1) = g s.ip + 1) :
    ProgressAlike g region (Shadowed g region L) (advance limits host L.program n s)
      (advance limits host q n' s') := by
  have hfilter : limits.fuel.filter (· ≤ n') = limits.fuel.filter (· ≤ n) := by
    rcases hn with rfl | hn
    · rfl
    · rw [hn]
      rfl
  rw [← hs.ip] at hat
  rw [advance_of_code has, advance_of_code hat, hfilter]
  split
  · exact .failed (.failed rfl hs.world)
  · next hfuel =>
    obtain ⟨op', y, has', hmeets⟩ := hr.stepped h.callable limits host
    cases OkAt.has_inj has has'
    have hpaid : ∀ limit, limits.fuel = some limit → n < limit := fun limit hlimit => by
      simpa [hlimit, Option.filter] using hfuel
    have hhides : HidesFunctions op x s := h.hides n s op x hreach has hpaid
    have hret : op = .callInternal → (s.ip + 1 < 0x80000000 ↔ g s.ip + 1 < 0x80000000) := by
      rintro rfl
      exact h.returns n s x hreach has hpaid
    exact ((hs.step h.code.injective h.settled hr has hx hnext hret hhides).shadowed hmeets).progress

/-- The next instruction of the second machine is a comparison, and a branch comes behind it.  Both machines
fail in the comparison, or the second one goes on to its branch. -/
theorem parted {r : Relation} {t : Nat} {z : Operand} (hr : Running L False s A rest)
    (hs : Shadows g region (A :: rest) s s') (hreach : stateAfter limits host L.program start.restart n = some s)
    (hfuel : limits.fuel = none) (has : L.Has s.ip ⟨.branchInt (Write.negation r), .int t⟩)
    (hat : q.code[g s.ip]? = some ⟨.known (.compare .int r), z⟩)
    (hat' : q.code[g s.ip + 1]? = some ⟨.known .branchFalse, .int (g t)⟩) (hnext : g (s.ip + 1) = g s.ip + 2) :
    ProgressAlike g region (Shadowed g region L) (advance limits host L.program n s)
        (advance limits host q n' s') ∨
      ∃ u', advance limits host q n' s' = .running u' ∧
        ProgressAlike g region (Shadowed g region L) (advance limits host L.program n s)
          (advance limits host q (n' + 1) u') := by
  have hnone : ∀ n, limits.fuel.filter (· ≤ n) = none := fun n => by
    rw [hfuel]
    rfl
  have habove := hr.two_above has
  have hleft : advance limits host L.program n s =
      progressOf limits (Exec.step limits host (.branchInt (Write.negation r)) (.int t) s) := by
    rw [advance_of_code has, hnone]
  have hright : advance limits host q n' s' = progressOf limits (Exec.step limits host (.compare .int r) z s') := by
    rw [advance_of_code (hs.ip ▸ hat), hnone]
  have htwo : 2 ≤ s.stack.size := Nat.le_trans (Nat.le_add_left _ _) (habove A List.mem_cons_self)
  -- the fused machine compares and branches in one instruction, the plain one in two
  rcases @Shadows.merged _ _ limits host _ _ _ _ hs r z habove htwo hnext with
    ⟨f, u, u', hu, hu', hmoved⟩ | ⟨u', hu', hip, hsize, hstep⟩
  · rw [hleft, hright, hu, hu']
    exact .inl (StepAlike.error hmoved).progress
  · have hrunning : advance limits host q n' s' = .running { u' with ip := u'.ip + 1 } := by
      -- the stack has room for what the comparison leaves: it takes two values off
      rw [hright, hu']
      refine checked_running ?_
      have := size_of_stateAfter (Nat.zero_le _) hreach
      have := hs.stack.size
      show u'.stack.size ≤ limits.maxStack
      omega
    refine .inr ⟨_, hrunning, ?_⟩
    have hbranch : q.code[u'.ip + 1]? = some ⟨.known .branchFalse, .int (g t)⟩ := by rw [hip, hs.ip, hat']
    obtain ⟨op', y, has', hmeets⟩ := hr.stepped h.callable limits host
    cases OkAt.has_inj has has'
    rw [hleft, advance_of_code hbranch, hnone]
    exact ((hstep.follows has rfl).shadowed hmeets).progress

/-- **One instruction of the first program.**  The second program has the same one, or a comparison and a
branch in its place, and comes to the same. -/
theorem step (hs : Shadowed g region L s s') (hreach : stateAfter limits host L.program start.restart n = some s)
    (hn : n' = n ∨ limits.fuel = none) :
    ProgressAlike g region (Shadowed g region L) (advance limits host L.program n s)
        (advance limits host q n' s') ∨
      limits.fuel = none ∧ ∃ u', advance limits host q n' s' = .running u' ∧
        ProgressAlike g region (Shadowed g region L) (advance limits host L.program n s)
          (advance limits host q (n' + 1) u') := by
  obtain ⟨A, rest, hr, hs⟩ := hs
  obtain ⟨op, x, has, -⟩ := hr.stepped h.callable limits host
  cases h.code.code s.ip op x has with
  | same hat hx hnext => exact .inl (h.same hr hs hreach hn has hat hx hnext)
  | split hsplit hat hat' hnext =>
    have hfuel := h.unlimited hsplit
    rcases h.parted hr hs hreach hfuel has hat hat' hnext with hp | hp
    · exact .inl hp
    · exact .inr ⟨hfuel, hp⟩

/-! ### Whole runs -/

/-- Where the first run ends, the second one ends alike. -/
theorem ends {count : Nat} (hs : Shadowed g region L s s')
    (hreach : stateAfter limits host L.program start.restart n = some s) (hn : n' = n ∨ limits.fuel = none)
    (hrun : runFrom limits host L.program count n s ≠ .unfinished) :
    ∃ count', StopsAlike g region (runFrom limits host L.program count n s) (runFrom limits host q count' n' s') := by
  induction count generalizing n n' s s' with
  | zero => exact absurd rfl hrun
  | succ count ih =>
    -- the second machine may have carried out a comparison before
    have hrest : ∀ m u, (m = n ∨ limits.fuel = none) →
        ProgressAlike g region (Shadowed g region L) (advance limits host L.program n s) (advance limits host q m u) →
        ∃ count', StopsAlike g region (runFrom limits host L.program (count + 1) n s)
          (runFrom limits host q (count' + 1) m u) := by
      intro m u hm hp
      simp only [runFrom] at hrun ⊢
      generalize hleft : advance limits host L.program n s = a, hright : advance limits host q m u = a' at hp
      rw [hleft] at hrun
      cases hp with
      | running hs => exact ih hs (stateAfter_next hreach hleft) (hm.imp_left (congrArg (· + 1))) hrun
      | halted hmoved => exact ⟨0, .done hmoved⟩
      | failed hmoved => exact ⟨0, .done hmoved⟩
      | panicked => exact ⟨0, .panicked⟩
    -- one instruction on the first machine is one or two on the second
    rcases h.step hs hreach hn with hp | ⟨hfuel, u, hmid, hp⟩
    · obtain ⟨count', hends⟩ := hrest n' s' hn hp
      exact ⟨count' + 1, hends⟩
    · obtain ⟨count', hends⟩ := hrest (n' + 1) u (.inr hfuel) hp
      have hright : runFrom limits host q (count' + 1 + 1) n' s' = runFrom limits host q (count' + 1) (n' + 1) u := by
        rw [runFrom, hmid]
      exact ⟨count' + 1 + 1, hright ▸ hends⟩

/-- While the first run goes on, so does the second one. -/
theorem goesOn {count : Nat} (hs : Shadowed g region L s s')
    (hreach : stateAfter limits host L.program start.restart n = some s) (hn : n' = n ∨ limits.fuel = none)
    (hrun : runFrom limits host L.program count n s = .unfinished) :
    runFrom limits host q count n' s' = .unfinished := by
  induction count generalizing n n' s s' with
  | zero => rfl
  | succ count ih =>
    have hrest : ∀ m u, (m = n ∨ limits.fuel = none) →
        ProgressAlike g region (Shadowed g region L) (advance limits host L.program n s) (advance limits host q m u) →
        runFrom limits host q (count + 1) m u = .unfinished := by
      intro m u hm hp
      rw [runFrom] at hrun ⊢
      generalize hleft : advance limits host L.program n s = a, hright : advance limits host q m u = a' at hp
      rw [hleft] at hrun
      cases hp with
      | running hs => exact ih hs (stateAfter_next hreach hleft) (hm.imp_left (congrArg (· + 1))) hrun
      | halted | failed | panicked => cases hrun
    rcases h.step hs hreach hn with hp | ⟨hfuel, u, hmid, hp⟩
    · exact hrest n' s' hn hp
    · have hlater := hrest (n' + 1) u (.inr hfuel) hp
      rw [runFrom, hmid]
      -- so many instructions are not enough, and neither is one less
      by_contra hends
      exact hends ((runFrom_more 1 hends).symm.trans hlater)

/-- Both runs end alike, or neither of them ends. -/
theorem runsAlike (hstart : Shadowed g region L start.restart start.restart)
    (hheap : (Chart.shifted g region).Heaps start.heap start.heap) :
    RunsAlike g region limits host L.program q start := by
  have hversion := h.code.version
  by_cases hcompatible : Program.isCompatible L.program.version = true
  · have hrun : ∀ {p : Program} count, p.version = L.program.version →
        run limits host p count start = runFrom limits host p count 0 start.restart := fun count hp => by
      rw [run, hp, if_pos hcompatible]
    by_cases hends : ∃ count, run limits host L.program count start ≠ .unfinished
    · obtain ⟨count, hcount⟩ := hends
      obtain ⟨count', halike⟩ := h.ends hstart rfl (.inl rfl) (hrun count rfl ▸ hcount)
      rw [← hrun count rfl, ← hrun count' hversion] at halike
      exact .ends halike
    · have hnone : ∀ count, run limits host L.program count start = .unfinished := fun count =>
        not_not.1 fun hne => hends ⟨count, hne⟩
      refine .goesOn hnone fun count => (hrun count hversion).trans ?_
      exact h.goesOn hstart rfl (.inl rfl) (hrun count rfl ▸ hnone count)
  · have hrun : ∀ {p : Program}, p.version = L.program.version → run limits host p 0 start =
        .done ⟨.error (.incompatibleProgram currentVersion L.program.version), start⟩ := fun hp => by
      rw [run, hp, if_neg hcompatible]
    have halike : StopsAlike g region (run limits host L.program 0 start) (run limits host q 0 start) := by
      rw [hrun rfl, hrun hversion]
      exact .done ⟨.error _, hheap, rfl⟩
    exact .ends halike

end Alongside

/-- Machines that start with a heap without functions. -/
theorem Shadowed.initial (hzero : g 0 = 0) (hfree : host.FunctionFree start.heap)
    (hr : Running L False start.restart A []) :
    Shadowed g (host.region start.heap) L start.restart start.restart := by
  refine ⟨A, [], hr, ⟨rfl, fun i _ => ⟨rfl, nofun⟩, fun i a _ hs => ?_⟩, hzero.symm, rfl, ⟨rfl, nofun⟩, hfree.heaps,
    fun shape _ hr => .new shape hr, rfl⟩
  obtain ⟨n, -, hcell⟩ := hs
  cases hcell

end Steps

/-! ### Runs that end -/

section Ended

variable {limits : Limits} {host : Environment} {program : Program} {start s u : State} {n m count : Nat}

/-- Is no function of the program turned into text in the next instructions of a run, of which there are at
most so many? -/
def showsNone (limits : Limits) (host : Environment) (program : Program) : Nat → Nat → State → Bool
  | 0, _, _ => false
  | count + 1, executed, s =>
    (match program.code[s.ip]? with
      | some ⟨.known op, x⟩ => (shown op x s.stack).all fun v => !s.heap.showsFunction v
      | _ => true) &&
    match advance limits host program executed s with
    | .running s => showsNone limits host program count (executed + 1) s
    | _ => true

theorem hides_of_showsNone {op : Opcode} {x : Operand} (hs : stateAfter limits host program start n = some s)
    (h : showsNone limits host program count n s = true) (hle : n ≤ m)
    (hu : stateAfter limits host program start m = some u) (hop : program.code[u.ip]? = some ⟨.known op, x⟩) :
    HidesFunctions op x u := by
  induction count generalizing n s with
  | zero => cases h
  | succ count ih =>
    rw [showsNone, Bool.and_eq_true] at h
    obtain ⟨hhides, hrest⟩ := h
    rcases Nat.eq_or_lt_of_le hle with rfl | hlt
    · obtain rfl := Option.some.inj (hs.symm.trans hu)
      rw [hop] at hhides
      intro v hv
      simpa using List.all_eq_true.1 hhides v hv
    · obtain ⟨t, ht⟩ := stateAfter_of_le hlt hu
      obtain ⟨s', hs', hnext⟩ := stateAfter_succ ht
      obtain rfl := Option.some.inj (hs.symm.trans hs')
      rw [hnext] at hrest
      exact ih ht hrest hlt

theorem showsNoFunction_of_showsNone (h : showsNone limits host program count 0 start.restart = true) :
    ShowsNoFunction limits host program start := fun n _ _ _ hs hop _ =>
  hides_of_showsNone rfl h (Nat.zero_le n) hs hop

end Ended

/-! ### Programs compiled in two ways -/

section Compiled

variable {split : Bool} {environment : Environment} {setting : Setting} {body body' : List Stmt}
  {x : Except CompileError Program}

/-- A program with its instructions at other places runs like the program that a tree compiles to. -/
theorem runsAlike_of_relocates {g : Nat → Nat} {p q : Program} (hcode : Relocates split g p q)
    (hlisted : allListed body = true) (hcompile : compileWith setting body = .ok p) {limits : Limits}
    {host : Environment} {start : State} (hfuel : split = true → limits.fuel = none)
    (hfree : host.FunctionFree start.heap) (hhides : ShowsNoFunction limits host p start)
    (hreturns : ReturnsAlike g limits host p start) :
    RunsAlike g (host.region start.heap) limits host p q start := by
  have hdemands : Demands False fun _ => true := ⟨fun _ _ _ => rfl, False.elim⟩
  obtain ⟨L, rfl, -, hcallable, hfits⟩ :=
    fits_of_compile (steadyProgram_of_listed hlisted) hcompile hdemands (everyAll_of_all (fun _ => rfl) body)
  obtain ⟨A, hr⟩ := hfits start
  have hbeside : Alongside split g (host.region start.heap) limits host L q start :=
    ⟨hcode, hcallable, hfree.settled, hreturns, hfuel, hhides⟩
  exact hbeside.runsAlike (.initial hcode.start hfree hr) hfree.heaps

theorem runsAlike_of_compileAlike (hlisted : allListed body = true)
    (h : CompileAlike split (compileWith setting body) x) :
    (compileWith setting body).isOk = x.isOk ∧ ∀ p q, compileWith setting body = .ok p → x = .ok q →
      ∃ g, Relocates split g p q ∧ ∀ limits host start, (split = true → limits.fuel = none) →
        host.FunctionFree start.heap → ShowsNoFunction limits host p start → ReturnsAlike g limits host p start →
          RunsAlike g (host.region start.heap) limits host p q start := by
  generalize hy : compileWith setting body = y at h
  cases h with
  | error e e' => exact ⟨rfl, nofun⟩
  | @ok g p q hcode =>
    refine ⟨rfl, ?_⟩
    rintro _ _ ⟨⟩ ⟨⟩
    exact ⟨g, hcode, fun _ _ _ => runsAlike_of_relocates hcode hlisted hy⟩

/-- **Functions come in any order.**  Where a run of functions somewhere in a tree has another order, both
trees are compiled or both are refused, and the programs differ only in where their instructions stand.  Under
the same limits both runs end alike or neither of them ends, if no function is turned into text and a return
address fits at both places or at none. -/
theorem permuted_runs_alike (hlisted : allListed body = true) (hpermuted : Somewhere Permuted body body') :
    (compile environment body).isOk = (compile environment body').isOk ∧
      ∀ p q, compile environment body = .ok p → compile environment body' = .ok q →
        ∃ g, Relocates false g p q ∧ ∀ limits host start, host.FunctionFree start.heap →
          ShowsNoFunction limits host p start → ReturnsAlike g limits host p start →
            RunsAlike g (host.region start.heap) limits host p q start := by
  obtain ⟨hok, halike⟩ := runsAlike_of_compileAlike hlisted (compile_permuted ⟨environment, true⟩ hpermuted)
  refine ⟨hok, fun p q hp hq => ?_⟩
  obtain ⟨g, hcode, hruns⟩ := halike p q hp hq
  exact ⟨g, hcode, fun limits host start => hruns limits host start fun h => absurd h Bool.false_ne_true⟩

/-- Functions that call each other, and one that answers with another one. -/
def siblings : List Stmt :=
  [.function "isEven" [⟨"n", "int"⟩] "any"
      [.ret (some (.ternary (.binary .equal (.name "n") (.literal (.int 0))) (.literal (.bool true))
        (.call (.name "isOdd") [.binary .sub (.name "n") (.literal (.int 1))])))],
    .function "isOdd" [⟨"n", "int"⟩] "any"
      [.ret (some (.ternary (.binary .equal (.name "n") (.literal (.int 0))) (.literal (.bool false))
        (.call (.name "isEven") [.binary .sub (.name "n") (.literal (.int 1))])))],
    .function "show" [⟨"n", "int"⟩] "any"
      [.expr (.call (.name "print") [.call (.name "isEven") [.name "n"]]), .ret (some (.name "isOdd"))]]

/-- A function with these functions inside, where `run` stands for them:

    function parity(n: int): any { run return show(n); }
    parity(5);
-/
def parity (run : List Stmt) : List Stmt :=
  [.function "parity" [⟨"n", "int"⟩] "any" (run ++ [.ret (some (.call (.name "show") [.name "n"]))]),
    .expr (.call (.name "parity") [.literal (.int 5)])]

/-- Backwards, the functions stand at other places, and the program runs as before. -/
theorem siblings_permuted : ∃ g,
    Relocates false g (compiled Host.standard.1 (parity siblings))
        (compiled Host.standard.1 (parity siblings.reverse)) ∧
      (run ⟨some 200, 100, 8⟩ Host.standard.1 (compiled Host.standard.1 (parity siblings)) 200
        (.initial Host.standard.2)).done?.isSome = true ∧
        RunsAlike g (Host.standard.1.region Host.standard.2) ⟨some 200, 100, 8⟩ Host.standard.1
          (compiled Host.standard.1 (parity siblings)) (compiled Host.standard.1 (parity siblings.reverse))
          (.initial Host.standard.2) := by
  have hcompile : (compile Host.standard.1 (parity siblings)).isOk = true := by decide +kernel
  have hsizes : (compiled Host.standard.1 (parity siblings)).code.size = 53 ∧
      (compiled Host.standard.1 (parity siblings.reverse)).code.size = 53 := by decide +kernel
  have hends : (run ⟨some 200, 100, 8⟩ Host.standard.1 (compiled Host.standard.1 (parity siblings)) 200
      (.initial Host.standard.2)).done?.isSome = true := by decide +kernel
  have hhides : showsNone ⟨some 200, 100, 8⟩ Host.standard.1 (compiled Host.standard.1 (parity siblings)) 200 0
      (State.initial Host.standard.2).restart = true := by decide +kernel
  have hpermuted : Somewhere Permuted (parity siblings) (parity siblings.reverse) :=
    .inside [] _ (.function _ _ _ (.here (.intro [] _ (List.reverse_perm _).symm (by decide))))
  obtain ⟨hok, halike⟩ := @permuted_runs_alike Host.standard.1 _ _ (by decide) hpermuted
  obtain ⟨g, hcode, hruns⟩ := halike _ _ (compile_eq_compiled hcompile) (compile_eq_compiled (hok ▸ hcompile))
  exact ⟨g, hcode, hends, hruns _ _ _ functionFree_standard (showsNoFunction_of_showsNone hhides)
    (returnsAlike_of_size hcode (by omega) (by omega))⟩

end Compiled

end StackScript.Machine
