import StackScript.Proofs.Addressing
import StackScript.Proofs.Lockstep
import StackScript.Proofs.Relocation
import StackScript.Proofs.Simulation

/-!
# A machine in a program with its instructions at other places

While a program runs, a second machine carries out the same program with its instructions at other places.
Its stack holds the same values, with functions at other places, but for the cells in which calls have
saved where to return to.

* `Report.moved`: what depends on the top of the stack only.
* `Shadows`: the second machine is the shadow of the first one.
* `Shadows.step`: an instruction keeps this, or both machines stop alike.
-/

namespace StackScript.Machine

open Bytecode Host Assembly

/-! ### Ends of runs -/

def Fault.relocate (g : Nat → Nat) : Fault → Fault
  | .stackUnderflow ip => .stackUnderflow (g ip)
  | .invalidOperand op ip => .invalidOperand op (g ip)
  | .invalidSlot slot ip => .invalidSlot slot (g ip)
  | .outOfBounds ip => .outOfBounds (g ip)
  | f => f

theorem Fault.relocate_of_benign {g : Nat → Nat} {f : Fault} (h : f.structural = false) : f.relocate g = f := by
  cases f <;> first | rfl | cases h

/-- The value `v'` is `v` with its function at another place, and refers to nothing outside the region. -/
abbrev Relocated (g : Nat → Nat) (region : Set (Shape × Ref)) (v v' : Value) : Prop :=
  v' = v.relocate g ∧ v.Inside region

/-- What a run results in, where instructions stand at other places. -/
inductive ResultMoved (g : Nat → Nat) (region : Set (Shape × Ref)) : Except Fault Value → Except Fault Value → Prop
  | ok {v v' : Value} (h : Relocated g region v v') : ResultMoved g region (.ok v) (.ok v')
  | error (f : Fault) : ResultMoved g region (.error f) (.error (f.relocate g))

/-- Two runs end alike, but for the places of instructions. -/
structure Outcome.Moved (g : Nat → Nat) (region : Set (Shape × Ref)) (o o' : Outcome) : Prop where
  result : ResultMoved g region o.result o'.result
  heap : (Chart.shifted g region).Heaps o.state.heap o'.state.heap
  output : o'.state.output = o.state.output

/-- What the machines have but for their stacks is the same, with functions at other places.  All collections
to come are in the region. -/
structure World.Moved (g : Nat → Nat) (region : Set (Shape × Ref)) (w w' : World) : Prop where
  returned : Relocated g region w.returned w'.returned
  heap : (Chart.shifted g region).Heaps w.heap w'.heap
  fresh : ∀ shape r, w.heap.cells.size ≤ r → (shape, r) ∈ region
  output : w'.output = w.output

/-- The host has no functions of its own, and its bindings are the same wherever the functions of a program
stand. -/
structure Settled (g : Nat → Nat) (region : Set (Shape × Ref)) (environment : Environment) : Prop where
  own : environment.own = Environment.noOwn
  bindings : ∀ name b, environment.get? name = some b → Relocated g region b.value b.value

/-- What an instruction comes to on both machines: both go on, or both stop alike. -/
inductive StepAlike (g : Nat → Nat) (region : Set (Shape × Ref)) (R : State → State → Prop) :
    EStateM.Result Fault State Flow → EStateM.Result Fault State Flow → Prop
  | next {t t' : State} (h : R { t with ip := t.ip + 1 } { t' with ip := t'.ip + 1 }) :
      StepAlike g region R (.ok .next t) (.ok .next t')
  | jump {a a' : Nat} {t t' : State} (h : R { t with ip := a } { t' with ip := a' }) :
      StepAlike g region R (.ok (.jump a) t) (.ok (.jump a') t')
  | halt {t t' : State} (h : (finish t).Moved g region (finish t')) :
      StepAlike g region R (.ok .halt t) (.ok .halt t')
  | error {f f' : Fault} {t t' : State} (h : Outcome.Moved g region ⟨.error f, t⟩ ⟨.error f', t'⟩) :
      StepAlike g region R (.error f t) (.error f' t')

section Reports

variable {g : Nat → Nat} {region : Set (Shape × Ref)} {α : Type} {w w' : World} {args : Array Value}
  {limits : Limits} {environment : Environment} {op : Opcode} {x x' : Operand} {m n : Nat}

/-- Runs that stop where the fault names no instruction. -/
theorem Outcome.Moved.failed {f : Fault} {t t' : State} (hf : f.structural = false)
    (h : t.world.Moved g region t'.world) : Outcome.Moved g region ⟨.error f, t⟩ ⟨.error f, t'⟩ := by
  have hresult : ResultMoved g region (.error f) (.error (f.relocate g)) := .error f
  rw [Fault.relocate_of_benign hf] at hresult
  exact ⟨hresult, h.heap, h.output⟩

theorem StepAlike.failed {R : State → State → Prop} {f : Fault} {t t' : State} (hf : f.structural = false)
    (h : t.world.Moved g region t'.world) : StepAlike g region R (.error f t) (.error f t') :=
  .error (.failed hf h)

/-! ### What depends on the top of the stack -/

/-- Computations end alike on both machines. -/
inductive Report.Moved (g : Nat → Nat) (region : Set (Shape × Ref)) : Report α → Report α → Prop
  | done {a : α} {vs : Array Value} {w w' : World} (hin : ∀ v ∈ vs, v.Inside region) (hw : w.Moved g region w') :
      Report.Moved g region (.done a vs w) (.done a (vs.map (·.relocate g)) w')
  | failed {f : Fault} {vs vs' : Array Value} {w w' : World} (hf : f.structural = false) (hw : w.Moved g region w') :
      Report.Moved g region (.failed f vs w) (.failed f vs' w')

/-- Machines that hold nothing but some values. -/
theorem World.Moved.states (hw : w.Moved g region w') (hg : Function.Injective g)
    (hin : ∀ v ∈ args, v.Inside region) :
    (Chart.shifted g region).States (w.state args 0 0) (w'.state (args.map (·.relocate g)) 0 0) :=
  ⟨Chart.shifted_faithful hg, rfl, hin, rfl, rfl, hw.returned, hw.heap, hw.output⟩

/-- The worlds of machines in step, which have grown. -/
theorem World.Moved.grown (hw : w.Moved g region w') {t t' : State} (ht : (Chart.shifted g region).States t t')
    (hgrows : (Chart.shifted g region).Grows w.heap w'.heap t.heap t'.heap) : t.world.Moved g region t'.world :=
  ⟨ht.returned, ht.heap, fun shape r hr => hw.fresh shape r (Nat.le_trans hgrows.size hr), ht.output⟩

/-- What looks only at the top of the stack comes to the same on both machines if it does so where there
is nothing else on the stack. -/
theorem Report.moved {y y' : Exec α} {post post' : α → Array Value → World → Prop} {args' : Array Value}
    (h : Local y post args w) (h' : Local y' post' args' w') (hw : w.Moved g region w')
    (hsame : (Chart.shifted g region).Ends (w.state args 0 0) (w'.state args' 0 0) Chart.Same
      (y (w.state args 0 0)) (y' (w'.state args' 0 0))) :
    ∃ r r' : Report α, (∀ base ip fp, y (w.state (base ++ args) ip fp) = r.place base ip fp) ∧
      (∀ base ip fp, y' (w'.state (base ++ args') ip fp) = r'.place base ip fp) ∧ r.Meets post ∧
      r.Moved g region r' := by
  obtain ⟨r, hr, hmeets⟩ := h
  obtain ⟨r', hr', -⟩ := h'
  refine ⟨r, r', hr, hr', hmeets, ?_⟩
  -- the reports are those of a machine that has nothing but the arguments
  have halone := hr #[] 0 0
  have halone' := hr' #[] 0 0
  rw [Array.empty_append] at halone halone'
  rw [halone, halone'] at hsame
  cases r with
  | done a vs w₁ =>
    cases r' with
    | done a' vs' w₁' =>
      cases hsame with
      | ok ht hgrows ha =>
        obtain rfl : a' = a := ha
        have hstack : #[] ++ vs' = (#[] ++ vs).map (Value.relocate g) := ht.stack
        rw [Array.empty_append, Array.empty_append] at hstack
        subst hstack
        refine .done (fun v hv => ht.inside v ?_) (hw.grown ht hgrows)
        show v ∈ #[] ++ vs
        rwa [Array.empty_append]
    | failed => cases hsame
  | failed f vs w₁ =>
    cases r' with
    | done => cases hsame
    | failed f' vs' w₁' =>
      cases hsame with
      | error ht hgrows => exact .failed hmeets (hw.grown ht hgrows)

theorem topOf_append_of_le {base : Array Value} (h : n ≤ args.size) : topOf (base ++ args) n = topOf args n := by
  have hle : base.size ≤ (base ++ args).size - n := by
    rw [Array.size_append]
    omega
  unfold topOf
  rw [Array.extract_append, Array.extract_eq_empty_of_le (by omega), Array.empty_append, Array.size_append]
  congr 2 <;> omega

/-- What an instruction shows is among the values that it takes. -/
theorem Effect.shown_append (h : Effect op x m n) (base : Array Value) (hs : args.size = m) :
    shown op x (base ++ args) = shown op x args := by
  have htop : topOf (base ++ args) m = topOf args m := topOf_append_of_le (Nat.le_of_eq hs.symm)
  cases h with
  | binary hop =>
    cases op with
    | arith dom a =>
      cases dom <;> cases a <;> first | rfl | simp only [shown, htop]
    | _ => first | rfl | cases hop
  | unary hop =>
    cases op with
    | intToString | floatToString => exact htop
    | _ => first | rfl | cases hop
  | buildString k => exact htop
  | callExternal k =>
    obtain ⟨front, callee, rfl, hf, hc⟩ := exists_append hs
    obtain ⟨v, rfl⟩ := exists_singleton hc
    have hfront : topOf (base ++ front) k = topOf front k := topOf_append_of_le (Nat.le_of_eq hf.symm)
    rw [← Array.append_assoc, Array.append_singleton, Array.append_singleton]
    simp only [shown, Array.back?_push, Array.pop_push, Int.toNat_natCast, hfront]
  | _ => rfl

/-- The only operation on values that names an instruction. -/
theorem Effect.loadsFunction (h : Effect op x m n) (hop : isPlain op = false) : op = .loadFunction := by
  cases h with
  | loadFunction => rfl
  | binary h | unary h => cases op <;> first | (cases h; done) | cases hop
  | _ => cases hop

theorem Effect.operand (h : Effect op x m n) (hx : OperandMoved g op x x') : Effect op x' m n := by
  cases hx with
  | plain => exact h
  | target hop =>
    obtain rfl := h.loadsFunction hop
    cases h with
    | binary hop | unary hop => cases hop
    | loadFunction => exact .loadFunction _

/-- The operations that make no function suit a host whose bindings stay the same. -/
theorem suits_shifted {s s' : State} (hg : Function.Injective g) (henv : Settled g region environment)
    (hm : (Chart.shifted g region).Heaps s.heap s'.heap)
    (hfresh : ∀ shape r, s.heap.cells.size ≤ r → (shape, r) ∈ region) (hop : op ≠ .loadFunction)
    (hshown : ∀ v ∈ shown op x s.stack, s.heap.showsFunction v = false) :
    (Chart.shifted g region).Suits environment op x s s' where
  own := henv.own
  fresh shape _ := hfresh shape _ (Nat.le_refl _)
  copies _ name b hb := by
    obtain ⟨hsame, hin⟩ := henv.bindings name b hb
    have hcopied := Chart.deepCopy_shifted hg hm hfresh hin
    rw [← hsame] at hcopied
    exact ⟨hcopied.1, hcopied.2.1, hcopied.2.2⟩
  function h := absurd h hop
  shown := .inr hshown

theorem loadFunction_shifted {t : Nat} {s s' : State} : (Chart.shifted g region).Abreast s s' Chart.Same
    (Exec.perform limits environment .loadFunction (.int t))
    (Exec.perform limits environment .loadFunction (.int (g t))) := by
  have hpush : ∀ t : Nat, Exec.perform limits environment .loadFunction (.int t) = Exec.push (.function t) :=
    fun t => funext fun s => bind_ok (countOperand_eq _ t s)
  rw [hpush, hpush]
  exact .push ⟨rfl, nofun⟩

/-- An operation on the top of the stack comes to the same on both machines, unless it shows a function. -/
theorem Effect.moved (hg : Function.Injective g) (henv : Settled g region environment) (h : Effect op x m n)
    (hx : OperandMoved g op x x') (hw : w.Moved g region w') (hs : args.size = m)
    (hin : ∀ v ∈ args, v.Inside region) (hshown : ∀ v ∈ shown op x args, w.heap.showsFunction v = false) :
    ∃ r r' : Report Unit,
      (∀ base ip fp, Exec.perform limits environment op x (w.state (base ++ args) ip fp) = r.place base ip fp) ∧
      (∀ base ip fp, Exec.perform limits environment op x' (w'.state (base ++ args.map (·.relocate g)) ip fp) =
        r'.place base ip fp) ∧ r.Meets (Leaves n) ∧ r.Moved g region r' := by
  have hs' : (args.map (·.relocate g)).size = m := by rw [Array.size_map, hs]
  cases hx with
  | plain hop =>
    refine Report.moved (perform_local h hs) (perform_local h hs') hw ?_
    refine Chart.perform_charted (suits_shifted hg henv hw.heap hw.fresh ?_ hshown) (hw.states hg hin)
    rintro rfl
    cases hop
  | @target t hop =>
    obtain rfl := h.loadsFunction hop
    cases h with
    | binary hop | unary hop => cases hop
    | loadFunction =>
      exact Report.moved (perform_local (.loadFunction t) hs) (perform_local (.loadFunction (g t)) hs') hw
        (loadFunction_shifted (hw.states hg hin))

end Reports

/-! ### Stacks -/

/-- The cell holds the address that a call returns to. -/
def HoldsAddress (acts : List Activation) (i : Nat) : Prop := ∃ B ∈ acts, i + 1 = B.base

/-- The stacks hold the same values, with functions at other places, but for the addresses that calls
return to: these are the addresses of the same instructions. -/
structure StacksMoved (g : Nat → Nat) (region : Set (Shape × Ref)) (acts : List Activation)
    (stack stack' : Array Value) : Prop where
  size : stack'.size = stack.size
  cells : ∀ i, ¬HoldsAddress acts i →
    stack'[i]? = stack[i]?.map (·.relocate g) ∧ ∀ v, stack[i]? = some v → v.Inside region
  addresses : ∀ i a, HoldsAddress acts i → Saved stack i a → Saved stack' i (g a)

/-- The machine `s'` is the shadow of `s`, in which these calls have not returned. -/
structure Shadows (g : Nat → Nat) (region : Set (Shape × Ref)) (acts : List Activation) (s s' : State) : Prop where
  stack : StacksMoved g region acts s.stack s'.stack
  ip : s'.ip = g s.ip
  fp : s'.fp = s.fp
  world : s.world.Moved g region s'.world

section Stacks

variable {g : Nat → Nat} {region : Set (Shape × Ref)} {acts rest : List Activation} {stack stack' vs : Array Value}
  {A B : Activation} {i j a : Nat} {v : Value}

namespace StacksMoved

variable (h : StacksMoved g region acts stack stack')
include h

/-- Values on top of the stack, above all addresses, are replaced. -/
theorem replace (habove : ∀ B ∈ acts, B.base ≤ j) (hle : j ≤ stack.size) (hin : ∀ v ∈ vs, v.Inside region) :
    StacksMoved g region acts (stack.extract 0 j ++ vs) (stack'.extract 0 j ++ vs.map (·.relocate g)) := by
  have hle' : j ≤ stack'.size := h.size ▸ hle
  have hsize : (stack.extract 0 j).size = j := by simp [hle]
  have hsize' : (stack'.extract 0 j).size = j := by simp [hle']
  refine ⟨by simp [h.size], fun i hi => ?_, fun i a hi hs => ?_⟩
  · by_cases hij : i < j
    · rw [getElem?_extract_append hij hle, getElem?_extract_append hij hle']
      exact h.cells i hi
    · rw [Array.getElem?_append_right (by omega), Array.getElem?_append_right (by omega), hsize, hsize',
        Array.getElem?_map]
      exact ⟨rfl, fun v hv => hin v (Array.mem_of_getElem? hv)⟩
  · have hij : i < j := by
      obtain ⟨B, hB, hi⟩ := hi
      have := habove B hB
      omega
    exact (h.addresses i a hi (hs.congr (getElem?_extract_append hij hle).symm)).congr
      (getElem?_extract_append hij hle')

theorem shrink (habove : ∀ B ∈ acts, B.base ≤ j) (hle : j ≤ stack.size) :
    StacksMoved g region acts (stack.extract 0 j) (stack'.extract 0 j) := by
  have := @replace _ _ _ _ _ #[] _ h habove hle (by simp)
  simpa using this

theorem push (habove : ∀ B ∈ acts, B.base ≤ stack.size) (hv : v.Inside region) :
    StacksMoved g region acts (stack.push v) (stack'.push (v.relocate g)) := by
  have := @replace _ _ _ _ _ #[v] _ h habove (Nat.le_refl _) (by simpa using hv)
  rw [← h.size, Array.extract_size, h.size, Array.extract_size] at this
  simpa using this

theorem pop (habove : ∀ B ∈ acts, B.base + 1 ≤ stack.size) :
    StacksMoved g region acts stack.pop stack'.pop := by
  rw [pop_eq_extract, pop_eq_extract, h.size]
  exact h.shrink (fun B hB => Nat.le_sub_of_add_le (habove B hB)) (Nat.sub_le _ _)

theorem twice (habove : ∀ B ∈ acts, B.base + 2 ≤ stack.size) :
    StacksMoved g region acts stack.pop.pop stack'.pop.pop :=
  (h.pop fun B hB => Nat.le_of_succ_le (habove B hB)).pop fun B hB => by
    have := habove B hB
    rw [Array.size_pop]
    omega

/-- A variable is changed. -/
theorem set (hi : ¬HoldsAddress acts i) (hv : v.Inside region) :
    StacksMoved g region acts (stack.setIfInBounds i v) (stack'.setIfInBounds i (v.relocate g)) := by
  refine ⟨by simp [h.size], fun k hk => ?_, fun k a hk hs => ?_⟩
  · by_cases hik : i = k
    · subst hik
      by_cases hlt : i < stack.size
      · have hlt' : i < stack'.size := h.size ▸ hlt
        rw [Array.getElem?_setIfInBounds_self_of_lt hlt, Array.getElem?_setIfInBounds_self_of_lt hlt']
        exact ⟨rfl, fun w hw => Option.some.inj hw ▸ hv⟩
      · have hge : stack.size ≤ i := Nat.le_of_not_lt hlt
        have hge' : stack'.size ≤ i := h.size ▸ hge
        rw [Array.getElem?_eq_none (by simpa using hge'), Array.getElem?_eq_none (by simpa using hge)]
        exact ⟨rfl, nofun⟩
    · rw [Array.getElem?_setIfInBounds_ne hik, Array.getElem?_setIfInBounds_ne hik]
      exact h.cells k hk
  · have hne : i ≠ k := by
      rintro rfl
      exact hi hk
    exact (h.addresses k a hk (hs.congr (Array.getElem?_setIfInBounds_ne hne).symm)).congr
      (Array.getElem?_setIfInBounds_ne hne)

/-- The values on top of the stack, above all addresses. -/
theorem args (habove : ∀ B ∈ acts, B.base ≤ j) :
    stack'.extract j stack'.size = (stack.extract j stack.size).map (·.relocate g) ∧
      ∀ v ∈ stack.extract j stack.size, v.Inside region := by
  have hcell : ∀ i, j ≤ i → ¬HoldsAddress acts i := by
    rintro i hi ⟨B, hB, he⟩
    have := habove B hB
    omega
  refine ⟨?_, fun v hv => ?_⟩
  · refine Array.ext_getElem? fun i => ?_
    rw [Array.getElem?_map, Array.getElem?_extract, Array.getElem?_extract, h.size]
    split
    · exact (h.cells (j + i) (hcell _ (Nat.le_add_right _ _))).1
    · rfl
  · obtain ⟨i, hi, rfl⟩ := Array.mem_iff_getElem.1 hv
    rw [Array.getElem_extract]
    exact (h.cells (j + i) (hcell _ (Nat.le_add_right _ _))).2 _ (Array.getElem?_eq_getElem _)

theorem back? (habove : ∀ B ∈ acts, B.base + 1 ≤ stack.size) (hv : stack.back? = some v) :
    stack'.back? = some (v.relocate g) ∧ v.Inside region := by
  have hcell : ¬HoldsAddress acts (stack.size - 1) := by
    rintro ⟨B, hB, he⟩
    have := habove B hB
    omega
  obtain ⟨hmap, hin⟩ := h.cells _ hcell
  have hv : stack[stack.size - 1]? = some v := hv
  rw [hv] at hmap
  refine ⟨?_, hin v hv⟩
  show stack'[stack'.size - 1]? = _
  rw [h.size, hmap]
  rfl

/-- A call puts two addresses on the stack. -/
theorem call {fp ret ret' : Int32} (hbase : B.base = stack.size + 2) (hret : ret'.toInt = Int.ofNat (g a))
    (hreturn : ret.toInt = Int.ofNat a) (hlow : ∀ C ∈ acts, C.base ≤ stack.size) :
    StacksMoved g region (B :: acts) ((stack.push (.int fp)).push (.int ret))
      ((stack'.push (.int fp)).push (.int ret')) := by
  have hframe := h.push (v := .int fp) hlow nofun
  have hsize : (stack'.push (.int fp)).size = stack.size + 1 := by simp [h.size]
  refine ⟨by simp [h.size], fun i hi => ?_, fun i b hi hs => ?_⟩
  · have hne : i ≠ stack.size + 1 := by
      rintro rfl
      exact hi ⟨B, List.mem_cons_self, hbase.symm⟩
    have hi' : ¬HoldsAddress acts i := fun ⟨C, hC, he⟩ => hi ⟨C, List.mem_cons_of_mem _ hC, he⟩
    rw [Array.getElem?_push, if_neg (by rw [hsize]; exact hne), @Array.getElem?_push _ _ (stack.push _),
      if_neg (by simpa using hne)]
    exact hframe.cells i hi'
  · obtain ⟨C, hC, he⟩ := hi
    rcases List.mem_cons.1 hC with rfl | hC
    · obtain rfl : i = stack.size + 1 := by omega
      -- the cell on top holds the return address
      have hb : b = a := by
        obtain ⟨n, hn, hcell⟩ := hs
        rw [Array.getElem?_push, if_pos (by simp)] at hcell
        obtain rfl := Value.int.inj (Option.some.inj hcell)
        exact Int.ofNat.inj (hn.symm.trans hreturn)
      refine ⟨ret', by rw [hret, hb], ?_⟩
      rw [Array.getElem?_push, if_pos hsize.symm]
    · have hlt := hlow C hC
      have hcell : ∀ {stack : Array Value} {v : Value}, i < stack.size → (stack.push v)[i]? = stack[i]? := by
        intro stack v hi
        rw [Array.getElem?_push, if_neg (by omega)]
      refine (hframe.addresses i b ⟨C, hC, he⟩ (hs.congr (hcell ?_).symm)).congr (hcell ?_)
      · rw [Array.size_push]
        omega
      · rw [hsize]
        omega

/-- A return takes what the call has put on the stack away. -/
theorem back (hacts : ∀ B ∈ rest, B ∈ acts) (habove : ∀ B ∈ rest, B.base ≤ j)
    (hbelow : ∀ i, i < j → HoldsAddress acts i → HoldsAddress rest i) :
    StacksMoved g region rest (stack.extract 0 j) (stack'.extract 0 j) := by
  have hcell : ∀ {stack : Array Value} {i}, i < j → (stack.extract 0 j)[i]? = stack[i]? := by
    intro stack i hi
    rw [Array.getElem?_extract, Nat.zero_add]
    split
    · rfl
    · rw [Array.getElem?_eq_none (by omega)]
  refine ⟨by simp [h.size], fun i hi => ?_, fun i a hi hs => ?_⟩
  · by_cases hij : i < j
    · rw [hcell hij, hcell hij]
      exact h.cells i fun ha => hi (hbelow i hij ha)
    · rw [Array.getElem?_eq_none (by simp; omega), Array.getElem?_eq_none (by simp; omega)]
      exact ⟨rfl, nofun⟩
  · obtain ⟨B, hB, he⟩ := hi
    have hij : i < j := by
      have := habove B hB
      omega
    exact (h.addresses i a ⟨B, hacts B hB, he⟩ (hs.congr (hcell hij).symm)).congr (hcell hij)

end StacksMoved

end Stacks

end StackScript.Machine
