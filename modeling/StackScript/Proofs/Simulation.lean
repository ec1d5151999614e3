import StackScript.Proofs.Activations
import StackScript.Proofs.Evaluation

/-!
# The machine follows an evaluation

* `place`: the machine that holds a memory: the variables in the frame of the top level, and some
  values above them.
* `Leads`, `Lasts`: the machine comes to a state with a property, or goes on for so many instructions;
  in both cases unless its stack gets too high.
* `Follows`: the machine does what an evaluation does.  It composes along `Follows.bind`.
* `Follows.operate` and its kin: single instructions.
-/

namespace StackScript.Machine

open Bytecode

/-- Does the fault say that the stack is too high? -/
def Fault.isOverflow : Fault → Bool
  | .stackOverflow _ => true
  | _ => false

/-- Does the run end because its stack is too high, for its limit or for the address of a cell? -/
def Progress.overflows : Progress → Bool
  | .failed f _ => f.isOverflow
  | .panicked _ => true
  | .running _ | .halted _ => false

/-- An operation leaves one value at most. -/
theorem Effect.gives {op : Opcode} {x : Operand} {m g : Nat} (h : Effect op x m g) :
    g = 0 ∨ g = 1 := by
  cases h <;> first | exact .inl rfl | exact .inr rfl

end StackScript.Machine

namespace StackScript.Evaluation

open Typing Bytecode Host Syntax Machine Assembly

/-! ### What the machine comes to -/

section Leads

variable (limits : Limits) (L : Layout)

def next (s : State) : Progress := advance limits L.environment L.program 0 s

/-- The machine comes to a state with a property, unless its stack gets too high. -/
inductive Leads (P : State → Prop) : State → Prop
  | here {s} (h : P s) : Leads P s
  | step {s s'} (h : next limits L s = .running s') (rest : Leads P s') : Leads P s
  | overflow {s} (high : (next limits L s).overflows = true) : Leads P s

/-- The machine carries out so many instructions, unless its stack gets too high. -/
def Lasts : Nat → State → Prop
  | 0, _ => True
  | n + 1, s =>
    (∃ s', next limits L s = .running s' ∧ Lasts n s') ∨ (next limits L s).overflows = true

/-- The next instruction ends the run with a fault. -/
def Fails (f : Fault) (w : World) (s : State) : Prop :=
  ∃ g t, next limits L s = .failed g t ∧ g.unplaced = f ∧ t.world = w

/-- The next instruction ends the run with a value. -/
def Stops (v : Value) (w : World) (s : State) : Prop :=
  ∃ t, next limits L s = .halted t ∧ t.stack.back? = some v ∧ t.world = w

end Leads

section Leads

variable {limits : Limits} {L : Layout} {P Q : State → Prop} {s s' t : State} {n : Nat}

theorem Leads.bind (h : Leads limits L P s) (hPQ : ∀ s, P s → Leads limits L Q s) :
    Leads limits L Q s := by
  induction h with
  | here h => exact hPQ _ h
  | step h _ ih => exact .step h ih
  | overflow high => exact .overflow high

theorem Lasts.of_succ (h : Lasts limits L (n + 1) s) : Lasts limits L n s := by
  induction n generalizing s with
  | zero => trivial
  | succ n ih => exact h.imp (fun ⟨s', hs, hl⟩ => ⟨s', hs, ih hl⟩) id

theorem Lasts.of_le {m : Nat} (h : Lasts limits L n s) (hm : m ≤ n) : Lasts limits L m s := by
  induction hm with
  | refl => exact h
  | step _ ih => exact ih h.of_succ

/-- Instructions before a state do not shorten a run from there. -/
theorem Leads.lasts (h : Leads limits L P s) (hP : ∀ s, P s → Lasts limits L n s) :
    Lasts limits L n s := by
  induction h with
  | here h => exact hP _ h
  | step h _ ih => exact Lasts.of_succ (.inl ⟨_, h, ih⟩)
  | overflow high => exact Lasts.of_succ (.inr high)

/-- Behind an instruction the run goes on, or the stack is too high. -/
theorem next_checked {s' : State} (h : next limits L s = proceed.checked limits s') :
    next limits L s = .running s' ∨ (next limits L s).overflows = true := by
  rw [h]
  unfold proceed.checked
  split
  · exact .inr rfl
  · exact .inl rfl

variable (hfuel : limits.fuel = none) {op : Opcode} {x : Operand}
include hfuel

theorem next_of_has (has : L.Has s.ip ⟨op, x⟩) : next limits L s =
    match Exec.step limits L.environment op x s with
    | .ok flow s => proceed limits flow s
    | .error f s => .stopped f s :=
  advance_eq has (by rw [hfuel]; exact nofun)

/-- An instruction, and what follows it. -/
theorem Leads.next (has : L.Has s.ip ⟨op, x⟩)
    (hstep : Exec.step limits L.environment op x s = .ok .next t)
    (h : Leads limits L P { t with ip := t.ip + 1 }) : Leads limits L P s := by
  have hnext := next_of_has hfuel has
  rw [hstep] at hnext
  rcases next_checked hnext with hr | high
  · exact .step hr h
  · exact .overflow high

/-- A jump, and what follows it. -/
theorem Leads.jump (has : L.Has s.ip ⟨op, x⟩) {a : Nat}
    (hstep : Exec.step limits L.environment op x s = .ok (.jump a) t)
    (h : Leads limits L P { t with ip := a }) : Leads limits L P s := by
  have hnext := next_of_has hfuel has
  rw [hstep] at hnext
  rcases next_checked hnext with hr | high
  · exact .step hr h
  · exact .overflow high

/-- A jump lasts one instruction longer than what follows it. -/
theorem Lasts.jump (has : L.Has s.ip ⟨op, x⟩) {a : Nat}
    (hstep : Exec.step limits L.environment op x s = .ok (.jump a) t)
    (h : Lasts limits L n { t with ip := a }) : Lasts limits L (n + 1) s := by
  have hnext := next_of_has hfuel has
  rw [hstep] at hnext
  exact (next_checked hnext).imp (fun hr => ⟨_, hr, h⟩) id

/-- A fault ends the run, but for an address that does not fit, of which nothing comes back. -/
theorem Leads.fails (has : L.Has s.ip ⟨op, x⟩) {f : Fault}
    (hstep : Exec.step limits L.environment op x s = .error f t) :
    Leads limits L (Fails limits L f.unplaced t.world) s := by
  have hnext := next_of_has hfuel has
  rw [hstep] at hnext
  cases f with
  | addressOverflow => exact .overflow (hnext ▸ rfl)
  | _ => exact .here ⟨_, t, hnext, rfl, rfl⟩

end Leads

/-! ### Memories on the stack -/

section Slots

variable (top : Nat) (F : Array String)

/-- The variables in the frame: those whose names `F` lists, by their place in it. -/
def slots (vars : String → Value) : Array Value :=
  Array.ofFn fun i : Fin top => (F[i.val]?.map vars).getD .null

@[simp] theorem size_slots (vars : String → Value) : (slots top F vars).size = top := by
  simp [slots]

variable {top F} {vars : String → Value} {i : Nat} {name : String}

theorem getElem?_slots (hi : i < top) (hF : F[i]? = some name) :
    (slots top F vars)[i]? = some (vars name) := by
  simp [slots, hi, hF]

/-- Only one slot holds a variable. -/
theorem slots_set (hnodup : F.toList.Nodup) (hF : F[i]? = some name) (v : Value) :
    slots top F (fun other => if other = name then v else vars other) =
      (slots top F vars).setIfInBounds i v := by
  ext j hj hj'
  · simp
  · rw [size_slots] at hj
    rw [Array.getElem_setIfInBounds (by simpa using hj)]
    simp only [slots, Array.getElem_ofFn]
    split
    · next hij =>
      subst hij
      simp [hF]
    · next hij =>
      cases hFj : F[j]? with
      | none => rfl
      | some other =>
        have hne : other ≠ name := by
          rintro rfl
          rw [← Array.getElem?_toList] at hF hFj
          exact hij ((List.getElem?_inj (List.getElem?_eq_some_iff.1 hF).1 hnodup).1 (hF.trans hFj.symm))
        simp [hne]

end Slots

section Follows

variable (limits : Limits) (L : Layout) (F : Array String)

/-- The machine that holds a memory, with some values above the variables. -/
def place (μ : Memory) (temps : Array Value) (ip : Nat) : State :=
  μ.world.state (slots L.top F μ.vars ++ temps) ip 0

/-- From a state on, the machine does what is the result of an evaluation.  When that ends with a
value, the machine is in the state that `after` says; a loop that is left is left to the end that
`exits` lists for it, and an evaluation that does not end goes on for `n` instructions. -/
def Agrees {α : Type} (n : Nat) (exits : List Nat) (after : α → Memory → State) (s : State) :
    EStateM.Result Exit Memory α → Prop
  | .ok a μ => Leads limits L (· = after a μ) s
  | .error (.fault f) μ => Leads limits L (Fails limits L f μ.world) s
  | .error (.leave more) μ =>
    ∃ exit, exits[more]? = some exit ∧ Leads limits L (· = place L F μ #[] exit) s
  | .error (.stop v) μ => Leads limits L (Stops limits L v μ.world) s
  | .error .unfinished _ => Lasts limits L n s
  | .error .illTyped _ => False

/-- From a state on, the machine does what an evaluation does in a memory. -/
def Follows {α : Type} (n : Nat) (exits : List Nat) (after : α → Memory → State) (s : State)
    (x : Eval α) (μ : Memory) : Prop := Agrees limits L F n exits after s (x μ)

end Follows

section Follows

variable {limits : Limits} {L : Layout} {F : Array String} {α β : Type} {n : Nat} {exits : List Nat}
  {after : α → Memory → State} {after' : β → Memory → State} {s s' : State} {x : Eval α} {μ : Memory}

/-- What leads to a state is led on as that state is. -/
theorem Agrees.before {r : EStateM.Result Exit Memory α} (hs : Leads limits L (· = s') s)
    (h : Agrees limits L F n exits after s' r) : Agrees limits L F n exits after s r := by
  rcases r with ⟨a, μ⟩ | ⟨⟨⟩ | ⟨⟩ | ⟨⟩ | _ | _, μ⟩
  · exact hs.bind fun _ hs => hs ▸ h
  · exact hs.bind fun _ hs => hs ▸ h
  · exact h.imp fun _ he => ⟨he.1, hs.bind fun _ hs => hs ▸ he.2⟩
  · exact hs.bind fun _ hs => hs ▸ h
  · exact h
  · exact hs.lasts fun _ hs => hs ▸ h

theorem Follows.before (hs : Leads limits L (· = s') s)
    (h : Follows limits L F n exits after s' x μ) : Follows limits L F n exits after s x μ :=
  Agrees.before hs h

/-- One evaluation after the other. -/
theorem Follows.bind {f : α → Eval β} (hx : Follows limits L F n exits after s x μ)
    (hf : ∀ a μ', x μ = .ok a μ' → Follows limits L F n exits after' (after a μ') (f a) μ') :
    Follows limits L F n exits after' s (x >>= f) μ := by
  show Agrees limits L F n exits after' s (EStateM.bind x f μ)
  unfold Follows at hx
  unfold EStateM.bind
  cases hr : x μ with
  | ok a μ' =>
    rw [hr] at hx
    exact Agrees.before hx (hf a μ' hr)
  | error e μ' =>
    rw [hr] at hx
    cases e <;> exact hx

theorem Follows.pure {a : α} (h : Leads limits L (· = after a μ) s) :
    Follows limits L F n exits after s (Pure.pure a) μ := h

/-- A result that is looked at in another way. -/
theorem Follows.map {f : α → β}
    (hx : Follows limits L F n exits (fun a μ => after' (f a) μ) s x μ) :
    Follows limits L F n exits after' s (f <$> x) μ := by
  rw [map_eq_pure_bind]
  exact hx.bind fun a μ _ => .pure (.here rfl)

/-- The state behind an evaluation leads to another one. -/
theorem Follows.andThen {after₂ : α → Memory → State}
    (h : Follows limits L F n exits after s x μ)
    (hafter : ∀ a μ, Leads limits L (· = after₂ a μ) (after a μ)) :
    Follows limits L F n exits after₂ s x μ := by
  unfold Follows at h ⊢
  rcases hr : x μ with ⟨a, μ'⟩ | ⟨e, μ'⟩
  · rw [hr] at h
    exact Leads.bind h fun _ hs => hs ▸ hafter a μ'
  · rw [hr] at h
    cases e <;> exact h

/-! ### Instructions -/

theorem lt_size_place {temps : Array Value} {p k : Nat} (hk : k < L.top) :
    k < (place L F μ temps p).stack.size := by
  simp only [place, World.state, Array.size_append, size_slots]
  omega

theorem getD_place {temps : Array Value} {p k : Nat} {name : String} (hk : k < L.top)
    (hF : F[k]? = some name) : (place L F μ temps p).stack.getD k .null = μ.vars name := by
  have hlt : k < (slots L.top F μ.vars).size := by simpa using hk
  simp only [place, World.state, Array.getD_eq_getD_getElem?, Array.getElem?_append_left hlt,
    getElem?_slots hk hF, Option.getD_some]

theorem pop_place {temps : Array Value} {p : Nat} {v : Value} :
    Exec.pop (place L F μ (temps.push v) p) = .ok v (place L F μ temps p) := by
  rw [pop_eq (v := v) (by simp [place, World.state])]
  simp [place, World.state]

theorem intHolds_negation (rel : Relation) (a b : Int32) :
    Exec.intHolds (Write.negation rel) a b = !Exec.intHolds rel a b := by
  have hle : ∀ a b : Int32, decide (b ≤ a) = !decide (a < b) := fun a b => by
    rw [← decide_not, decide_eq_decide, Int32.not_lt]
  have hlt : ∀ a b : Int32, decide (b < a) = !decide (a ≤ b) := fun a b => by
    rw [hle, Bool.not_not]
  cases rel with
  | eq => rfl
  | ne => exact (Bool.not_not _).symm
  | lt | gt => exact hle _ _
  | le | ge => exact hlt _ _

def compareInts (rel : Relation) : Exec Bool := do
  let b ← Exec.popInt .comparison
  let a ← Exec.popInt .comparison
  return Exec.intHolds rel a b

theorem compareInts_local (rel : Relation) (a b : Value) (w : World) :
    Local (compareInts rel) (Keeps #[]) #[a, b] w :=
  .bind (.popInt #[a] fun _ _ => .bind (.popInt #[] fun _ _ => .pure rfl))

/-- A comparison of integers that is an instruction of its own. -/
theorem perform_compare (limits : Limits) (environment : Environment) (rel : Relation) (x : Operand) :
    Exec.perform limits environment (.compare .int rel) x =
      compareInts rel >>= fun holds => Exec.push (.bool holds) := by
  simp only [compareInts, bind_assoc, pure_bind]
  rfl

/-- A comparison of integers that is one with a branch. -/
theorem step_branchInt (limits : Limits) (environment : Environment) (rel : Relation) (t : Nat)
    (s : State) : Exec.step limits environment (.branchInt (Write.negation rel)) (.int t) s =
      (compareInts rel >>= fun holds => pure (Exec.branch t !holds)) s := by
  simp only [compareInts, bind_assoc, pure_bind, ← intHolds_negation]
  exact bind_ok (countOperand_eq _ _ _)

/-- The place of a variable of the top level. -/
theorem variablePlace_own {k : Nat} (op : Opcode) (hfp : s.fp = 0) (hk : k < s.stack.size) :
    Exec.variablePlace .own op (.int k) s = .ok k s ∨
      Exec.variablePlace .own op (.int k) s = .error .addressOverflow s :=
  variablePlace_eq op (by simp [areaBase, hfp]) hk

variable (hfuel : limits.fuel = none) {op : Opcode} {x : Operand} {temps : Array Value} {p q : Nat}
include hfuel

/-- An operation on the values on top of the stack. -/
theorem Follows.operate {operands : List Value} {g : Nat} (has : L.Has p ⟨op, x⟩)
    (effect : Effect op x operands.length g) :
    Follows limits L F n exits
      (fun v μ => place L F μ (if g = 0 then temps else temps.push v) (p + 1))
      (place L F μ (temps ++ operands.toArray) p)
      (Evaluation.operate limits L.environment (some op) x operands) μ := by
  obtain ⟨r, hr, hmeets⟩ : Local (Exec.perform limits L.environment op x) (Leaves g)
      operands.toArray μ.world := perform_local effect (by simp)
  -- the evaluation runs the operation with its operands alone, the machine above the variables
  have hscratch := hr #[] 0 0
  rw [Array.empty_append] at hscratch
  have hmachine := hr (slots L.top F μ.vars ++ temps) p 0
  rw [Array.append_assoc] at hmachine
  have hstep : Exec.step limits L.environment op x (place L F μ (temps ++ operands.toArray) p) = _ :=
    congrFun (step_of_effect effect) _
  unfold Follows Evaluation.operate
  simp only [hscratch]
  cases r with
  | done u vs w =>
    have hg : g = 0 ∨ g = 1 := effect.gives
    rw [place, bind_ok hmachine] at hstep
    refine Leads.next hfuel has hstep (.here ?_)
    have hvs : vs.size = g := hmeets
    rcases hg with rfl | rfl
    · rw [Array.eq_empty_of_size_eq_zero hvs]
      simp [place, World.state, State.world]
    · obtain ⟨v, rfl⟩ := exists_singleton hvs
      simp [place, World.state, State.world]
  | failed f vs w =>
    rw [place, bind_error hmachine] at hstep
    have hfails := Leads.fails hfuel has hstep
    exact hfails

/-- A change of an element without an index fails. -/
theorem Follows.noElement {operands : List Value} {container : Value}
    {after : Value → Memory → State} (has : L.Has p ⟨op, .int (0 : Nat)⟩)
    (element : op = .storeElement .w64 ∨ ∃ u, op = .updateElement u) :
    Follows limits L F n exits after (place L F μ (temps ++ (operands ++ [container]).toArray) p)
      (Evaluation.operate limits L.environment (some op) (.int (0 : Nat)) (operands ++ [container])) μ := by
  -- no index is taken, and then the container is where the last index should be
  have htarget : ∀ base ip fp, Exec.elementTarget op (.int (0 : Nat))
      (μ.world.state (base.push container) ip fp) =
        .error (.invalidOperand op ip) (μ.world.state base ip fp) := by
    intro base ip fp
    have hnone : Exec.popMany 0 (μ.world.state (base.push container) ip fp) =
        .ok #[] (μ.world.state (base.push container) ip fp) := by
      simp [Exec.popMany, World.state]
    unfold Exec.elementTarget
    rw [bind_ok (countOperand_eq _ 0 _), bind_ok hnone,
      bind_ok (pop_eq (show (base.push container).back? = some container by simp))]
    simp only [World.state, Array.pop_push]
    rfl
  have hperform : ∀ base ip fp, Exec.perform limits L.environment op (.int (0 : Nat))
      (μ.world.state (base.push container) ip fp) =
        .error (.invalidOperand op ip) (μ.world.state base ip fp) := by
    intro base ip fp
    rcases element with rfl | ⟨u, rfl⟩ <;> exact bind_error (htarget base ip fp)
  have hscratch := hperform operands.toArray 0 0
  rw [List.push_toArray] at hscratch
  have hmachine := hperform (slots L.top F μ.vars ++ temps ++ operands.toArray) p 0
  have hstep : Exec.step limits L.environment op (.int (0 : Nat))
      (place L F μ (temps ++ (operands ++ [container]).toArray) p) =
        .error (.invalidOperand op p)
          (μ.world.state (slots L.top F μ.vars ++ temps ++ operands.toArray) p 0) := by
    have hplace : place L F μ (temps ++ (operands ++ [container]).toArray) p =
        μ.world.state ((slots L.top F μ.vars ++ temps ++ operands.toArray).push container) p 0 := by
      simp [place]
    rw [hplace]
    rcases element with rfl | ⟨u, rfl⟩ <;> exact bind_error hmachine
  have hfails := Leads.fails hfuel has hstep
  unfold Follows Evaluation.operate
  simp only [hscratch]
  exact hfails

/-- A literal. -/
theorem Leads.literal {v : Literal} (has : L.Has p (literalDraft v)) :
    Leads limits L (· = place L F μ (temps.push (literalValue v)) (p + 1)) (place L F μ temps p) := by
  have hperform : Exec.perform limits L.environment (literalDraft v).opcode (literalDraft v).operand =
      Exec.push (literalValue v) := by
    cases v with
    | int k =>
      have hint : Exec.intOperand (.loadConst .w32) (.int k.toInt) = pure k.toInt := rfl
      unfold Exec.perform
      dsimp only [literalDraft]
      rw [hint, pure_bind, int32OfInt?_toInt]
      rfl
    | _ => rfl
  have hstep : Exec.step limits L.environment (literalDraft v).opcode (literalDraft v).operand =
      Exec.push (literalValue v) >>= fun _ => pure .next := by
    rw [← hperform]
    cases v <;> rfl
  refine Leads.next hfuel has (congrFun hstep _) (.here ?_)
  simp [place, World.state]

/-! ### Variables -/

section Variables

variable {P : State → Prop} {k : Nat} {w : Width}

/-- A place that does not fit in 64 bits is too high. -/
theorem Leads.tooHigh (has : L.Has s.ip ⟨op, x⟩)
    (hstep : Exec.step limits L.environment op x s = .error .addressOverflow s') :
    Leads limits L P s := by
  have hnext := next_of_has hfuel has
  rw [hstep] at hnext
  exact .overflow (hnext ▸ rfl)

/-- A load puts the value of the variable on the stack. -/
theorem Leads.load {name : String} (has : L.Has p ⟨.load .own w, .int k⟩) (hk : k < L.top)
    (hF : F[k]? = some name) :
    Leads limits L (· = place L F μ (temps.push (μ.vars name)) (p + 1)) (place L F μ temps p) := by
  have hlt : k < (place L F μ temps p).stack.size := lt_size_place hk
  have hstep : Exec.step limits L.environment (.load .own w) (.int k) =
    (Exec.variablePlace .own (.load .own w) (.int k) >>= Exec.loadVariable) >>= fun _ => pure .next := rfl
  have hstep := congrFun hstep (place L F μ temps p)
  rcases variablePlace_own (Opcode.load .own w) rfl hlt with hp | hp
  · rw [bind_assoc, bind_ok hp] at hstep
    refine Leads.next hfuel has hstep (.here ?_)
    dsimp only
    rw [getD_place hk hF]
    simp [place, World.state]
  · rw [bind_assoc, bind_error hp] at hstep
    exact Leads.tooHigh hfuel has hstep

/-- A store takes a value from the stack. -/
theorem Leads.store {name : String} {v : Value} (has : L.Has p ⟨.store .own w, .int k⟩)
    (hnodup : F.toList.Nodup) (hk : k < L.top) (hF : F[k]? = some name) :
    Leads limits L
      (· = place L F ⟨fun other => if other = name then v else μ.vars other, μ.world⟩ temps (p + 1))
      (place L F μ (temps.push v) p) := by
  have hlt : k < (place L F μ temps p).stack.size := lt_size_place hk
  have hstep : Exec.step limits L.environment (.store .own w) (.int k) =
    (Exec.pop >>= fun v => Exec.variablePlace .own (.store .own w) (.int k) >>= fun place =>
      Exec.storeVariable place v) >>= fun _ => pure .next := rfl
  have hstep := congrFun hstep (place L F μ (temps.push v) p)
  rw [bind_assoc, bind_ok pop_place] at hstep
  rcases variablePlace_own (Opcode.store .own w) rfl hlt with hp | hp
  · rw [bind_assoc, bind_ok hp] at hstep
    refine Leads.next hfuel has hstep (.here ?_)
    have hk' : k < (slots L.top F μ.vars).size := by simpa using hk
    simp only [place, slots_set hnodup hF, World.state, Array.setIfInBounds_append_left hk']
  · rw [bind_assoc, bind_error hp] at hstep
    exact Leads.tooHigh hfuel has hstep

/-- The update of a variable. -/
theorem Follows.update {u : Bytecode.Update} {name : String} (has : L.Has p ⟨.update .own u, .int k⟩)
    (hnodup : F.toList.Nodup) (hk : k < L.top) (hF : F[k]? = some name) :
    Follows limits L F n exits (fun _ μ => place L F μ temps (p + 1)) (place L F μ temps p)
      (do
        let v ← readVariable name
        setVariable name (← orFault (bump u v))) μ := by
  have hlt : k < (place L F μ temps p).stack.size := lt_size_place hk
  have hstep : Exec.step limits L.environment (.update .own u) (.int k) =
    (Exec.variablePlace .own (.update .own u) (.int k) >>= fun place =>
      Exec.updateVariable place u) >>= fun _ => Pure.pure .next := rfl
  have hstep := congrFun hstep (place L F μ temps p)
  show Follows limits L F n exits _ _
    (EStateM.bind (orFault (bump u (μ.vars name))) (setVariable name)) μ
  rcases variablePlace_own (Opcode.update .own u) rfl hlt with hp | hp
  · rw [bind_assoc, bind_ok hp, Exec.updateVariable, bind_assoc, bind_get, getD_place hk hF] at hstep
    cases hb : bump u (μ.vars name) with
    | ok v =>
      rw [hb] at hstep
      show Leads limits L (· = place L F ⟨_, μ.world⟩ temps (p + 1)) _
      refine Leads.next hfuel has hstep (.here ?_)
      have hk' : k < (slots L.top F μ.vars).size := by simpa using hk
      simp only [place, slots_set hnodup hF, World.state, Array.setIfInBounds_append_left hk']
    | error f =>
      rw [hb] at hstep
      exact Leads.fails hfuel has hstep
  · rw [bind_assoc, bind_error hp] at hstep
    cases bump u (μ.vars name) <;> exact Leads.tooHigh hfuel has hstep

end Variables

/-! ### The order of instructions -/

section Order

variable {v : Value} {t : Nat}

theorem Leads.goto (has : L.Has p ⟨.jump, .int (t : Nat)⟩) :
    Leads limits L (· = place L F μ temps t) (place L F μ temps p) :=
  Leads.jump hfuel has (bind_ok (countOperand_eq _ _ _)) (.here rfl)

/-- A branch takes the value that it tests. -/
theorem Leads.branch (taken : Value → Bool) (has : L.Has p ⟨op, .int (t : Nat)⟩)
    (hop : ∀ s, Exec.step limits L.environment op (.int (t : Nat)) s =
      (Exec.countOperand op (.int (t : Nat)) >>= fun target =>
        Exec.pop >>= fun v => pure (Exec.branch target (taken v))) s) :
    Leads limits L (· = place L F μ temps (if taken v then t else p + 1))
      (place L F μ (temps.push v) p) := by
  have hstep := hop (place L F μ (temps.push v) p)
  rw [bind_ok (countOperand_eq _ _ _), bind_ok pop_place] at hstep
  cases ht : taken v with
  | true =>
    rw [ht] at hstep
    exact Leads.jump hfuel has hstep (.here rfl)
  | false =>
    rw [ht] at hstep
    exact Leads.next hfuel has hstep (.here rfl)

theorem Leads.branchFalse (has : L.Has p ⟨.branchFalse, .int (t : Nat)⟩) :
    Leads limits L (· = place L F μ temps (if v.isTruthy then p + 1 else t))
      (place L F μ (temps.push v) p) := by
  have h : Leads limits L (· = place L F μ temps (if !v.isTruthy then t else p + 1))
      (place L F μ (temps.push v) p) := Leads.branch hfuel (!·.isTruthy) has fun _ => rfl
  cases hv : v.isTruthy <;> simpa [hv] using h

theorem Leads.branchTrue (has : L.Has p ⟨.branchTrue, .int (t : Nat)⟩) :
    Leads limits L (· = place L F μ temps (if v.isTruthy then t else p + 1))
      (place L F μ (temps.push v) p) :=
  Leads.branch hfuel Value.isTruthy has fun _ => rfl

/-- A comparison of integers that is one with the branch behind it: the branch is taken if the
comparison does not hold. -/
theorem Follows.branchInt {rel : Relation} {a b : Value}
    (has : L.Has p ⟨.branchInt (Write.negation rel), .int (t : Nat)⟩) :
    Follows limits L F n exits (fun v μ => place L F μ temps (if v.isTruthy then p + 1 else t))
      (place L F μ (temps ++ [a, b].toArray) p)
      (Evaluation.operate limits L.environment (some (.compare .int rel)) .none [a, b]) μ := by
  obtain ⟨r, hr, hmeets⟩ := compareInts_local rel a b μ.world
  have hstep := step_branchInt limits L.environment rel t (place L F μ (temps ++ [a, b].toArray) p)
  have hmachine := hr (slots L.top F μ.vars ++ temps) p 0
  rw [Array.append_assoc] at hmachine
  have hscratch := hr #[] 0 0
  rw [Array.empty_append] at hscratch
  unfold Follows Evaluation.operate
  simp only [perform_compare]
  cases r with
  | done holds vs w =>
    obtain rfl : vs = #[] := hmeets
    rw [place, bind_ok hmachine] at hstep
    rw [bind_ok hscratch]
    show Leads limits L (· = place L F ⟨μ.vars, w⟩ temps (if holds then p + 1 else t)) _
    cases holds with
    | true => exact Leads.next hfuel has hstep (.here (by simp [place, World.state]))
    | false => exact Leads.jump hfuel has hstep (.here (by simp [place, World.state]))
  | failed f vs w =>
    rw [place, bind_error hmachine] at hstep
    have hfails := Leads.fails hfuel has hstep
    rw [bind_error hscratch]
    exact hfails

/-- A value is dropped. -/
theorem Leads.drop (has : L.Has p ⟨.popStack, .int (1 : Nat)⟩) :
    Leads limits L (· = place L F μ temps (p + 1)) (place L F μ (temps.push v) p) := by
  have hstep : Exec.step limits L.environment .popStack (.int (1 : Nat))
      (place L F μ (temps.push v) p) = .ok .next (place L F μ temps p) := by
    obtain ⟨vs, hmany⟩ : ∃ vs, Exec.popMany 1 (place L F μ (temps.push v) p) =
        .ok vs (place L F μ temps p) := by
      have hmany : Exec.popMany 1 (place L F μ (temps.push v) p) = _ :=
        if_pos (by simp [place, World.state]; omega)
      have hrest : (place L F μ (temps.push v) p).stack.shrink
          ((place L F μ (temps.push v) p).stack.size - 1) = (place L F μ temps p).stack := by
        simp [place, World.state]
      exact ⟨_, hmany.trans (by simp only [hrest]; rfl)⟩
    show ((Exec.countOperand .popStack (.int (1 : Nat)) >>= fun n =>
      (fun _ => ()) <$> Exec.popMany n) >>= fun _ => pure Flow.next) _ = _
    rw [bind_assoc, bind_ok (countOperand_eq _ 1 _), map_eq_pure_bind, bind_assoc, bind_ok hmany]
    rfl
  exact Leads.next hfuel has hstep (.here rfl)

/-- The end of a program. -/
theorem Leads.stop (has : L.Has p ⟨.term, .none⟩) :
    Leads limits L (Stops limits L v μ.world) (place L F μ (temps.push v) p) := by
  have hnext := next_of_has (s := place L F μ (temps.push v) p) hfuel has
  refine .here ⟨_, hnext, ?_, rfl⟩
  simp [place, World.state]

end Order

end Follows

end StackScript.Evaluation
