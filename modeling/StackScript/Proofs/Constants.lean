import StackScript.Proofs.Addressing

/-!
# Constants

A constant keeps its value.  No instruction changes it but the one of its own declaration, in the
call that the constant belongs to: an assignment and an update are written for variables only
(`Lawful`), and no other variable shares the constant's cell (`Separated`).

* `Writes`: an instruction that writes a cell as that of a variable.
* `constants_kept`: from one execution of its declaration to the next, a constant's cell holds the
  same value.
-/

namespace StackScript.Machine

open Bytecode Host Assembly Syntax

/-- The instruction writes a cell as that of a variable. -/
def Writes (s : State) (op : Opcode) (x : Operand) (cell : Int) : Prop :=
  ∃ slot, slotOf? op x = some slot ∧ slot.touch ≠ .load ∧ cell = areaBase s slot.area + slot.place

section Constants

variable {L : Layout} {strict : Prop} {body : List Stmt} {streams : List (List Instruction)}
  {s s' : State} {calls calls' : List Call} {A : Activation} {rest : List Activation} {B : Call}
  {f g : Function} {v : Variable} {a : Occurrence}

/-- Where a constant is accessed and not just read, its declaration is carried out by the running call. -/
theorem Accesses.declares (haccesses : Accesses body streams s calls g a B) (h : Laid L body streams)
    (hf : IsCallOf body streams B f) (hconstant : a.target.constant = true) (huse : a.use ≠ .read) :
    calls.head? = some B ∧ EmittedFor body streams s.ip f ⟨.declare, a.target⟩ := by
  obtain ⟨C, rest, hcalls, hC⟩ := haccesses.running
  obtain ⟨k, i, code, instruction, hg, -, -, -, -, ha⟩ := haccesses.emitted
  have hlawful := h.accessed.lawful g (List.mem_of_getElem? hg) a (List.mem_of_getElem? ha)
  have hdeclare : a.use = .declare := by
    cases huse' : a.use with
    | read => exact absurd huse' huse
    | assign => rw [hlawful.changes (.inl huse')] at hconstant; cases hconstant
    | update => rw [hlawful.changes (.inr huse')] at hconstant; cases hconstant
    | declare => rfl
  cases haccesses.holds with
  | own hrunning =>
    obtain ⟨rfl, -⟩ := List.cons.inj (hrunning.symm.trans hcalls)
    obtain rfl := isCallOf_inj h hC hf
    refine ⟨by rw [hcalls]; rfl, ?_⟩
    rw [← hdeclare]
    exact haccesses.emitted
  | top other => exact absurd (hlawful.declares hdeclare) other

/-- Only its declaration writes a constant's cell. -/
theorem Tracked.writes (ht : Tracked L strict body s calls A rest) (h : Laid L body streams)
    {op : Opcode} {x : Operand} (has : L.Has s.ip ⟨op, x⟩) (hB : B ∈ calls)
    (hf : IsCallOf body streams B f) (hv : v ∈ f.vars) (hconstant : v.constant = true)
    (hwrites : Writes s op x (B.cell v)) :
    calls.head? = some B ∧ EmittedFor body streams s.ip f ⟨.declare, v⟩ := by
  obtain ⟨⟨touch, area, i⟩, hslot, htouch, hcell⟩ := hwrites
  obtain ⟨g, a, C, haccesses, -, hfound, hC, hread⟩ := ht.accesses h has hslot
  obtain ⟨g', hg', hw⟩ := haccesses.declared
  obtain ⟨rfl, rfl⟩ := ht.apart h hB hC hf hg' hv hw (hcell.trans hfound.symm)
  exact haccesses.declares h hf hconstant fun hr => htouch (hread hr)

end Constants

section Compiled

variable {environment : Environment} {body : List Stmt} {program : Program}

/-- In every run of a program that compiles, the cell of a constant is written by nothing but the
declaration of the constant, in the call that it belongs to.  While the call goes on and does not
carry out the declaration again, the cell holds the same value. -/
theorem constants_kept (hlisted : allListed body = true)
    (hcompile : compile environment body = .ok program) :
    ∃ streams, Accessed body program streams ∧
      ∀ (limits : Limits) (host : Environment) (start : State) (B : Call) (f : Function) (v : Variable),
        IsCallOf body streams B f → v ∈ f.vars → v.constant = true →
        (∀ n s op x, stateAfter limits host program start.restart n = some s →
          program.code[s.ip]? = some ⟨.known op, x⟩ →
          B ∈ callsAfter limits host program start.restart n → Writes s op x (B.cell v) →
          (callsAfter limits host program start.restart n).head? = some B ∧
            EmittedFor body streams s.ip f ⟨.declare, v⟩) ∧
        ∀ m n s t, m ≤ n → stateAfter limits host program start.restart m = some s →
          stateAfter limits host program start.restart n = some t →
          (∀ i, m ≤ i → i ≤ n → B ∈ callsAfter limits host program start.restart i) →
          (∀ i u, m ≤ i → i < n → stateAfter limits host program start.restart i = some u →
            (callsAfter limits host program start.restart i).head? = some B →
            ¬EmittedFor body streams u.ip f ⟨.declare, v⟩) →
          ∀ x, s.stack[(B.cell v).toNat]? = some x → t.stack[(B.cell v).toNat]? = some x := by
  obtain ⟨L, streams, rfl, hlaid⟩ := laid_of_compile hlisted hcompile
  refine ⟨streams, hlaid.accessed, fun limits host start B f v hf hv hconstant => ⟨?_, ?_⟩⟩
  · intro n s op x hs hcode hB hwrites
    obtain ⟨A, rest, ht⟩ := tracked_after hlaid.code hs
    exact ht.writes hlaid hcode hB hf hv hconstant hwrites
  · intro m n s t hmn hs ht hlives hquiet x hx
    -- step by step, from the moment at which the cell was read
    induction hmn generalizing t with
    | refl =>
      obtain rfl := Option.some.inj (hs.symm.trans ht)
      exact hx
    | @step n hmn ih =>
      obtain ⟨u, hu, -⟩ := stateAfter_succ ht
      have hkept := ih u hu (fun i hi hin => hlives i hi (by omega)) fun i w hi hin => hquiet i w hi (by omega)
      have hB := hlives n hmn (Nat.le_succ n)
      have hsize : B.cell v < u.stack.size := by
        have := (Array.getElem?_eq_some_iff.1 hkept).1
        omega
      -- A step changes the cell by an access only, and this is the declaration.
      rcases (addressed_after hlaid hu ht).kept B f v hB
          (hlives _ (Nat.le_succ_of_le hmn) (Nat.le_refl _)) hf hv hsize
        with hsame | ⟨g, a, haccesses, rfl, huse⟩
      · rw [hsame, hkept]
      · obtain ⟨hhead, hemitted⟩ := haccesses.declares hlaid hf hconstant huse
        exact absurd hemitted (hquiet n u hmn (Nat.lt_succ_self n) hu hhead)

end Compiled

/-- In `shadowedSum`, the function declares a constant of the same name as the top level, which leaves
that of the top level alone. -/
theorem shadowedSum_limit_kept : ∃ streams, Accessed shadowedSum (compiled .empty shadowedSum) streams ∧
    ∀ limits host (start : State) n s op x,
      stateAfter limits host (compiled .empty shadowedSum) start.restart n = some s →
      (compiled .empty shadowedSum).code[s.ip]? = some ⟨.known op, x⟩ →
      ⟨0, 0⟩ ∈ callsAfter limits host (compiled .empty shadowedSum) start.restart n →
      Writes s op x 0 → EmittedFor shadowedSum streams s.ip (mainFunction shadowedSum)
        ⟨.declare, ⟨"limit", true, 0, 0⟩⟩ := by
  have hcompile : (compile .empty shadowedSum).isOk = true := by decide +kernel
  obtain ⟨streams, haccessed, hrun⟩ := constants_kept (by decide) (compile_eq_compiled hcompile)
  refine ⟨streams, haccessed, fun limits host start n s op x hs hcode hcall hwrites => ?_⟩
  have hlimit : (⟨"limit", true, 0, 0⟩ : Variable) ∈ (mainFunction shadowedSum).vars := by decide
  have hkept := hrun limits host start ⟨0, 0⟩ (mainFunction shadowedSum) _ ⟨0, rfl, rfl⟩ hlimit rfl
  exact (hkept.1 n s op x hs hcode hcall hwrites).2

end StackScript.Machine
