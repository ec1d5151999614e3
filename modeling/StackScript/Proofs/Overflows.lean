import StackScript.Proofs.OwnFaults
import StackScript.Proofs.Places

/-!
# Places that fit in 64 bits

An instruction on a variable adds its operand to the frame pointer before it looks whether the sum is a place
on the stack.  A program may have any operand and may change the frame pointers that its calls save, so the sum
need not fit in 64 bits; with operands that keep off the limit it always does.

* `Limits.maxFrame`: the highest frame pointer, whatever program runs.
* `step_overflow`: an instruction whose place does not fit has an operand that reaches the limit.
* `run_addressable`: where no operand reaches the limit from the highest frame pointer, every place fits.
-/

namespace StackScript.Machine

open Bytecode Host

/-- The highest frame pointer.  A call starts a frame on top of the stack, and a return takes any integer that
is not negative for the frame pointer of its caller. -/
def Limits.maxFrame (limits : Limits) : Nat := max limits.maxStack 0x7fffffff

variable {limits : Limits} {environment : Environment} {program : Program} {op : Opcode} {x : Operand}
  {flow : Flow} {s t : State}

/-! ### Frame pointers -/

/-- An operation that neither begins nor ends a call leaves the machine at its place and in its frame; where
it goes on is not settled yet. -/
theorem Stays.step (hplain : changesFrame op = false) : Stays (Exec.step limits environment op x) := by
  cases op with
  | callInternal | ret | retWith w => cases hplain
  | term => exact pure _
  | jump => exact (countOperand _ _).bind fun _ => pure _
  | branchFalse | branchTrue => exact (countOperand _ _).bind fun _ => pop.bind fun _ => pure _
  | branchInt r =>
    exact (countOperand _ _).bind fun _ => (popInt _).bind fun _ => (popInt _).bind fun _ => pure _
  | _ => exact (perform _ _ _ _).bind fun _ => pure _

theorem popAddress_le {a : Nat} (h : Exec.popAddress s = .ok a t) : a ≤ 0x7fffffff := by
  obtain ⟨v, s₁, -, h⟩ := ok_of_bind h
  split at h
  · next n =>
    split at h
    · cases h
      have hlt := n.toInt_lt
      omega
    · cases h
  · cases h

theorem leave_frame {v : Value} (h : Exec.leave v s = .ok flow t) (hs : s.fp ≤ limits.maxFrame) :
    t.fp ≤ limits.maxFrame := by
  unfold Exec.leave at h
  rw [bind_modify, bind_get] at h
  split at h
  · cases h
    exact hs
  · rw [bind_modify] at h
    obtain ⟨target, s₁, -, h⟩ := ok_of_bind h
    obtain ⟨fp, s₂, hfp, h⟩ := ok_of_bind h
    cases h
    exact Nat.le_trans (popAddress_le hfp) (Nat.le_max_right _ _)

theorem enter_frame {target : Nat} (h : Exec.enter limits target s = .ok flow t) : t.fp = t.stack.size := by
  rcases enter_eq limits target s with ⟨fp, ret, -, -, heq⟩ | heq <;> rw [heq] at h <;> cases h
  simp

/-- What an instruction does to the frame pointer. -/
theorem step_frame (h : Exec.step limits environment op x s = .ok flow t) (hs : s.fp ≤ limits.maxFrame) :
    t.fp ≤ limits.maxFrame ∨ t.fp = t.stack.size := by
  cases hplain : changesFrame op with
  | false => exact .inl ((Stays.step hplain h).2 ▸ hs)
  | true =>
    cases op with
    | ret => exact .inl (leave_frame h hs)
    | retWith w =>
      obtain ⟨v, s₁, hpop, h⟩ := ok_of_bind h
      exact .inl (leave_frame h ((Stays.pop hpop).2 ▸ hs))
    | callInternal =>
      obtain ⟨target, s₁, -, h⟩ := ok_of_bind h
      exact .inr (enter_frame h)
    | _ => cases hplain

/-- No frame pointer gets higher than the highest, since the height of the stack is looked at behind each
instruction. -/
theorem advance_frame {executed : Nat} (h : advance limits environment program executed s = .running t)
    (hs : s.fp ≤ limits.maxFrame) : t.fp ≤ limits.maxFrame := by
  have hchecked {u : State} {ip : Nat} (hu : u.fp ≤ limits.maxFrame ∨ u.fp = u.stack.size)
      (h : proceed.checked limits { u with ip } = .running t) : t.fp ≤ limits.maxFrame := by
    unfold proceed.checked at h
    split at h
    · cases h
    · next hsize =>
      cases h
      rcases hu with hu | hu
      · exact hu
      · rw [hu]
        exact Nat.le_trans (Nat.not_lt.1 hsize) (Nat.le_max_left _ _)
  unfold advance at h
  split at h
  · cases h
  · cases h
  · split at h
    · cases h
    · split at h
      · next flow u hstep =>
        cases flow with
        | halt => cases h
        | next => exact hchecked (step_frame hstep hs) h
        | jump target => exact hchecked (step_frame hstep hs) h
      · exact absurd h Progress.stopped_ne_running

/-! ### Places -/

theorem variablePlace_overflow {a : Area} (h : Exec.variablePlace a op x s = .error .addressOverflow t) :
    ∃ k : Int, x = .int k ∧ Exec.addressLimit ≤ s.fp + k := by
  unfold Exec.variablePlace Exec.slot at h
  rw [bind_ok (baseOf_eq a s)] at h
  cases x with
  | int k =>
    rw [bind_ok (show Exec.intOperand op (.int k) s = .ok k s from rfl), bind_get] at h
    have hbase : areaBase s a ≤ s.fp := by cases a <;> simp [areaBase]
    split at h
    · next hle =>
      refine ⟨k, rfl, Int.le_trans hle ?_⟩
      exact Int.add_le_add_right (Int.ofNat_le.2 hbase) k
    · split at h <;> cases h
  | _ => cases h

/-- Where the rest is no instruction on a variable, the place that does not fit came up before. -/
theorem overflow_of_bind {α β : Type} {y : Exec α} {f : α → Exec β}
    (h : (y >>= f) s = .error .addressOverflow t) (hf : ∀ a, OwnFaults false (f a)) :
    y s = .error .addressOverflow t := by
  rcases error_of_bind h with h | ⟨a, u, -, h⟩
  · exact h
  · cases hf a _ _ _ h

/-- An instruction that needs a place beyond the limit works on a variable, and its operand reaches the limit
from the frame pointer. -/
theorem step_overflow (h : Exec.step limits environment op x s = .error .addressOverflow t) :
    accessesSlot op = true ∧ ∃ k : Int, x = .int k ∧ Exec.addressLimit ≤ s.fp + k := by
  have hslot : accessesSlot op = true := OwnFaults.step _ _ _ _ _ h
  refine ⟨hslot, ?_⟩
  cases op with
  | load a w =>
    exact variablePlace_overflow (overflow_of_bind (overflow_of_bind h fun _ => .pure _) fun _ => .modify _)
  | store a w =>
    rcases error_of_bind (overflow_of_bind h fun _ => .pure _) with hpop | ⟨v, u, hpop, hplace⟩
    · cases (OwnFaults.pop : OwnFaults false Exec.pop) _ _ _ hpop
    · rw [← (Stays.pop hpop).2]
      exact variablePlace_overflow (overflow_of_bind hplace fun _ => .modify _)
  | update a u =>
    refine variablePlace_overflow (overflow_of_bind (overflow_of_bind h fun _ => .pure _) fun place => ?_)
    exact OwnFaults.get.bind fun _ => (OwnFaults.lift .bump).bind fun _ => .modify _
  | _ => cases hslot

/-! ### Runs -/

theorem advance_overflow {executed : Nat}
    (h : advance limits environment program executed s = .panicked t) :
    ∃ op x, program.code[s.ip]? = some ⟨.known op, x⟩ ∧
      ∃ u, Exec.step limits environment op x s = .error .addressOverflow u := by
  unfold advance at h
  split at h
  · cases h
  · cases h
  · next op x hcode =>
    split at h
    · cases h
    · split at h
      · next flow u hstep =>
        cases flow with
        | halt => cases h
        | next | jump target =>
          unfold proceed proceed.checked at h
          dsimp only at h
          split at h <;> cases h
      · next f u hstep =>
        cases f with
        | addressOverflow => exact ⟨op, x, hcode, u, hstep⟩
        | _ => cases h

theorem runFrom_overflow {count executed : Nat}
    (h : runFrom limits environment program count executed s = .panicked) (hs : s.fp ≤ limits.maxFrame) :
    ∃ op k, ⟨.known op, .int k⟩ ∈ program.code ∧ accessesSlot op = true ∧
      Exec.addressLimit ≤ limits.maxFrame + k := by
  induction count generalizing executed s with
  | zero => cases h
  | succ count ih =>
    rw [runFrom] at h
    split at h
    · next s' hnext => exact ih h (advance_frame hnext hs)
    · cases h
    · cases h
    · next s' hnext =>
      obtain ⟨op, x, hcode, u, hstep⟩ := advance_overflow hnext
      obtain ⟨hslot, k, rfl, hle⟩ := step_overflow hstep
      refine ⟨op, k, Array.mem_of_getElem? hcode, hslot, Int.le_trans hle ?_⟩
      exact Int.add_le_add_right (Int.ofNat_le.2 hs) k

/-- Where no instruction on a variable reaches the limit from the highest frame pointer, every place of every
run fits, whatever else the program has: no run panics. -/
theorem run_addressable {count : Nat}
    (hoperands : ∀ op k, ⟨.known op, .int k⟩ ∈ program.code → accessesSlot op = true →
      limits.maxFrame + k < Exec.addressLimit) : run limits environment program count s ≠ .panicked := by
  intro h
  unfold run at h
  split at h
  · obtain ⟨op, k, hmem, hslot, hle⟩ := runFrom_overflow h (Nat.zero_le _)
    exact absurd (hoperands op k hmem hslot) (Int.not_lt.2 hle)
  · cases h

/-- A call starts a frame behind two cells, from which this operand reaches the limit. -/
example : run .standard .empty
      (.ofCode #[⟨.known .callInternal, .int 1⟩, ⟨.known (.load .own .w64), .int 0x7fffffffffffffff⟩]) 2
      (.initial .empty) = .panicked := rfl

end StackScript.Machine
