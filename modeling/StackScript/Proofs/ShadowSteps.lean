import StackScript.Proofs.Shadows

/-!
# Instructions and their shadows

An instruction of a running program and the same instruction at its other place keep the second machine
the shadow of the first one, or both machines stop alike.

* `Shadows.effect`, `Shadows.load` and their kin: single instructions.
* `Shadows.step`: whatever instruction is next.
-/

namespace StackScript.Machine

open Bytecode Host Assembly

open Evaluation (compareInts perform_compare step_branchInt)

/-! ### What instructions come to -/

section Equations

variable {limits : Limits} {environment : Environment} {a : Area} {w : Width} {u : Update} {i : Int}
  {s : State} {place : Nat} {v : Value} {op : Opcode}

theorem step_load (hplace : (place : Int) = areaBase s a + i) (hlt : place < s.stack.size) :
    Exec.step limits environment (.load a w) (.int i) s =
      if Exec.addressLimit ≤ (place : Int) then .error .addressOverflow s
      else .ok .next { s with stack := s.stack.push (s.stack.getD place .null) } := by
  have hperform : Exec.perform limits environment (.load a w) (.int i) =
    Exec.variablePlace a (.load a w) (.int i) >>= Exec.loadVariable := rfl
  have hfound := variablePlace_if (.load a w) hplace hlt
  have hstep : Exec.step limits environment (.load a w) (.int i) =
    Exec.perform limits environment (.load a w) (.int i) >>= fun _ => pure Flow.next := rfl
  rw [hstep, hperform, bind_assoc]
  split at hfound
  · next h => rw [bind_error hfound, if_pos h]
  · next h =>
    rw [bind_ok hfound, if_neg h]
    rfl

theorem step_store (hback : s.stack.back? = some v) (hplace : (place : Int) = areaBase s a + i)
    (hlt : place + 1 < s.stack.size) : Exec.step limits environment (.store a w) (.int i) s =
      if Exec.addressLimit ≤ (place : Int) then .error .addressOverflow { s with stack := s.stack.pop }
      else .ok .next { s with stack := s.stack.pop.setIfInBounds place v } := by
  have hperform : Exec.perform limits environment (.store a w) (.int i) =
    Exec.pop >>= fun v => Exec.variablePlace a (.store a w) (.int i) >>= fun place =>
      Exec.storeVariable place v := rfl
  have hplace' : (place : Int) = areaBase { s with stack := s.stack.pop } a + i := by
    cases a <;> exact hplace
  have hfound := variablePlace_if (s := { s with stack := s.stack.pop }) (.store a w) hplace'
    (by rw [Array.size_pop]; omega)
  have hstep : Exec.step limits environment (.store a w) (.int i) =
    Exec.perform limits environment (.store a w) (.int i) >>= fun _ => pure Flow.next := rfl
  rw [hstep, hperform, bind_assoc, bind_ok (pop_eq hback), bind_assoc]
  split at hfound
  · next h => rw [bind_error hfound, if_pos h]
  · next h =>
    rw [bind_ok hfound, if_neg h]
    rfl

theorem step_update (hplace : (place : Int) = areaBase s a + i) (hlt : place < s.stack.size) :
    Exec.step limits environment (.update a u) (.int i) s =
      if Exec.addressLimit ≤ (place : Int) then .error .addressOverflow s
      else match bump u (s.stack.getD place .null) with
        | .ok v => .ok .next { s with stack := s.stack.setIfInBounds place v }
        | .error f => .error f s := by
  have hperform : Exec.perform limits environment (.update a u) (.int i) =
    Exec.variablePlace a (.update a u) (.int i) >>= fun place => Exec.updateVariable place u := rfl
  have hfound := variablePlace_if (.update a u) hplace hlt
  have hstep : Exec.step limits environment (.update a u) (.int i) =
    Exec.perform limits environment (.update a u) (.int i) >>= fun _ => pure Flow.next := rfl
  rw [hstep, hperform, bind_assoc]
  split at hfound
  · next h => rw [bind_error hfound, if_pos h]
  · next h =>
    rw [bind_ok hfound, if_neg h]
    unfold Exec.updateVariable
    rw [bind_assoc, bind_get, bind_assoc]
    cases bump u (s.stack.getD place .null) <;> rfl

theorem step_allocStack (count : Nat) : Exec.step limits environment .allocStack (.int count) s =
    if limits.maxStack < s.stack.size + count then .error (.stackOverflow limits.maxStack) s
    else .ok .next { s with stack := s.stack ++ Array.replicate count .null } := by
  have hstep : Exec.step limits environment .allocStack (.int count) =
    Exec.perform limits environment .allocStack (.int count) >>= fun _ => pure Flow.next := rfl
  rw [hstep]
  unfold Exec.perform
  dsimp only
  rw [bind_assoc, bind_ok (countOperand_eq _ _ s), bind_assoc, bind_get]
  by_cases h : limits.maxStack < s.stack.size + count
  · rw [if_pos h, if_pos h]
    rfl
  · rw [if_neg h, if_neg h]
    rfl

/-- Without an index there is no element to change. -/
theorem step_noElement (element : (∃ w, op = .storeElement w) ∨ ∃ u, op = .updateElement u) :
    Exec.step limits environment op (.int (0 : Nat)) s = match s.stack.back? with
      | some _ => .error (.invalidOperand op s.ip) { s with stack := s.stack.pop }
      | none => .error (.stackUnderflow s.ip) s := by
  have hnone : Exec.popMany 0 s = .ok #[] s := by simp [Exec.popMany]
  have htarget : Exec.elementTarget op (.int (0 : Nat)) s = match s.stack.back? with
      | some _ => .error (.invalidOperand op s.ip) { s with stack := s.stack.pop }
      | none => .error (.stackUnderflow s.ip) s := by
    unfold Exec.elementTarget
    rw [bind_ok (countOperand_eq _ 0 s), bind_ok hnone]
    cases hback : s.stack.back? with
    | none => rw [bind_error (show Exec.pop s = .error _ s by rw [Exec.pop, hback])]
    | some v =>
      rw [bind_ok (pop_eq hback)]
      rfl
  split at htarget
  · rcases element with ⟨w, rfl⟩ | ⟨u, rfl⟩ <;> exact bind_error (bind_error htarget)
  · rcases element with ⟨w, rfl⟩ | ⟨u, rfl⟩ <;> exact bind_error (bind_error htarget)

theorem step_branchFalse {t : Nat} (hback : s.stack.back? = some v) :
    Exec.step limits environment .branchFalse (.int t) s =
      .ok (Exec.branch t !v.isTruthy) { s with stack := s.stack.pop } := by
  unfold Exec.step
  dsimp only
  rw [bind_ok (countOperand_eq _ _ s), bind_ok (pop_eq hback)]
  rfl

theorem step_branchTrue {t : Nat} (hback : s.stack.back? = some v) :
    Exec.step limits environment .branchTrue (.int t) s =
      .ok (Exec.branch t v.isTruthy) { s with stack := s.stack.pop } := by
  unfold Exec.step
  dsimp only
  rw [bind_ok (countOperand_eq _ _ s), bind_ok (pop_eq hback)]
  rfl

theorem encodeAddress_of_lt {address : Nat} (h : address < 0x80000000) :
    Exec.encodeAddress limits address s = .ok (.int (Int32.ofNat address)) s := by
  unfold Exec.encodeAddress
  rw [if_pos h]
  rfl

theorem encodeAddress_of_not_lt {address : Nat} (h : ¬address < 0x80000000) :
    Exec.encodeAddress limits address s = .error (.stackOverflow limits.maxStack) s := by
  unfold Exec.encodeAddress
  rw [if_neg h]
  rfl

/-- A call saves the frame pointer and the return address, where both fit in an integer. -/
theorem step_call {t : Nat} : Exec.step limits environment .callInternal (.int t) s =
    if s.fp < 0x80000000 ∧ s.ip + 1 < 0x80000000 then
      .ok (.jump t) { s with
        stack := (s.stack.push (.int (Int32.ofNat s.fp))).push (.int (Int32.ofNat (s.ip + 1)))
        fp := s.stack.size + 2 }
    else .error (.stackOverflow limits.maxStack) s := by
  have hstep : Exec.step limits environment .callInternal (.int t) =
    Exec.countOperand .callInternal (.int t) >>= Exec.enter limits := rfl
  rw [hstep, bind_ok (countOperand_eq _ _ s), Exec.enter, bind_get]
  by_cases hfp : s.fp < 0x80000000
  · rw [bind_ok (encodeAddress_of_lt hfp)]
    by_cases hip : s.ip + 1 < 0x80000000
    · rw [bind_ok (encodeAddress_of_lt hip), if_pos ⟨hfp, hip⟩]
      rw [← show ((s.stack.push (.int (Int32.ofNat s.fp))).push (.int (Int32.ofNat (s.ip + 1)))).size =
        s.stack.size + 2 by simp]
      rfl
    · rw [bind_error (encodeAddress_of_not_lt hip), if_neg fun h => hip h.2]
  · rw [bind_error (encodeAddress_of_not_lt hfp), if_neg fun h => hfp h.1]

end Equations

/-! ### Places of addresses -/

section Places

variable {L : Layout} {strict : Prop} {stack : Array Value} {A B : Activation} {acts rest : List Activation}
  {s : State}

/-- The frame of a call lies above what its caller uses. -/
theorem Chained.rest_base (h : Chained L strict stack (A :: rest)) (hB : B ∈ rest) :
    B.base + B.room.slots + A.room.params + 2 ≤ A.base := List.rel_of_pairwise_cons h.pairwise hB

theorem Chained.base_le (h : Chained L strict stack (A :: rest)) (hB : B ∈ A :: rest) : B.base ≤ A.base := by
  rcases List.mem_cons.1 hB with rfl | hB
  · exact Nat.le_refl _
  · have := h.rest_base hB
    omega

/-- A call is that of the top level, or its frame lies above the variables of the top level. -/
theorem Chained.above_top (h : Chained L strict stack acts) (hB : B ∈ acts) : B.base = 0 ∨ L.top + 2 ≤ B.base := by
  induction h with
  | top _ base =>
    obtain rfl := List.mem_singleton.1 hB
    exact .inl base
  | call caller above _ _ _ ih =>
    rcases List.mem_cons.1 hB with rfl | hB
    · have := caller.top_le
      exact .inr (by omega)
    · exact ih hB

/-- Variables are not where addresses are saved. -/
theorem Running.holdsNoAddress (hr : Running L strict s A rest) {area : Area} {i : Int} {place : Nat}
    (hi : L.Reaches A.room area i) (hplace : (place : Int) = areaBase s area + i) :
    ¬HoldsAddress (A :: rest) place := by
  rintro ⟨B, hB, he⟩
  have hle := hr.chained.base_le hB
  rcases hr.reached hi hplace with h | h | ⟨hlow, hhigh⟩
  · omega
  · rcases hr.chained.above_top hB with hzero | htop
    · omega
    · omega
  · rcases List.mem_cons.1 hB with rfl | hB
    · omega
    · have := hr.chained.rest_base hB
      omega

end Places

/-! ### Single instructions -/

section Instructions

variable {g : Nat → Nat} {region : Set (Shape × Ref)} {limits : Limits} {environment : Environment}
  {acts : List Activation} {s s' : State} {op : Opcode} {x x' : Operand} {a : Area} {w : Width} {u : Update} {i : Int}
  {place t : Nat} {v v' : Value}

/-- The next instruction shows no function. -/
def HidesFunctions (op : Opcode) (x : Operand) (s : State) : Prop :=
  ∀ v ∈ shown op x s.stack, s.heap.showsFunction v = false

namespace StepAlike

variable {R R' : State → State → Prop} {y y' : EStateM.Result Fault State Flow}

theorem mono (h : StepAlike g region R y y') (hR : ∀ t t', R t t' → R' t t') : StepAlike g region R' y y' := by
  cases h with
  | next h => exact .next (hR _ _ h)
  | jump h => exact .jump (hR _ _ h)
  | halt h => exact .halt h
  | error h => exact .error h

/-- A branch is taken by both machines or by none. -/
theorem branch {b : Bool} {s s' : State} (htaken : R { s with ip := t } { s' with ip := g t })
    (hnext : R { s with ip := s.ip + 1 } { s' with ip := s'.ip + 1 }) :
    StepAlike g region R (.ok (Exec.branch t b) s) (.ok (Exec.branch (g t) b) s') := by
  cases b with
  | true => exact .jump htaken
  | false => exact .next hnext

end StepAlike

namespace Shadows

variable (hs : Shadows g region acts s s')
include hs

/-- The machines with other stacks, and at other instructions. -/
theorem withStack {stack stack' : Array Value} {ip ip' : Nat} (hstack : StacksMoved g region acts stack stack')
    (hip : ip' = g ip) : Shadows g region acts { s with stack, ip } { s' with stack := stack', ip := ip' } :=
  ⟨hstack, hip, hs.fp, hs.world⟩

theorem next_ip (hnext : g (s.ip + 1) = g s.ip + 1) : s'.ip + 1 = g (s.ip + 1) := by rw [hs.ip, hnext]

theorem areaBase_eq (a : Area) : areaBase s' a = areaBase s a := by
  cases a with
  | own => exact hs.fp
  | top => rfl

theorem getD (hcell : ¬HoldsAddress acts place) :
    Relocated g region (s.stack.getD place .null) (s'.stack.getD place .null) := by
  obtain ⟨hmap, hin⟩ := hs.stack.cells place hcell
  rw [Array.getD_eq_getD_getElem?, Array.getD_eq_getD_getElem?, hmap]
  have hcell : (Chart.shifted g region).Values 0 _ _ := .getD hin
  exact hcell

/-- An operation on the values on top of the stack. -/
theorem effect {m n : Nat} (hg : Function.Injective g) (henv : Settled g region environment) (h : Effect op x m n)
    (hx : OperandMoved g op x x') (habove : ∀ B ∈ acts, B.base + m ≤ s.stack.size) (hm : m ≤ s.stack.size)
    (hnext : g (s.ip + 1) = g s.ip + 1) (hquiet : HidesFunctions op x s) :
    StepAlike g region (Shadows g region acts) (Exec.step limits environment op x s)
      (Exec.step limits environment op x' s') := by
  -- the operation sees the values on top only, so it does the same with another stack below them
  let j := s.stack.size - m
  have hj : ∀ B ∈ acts, B.base ≤ j := fun B hB => Nat.le_sub_of_add_le (habove B hB)
  obtain ⟨hargs, hin⟩ := hs.stack.args hj
  have hparts : ∀ {stack : Array Value}, j ≤ stack.size →
      stack.extract 0 j ++ stack.extract j stack.size = stack := fun hle => by
    rw [Array.extract_append_extract, Nat.zero_min, Nat.max_eq_right hle, Array.extract_size]
  have hsize : (s.stack.extract j s.stack.size).size = m := by
    rw [Array.size_extract, Nat.min_self]
    omega
  have hquiet' : ∀ v ∈ shown op x (s.stack.extract j s.stack.size), s.heap.showsFunction v = false := by
    rw [← h.shown_append (s.stack.extract 0 j) hsize, hparts (Nat.sub_le _ _)]
    exact hquiet
  obtain ⟨r, r', hr, hr', -, hmoved⟩ := h.moved hg henv hx hs.world hsize hin hquiet'
  have hthere := hr (s.stack.extract 0 j) s.ip s.fp
  have hhere := hr' (s'.stack.extract 0 j) s'.ip s'.fp
  rw [hparts (Nat.sub_le _ _), State.world_state] at hthere
  rw [← hargs, hparts (by rw [hs.stack.size]; exact Nat.sub_le _ _), State.world_state] at hhere
  rw [step_of_effect h, step_of_effect (h.operand hx)]
  cases hmoved with
  | done hin hw =>
    rw [bind_ok hthere, bind_ok hhere]
    exact .next ⟨hs.stack.replace hj (Nat.sub_le _ _) hin, hs.next_ip hnext, hs.fp, hw⟩
  | failed hf hw =>
    rw [bind_error hthere, bind_error hhere]
    exact .failed hf hw

theorem load (hplace : (place : Int) = areaBase s a + i) (hlt : place < s.stack.size)
    (hcell : ¬HoldsAddress acts place) (habove : ∀ B ∈ acts, B.base ≤ s.stack.size)
    (hnext : g (s.ip + 1) = g s.ip + 1) :
    StepAlike g region (Shadows g region acts) (Exec.step limits environment (.load a w) (.int i) s)
      (Exec.step limits environment (.load a w) (.int i) s') := by
  rw [step_load hplace hlt, step_load (by rw [hs.areaBase_eq]; exact hplace) (hs.stack.size ▸ hlt)]
  obtain ⟨hv, hin⟩ := hs.getD hcell
  rw [hv]
  generalize s.stack.getD place .null = v at hin
  split
  · exact .failed rfl hs.world
  · exact .next (hs.withStack (hs.stack.push habove hin) (hs.next_ip hnext))

theorem store (hplace : (place : Int) = areaBase s a + i) (hlt : place + 1 < s.stack.size)
    (hcell : ¬HoldsAddress acts place) (habove : ∀ B ∈ acts, B.base + 1 ≤ s.stack.size)
    (hnext : g (s.ip + 1) = g s.ip + 1) :
    StepAlike g region (Shadows g region acts) (Exec.step limits environment (.store a w) (.int i) s)
      (Exec.step limits environment (.store a w) (.int i) s') := by
  obtain ⟨v, hv⟩ : ∃ v, s.stack.back? = some v := ⟨_, Array.getElem?_eq_getElem (by omega)⟩
  obtain ⟨hv', hin⟩ := hs.stack.back? habove hv
  rw [step_store hv hplace hlt, step_store hv' (by rw [hs.areaBase_eq]; exact hplace) (hs.stack.size ▸ hlt)]
  split
  · exact .failed rfl hs.world
  · exact .next (hs.withStack ((hs.stack.pop habove).set hcell hin) (hs.next_ip hnext))

theorem update (hplace : (place : Int) = areaBase s a + i) (hlt : place < s.stack.size)
    (hcell : ¬HoldsAddress acts place) (hnext : g (s.ip + 1) = g s.ip + 1) :
    StepAlike g region (Shadows g region acts) (Exec.step limits environment (.update a u) (.int i) s)
      (Exec.step limits environment (.update a u) (.int i) s') := by
  rw [step_update hplace hlt, step_update (by rw [hs.areaBase_eq]; exact hplace) (hs.stack.size ▸ hlt)]
  obtain ⟨hv, -⟩ := hs.getD hcell
  rw [hv]
  generalize s.stack.getD place .null = v
  have hb : Both ((Chart.shifted g region).Values 0) (bump u v) (bump u (v.relocate g)) := bump_charted 0 u
  have hbenign : Benign (bump u v) := Benign.bump
  split
  · exact .failed rfl hs.world
  · generalize bump u v = y, bump u (v.relocate g) = y' at hb hbenign
    cases hb with
    | ok h =>
      obtain ⟨rfl, hin'⟩ := h
      exact .next (hs.withStack (hs.stack.set hcell hin') (hs.next_ip hnext))
    | error f => exact .failed (Fault.not_structural (hbenign f rfl)) hs.world

/-- Room for the variables of a function. -/
theorem reserve {count : Nat} (habove : ∀ B ∈ acts, B.base ≤ s.stack.size) (hnext : g (s.ip + 1) = g s.ip + 1) :
    StepAlike g region (Shadows g region acts) (Exec.step limits environment .allocStack (.int count) s)
      (Exec.step limits environment .allocStack (.int count) s') := by
  rw [step_allocStack, step_allocStack, hs.stack.size]
  split
  · exact .failed rfl hs.world
  · have hin : ∀ v ∈ Array.replicate count Value.null, v.Inside region := fun v hv => by
      rw [(Array.mem_replicate.1 hv).2]
      exact nofun
    have hstack := hs.stack.replace habove (Nat.le_refl _) hin
    rw [← hs.stack.size, Array.extract_size, hs.stack.size, Array.extract_size, Array.map_replicate] at hstack
    exact .next (hs.withStack hstack (hs.next_ip hnext))

theorem noElement (element : (∃ w, op = .storeElement w) ∨ ∃ u, op = .updateElement u) :
    StepAlike g region (Shadows g region acts) (Exec.step limits environment op (.int (0 : Nat)) s)
      (Exec.step limits environment op (.int (0 : Nat)) s') := by
  rw [step_noElement element, step_noElement element, hs.ip]
  cases hv : s.stack.back? with
  | some v =>
    obtain ⟨v', hv'⟩ : ∃ v', s'.stack.back? = some v' := by
      have hpos : 0 < s'.stack.size := by
        rw [hs.stack.size]
        obtain ⟨stack, hstack⟩ := Array.back?_eq_some_iff.1 hv
        rw [hstack, Array.size_push]
        exact Nat.succ_pos _
      exact ⟨_, Array.getElem?_eq_getElem (by omega)⟩
    rw [hv']
    exact .error ⟨.error (.invalidOperand op s.ip), hs.world.heap, hs.world.output⟩
  | none =>
    have hv' : s'.stack.back? = none := by
      rw [Array.back?_eq_none_iff] at hv ⊢
      rw [← Array.size_eq_zero_iff, hs.stack.size, hv]
      rfl
    rw [hv']
    exact .error ⟨.error (.stackUnderflow s.ip), hs.world.heap, hs.world.output⟩

theorem jump : StepAlike g region (Shadows g region acts) (Exec.step limits environment .jump (.int t) s)
    (Exec.step limits environment .jump (.int (g t)) s') := by
  have hstep : ∀ (t : Nat) (s : State), Exec.step limits environment .jump (.int t) s = .ok (.jump t) s :=
    fun t s => bind_ok (countOperand_eq .jump t s)
  rw [hstep, hstep]
  exact .jump (hs.withStack hs.stack rfl)

theorem branch (test : op = .branchFalse ∨ op = .branchTrue) (hpos : 0 < s.stack.size)
    (habove : ∀ B ∈ acts, B.base + 1 ≤ s.stack.size) (hnext : g (s.ip + 1) = g s.ip + 1) :
    StepAlike g region (Shadows g region acts) (Exec.step limits environment op (.int t) s)
      (Exec.step limits environment op (.int (g t)) s') := by
  obtain ⟨v, hv⟩ : ∃ v, s.stack.back? = some v := ⟨_, Array.getElem?_eq_getElem (by omega)⟩
  obtain ⟨hv', -⟩ := hs.stack.back? habove hv
  have hpop := hs.stack.pop habove
  rcases test with rfl | rfl
  · rw [step_branchFalse hv, step_branchFalse hv', Value.isTruthy_relabel]
    exact .branch (hs.withStack hpop rfl) (hs.withStack hpop (hs.next_ip hnext))
  · rw [step_branchTrue hv, step_branchTrue hv', Value.isTruthy_relabel]
    exact .branch (hs.withStack hpop rfl) (hs.withStack hpop (hs.next_ip hnext))

/-- Both machines find an integer on top of the stack, or fail alike. -/
theorem popInt (task : Task) (habove : ∀ B ∈ acts, B.base + 1 ≤ s.stack.size) (hpos : 0 < s.stack.size) :
    (∃ n, Exec.popInt task s = .ok n { s with stack := s.stack.pop } ∧
      Exec.popInt task s' = .ok n { s' with stack := s'.stack.pop }) ∨
    ∃ f, f.structural = false ∧ Exec.popInt task s = .error f { s with stack := s.stack.pop } ∧
      Exec.popInt task s' = .error f { s' with stack := s'.stack.pop } := by
  obtain ⟨v, hv⟩ : ∃ v, s.stack.back? = some v := ⟨_, Array.getElem?_eq_getElem (by omega)⟩
  obtain ⟨hv', hin⟩ := hs.stack.back? habove hv
  have htype : (v.relocate g).typeName = v.typeName := Value.typeName_relabel
  unfold Exec.popInt
  rw [bind_ok (pop_eq hv), bind_ok (pop_eq hv')]
  have hother : (∀ n, v ≠ .int n) → ∃ f, f.structural = false ∧
      Exec.mistaken (α := Int32) task v { s with stack := s.stack.pop } = .error f { s with stack := s.stack.pop } ∧
      Exec.mistaken (α := Int32) task (v.relocate g) { s' with stack := s'.stack.pop } =
        .error f { s' with stack := s'.stack.pop } := fun _ =>
    ⟨.typeError task (.one v.typeName), rfl, rfl, by rw [← htype]; rfl⟩
  cases v with
  | int n => exact .inl ⟨n, rfl, rfl⟩
  | _ => exact .inr (hother nofun)

/-- The two integers on top of the stack compare in the same way, or the comparison fails alike. -/
theorem compared (r : Relation) (habove : ∀ B ∈ acts, B.base + 2 ≤ s.stack.size) (htwo : 2 ≤ s.stack.size) :
    (∃ b, compareInts r s = .ok b { s with stack := s.stack.pop.pop } ∧
      compareInts r s' = .ok b { s' with stack := s'.stack.pop.pop }) ∨
    ∃ f t t', f.structural = false ∧ compareInts r s = .error f t ∧ compareInts r s' = .error f t' ∧
      t.world = s.world ∧ t'.world = s'.world := by
  have hfirst : ∀ B ∈ acts, B.base + 1 ≤ s.stack.size := fun B hB => Nat.le_of_succ_le (habove B hB)
  have hpopped : Shadows g region acts { s with stack := s.stack.pop } { s' with stack := s'.stack.pop } :=
    hs.withStack (hs.stack.pop hfirst) hs.ip
  have hsecond : ∀ B ∈ acts, B.base + 1 ≤ s.stack.pop.size := fun B hB => by
    have := habove B hB
    rw [Array.size_pop]
    omega
  unfold compareInts
  rcases hs.popInt .comparison hfirst (by omega) with ⟨b, hb, hb'⟩ | ⟨f, hf, hb, hb'⟩
  · rw [bind_ok hb, bind_ok hb']
    rcases hpopped.popInt .comparison hsecond (by rw [Array.size_pop]; omega) with
      ⟨a, ha, ha'⟩ | ⟨f, hf, ha, ha'⟩
    · rw [bind_ok ha, bind_ok ha']
      exact .inl ⟨_, rfl, rfl⟩
    · rw [bind_error ha, bind_error ha']
      exact .inr ⟨f, _, _, hf, rfl, rfl, rfl, rfl⟩
  · rw [bind_error hb, bind_error hb']
    exact .inr ⟨f, _, _, hf, rfl, rfl, rfl, rfl⟩

theorem branchInt {r : Relation} (habove : ∀ B ∈ acts, B.base + 2 ≤ s.stack.size) (htwo : 2 ≤ s.stack.size)
    (hnext : g (s.ip + 1) = g s.ip + 1) :
    StepAlike g region (Shadows g region acts) (Exec.step limits environment (.branchInt r) (.int t) s)
      (Exec.step limits environment (.branchInt r) (.int (g t)) s') := by
  obtain ⟨r, rfl⟩ : ∃ r', r = Write.negation r' := ⟨Write.negation r, by cases r <;> rfl⟩
  rw [step_branchInt, step_branchInt]
  rcases hs.compared r habove htwo with ⟨b, hb, hb'⟩ | ⟨f, u, u', hf, hb, hb', hw, hw'⟩
  · rw [bind_ok hb, bind_ok hb']
    have hpop := hs.stack.twice habove
    exact .branch (hs.withStack hpop rfl) (hs.withStack hpop (hs.next_ip hnext))
  · rw [bind_error hb, bind_error hb']
    exact .failed hf (hw ▸ hw' ▸ hs.world)

/-- A branch on two integers, where the second machine compares first and then branches: both fail in
the comparison, or both go on, the second machine after two instructions. -/
theorem merged {r : Relation} {y : Operand} (habove : ∀ B ∈ acts, B.base + 2 ≤ s.stack.size)
    (htwo : 2 ≤ s.stack.size) (hnext : g (s.ip + 1) = g s.ip + 2) :
    (∃ f u u', Exec.step limits environment (.branchInt (Write.negation r)) (.int t) s = .error f u ∧
      Exec.step limits environment (.compare .int r) y s' = .error f u' ∧
        Outcome.Moved g region ⟨.error f, u⟩ ⟨.error f, u'⟩) ∨
    ∃ u', Exec.step limits environment (.compare .int r) y s' = .ok .next u' ∧ u'.ip = s'.ip ∧
      u'.stack.size + 1 = s'.stack.size ∧
      StepAlike g region (Shadows g region acts)
        (Exec.step limits environment (.branchInt (Write.negation r)) (.int t) s)
        (Exec.step limits environment .branchFalse (.int (g t)) { u' with ip := u'.ip + 1 }) := by
  have hstep : Exec.step limits environment (.compare .int r) y =
    Exec.perform limits environment (.compare .int r) y >>= fun _ => pure Flow.next := rfl
  rw [step_branchInt, hstep, perform_compare, bind_assoc]
  rcases hs.compared r habove htwo with ⟨b, hb, hb'⟩ | ⟨f, u, u', hf, hb, hb', hw, hw'⟩
  · refine .inr ⟨_, bind_ok hb', rfl, ?_, ?_⟩
    · show (s'.stack.pop.pop.push (.bool b)).size + 1 = s'.stack.size
      have hsize := hs.stack.size
      simp only [Array.size_push, Array.size_pop]
      omega
    · have hback : (s'.stack.pop.pop.push (.bool b)).back? = some (.bool b) := Array.back?_push
      rw [bind_ok hb, step_branchFalse hback, Array.pop_push]
      have hpop := hs.stack.twice habove
      refine .branch (hs.withStack hpop rfl) (hs.withStack hpop ?_)
      show s'.ip + 1 + 1 = g (s.ip + 1)
      rw [hs.ip, hnext]
  · exact .inl ⟨f, u, u', bind_error hb, bind_error hb', .failed hf (hw ▸ hw' ▸ hs.world)⟩

/-- A call. -/
theorem call (habove : ∀ B ∈ acts, B.base ≤ s.stack.size) (hnext : g (s.ip + 1) = g s.ip + 1)
    (hret : s.ip + 1 < 0x80000000 ↔ g s.ip + 1 < 0x80000000) :
    StepAlike g region (fun u u' => ∀ B : Activation, B.base = s.stack.size + 2 → Shadows g region (B :: acts) u u')
      (Exec.step limits environment .callInternal (.int t) s)
      (Exec.step limits environment .callInternal (.int (g t)) s') := by
  rw [step_call, step_call, hs.fp, hs.stack.size, hs.ip]
  by_cases hfits : s.fp < 0x80000000 ∧ s.ip + 1 < 0x80000000
  · have hret' := hret.1 hfits.2
    rw [if_pos hfits, if_pos ⟨hfits.1, hret'⟩]
    refine .jump fun B hbase => ⟨?_, rfl, rfl, hs.world⟩
    refine hs.stack.call hbase (a := s.ip + 1) ?_ (Int32.toInt_ofNat_of_lt hfits.2) habove
    rw [hnext]
    exact Int32.toInt_ofNat_of_lt hret'
  · rw [if_neg hfits, if_neg fun h => hfits ⟨h.1, hret.2 h.2⟩]
    exact .failed rfl hs.world

/-- A run that halts. -/
theorem halt {R : State → State → Prop} (habove : ∀ B ∈ acts, B.base + 1 ≤ s.stack.size) (hpos : 0 < s.stack.size) :
    StepAlike g region R (.ok .halt s) (.ok .halt s') := by
  obtain ⟨v, hv⟩ : ∃ v, s.stack.back? = some v := ⟨_, Array.getElem?_eq_getElem (by omega)⟩
  obtain ⟨hv', hin⟩ := hs.stack.back? habove hv
  refine .halt ⟨?_, hs.world.heap, hs.world.output⟩
  simp only [finish, hv, hv', Option.getD_some]
  exact .ok ⟨rfl, hin⟩

/-- A return at the top level. -/
theorem leave_top {R : State → State → Prop} (hfp : s.fp = 0) (hv : Relocated g region v v') :
    StepAlike g region R (Exec.leave v s) (Exec.leave v' s') := by
  rw [Machine.leave_top hfp, Machine.leave_top (hs.fp.trans hfp)]
  refine .halt ⟨?_, hs.world.heap, hs.world.output⟩
  simp only [finish, Array.back?_push, Option.getD_some]
  exact .ok hv

omit hs in
/-- A return to the caller. -/
theorem leave {L : Layout} {strict : Prop} {A B : Activation} {others : List Activation}
    (hs : Shadows g region (A :: B :: others) s s') (hchained : Chained L strict s.stack (A :: B :: others))
    (hfp : s.fp = A.base) (hsize : A.base ≤ s.stack.size) (hv : Relocated g region v v') :
    StepAlike g region (Shadows g region (B :: others)) (Exec.leave v s) (Exec.leave v' s') := by
  have hrest : ∀ C ∈ B :: others, C.base + 2 ≤ A.base := fun C hC => by
    have := hchained.rest_base hC
    omega
  have hbase : 2 ≤ A.base := Nat.le_trans (Nat.le_add_left _ _) (hrest B List.mem_cons_self)
  cases hchained with
  | @call _ _ _ ret k caller above frame address fits =>
    have haddress : Saved s'.stack (A.base - 1) (g ret) :=
      hs.stack.addresses _ ret ⟨A, List.mem_cons_self, by omega⟩ address
    -- the saved frame is no address, and so it is the same on both sides
    have hframe : Saved s'.stack (A.base - 2) B.base := by
      obtain ⟨n, hn, hcell⟩ := frame
      refine ⟨n, hn, ?_⟩
      have hother : ¬HoldsAddress (A :: B :: others) (A.base - 2) := by
        rintro ⟨C, hC, he⟩
        rcases List.mem_cons.1 hC with rfl | hC
        · omega
        · have := hrest C hC
          omega
      rw [(hs.stack.cells _ hother).1, hcell]
      rfl
    have hfp' := hs.fp.trans hfp
    rw [leave_eq (hfp ▸ hbase) (hfp ▸ hsize) (hfp ▸ address) (hfp ▸ frame),
      leave_eq (hfp' ▸ hbase) (hfp' ▸ hs.stack.size ▸ hsize) (hfp' ▸ haddress) (hfp' ▸ hframe), hfp, hfp']
    refine .jump ⟨?_, rfl, rfl, hv, hs.world.heap, hs.world.fresh, hs.world.output⟩
    refine hs.stack.back (fun C hC => List.mem_cons_of_mem _ hC) (fun C hC => Nat.le_sub_of_add_le (hrest C hC)) ?_
    rintro i hi ⟨C, hC, he⟩
    rcases List.mem_cons.1 hC with rfl | hC
    · omega
    · exact ⟨C, hC, he⟩

end Shadows

/-! ### Whatever instruction is next -/

variable {L : Layout} {strict : Prop} {A B : Activation} {rest others : List Activation} {t t' : State}

/-- An instruction that is no call and no return stays in the running function. -/
theorem Moves.stays (hm : Moves L s t A rest B others) (has : L.Has s.ip ⟨op, x⟩) (hplain : changesFrame op = false) :
    B = A ∧ others = rest := by
  cases hm with
  | stay => exact ⟨rfl, rfl⟩
  | call has' =>
    cases OkAt.has_inj has has'
    cases hplain
  | back _ value =>
    rcases value with ⟨has', -⟩ | ⟨w, has', -⟩
    · cases OkAt.has_inj has has'
      cases hplain
    · cases OkAt.has_inj has has'
      cases hplain

/-- The running function of one machine goes on, and the other machine is the shadow of this one. -/
def Follows (g : Nat → Nat) (region : Set (Shape × Ref)) (L : Layout) (s : State) (A : Activation)
    (rest : List Activation) (t t' : State) : Prop :=
  ∀ B others, Moves L s t A rest B others → Shadows g region (B :: others) t t'

theorem StepAlike.follows {y y' : EStateM.Result Fault State Flow}
    (h : StepAlike g region (Shadows g region (A :: rest)) y y') (has : L.Has s.ip ⟨op, x⟩)
    (hplain : changesFrame op = false) : StepAlike g region (Follows g region L s A rest) y y' :=
  h.mono fun _ _ hs B others hm => by
    obtain ⟨rfl, rfl⟩ := hm.stays has hplain
    exact hs

/-- A return, to the caller or from the top level. -/
theorem Shadows.leaves {u u' : State} {j : Nat} (hs : Shadows g region (A :: rest) u u')
    (hr : Running L strict s A rest) (hj : A.base ≤ j) (hle : j ≤ s.stack.size)
    (hstack : u.stack = s.stack.extract 0 j) (hfp : u.fp = s.fp) (hv : Relocated g region v v')
    (has : L.Has s.ip ⟨op, x⟩) (hop : op = .ret ∨ ∃ w, op = .retWith w) :
    StepAlike g region (Follows g region L s A rest) (Exec.leave v u) (Exec.leave v' u') := by
  have hframe := hfp.trans hr.frame
  have hchained : Chained L strict u.stack (A :: rest) := hr.chained.spared fun i hi _ _ => by
    rw [hstack, Array.getElem?_extract, if_pos (by omega), Nat.zero_add]
  cases rest with
  | nil =>
    cases hchained with
    | top _ base => exact hs.leave_top (hframe.trans base) hv
  | cons C others =>
    refine (hs.leave hchained hframe (by simp [hstack]; omega) hv).mono fun t t' hs' B more hm => ?_
    have hframe : changesFrame op = true := by rcases hop with rfl | ⟨w, rfl⟩ <;> rfl
    cases hm with
    | stay has' hplain =>
      cases OkAt.has_inj has has'
      rw [hframe] at hplain
      cases hplain
    | call has' =>
      cases OkAt.has_inj has has'
      rcases hop with hop | ⟨w, hop⟩ <;> cases hop
    | back caller =>
      obtain ⟨rfl, rfl⟩ := List.cons.inj caller
      exact hs'

/-- An instruction and the same instruction at its other place: both machines go on, one the shadow of
the other, or both stop alike. -/
theorem Shadows.step (hs : Shadows g region (A :: rest) s s') (hg : Function.Injective g)
    (henv : Settled g region environment) (hr : Running L strict s A rest) (has : L.Has s.ip ⟨op, x⟩)
    (hx : OperandMoved g op x x') (hnext : op ≠ .term → op ≠ .ret → g (s.ip + 1) = g s.ip + 1)
    (hret : op = .callInternal → (s.ip + 1 < 0x80000000 ↔ g s.ip + 1 < 0x80000000)) (hquiet : HidesFunctions op x s) :
    StepAlike g region (Follows g region L s A rest) (Exec.step limits environment op x s)
      (Exec.step limits environment op x' s') := by
  obtain ⟨size, hsize, hstands⟩ := hr.stands
  have hbase : ∀ {m : Nat}, A.base + m ≤ s.stack.size → ∀ B ∈ A :: rest, B.base + m ≤ s.stack.size :=
    fun {m} hm B hB => Nat.le_trans (Nat.add_le_add_right (hr.chained.base_le hB) m) hm
  generalize hip : s.ip = a at hstands
  cases hstands with
  | entering room fits =>
    rw [← hip] at room
    cases OkAt.has_inj has room
    cases hx with
    | target hop => cases hop
    | plain => exact (hs.reserve (hbase (m := 0) (by omega)) (hnext nofun nofun)).follows has rfl
  | @inside _ k fits =>
    subst hip
    -- one case for each kind of instruction that compiled code has
    cases fits.okAt with
    | @plain op' y m n j has' effect height next =>
      cases OkAt.has_inj has has'
      have hterm : op ≠ .term ∧ op ≠ .ret := by
        have := effect.plain
        constructor
        · rintro rfl
          cases effect with
          | binary h | unary h => cases h
        · rintro rfl
          cases this
      refine StepAlike.follows ?_ has effect.plain
      exact hs.effect hg henv effect hx (hbase (by omega)) (by omega) (hnext hterm.1 hterm.2) hquiet
    | @load area w i has' reached next =>
      cases OkAt.has_inj has has'
      obtain ⟨place, hplace, hlt⟩ := hr.place hsize reached
      cases hx with
      | target hop => cases hop
      | plain =>
        exact (hs.load hplace (by omega) (hr.holdsNoAddress reached hplace) (hbase (m := 0) (by omega))
          (hnext nofun nofun)).follows has rfl
    | @store area w i j has' reached height next =>
      cases OkAt.has_inj has has'
      obtain ⟨place, hplace, hlt⟩ := hr.place hsize reached
      cases hx with
      | target hop => cases hop
      | plain =>
        exact (hs.store hplace (by omega) (hr.holdsNoAddress reached hplace) (hbase (by omega))
          (hnext nofun nofun)).follows has rfl
    | @update area u i has' reached next =>
      cases OkAt.has_inj has has'
      obtain ⟨place, hplace, hlt⟩ := hr.place hsize reached
      cases hx with
      | target hop => cases hop
      | plain =>
        exact (hs.update hplace (by omega) (hr.holdsNoAddress reached hplace) (hnext nofun nofun)).follows has rfl
    | @fails op' _ has' element =>
      cases OkAt.has_inj has has'
      have hplain : isPlain op = true := by rcases element with ⟨w, rfl⟩ | ⟨u, rfl⟩ <;> rfl
      cases hx with
      | target hop =>
        rw [hplain] at hop
        cases hop
      | plain =>
        refine (hs.noElement element).follows has ?_
        rcases element with ⟨w, rfl⟩ | ⟨u, rfl⟩ <;> rfl
    | @jump t has' next =>
      cases OkAt.has_inj has has'
      cases hx with
      | plain hop => cases hop
      | target => exact hs.jump.follows has rfl
    | @branch op' t j has' test height taken next =>
      cases OkAt.has_inj has has'
      have hplain : isPlain op = false ∧ changesFrame op = false ∧ op ≠ .term ∧ op ≠ .ret := by
        rcases test with rfl | rfl <;> exact ⟨rfl, rfl, nofun, nofun⟩
      cases hx with
      | plain hop =>
        rw [hplain.1] at hop
        cases hop
      | target =>
        exact (hs.branch test (by omega) (hbase (by omega)) (hnext hplain.2.2.1 hplain.2.2.2)).follows has hplain.2.1
    | @branchInt rel t j has' height taken next =>
      cases OkAt.has_inj has has'
      cases hx with
      | plain hop => cases hop
      | target => exact (hs.branchInt (hbase (by omega)) (by omega) (hnext nofun nofun)).follows has rfl
    | @call t n j b has' entry drop height next =>
      cases OkAt.has_inj has has'
      cases hx with
      | plain hop => cases hop
      | target =>
        refine (hs.call (hbase (m := 0) (by omega)) (hnext nofun nofun) (hret rfl)).mono
          fun u u' hu B others hm => ?_
        -- a call enters a function on both sides, since its return address fits on both or on neither
        cases hm with
        | stay has' hplain =>
          cases OkAt.has_inj has has'
          cases hplain
        | call _ _ _ _ _ base => exact hu B base
        | back _ value =>
          rcases value with ⟨has', -⟩ | ⟨w, has', -⟩
          · cases OkAt.has_inj has has'
          · cases OkAt.has_inj has has'
    | ret has' =>
      cases OkAt.has_inj has has'
      cases hx with
      | plain =>
        exact hs.leaves hr (j := s.stack.size) (by omega) (Nat.le_refl _) Array.extract_size.symm rfl ⟨rfl, nofun⟩ has
          (.inl rfl)
    | @retWith w j has' height =>
      cases OkAt.has_inj has has'
      cases hx with
      | plain =>
        obtain ⟨v, hv⟩ : ∃ v, s.stack.back? = some v := ⟨_, Array.getElem?_eq_getElem (by omega)⟩
        have habove := hbase (m := 1) (by omega)
        obtain ⟨hv', hin⟩ := hs.stack.back? habove hv
        have hstep : ∀ s, Exec.step limits environment (.retWith w) .none s = (Exec.pop >>= Exec.leave) s :=
          fun _ => rfl
        rw [hstep, hstep, bind_ok (pop_eq hv), bind_ok (pop_eq hv')]
        exact (hs.withStack (hs.stack.pop habove) hs.ip).leaves hr (j := s.stack.size - 1) (by omega) (Nat.sub_le _ _)
          (pop_eq_extract _) rfl ⟨rfl, hin⟩ has (.inr ⟨w, rfl⟩)
    | @term j has' height =>
      cases OkAt.has_inj has has'
      cases hx with
      | plain => exact hs.halt (hbase (by omega)) (by omega)

end Instructions

end StackScript.Machine
