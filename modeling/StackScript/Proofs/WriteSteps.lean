import StackScript.Assembly.StmtCode
import StackScript.Proofs.Labels

/-!
# Steps of writing that succeed

For each step of writing, what it has done if it answers: the `*_eq_ok` lemmas turn a `do` block
that has answered into the steps it consists of.  Instructions are added by `Writer.add` and changed
in place by `Writer.setAt`; `Writer.at` shows the effect of both.
-/

namespace StackScript.Assembly

open Typing Bytecode Host Syntax

/-! ### Views of a writer -/

namespace Writer

def «at» (w : Writer) (b i : Nat) : Option Draft := (w.buffers.getD b #[])[i]?

def sizeOf (w : Writer) (b : Nat) : Nat := (w.buffers.getD b #[]).size

/-- The number of instructions in the buffer in use. -/
abbrev size (w : Writer) : Nat := w.sizeOf w.buffer

def add (w : Writer) (d : Draft) : Writer :=
  { w with
    buffers := w.buffers.modify w.buffer (·.push d)
    labels := w.labels.close ⟨w.buffer, w.size⟩ }

def setAt (w : Writer) (pt : CodePoint) (f : Draft → Draft) : Writer :=
  { w with buffers := w.buffers.modify pt.buffer fun code => code.modify pt.position f }

/-- The writer with a new label that is open. -/
def openedLabel (w : Writer) : Writer := { w with labels := (w.labels.fresh w.buffer).2 }

/-- The writer that knows a type of the expression written last. -/
def typed (w : Writer) (type : Ty) (assignable : Bool) : Writer := { w with type, assignable }

def last? (w : Writer) : Option Draft := w.at w.buffer (w.size - 1)

theorem at_lt {w : Writer} {b i : Nat} {d : Draft} (h : w.at b i = some d) : i < w.sizeOf b :=
  (Array.getElem?_eq_some_iff.1 h).1

theorem at_eq_none {w : Writer} {b i : Nat} (h : w.sizeOf b ≤ i) : w.at b i = none :=
  Array.getElem?_eq_none h

theorem at_isSome {w : Writer} {b i : Nat} (h : i < w.sizeOf b) : ∃ d, w.at b i = some d :=
  ⟨_, Array.getElem?_eq_getElem h⟩

theorem buffer_lt_of_size {w : Writer} {b : Nat} (h : 0 < w.sizeOf b) : b < w.buffers.size := by
  by_contra hb
  simp only [sizeOf, Array.getD_eq_getD_getElem?, Array.getElem?_eq_none (Nat.le_of_not_lt hb),
    Option.getD_none, List.size_toArray, List.length_nil, Nat.lt_irrefl] at h

variable (w : Writer) (d : Draft) (pt : CodePoint) (f : Draft → Draft) (b i : Nat)

theorem getD_modify (buffers : Array (Array Draft)) (c : Nat) (g : Array Draft → Array Draft)
    (hg : buffers.size ≤ c → g #[] = #[]) :
    (buffers.modify c g).getD b #[] = if b = c then g (buffers.getD b #[]) else buffers.getD b #[] := by
  simp only [Array.getD_eq_getD_getElem?, Array.getElem?_modify]
  by_cases hb : b = c
  · subst hb
    rw [if_pos rfl, if_pos rfl]
    by_cases hlt : b < buffers.size
    · simp [Array.getElem?_eq_getElem hlt]
    · simp [Array.getElem?_eq_none (Nat.le_of_not_lt hlt), hg (Nat.le_of_not_lt hlt)]
  · rw [if_neg hb, if_neg (Ne.symm hb)]

theorem setAt_at :
    (w.setAt pt f).at b i = if b = pt.buffer ∧ i = pt.position then (w.at b i).map f else w.at b i := by
  simp only [setAt, Writer.at]
  rw [getD_modify _ _ _ _ (by simp)]
  by_cases hb : b = pt.buffer
  · rw [if_pos hb, Array.getElem?_modify]
    by_cases hi : i = pt.position
    · rw [if_pos hi.symm, if_pos ⟨hb, hi⟩]
    · rw [if_neg (Ne.symm hi), if_neg (fun h => hi h.2)]
  · rw [if_neg hb, if_neg (fun h => hb h.1)]

@[simp] theorem setAt_sizeOf : (w.setAt pt f).sizeOf b = w.sizeOf b := by
  simp only [setAt, sizeOf]
  rw [getD_modify _ _ _ _ (by simp)]
  split <;> simp

@[simp] theorem setAt_buffers_size : (w.setAt pt f).buffers.size = w.buffers.size := by
  simp [setAt]

theorem add_at (hw : w.buffer < w.buffers.size) :
    (w.add d).at b i = if b = w.buffer ∧ i = w.size then some d else w.at b i := by
  simp only [add, Writer.at, sizeOf]
  rw [getD_modify _ _ _ _ (fun h => absurd hw (Nat.not_lt.2 h))]
  by_cases hb : b = w.buffer
  · subst hb
    rw [if_pos rfl, Array.getElem?_push]
    simp
  · rw [if_neg hb, if_neg (fun h => hb h.1)]

theorem add_sizeOf (hw : w.buffer < w.buffers.size) :
    (w.add d).sizeOf b = if b = w.buffer then w.sizeOf b + 1 else w.sizeOf b := by
  simp only [add, sizeOf]
  rw [getD_modify _ _ _ _ (fun h => absurd hw (Nat.not_lt.2 h))]
  split <;> simp

@[simp] theorem add_buffer : (w.add d).buffer = w.buffer := rfl

@[simp] theorem add_scopes : (w.add d).scopes = w.scopes := rfl

@[simp] theorem add_breaks : (w.add d).breaks = w.breaks := rfl

@[simp] theorem add_callee : (w.add d).callee = w.callee := rfl

@[simp] theorem add_type : (w.add d).type = w.type := rfl

@[simp] theorem setAt_buffer : (w.setAt pt f).buffer = w.buffer := rfl

@[simp] theorem setAt_scopes : (w.setAt pt f).scopes = w.scopes := rfl

@[simp] theorem setAt_breaks : (w.setAt pt f).breaks = w.breaks := rfl

@[simp] theorem setAt_callee : (w.setAt pt f).callee = w.callee := rfl

@[simp] theorem setAt_type : (w.setAt pt f).type = w.type := rfl

@[simp] theorem setAt_labels : (w.setAt pt f).labels = w.labels := rfl

theorem typed_size (t : Ty) (a : Bool) : (w.typed t a).size = w.size := rfl

@[simp] theorem openedLabel_buffer : w.openedLabel.buffer = w.buffer := rfl

@[simp] theorem openedLabel_scopes : w.openedLabel.scopes = w.scopes := rfl

@[simp] theorem openedLabel_breaks : w.openedLabel.breaks = w.breaks := rfl

@[simp] theorem openedLabel_callee : w.openedLabel.callee = w.callee := rfl

@[simp] theorem openedLabel_at : w.openedLabel.at b i = w.at b i := rfl

@[simp] theorem openedLabel_sizeOf : w.openedLabel.sizeOf b = w.sizeOf b := rfl

@[simp] theorem openedLabel_buffers : w.openedLabel.buffers = w.buffers := rfl

@[simp] theorem add_buffers_size : (w.add d).buffers.size = w.buffers.size := by simp [add]

end Writer

/-! ### Steps of writing -/

namespace Write

variable {α β : Type} {w w' : Writer}

theorem bind_eq_ok {x : Write α} {f : α → Write β} {b : β} :
    (x >>= f) w = .ok (b, w') ↔ ∃ a w₁, x w = .ok (a, w₁) ∧ f a w₁ = .ok (b, w') := by
  show (x w >>= fun p => f p.1 p.2) = _ ↔ _
  rcases x w with _ | ⟨a, w₁⟩ <;> simp [bind, Except.bind]

theorem map_eq_ok {x : Write α} {f : α → β} {b : β} :
    (f <$> x) w = .ok (b, w') ↔ ∃ a, x w = .ok (a, w') ∧ f a = b := by
  show (x w >>= fun p => pure (f p.1, p.2)) = _ ↔ _
  rcases x w with _ | ⟨a, w₁⟩
  · simp [bind, Except.bind]
  · simp only [bind, Except.bind, pure, Except.pure, Except.ok.injEq, Prod.mk.injEq]
    grind

theorem pure_eq_ok {a b : α} : (pure a : Write α) w = .ok (b, w') ↔ b = a ∧ w' = w := by
  show Except.ok (a, w) = _ ↔ _
  grind

theorem throw_eq_ok {e : CompileError} {b : α} : (throw e : Write α) w = .ok (b, w') ↔ False := by
  show Except.error e = _ ↔ _
  simp

theorem get_eq_ok {a : Writer} : (get : Write Writer) w = .ok (a, w') ↔ a = w ∧ w' = w := by
  show Except.ok (w, w) = _ ↔ _
  grind

theorem modify_eq_ok {f : Writer → Writer} {u : Unit} :
    (modify f : Write Unit) w = .ok (u, w') ↔ w' = f w := by
  show Except.ok ((), f w) = _ ↔ _
  grind

theorem discard_eq_ok {x : Write α} {u : Unit} :
    (discard x) w = .ok (u, w') ↔ ∃ a, x w = .ok (a, w') := by
  show ((fun _ => ()) <$> x) w = _ ↔ _
  simp [map_eq_ok]

theorem setType_eq_ok {t : Ty} {a : Bool} {u : Unit} :
    setType t a w = .ok (u, w') ↔ w' = w.typed t a := modify_eq_ok

theorem lastType_eq_ok {t : Ty} : lastType w = .ok (t, w') ↔ t = w.type ∧ w' = w := by
  simp only [lastType, bind_eq_ok, get_eq_ok, pure_eq_ok]
  grind

theorem orThrow_eq_ok {e : CompileError} {o : Option α} {a : α} :
    orThrow e o w = .ok (a, w') ↔ o = some a ∧ w' = w := by
  cases o
  · simp [orThrow, throw_eq_ok]
  · simp only [orThrow, pure_eq_ok, Option.some.injEq]
    grind

theorem emit_eq_ok {op : Opcode} {x : Operand} {pt : CodePoint} :
    emit op x w = .ok (pt, w') ↔ pt = ⟨w.buffer, w.size⟩ ∧ w' = w.add ⟨op, x⟩ := by
  show Except.ok _ = _ ↔ _
  simp only [Writer.size, Writer.sizeOf, Writer.add, currentCode, Except.ok.injEq, Prod.mk.injEq]
  grind

theorem put_eq_ok {op : Opcode} {x : Operand} {u : Unit} :
    put op x w = .ok (u, w') ↔ w' = w.add ⟨op, x⟩ := by
  simp only [put, discard_eq_ok, emit_eq_ok]
  grind

theorem lastOpcode_eq_ok {o : Option Opcode} :
    lastOpcode w = .ok (o, w') ↔ o = w.last?.map (·.opcode) ∧ w' = w := by
  simp only [lastOpcode, bind_eq_ok, get_eq_ok, pure_eq_ok, currentCode, Writer.last?, Writer.at,
    Writer.size, Writer.sizeOf, Array.back?]
  grind

theorem changeLast_eq_ok {f : Draft → Draft} {u : Unit} :
    changeLast f w = .ok (u, w') ↔ w' = w.setAt ⟨w.buffer, w.size - 1⟩ f := by
  have h : (w.buffers.modify w.buffer fun code => code.modify (code.size - 1) f) =
      w.buffers.modify w.buffer fun code => code.modify (w.size - 1) f := by
    refine Array.ext (by simp) fun i hlt _ => ?_
    rw [Array.size_modify] at hlt
    simp only [Array.getElem_modify]
    split
    · next hi =>
      subst hi
      simp [Writer.size, Writer.sizeOf, Array.getElem?_eq_getElem hlt]
    · rfl
  simp only [changeLast, modify_eq_ok, Writer.setAt, h]

theorem openLabel_eq_ok {l : Label} :
    openLabel w = .ok (l, w') ↔ l = ⟨w.labels.next⟩ ∧ w' = w.openedLabel := by
  show Except.ok (_, _) = _ ↔ _
  simp only [LabelTable.fresh, LabelTable.reserve, Writer.openedLabel, Except.ok.injEq,
    Prod.mk.injEq]
  grind

theorem patch_eq_ok {pt : CodePoint} {l : Label} {u : Unit} :
    patch pt l w = .ok (u, w') ↔ w' = w.setAt pt fun d => { d with operand := .label l } :=
  modify_eq_ok

def widen : Draft → Draft
  | ⟨.allocStack, .int n⟩ => ⟨.allocStack, .int (n + 1)⟩
  | d => d

theorem reserveSlot_eq_ok {u : Unit} :
    reserveSlot w = .ok (u, w') ↔ w' = w.setAt ⟨w.buffer, 0⟩ widen := modify_eq_ok

theorem findRule_eq_ok {t : Ty} {o : Typing.Operation} {r : Rule} :
    findRule t o w = .ok (r, w') ↔ t.rule? o = some r ∧ w' = w := orThrow_eq_ok

theorem findShortCircuit_eq_ok {t : Ty} {o : Typing.Operation} {r : Rule} :
    findShortCircuit t o w = .ok (r, w') ↔ t.rule? o = some r ∧ r.action = .shortCircuit ∧ w' = w := by
  simp only [findShortCircuit, bind_eq_ok, findRule_eq_ok]
  constructor
  · rintro ⟨r', _, ⟨hr, rfl⟩, h⟩
    split at h
    · next ha =>
      obtain ⟨rfl, rfl⟩ := pure_eq_ok.1 h
      exact ⟨hr, eq_of_beq ha, rfl⟩
    · exact (throw_eq_ok.1 h).elim
  · rintro ⟨hr, ha, rfl⟩
    refine ⟨r, w', ⟨hr, rfl⟩, ?_⟩
    rw [if_pos (by simp [ha])]
    exact pure_eq_ok.2 ⟨rfl, rfl⟩

theorem joinTypes_eq_ok {l r t : Ty} {u : Usage} :
    joinTypes l r u w = .ok (t, w') ↔ Ty.join? l r = some t ∧ w' = w := orThrow_eq_ok

theorem resolveType_eq_ok {name : String} {t : Ty} :
    resolveType name w = .ok (t, w') ↔ Ty.ofText? name = some t ∧ w' = w := orThrow_eq_ok

theorem resolveName_eq_ok {setting : Setting} {name : String} {e : Entity} :
    resolveName setting name w = .ok (e, w') ↔
      w.scopes.resolve setting.environment name = .ok e ∧ w' = w := by
  simp only [resolveName, bind_eq_ok, get_eq_ok]
  cases hr : w.scopes.resolve setting.environment name with
  | error err =>
    refine iff_of_false ?_ (by simp)
    rintro ⟨_, _, ⟨rfl, rfl⟩, h⟩
    rw [hr] at h
    exact throw_eq_ok.1 h
  | ok e' =>
    constructor
    · rintro ⟨_, _, ⟨rfl, rfl⟩, h⟩
      rw [hr] at h
      obtain ⟨rfl, rfl⟩ := pure_eq_ok.1 h
      exact ⟨rfl, rfl⟩
    · rintro ⟨he, rfl⟩
      refine ⟨_, _, ⟨rfl, rfl⟩, ?_⟩
      rw [hr]
      exact pure_eq_ok.2 ⟨(Except.ok.inj he).symm, rfl⟩

theorem inScopes_eq_ok {f : ScopeChain → Except CompileError α × ScopeChain} {a : α} :
    inScopes f w = .ok (a, w') ↔ ∃ c, f w.scopes = (.ok a, c) ∧ w' = { w with scopes := c } := by
  simp only [inScopes, bind_eq_ok, get_eq_ok]
  rcases hf : f w.scopes with ⟨err | a', c⟩
  · refine iff_of_false ?_ (by simp)
    rintro ⟨_, _, ⟨rfl, rfl⟩, h⟩
    rw [hf] at h
    exact throw_eq_ok.1 h
  · constructor
    · rintro ⟨_, _, ⟨rfl, rfl⟩, h⟩
      rw [hf] at h
      simp only [bind_eq_ok, modify_eq_ok, pure_eq_ok] at h
      obtain ⟨_, _, rfl, rfl, rfl⟩ := h
      exact ⟨c, rfl, rfl⟩
    · rintro ⟨c', he, rfl⟩
      obtain ⟨ha, rfl⟩ := Prod.mk.inj he
      obtain rfl := Except.ok.inj ha
      refine ⟨_, _, ⟨rfl, rfl⟩, ?_⟩
      rw [hf]
      exact bind_eq_ok.2 ⟨(), _, modify_eq_ok.2 rfl, pure_eq_ok.2 ⟨rfl, rfl⟩⟩

/-! ### Composite steps -/

theorem value_eq_ok {code : Write Unit} {usage : Usage} {u : Unit} :
    value code usage w = .ok (u, w') ↔ code w = .ok ((), w') ∧ w'.type ≠ .void := by
  simp only [value, bind_eq_ok, lastType_eq_ok]
  constructor
  · rintro ⟨_, _, hc, _, w₁, ⟨rfl, rfl⟩, h⟩
    by_cases ht : w₁.type = .void
    · rw [ht] at h
      exact (throw_eq_ok.1 h).elim
    · rw [if_neg (by simpa using ht)] at h
      obtain ⟨-, rfl⟩ := pure_eq_ok.1 h
      exact ⟨hc, ht⟩
  · rintro ⟨hc, ht⟩
    refine ⟨(), w', hc, _, _, ⟨rfl, rfl⟩, ?_⟩
    rw [if_neg (by simpa using ht)]
    exact pure_eq_ok.2 ⟨rfl, rfl⟩

theorem typedValue_eq_ok {code : Write Unit} {usage : Usage} {t : Ty} :
    typedValue code usage w = .ok (t, w') ↔
      code w = .ok ((), w') ∧ w'.type ≠ .void ∧ t = w'.type := by
  simp only [typedValue, bind_eq_ok, value_eq_ok, lastType_eq_ok]
  grind

theorem replaceLoad_eq_ok {f : Opcode → Option Opcode} {u : Unit} :
    replaceLoad f w = .ok (u, w') ↔ ∃ d o, w.last? = some d ∧ f d.opcode = some o ∧
      w' = w.setAt ⟨w.buffer, w.size - 1⟩ fun d => { d with opcode := o } := by
  simp only [replaceLoad, bind_eq_ok, lastOpcode_eq_ok, orThrow_eq_ok, changeLast_eq_ok]
  constructor
  · rintro ⟨_, _, ⟨rfl, rfl⟩, o, _, ⟨ho, rfl⟩, rfl⟩
    obtain ⟨_, hl, ho⟩ := Option.bind_eq_some_iff.1 ho
    obtain ⟨d, hd, rfl⟩ := Option.map_eq_some_iff.1 hl
    exact ⟨d, o, hd, ho, rfl⟩
  · rintro ⟨d, o, hd, ho, rfl⟩
    exact ⟨_, _, ⟨rfl, rfl⟩, o, w, ⟨by simp [hd, ho], rfl⟩, rfl⟩

/-- A rule adds an instruction, or changes the load written last. -/
theorem applyRule_eq_ok {rule : Rule} {x : Operand} {u : Unit} (h : applyRule rule x w = .ok (u, w')) :
    (∀ o, rule.action = .emit o → w' = (w.add ⟨o, x⟩).typed rule.result rule.assignable) ∧
      ∀ a, rule.action = .update a → ∃ w₁, replaceLoad (updateFor? a) w = .ok ((), w₁) ∧
        w' = w₁.typed rule.result rule.assignable := by
  refine ⟨fun o ho => ?_, fun a ha => ?_⟩
  · simp only [applyRule, ho, bind_eq_ok, put_eq_ok, setType_eq_ok] at h
    obtain ⟨_, _, rfl, rfl⟩ := h
    rfl
  · simp only [applyRule, ha, bind_eq_ok, setType_eq_ok] at h
    obtain ⟨_, w₁, h, rfl⟩ := h
    exact ⟨w₁, h, rfl⟩

/-- A branch that is taken when the condition written last is false is a new instruction, or
replaces a comparison of integers behind which no label is open. -/
theorem emitBranchIfFalse_eq_ok {setting : Setting} {pt : CodePoint}
    (h : emitBranchIfFalse setting w = .ok (pt, w')) :
    (pt = ⟨w.buffer, w.size⟩ ∧ w' = w.add ⟨.branchFalse, .none⟩) ∨
      ∃ d r, w.last? = some d ∧ d.opcode = .compare .int r ∧
        w.labels.hasWaiting w.buffer = false ∧ pt = ⟨w.buffer, w.size - 1⟩ ∧
        w' = w.setAt ⟨w.buffer, w.size - 1⟩ fun _ => ⟨.branchInt (negation r), .none⟩ := by
  simp only [emitBranchIfFalse, bind_eq_ok, get_eq_ok] at h
  obtain ⟨_, _, ⟨hw, hw'⟩, h⟩ := h
  rw [hw, hw'] at h
  generalize hm : (if (setting.merge && !w.labels.hasWaiting w.buffer) = true then
    (currentCode w).back?.bind fun d => inverseBranch? d.opcode else none) = merged at h
  cases merged with
  | none => exact .inl (emit_eq_ok.1 h)
  | some op =>
    right
    split at hm
    · next hw =>
      obtain ⟨d, hd, hi⟩ := Option.bind_eq_some_iff.1 hm
      have hr : ∃ r, d.opcode = .compare .int r ∧ op = .branchInt (negation r) := by
        unfold inverseBranch? at hi
        split at hi
        · next r hr => exact ⟨r, hr, (Option.some.inj hi).symm⟩
        · exact absurd hi (by simp)
      obtain ⟨r, hr, rfl⟩ := hr
      simp only [bind_eq_ok, changeLast_eq_ok, pure_eq_ok] at h
      obtain ⟨_, _, rfl, rfl, rfl⟩ := h
      refine ⟨d, r, ?_, hr, by simpa using (Bool.and_eq_true_iff.1 hw).2, rfl, rfl⟩
      simpa [Writer.last?, Writer.at, Writer.size, Writer.sizeOf, currentCode, Array.back?] using hd
    · exact absurd hm (by simp)

end Write

end StackScript.Assembly
