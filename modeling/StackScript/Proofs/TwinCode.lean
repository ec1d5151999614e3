import StackScript.Proofs.TwinSteps

/-!
# Expressions written twice

The code of one expression, written from twins: with the same settings on both sides, or with comparisons
merged into branches on the left only.  Both sides fail, or both answer and are twins again.

Behind an expression both sides have noted the same about it (`Known`).  What the name written last
stands for is only looked at when its load is the instruction written last, and then it is the same on
both sides (`Heard`).
-/

namespace StackScript.Assembly

open Typing Bytecode Host Syntax Assembly.Write

/-- The settings of two writers: the same, or with comparisons merged into branches on the left only. -/
inductive Beside : Bool → Setting → Setting → Prop
  | same (s : Setting) : Beside false s s
  | merging (e : Environment) : Beside true ⟨e, true⟩ ⟨e, false⟩

theorem Beside.environment {split : Bool} {s₁ s₂ : Setting} (h : Beside split s₁ s₂) :
    s₂.environment = s₁.environment := by
  cases h <;> rfl

/-- Two pieces of code that lead from twins to twins, wherever they are written. -/
def Parallel {α β : Type} (split : Bool) (R : Pairing → Writer → Writer → α → β → Prop) (x : Write α)
    (y : Write β) : Prop := ∀ ⦃T w₁ w₂⦄, Twin split T w₁ w₂ → Together split T w₁ w₂ R x y

/-- A function whose load was written last is the same on both sides. -/
def Heard (w₁ w₂ : Writer) : Prop :=
  w₁.last?.map (·.opcode) = some .loadFunction → w₂.callee = w₁.callee

/-- The same is noted about the expression written last. -/
structure Known (w₁ w₂ : Writer) : Prop where
  type : w₂.type = w₁.type
  assignable : w₂.assignable = w₁.assignable
  heard : Heard w₁ w₂

/-- Behind two pieces of code, functions are heard. -/
def Hears {α β : Type} (_ : Pairing) (w₁ w₂ : Writer) (_ : α) (_ : β) : Prop := Heard w₁ w₂

/-- Behind two pieces of code, the same is noted. -/
def Speaks {α β : Type} (_ : Pairing) (w₁ w₂ : Writer) (_ : α) (_ : β) : Prop := Known w₁ w₂

/-- The answers are the same, and the same is noted. -/
def SpeaksOf {α : Type} (_ : Pairing) (w₁ w₂ : Writer) (a b : α) : Prop := b = a ∧ Known w₁ w₂

/-- The answers are places of branches that wait for their targets. -/
def Opened (T : Pairing) (w₁ w₂ : Writer) (p q : CodePoint) : Prop :=
  T.holes p q ∧ p.buffer = w₁.buffer ∧ q.buffer = w₂.buffer

/-- Branches go on waiting. -/
theorem Opened.later {split : Bool} {T T' : Pairing} {w₁ w₂ v₁ v₂ : Writer} {p q : CodePoint}
    (h : Opened T w₁ w₂ p q) (hp : Passes split T T' w₁ w₂ v₁ v₂) : Opened T' v₁ v₂ p q :=
  ⟨hp.grows.holes _ _ h.1, h.2.1.trans hp.left.buffer.symm, h.2.2.trans hp.right.buffer.symm⟩

section Heard

variable {w₁ w₂ : Writer}

theorem Writer.size_add {w : Writer} (hv : w.buffer < w.buffers.size) (d : Draft) : (w.add d).size = w.size + 1 := by
  rw [Writer.size, Writer.add_sizeOf _ _ _ hv, Writer.add_buffer, if_pos rfl]

theorem Writer.add_last {w : Writer} (hv : w.buffer < w.buffers.size) (d : Draft) : (w.add d).last? = some d := by
  rw [Writer.last?, Writer.size_add hv, Writer.add_at _ _ _ _ hv, if_pos ⟨rfl, rfl⟩]

theorem heard_add {split : Bool} {T : Pairing} (h : Twin split T w₁ w₂) {op : Opcode} (x x' : Operand)
    (hop : op ≠ .loadFunction) : Heard (w₁.add ⟨op, x⟩) (w₂.add ⟨op, x'⟩) := fun hlast => by
  rw [Writer.add_last h.valid.1] at hlast
  exact absurd (Option.some.inj hlast) hop

theorem Heard.typed (h : Heard w₁ w₂) (t : Ty) (a : Bool) : Known (w₁.typed t a) (w₂.typed t a) := ⟨rfl, rfl, h⟩

theorem setAt_last (w : Writer) (f : Draft → Draft) :
    (w.setAt ⟨w.buffer, w.size - 1⟩ f).last? = w.last?.map f := by
  unfold Writer.last? Writer.size
  rw [Writer.setAt_sizeOf, Writer.setAt_buffer, Writer.setAt_at, if_pos ⟨rfl, rfl⟩]

/-- A target that is filled in does not change what was written last. -/
theorem setAt_last_opcode (w : Writer) (pt : CodePoint) (x : Operand) :
    (w.setAt pt fun d => { d with operand := x }).last?.map (·.opcode) = w.last?.map (·.opcode) := by
  unfold Writer.last? Writer.size
  rw [Writer.setAt_sizeOf, Writer.setAt_buffer, Writer.setAt_at]
  split
  · rw [Option.map_map]
    rfl
  · rfl

theorem Heard.patch (h : Heard w₁ w₂) (p q : CodePoint) (x x' : Operand) :
    Heard (w₁.setAt p fun d => { d with operand := x }) (w₂.setAt q fun d => { d with operand := x' }) :=
  fun hlast => h (by rwa [setAt_last_opcode] at hlast)

end Heard

/-! ### What was written last -/

/-- The instructions written last on both sides. -/
inductive LastTwin (split : Bool) (T : Pairing) : Option Draft → Option Draft → Prop
  | none : LastTwin split T none none
  | same {op : Opcode} {x x' : Operand} (hw : (⟨op, x⟩ : Draft).width split = 1) (hx : OperandTwin T x x') :
      LastTwin split T (some ⟨op, x⟩) (some ⟨op, x'⟩)
  | split {r : Relation} {x x' : Operand} (hs : split = true) :
      LastTwin split T (some ⟨.branchInt r, x⟩) (some ⟨.branchFalse, x'⟩)

theorem Twin.last {split : Bool} {T : Pairing} {w₁ w₂ : Writer} (h : Twin split T w₁ w₂) :
    LastTwin split T w₁.last? w₂.last? := by
  have hsize := h.size
  cases hd : w₁.last? with
  | none =>
    have hzero : w₁.size = 0 := by
      by_contra hne
      obtain ⟨d, hd'⟩ := w₁.at_isSome (b := w₁.buffer) (i := w₁.size - 1) (Nat.sub_one_lt hne)
      exact absurd (hd'.symm.trans hd) nofun
    have hlast : w₂.last? = none := Writer.at_eq_none (by
      rw [show w₂.sizeOf w₂.buffer = w₂.size from rfl, hsize, hzero]
      exact Nat.zero_le _)
    rw [hlast]
    exact .none
  | some d =>
    have hlt := Writer.at_lt hd
    have hnext := Writer.offset_succ split hd
    rw [Nat.sub_add_cancel (Nat.lt_of_le_of_lt (Nat.zero_le _) hlt), ← hsize] at hnext
    cases (h.code _ _ h.buffer).at_ _ _ hd with
    | @same _ x hw hat hx =>
      have hlast : w₂.last? = some ⟨d.opcode, x⟩ := by
        rw [Writer.last?, hnext, hw, Nat.add_sub_cancel]
        exact hat
      rw [hlast]
      exact .same hw hx
    | @split r x x' y hs hat hat' hx =>
      subst hs
      -- the second of the two instructions stands last
      have hlast : w₂.last? = some ⟨.branchFalse, x'⟩ := by
        rw [Writer.last?, hnext]
        exact hat'
      rw [hlast]
      exact .split rfl

theorem LastTwin.same_or {split : Bool} {T : Pairing} {x y : Option Draft} (h : LastTwin split T x y) :
    y.map (·.opcode) = x.map (·.opcode) ∨
      ∃ r, x.map (·.opcode) = some (.branchInt r) ∧ y.map (·.opcode) = some .branchFalse := by
  cases h with
  | none => exact .inl rfl
  | same => exact .inl rfl
  | split => exact .inr ⟨_, rfl, rfl⟩

/-! ### Branches on conditions -/

/-- The relation of a comparison of integers. -/
def comparedInt? : Opcode → Option Relation
  | .compare .int r => some r
  | _ => none

theorem comparedInt?_eq_some {op : Opcode} {r : Relation} (h : comparedInt? op = some r) : op = .compare .int r := by
  unfold comparedInt? at h
  split at h
  · obtain rfl := Option.some.inj h
    rfl
  · cases h

theorem inverseBranch?_eq (op : Opcode) :
    inverseBranch? op = (comparedInt? op).map fun r => .branchInt (negation r) := by
  cases op with
  | compare domain r => cases domain <;> rfl
  | _ => rfl

/-- The comparison that a branch is merged with. -/
def merging? (setting : Setting) (w : Writer) : Option Relation :=
  if setting.merge && !w.labels.hasWaiting w.buffer then (w.last?.map (·.opcode)).bind comparedInt? else none

theorem emitBranchIfFalse_run (setting : Setting) (w : Writer) :
    emitBranchIfFalse setting w = .ok ((merging? setting w).elim (⟨w.buffer, w.size⟩, w.add ⟨.branchFalse, .none⟩)
      fun r => (⟨w.buffer, w.size - 1⟩, w.merged r)) := by
  have hlast : (currentCode w).back? = w.last? := by
    simp only [currentCode, Writer.last?, Writer.at, Writer.size, Writer.sizeOf, Array.back?]
  have hmerged : (if setting.merge && !w.labels.hasWaiting w.buffer then
      (currentCode w).back?.bind fun d => inverseBranch? d.opcode else none) =
        (merging? setting w).map fun r => .branchInt (negation r) := by
    rw [hlast]
    unfold merging?
    split
    · cases w.last? with
      | none => rfl
      | some d => exact inverseBranch?_eq d.opcode
    · rfl
  refine bind_eq_ok.2 ⟨w, w, get_eq_ok.2 ⟨rfl, rfl⟩, ?_⟩
  rw [hmerged]
  cases merging? setting w with
  | none => exact emit_eq_ok.2 ⟨rfl, rfl⟩
  | some r => exact bind_eq_ok.2 ⟨(), _, changeLast_eq_ok.2 rfl, pure_eq_ok.2 ⟨rfl, rfl⟩⟩

theorem merging?_eq_some {setting : Setting} {w : Writer} {r : Relation} (h : merging? setting w = some r) :
    setting.merge = true ∧ w.labels.hasWaiting w.buffer = false ∧ ∃ x, w.last? = some ⟨.compare .int r, x⟩ := by
  unfold merging? at h
  split at h
  · next hc =>
    simp only [Bool.and_eq_true, Bool.not_eq_true'] at hc
    obtain ⟨op, hop, hr⟩ := Option.bind_eq_some_iff.1 h
    obtain ⟨⟨op, x⟩, hd, rfl⟩ := Option.map_eq_some_iff.1 hop
    obtain rfl := comparedInt?_eq_some hr
    exact ⟨hc.1, hc.2, x, hd⟩
  · cases h

/-- Without instructions that stand for two, the same branches are merged. -/
theorem Twin.merging? {T : Pairing} {w₁ w₂ : Writer} (h : Twin false T w₁ w₂) (setting : Setting) :
    merging? setting w₂ = merging? setting w₁ := by
  have hlast : w₂.last?.map (·.opcode) = w₁.last?.map (·.opcode) := by
    have hl := h.last
    generalize w₁.last? = x, w₂.last? = y at hl
    cases hl with
    | none => rfl
    | same => rfl
    | split hs => cases hs
  unfold Assembly.merging?
  rw [h.hasWaiting, hlast]

/-- A comparison becomes a branch on both sides. -/
theorem Twin.mergeBoth {T : Pairing} {w₁ w₂ : Writer} (h : Twin false T w₁ w₂) {r : Relation} {x : Operand}
    (hd : w₁.last? = some ⟨.compare .int r, x⟩) :
    Twin false (T.withHole ⟨w₁.buffer, w₁.size - 1⟩ ⟨w₂.buffer, w₂.size - 1⟩) (w₁.merged r) (w₂.merged r) := by
  have hsize : w₂.size = w₁.size := h.size.trans (Writer.offset_false _ _ _)
  have hjump : IsJump (.branchInt (negation r)) := .inr (.inr (.inr ⟨_, rfl⟩))
  have hmerged : Twin false T (w₁.merged r) (w₂.merged r) := by
    refine h.edit h.buffer ?_ ?_ fun d _ => ⟨rfl, fun _ => hjump, ?_⟩
    · rw [Writer.offset_false, hsize]
    · rw [Writer.offset_false, hsize]
      exact Nat.lt_succ_self _
    · have hl := h.last
      rw [hd] at hl
      rw [Writer.offset_false]
      refine .same rfl (x := .none) ?_ (.same rfl)
      rw [Writer.setAt_at, hsize, if_pos ⟨rfl, rfl⟩]
      generalize hy : w₂.last? = y at hl
      rw [Writer.last?, hsize] at hy
      rw [hy]
      cases hl
      rfl
  refine hmerged.withHole ⟨h.buffer, ⟨⟨.branchInt (negation r), .none⟩, ?_, hjump⟩, ?_⟩
  · rw [merged_at hd, if_pos ⟨rfl, rfl⟩]
  · rw [Writer.offset_false, hsize]

/-! ### Steps -/

namespace Together

variable {α β : Type} {split : Bool} {T : Pairing} {w₁ w₂ : Writer}
  {R : Pairing → Writer → Writer → α → β → Prop}

theorem ite {p : Prop} [Decidable p] {x x' : Write α} {y y' : Write β} (hx : p → Together split T w₁ w₂ R x y)
    (hx' : ¬ p → Together split T w₁ w₂ R x' y') :
    Together split T w₁ w₂ R (if p then x else x') (if p then y else y') := by
  split
  · next h => exact hx h
  · next h => exact hx' h

theorem setType (h : Twin split T w₁ w₂) (hk : Heard w₁ w₂) (t : Ty) (a : Bool) :
    Together split T w₁ w₂ Speaks (Write.setType t a) (Write.setType t a) :=
  .ok rfl rfl (.still (h.typed t a) (.of_same rfl rfl rfl rfl) (.of_same rfl rfl rfl rfl) rfl rfl) (hk.typed t a)

theorem noted (h : Twin split T w₁ w₂) (t : Ty) (a : Bool) :
    Together split T w₁ w₂ (fun _ v₁ v₂ _ _ => v₁ = w₁.typed t a ∧ v₂ = w₂.typed t a) (Write.setType t a)
      (Write.setType t a) :=
  .ok rfl rfl (.still (h.typed t a) (.of_same rfl rfl rfl rfl) (.of_same rfl rfl rfl rfl) rfl rfl) ⟨rfl, rfl⟩

theorem lastType (h : Twin split T w₁ w₂) (hk : Known w₁ w₂) :
    Together split T w₁ w₂ SpeaksOf Write.lastType Write.lastType := .ok rfl rfl (.refl h) ⟨hk.type, hk⟩

theorem orThrow {e e' : CompileError} {o : Option α} (h : Twin split T w₁ w₂) :
    Together split T w₁ w₂ (fun T' v₁ v₂ a b => (b = a ∧ o = some a) ∧ T' = T ∧ v₁ = w₁ ∧ v₂ = w₂) (Write.orThrow e o)
      (Write.orThrow e' o) := by
  cases o with
  | none => exact .throw
  | some a => exact .pure h ⟨⟨rfl, rfl⟩, rfl, rfl, rfl⟩

theorem put (h : Twin split T w₁ w₂) {op : Opcode} {x x' : Operand} (hop : ∀ r, op ≠ .branchInt r)
    (hx : OperandTwin T x x') :
    Together split T w₁ w₂ (fun _ v₁ v₂ _ _ => op ≠ .loadFunction → Heard v₁ v₂) (Write.put op x) (Write.put op x') :=
  .ok (a := ()) (b := ()) (put_eq_ok.2 rfl) (put_eq_ok.2 rfl)
    (.still (h.add hx hop) (.add _) (.add _) (Writer.add_buffers_size ..) (Writer.add_buffers_size ..))
    fun hne => heard_add h x x' hne

/-- An instruction with a fixed operand, and the type of what it leaves. -/
theorem putTyped (h : Twin split T w₁ w₂) {op : Opcode} {x : Operand} (hop : isPlain op = true)
    (hx : isClosed x = true) (t : Ty) (a : Bool) :
    Together split T w₁ w₂ Speaks (do Write.put op x; Write.setType t a) (do Write.put op x; Write.setType t a) := by
  refine (put h ?_ (.same hx)).bind fun T' v₁ v₂ _ _ hp hk => .setType hp.twin (hk ?_) t a
  · rintro r rfl
    cases hop
  · rintro rfl
    cases hop

/-- A branch that gets its target later. -/
theorem emit (h : Twin split T w₁ w₂) {op : Opcode} (hj : IsJump op) (hop : ∀ r, op ≠ .branchInt r) :
    Together split T w₁ w₂ Opened (Write.emit op .none) (Write.emit op .none) := by
  have hadd : Twin split T (w₁.add ⟨op, .none⟩) (w₂.add ⟨op, .none⟩) := h.add (.same rfl) hop
  have hsize := hadd.size
  refine .ok (emit_eq_ok.2 ⟨rfl, rfl⟩) (emit_eq_ok.2 ⟨rfl, rfl⟩)
    (.opening (p := ⟨w₁.buffer, w₁.size⟩) (q := ⟨w₂.buffer, w₂.size⟩) (hadd.withHole ⟨h.buffer, ?_, ?_⟩) (.add _)
      (.add _) (Writer.add_buffers_size ..) (Writer.add_buffers_size ..)) ⟨.inr ⟨rfl, rfl⟩, rfl, rfl⟩
  · refine ⟨⟨op, .none⟩, ?_, hj⟩
    rw [Writer.add_at _ _ _ _ h.valid.1, if_pos ⟨rfl, rfl⟩]
  · rwa [Writer.size_add h.valid.1, Writer.size_add h.valid.2] at hsize

theorem emitBranchIfFalse {s₁ s₂ : Setting} (hs : Beside split s₁ s₂) (h : Twin split T w₁ w₂) :
    Together split T w₁ w₂ Opened (Write.emitBranchIfFalse s₁) (Write.emitBranchIfFalse s₂) := by
  have hadd : Together split T w₁ w₂ Opened (Write.emit .branchFalse .none) (Write.emit .branchFalse .none) :=
    emit h (.inr (.inl rfl)) nofun
  unfold Together at hadd ⊢
  rw [emitBranchIfFalse_run, emitBranchIfFalse_run]
  have hcount : ∀ {w : Writer} {r}, (w.merged r).buffers.size = w.buffers.size := Writer.setAt_buffers_size ..
  cases hs with
  | same =>
    rw [h.merging?]
    cases hm : merging? s₁ w₁ with
    | none => exact hadd
    | some r =>
      obtain ⟨-, -, x, hd⟩ := merging?_eq_some hm
      exact .ok (.opening (h.mergeBoth hd) (.setAt rfl _) (.setAt rfl _) hcount hcount) ⟨.inr ⟨rfl, rfl⟩, rfl, rfl⟩
  | merging e =>
    rw [show merging? ⟨e, false⟩ w₂ = none from rfl]
    cases hm : merging? ⟨e, true⟩ w₁ with
    | none => exact hadd
    | some r =>
      obtain ⟨-, hwait, x, hd⟩ := merging?_eq_some hm
      exact .ok (.opening (h.merge hd hwait) (.setAt rfl _) (.add _) hcount
        (Writer.add_buffers_size ..)) ⟨.inr ⟨rfl, rfl⟩, rfl, rfl⟩

theorem openLabel (h : Twin split T w₁ w₂) :
    Together split T w₁ w₂ (fun T' v₁ v₂ l l' => T'.labels l l' ∧ (Heard w₁ w₂ → Heard v₁ v₂)) Write.openLabel
      Write.openLabel := by
  refine .ok (openLabel_eq_ok.2 ⟨rfl, rfl⟩) (openLabel_eq_ok.2 ⟨rfl, rfl⟩)
    ⟨T.grows_withLabel _ _, rfl, h.openedLabel, .openedLabel, .openedLabel, fun l l' hl => ?_, fun _ _ => .inl,
      fun _ hle hlt => absurd hlt (Nat.not_lt.2 hle), fun _ hle hlt => absurd hlt (Nat.not_lt.2 hle)⟩
    ⟨.inr ⟨rfl, rfl⟩, id⟩
  rcases hl with hl | ⟨rfl, rfl⟩
  · exact .inl hl
  · exact .inr ⟨Nat.le_refl _, Nat.le_refl _⟩

theorem patch (h : Twin split T w₁ w₂) {p q : CodePoint} (hpq : Opened T w₁ w₂ p q) {l l' : Label}
    (hl : T.labels l l') : Together split T w₁ w₂ (fun _ v₁ v₂ _ _ => Heard w₁ w₂ → Heard v₁ v₂) (Write.patch p l)
      (Write.patch q l') :=
  .ok (a := ()) (b := ()) (patch_eq_ok.2 rfl) (patch_eq_ok.2 rfl)
    (.still (h.patch hpq.1 hl) (.setAt hpq.2.1 _) (.setAt hpq.2.2 _)
      (Writer.setAt_buffers_size ..) (Writer.setAt_buffers_size ..)) fun hk => hk.patch p q _ _

end Together

end StackScript.Assembly
