import StackScript.Proofs.Twins

/-!
# Steps of twins

Each step of writing leads from twins to twins: an instruction is added or changed on both sides, a
label is opened, a name is declared.  A branch on a condition may be merged with the comparison in front
of it on the left only.
-/

namespace StackScript.Assembly

open Typing Bytecode Host Syntax Assembly.Write

/-- The writer whose last instruction, a comparison, has become the inverse branch. -/
abbrev Writer.merged (w : Writer) (r : Relation) : Writer :=
  w.setAt ⟨w.buffer, w.size - 1⟩ fun _ => ⟨.branchInt (negation r), .none⟩

namespace Twin

variable {split : Bool} {T : Pairing} {w₁ w₂ : Writer}

/-! ### What twins agree on -/

theorem valid (h : Twin split T w₁ w₂) : w₁.buffer < w₁.buffers.size ∧ w₂.buffer < w₂.buffers.size :=
  h.buffer_lt _ _ h.buffer

theorem size (h : Twin split T w₁ w₂) : w₂.size = w₁.offset split w₁.buffer w₁.size :=
  (h.code _ _ h.buffer).size

theorem buffer_eq_iff (h : Twin split T w₁ w₂) {b b' : Nat} (hb : T.buffers b b') :
    b = w₁.buffer ↔ b' = w₂.buffer := h.buffer_iff _ _ _ _ hb h.buffer

theorem waiting_iff (h : Twin split T w₁ w₂) {l l' : Label} {b b' : Nat} (hl : T.labels l l')
    (hb : T.buffers b b') : (l, b) ∈ w₁.labels.waiting ↔ (l', b') ∈ w₂.labels.waiting := by
  have hw := h.waiting
  generalize w₁.labels.waiting = ps, w₂.labels.waiting = qs at hw
  induction hw with
  | nil => simp
  | @cons p q ps qs hpq _ ih =>
    obtain ⟨hpl, hpb⟩ := hpq
    rw [List.mem_cons, List.mem_cons]
    refine or_congr ?_ ih
    rw [Prod.ext_iff, Prod.ext_iff]
    exact and_congr (h.label_iff _ _ _ _ hl hpl) (h.buffer_iff _ _ _ _ hb hpb)

theorem waiting_lt (h : Twin split T w₁ w₂) {p : Label × Nat} (hp : p ∈ w₁.labels.waiting) :
    p.1.id < w₁.labels.next ∧ p.2 < w₁.buffers.size := by
  obtain ⟨i, hi, rfl⟩ := List.mem_iff_getElem.1 hp
  have hlen := h.waiting.length_eq
  obtain ⟨hl, hb⟩ := h.waiting.get hi (hlen ▸ hi)
  exact ⟨(h.label_lt _ _ hl).1, (h.buffer_lt _ _ hb).1⟩

theorem waiting_lt' (h : Twin split T w₁ w₂) {p : Label × Nat} (hp : p ∈ w₂.labels.waiting) :
    p.1.id < w₂.labels.next ∧ p.2 < w₂.buffers.size := by
  obtain ⟨i, hi, rfl⟩ := List.mem_iff_getElem.1 hp
  have hlen := h.waiting.length_eq
  obtain ⟨hl, hb⟩ := h.waiting.get (hlen ▸ hi) hi
  exact ⟨(h.label_lt _ _ hl).2, (h.buffer_lt _ _ hb).2⟩

theorem hasWaiting (h : Twin split T w₁ w₂) :
    w₂.labels.hasWaiting w₂.buffer = w₁.labels.hasWaiting w₁.buffer := by
  have hw := h.waiting
  unfold LabelTable.hasWaiting
  generalize w₁.labels.waiting = ps, w₂.labels.waiting = qs at hw
  induction hw with
  | nil => rfl
  | @cons p q ps qs hpq _ ih =>
    rw [List.any_cons, List.any_cons, ih]
    congr 1
    rw [Bool.eq_iff_iff, beq_iff_eq, beq_iff_eq]
    exact (h.buffer_eq_iff hpq.2).symm

/-! ### Notes -/

theorem typed (h : Twin split T w₁ w₂) (t : Ty) (a : Bool) : Twin split T (w₁.typed t a) (w₂.typed t a) :=
  { h with
    bound := fun l l' hl hloose => optionRel_mono (h.bound l l' hl hloose) fun _ _ hp => hp.congr rfl
    code := fun b b' hb => (h.code b b' hb).congr rfl rfl
    holes := fun p q hp => (h.holes p q hp).congr rfl }

theorem called (h : Twin split T w₁ w₂) (c c' : Option (String × Signature)) :
    Twin split T { w₁ with callee := c } { w₂ with callee := c' } :=
  { h with
    bound := fun l l' hl hloose => optionRel_mono (h.bound l l' hl hloose) fun _ _ hp => hp.congr rfl
    code := fun b b' hb => (h.code b b' hb).congr rfl rfl
    holes := fun p q hp => (h.holes p q hp).congr rfl }

/-- A branch that waits for its target is noted. -/
theorem withHole (h : Twin split T w₁ w₂) {p q : CodePoint} (hp : HoleTwin split T w₁ p q) :
    Twin split (T.withHole p q) w₁ w₂ := by
  have hT := T.grows_withHole p q
  refine { h with
    scopes := h.scopes.mono hT, breaks := h.breaks.imp fun _ _ => List.Forall₂.imp fun _ _ => hT.holes _ _
    bound := fun l l' hl hloose => optionRel_mono (h.bound l l' hl hloose) fun _ _ => PointTwin.mono hT
    code := fun b b' hb => (h.code b b' hb).mono hT, holes := fun p' q' hp' => ?_ }
  rcases hp' with hp' | ⟨rfl, rfl⟩
  · exact (h.holes p' q' hp').mono hT
  · exact hp.mono hT

/-! ### Instructions -/

section Add

variable {op : Opcode} {x x' : Operand}

theorem offset_add (hv : w₁.buffer < w₁.buffers.size) {d : Draft} {b i : Nat} (hi : i ≤ w₁.sizeOf b) :
    (w₁.add d).offset split b i = w₁.offset split b i :=
  Writer.offset_congr_at fun k hk => by
    rw [Writer.add_at _ _ _ _ hv, if_neg]
    rintro ⟨rfl, rfl⟩
    exact absurd hi (Nat.not_le.2 hk)

theorem pointTwin_add (hv : w₁.buffer < w₁.buffers.size) {d : Draft} {p q : CodePoint}
    (h : PointTwin split T w₁ p q) : PointTwin split T (w₁.add d) p q := by
  refine ⟨h.buffer, ?_, ?_⟩
  · have := h.lt
    rw [Writer.add_sizeOf _ _ _ hv]
    split <;> omega
  · rw [offset_add hv (Nat.le_of_lt h.lt)]
    exact h.position

theorem holeTwin_add (hv : w₁.buffer < w₁.buffers.size) {d : Draft} {p q : CodePoint}
    (h : HoleTwin split T w₁ p q) : HoleTwin split T (w₁.add d) p q := by
  obtain ⟨d', hd', hjump⟩ := h.jump
  have hlt := Writer.at_lt hd'
  refine ⟨h.buffer, ⟨d', ?_, hjump⟩, ?_⟩
  · rw [Writer.add_at _ _ _ _ hv, if_neg, hd']
    rintro ⟨hb, hp⟩
    rw [hb, hp] at hlt
    exact Nat.lt_irrefl _ hlt
  · rw [offset_add hv hlt]
    exact h.position

theorem codeTwin_add (h : Twin split T w₁ w₂) (hx : OperandTwin T x x') (hop : ∀ r, op ≠ .branchInt r)
    {b b' : Nat} (hb : T.buffers b b') : CodeTwin split T (w₁.add ⟨op, x⟩) (w₂.add ⟨op, x'⟩) b b' := by
  obtain ⟨hv, hv'⟩ := h.valid
  have hcode := h.code b b' hb
  have hwidth : (⟨op, x⟩ : Draft).width split = 1 := Draft.width_of_ne hop
  have hsize := hcode.size
  have hold : ∀ i d, w₁.at b i = some d → Mirrored split T ((w₂.add ⟨op, x'⟩).at b')
      ((w₁.add ⟨op, x⟩).offset split b i) d := by
    intro i d hd
    have hlt := Writer.at_lt hd
    rw [offset_add hv (Nat.le_of_lt hlt)]
    refine (hcode.at_ i d hd).mono (.refl T) fun k _ hk => ?_
    rw [Writer.add_at _ _ _ _ hv', if_neg]
    rintro ⟨rfl, rfl⟩
    have hle : w₁.offset split b (i + 1) ≤ w₁.offset split b (w₁.sizeOf b) := Writer.offset_le hlt
    rw [Writer.offset_succ split hd, ← hsize] at hle
    exact absurd hk (Nat.not_lt.2 hle)
  -- only the current buffer gets longer
  by_cases hc : b = w₁.buffer
  · subst hc
    obtain rfl := (h.buffer_eq_iff hb).1 rfl
    have hnew : (w₁.add ⟨op, x⟩).at w₁.buffer w₁.size = some ⟨op, x⟩ := by
      rw [Writer.add_at _ _ _ _ hv, if_pos ⟨rfl, rfl⟩]
    refine ⟨?_, fun i d hd => ?_⟩
    · rw [Writer.add_sizeOf _ _ _ hv', if_pos rfl, Writer.add_sizeOf _ _ _ hv, if_pos rfl,
        Writer.offset_succ split hnew, offset_add hv (Nat.le_refl _), hwidth, hcode.size]
    · rw [Writer.add_at _ _ _ _ hv] at hd
      split at hd
      · next hi =>
        obtain rfl := Option.some.inj hd
        obtain ⟨-, rfl⟩ := hi
        rw [offset_add hv (Nat.le_refl _), ← hcode.size]
        refine .same hwidth ?_ hx
        rw [Writer.add_at _ _ _ _ hv', if_pos ⟨rfl, rfl⟩]
      · exact hold i d hd
  · have hc' : b' ≠ w₂.buffer := fun hc' => hc ((h.buffer_eq_iff hb).2 hc')
    refine ⟨?_, fun i d hd => hold i d ?_⟩
    · rw [Writer.add_sizeOf _ _ _ hv', if_neg hc', Writer.add_sizeOf _ _ _ hv, if_neg hc,
        offset_add hv (Nat.le_refl _), hcode.size]
    · rwa [Writer.add_at _ _ _ _ hv, if_neg fun hi => hc hi.1] at hd

/-- Labels that wait in the buffer in use are bound on both sides. -/
theorem close (h : Twin split T w₁ w₂) {v₁ v₂ : Writer}
    (hv₁ : v₁.labels = w₁.labels.close ⟨w₁.buffer, w₁.size⟩)
    (hv₂ : v₂.labels = w₂.labels.close ⟨w₂.buffer, w₂.size⟩)
    (hnew : PointTwin split T v₁ ⟨w₁.buffer, w₁.size⟩ ⟨w₂.buffer, w₂.size⟩)
    (hold : ∀ p q, PointTwin split T w₁ p q → PointTwin split T v₁ p q) {l l' : Label}
    (hl : T.labels l l') (hloose : ¬ T.loose l) :
    Option.Rel (PointTwin split T v₁) (v₁.labels.get? l) (v₂.labels.get? l') := by
  rw [hv₁, hv₂, LabelTable.close_get, LabelTable.close_get]
  have hiff := h.waiting_iff hl h.buffer
  by_cases hwait : (l, w₁.buffer) ∈ w₁.labels.waiting
  · rw [if_pos hwait, if_pos (hiff.1 hwait)]
    exact .some hnew
  · rw [if_neg hwait, if_neg fun hw => hwait (hiff.2 hw)]
    exact optionRel_mono (h.bound l l' hl hloose) hold

theorem close_waiting (h : Twin split T w₁ w₂) (i j : Nat) :
    List.Forall₂ (fun p q => T.labels p.1 q.1 ∧ T.buffers p.2 q.2)
      (w₁.labels.close ⟨w₁.buffer, i⟩).waiting (w₂.labels.close ⟨w₂.buffer, j⟩).waiting := by
  have hw := h.waiting
  simp only [LabelTable.close, List.partition_eq_filter_filter]
  generalize w₁.labels.waiting = ps, w₂.labels.waiting = qs at hw
  induction hw with
  | nil => exact .nil
  | @cons p q ps qs hpq _ ih =>
    have hiff := h.buffer_eq_iff hpq.2
    by_cases hb : p.2 = w₁.buffer
    · rw [List.filter_cons_of_neg (by simp [hb]), List.filter_cons_of_neg (by simp [hiff.1 hb])]
      exact ih
    · rw [List.filter_cons_of_pos (by simpa using hb),
        List.filter_cons_of_pos (by simpa using fun hb' => hb (hiff.2 hb'))]
      exact .cons hpq ih

/-- An instruction is added on both sides. -/
theorem add (h : Twin split T w₁ w₂) (hx : OperandTwin T x x') (hop : ∀ r, op ≠ .branchInt r) :
    Twin split T (w₁.add ⟨op, x⟩) (w₂.add ⟨op, x'⟩) := by
  obtain ⟨hv, hv'⟩ := h.valid
  have hunbound : (∀ l : Label, w₁.labels.next ≤ l.id → (w₁.add ⟨op, x⟩).labels.get? l = none) ∧
      ∀ l : Label, w₂.labels.next ≤ l.id → (w₂.add ⟨op, x'⟩).labels.get? l = none := by
    refine ⟨fun l hl => ?_, fun l hl => ?_⟩
    · refine (LabelTable.close_get _ _ _).trans ?_
      rw [if_neg fun hw => Nat.not_lt.2 hl (h.waiting_lt hw).1, h.unbound.1 l hl]
    · refine (LabelTable.close_get _ _ _).trans ?_
      rw [if_neg fun hw => Nat.not_lt.2 hl (h.waiting_lt' hw).1, h.unbound.2 l hl]
  refine { h with
    buffer_lt := fun b b' hb => ?_, unbound := hunbound, waiting := h.close_waiting _ _
    bound := fun l l' hl hloose => ?_
    code := fun b b' hb => h.codeTwin_add hx hop hb, holes := fun p q hp => holeTwin_add hv (h.holes p q hp) }
  · rw [Writer.add_buffers_size, Writer.add_buffers_size]
    exact h.buffer_lt b b' hb
  · refine h.close rfl rfl ⟨h.buffer, ?_, ?_⟩ (fun p q => pointTwin_add hv) hl hloose
    · rw [Writer.add_sizeOf _ _ _ hv, if_pos rfl]
      exact Nat.lt_succ_self _
    · rw [offset_add hv (Nat.le_refl _)]
      exact h.size

end Add

section Edit

variable {p q : CodePoint} {f f' : Draft → Draft}

theorem offset_setAt (hf : ∀ d, w₁.at p.buffer p.position = some d → (f d).width split = d.width split)
    (b i : Nat) : (w₁.setAt p f).offset split b i = w₁.offset split b i :=
  Writer.offset_congr fun k _ => by
    rw [Writer.setAt_at]
    split
    · next hk =>
      obtain ⟨rfl, rfl⟩ := hk
      cases hd : w₁.at p.buffer p.position with
      | none => rfl
      | some d => exact hf d hd
    · rfl

/-- An instruction is changed into one of the same kind, and so is one of those that it stands for. -/
theorem edit (h : Twin split T w₁ w₂) (hb : T.buffers p.buffer q.buffer)
    (hle : w₁.offset split p.buffer p.position ≤ q.position)
    (hlt : q.position < w₁.offset split p.buffer (p.position + 1))
    (hf : ∀ d, w₁.at p.buffer p.position = some d →
      (f d).width split = d.width split ∧ (IsJump d.opcode → IsJump (f d).opcode) ∧
        Mirrored split T ((w₂.setAt q f').at q.buffer) (w₁.offset split p.buffer p.position) (f d)) :
    Twin split T (w₁.setAt p f) (w₂.setAt q f') := by
  have hoffset : ∀ b i, (w₁.setAt p f).offset split b i = w₁.offset split b i :=
    offset_setAt fun d hd => (hf d hd).1
  have hpoint : ∀ p' q', PointTwin split T w₁ p' q' → PointTwin split T (w₁.setAt p f) p' q' :=
    fun p' q' hp => ⟨hp.buffer, by rw [Writer.setAt_sizeOf]; exact hp.lt, by rw [hoffset]; exact hp.position⟩
  refine { h with
    buffer_lt := fun b b' hb => ?_, bound := fun l l' hl hloose => optionRel_mono (h.bound l l' hl hloose) hpoint
    code := fun b b' hc => ⟨?_, fun i d hd => ?_⟩, holes := fun p' q' hp => ?_ }
  · rw [Writer.setAt_buffers_size, Writer.setAt_buffers_size]
    exact h.buffer_lt b b' hb
  · rw [Writer.setAt_sizeOf, Writer.setAt_sizeOf, hoffset]
    exact (h.code b b' hc).size
  · rw [hoffset]
    rw [Writer.setAt_at] at hd
    split at hd
    · next hi =>
      obtain ⟨rfl, rfl⟩ := hi
      obtain ⟨d', hd', rfl⟩ := Option.map_eq_some_iff.1 hd
      obtain rfl := (h.buffer_iff _ _ _ _ hc hb).1 rfl
      exact (hf d' hd').2.2
    · next hi =>
      refine ((h.code b b' hc).at_ i d hd).mono (.refl T) fun k hk hk' => ?_
      rw [Writer.setAt_at, if_neg]
      rintro ⟨rfl, rfl⟩
      have hbuffer := (h.buffer_iff _ _ _ _ hc hb).2 rfl
      subst hbuffer
      -- drafts before and behind the edited one keep their place, as no width changes
      have hne : i ≠ p.position := fun hi' => hi ⟨rfl, hi'⟩
      rw [← Writer.offset_succ split hd] at hk'
      rcases Nat.lt_or_gt_of_ne hne with hlt' | hgt
      · have : w₁.offset split p.buffer (i + 1) ≤ w₁.offset split p.buffer p.position :=
          Writer.offset_le hlt'
        omega
      · have : w₁.offset split p.buffer (p.position + 1) ≤ w₁.offset split p.buffer i :=
          Writer.offset_le hgt
        omega
  · obtain ⟨hbuffer, ⟨d, hd, hjump⟩, hposition⟩ := h.holes p' q' hp
    refine ⟨hbuffer, ?_, by rw [hoffset]; exact hposition⟩
    rw [Writer.setAt_at]
    split
    · next hi =>
      rw [hi.1, hi.2] at hd ⊢
      exact ⟨f d, by rw [hd]; rfl, (hf d hd).2.1 hjump⟩
    · exact ⟨d, hd, hjump⟩

/-- A branch without a target gets one. -/
theorem patch (h : Twin split T w₁ w₂) (hp : T.holes p q) {l l' : Label} (hl : T.labels l l') :
    Twin split T (w₁.setAt p fun d => { d with operand := .label l })
      (w₂.setAt q fun d => { d with operand := .label l' }) := by
  obtain ⟨hb, ⟨d, hd, hjump⟩, hposition⟩ := h.holes p q hp
  have hnext := Writer.offset_succ split hd
  have hlt := Draft.width_pos split d
  refine h.edit hb (by omega) (by omega) fun d' hd' => ⟨rfl, id, ?_⟩
  obtain rfl := Option.some.inj (hd.symm.trans hd')
  cases (h.code _ _ hb).at_ _ _ hd with
  | @same _ x hw hat hx =>
    obtain hq : q.position = w₁.offset split p.buffer p.position := by omega
    refine .same hw ?_ (.label hl)
    rw [Writer.setAt_at, hq, if_pos ⟨rfl, rfl⟩, hat]
    rfl
  | @split r x x' y hs hat hat' hx =>
    subst hs
    have hwidth : Draft.width true ⟨.branchInt (negation r), x⟩ = 2 := rfl
    rw [hwidth] at hnext
    -- of a split pair the target stands in the second instruction
    obtain hq : q.position = w₁.offset true p.buffer p.position + 1 := by omega
    refine .split rfl (y := y) ?_ ?_ (.label hl)
    · rw [Writer.setAt_at, if_neg (by omega)]
      exact hat
    · rw [Writer.setAt_at, hq, if_pos ⟨rfl, rfl⟩, hat']
      rfl

/-- The instruction written last gets another operation, which is no branch. -/
theorem changeOpcode (h : Twin split T w₁ w₂) {d : Draft} {op : Opcode}
    (hd : w₁.last? = some d) (hwidth : d.width split = 1) (hjump : ¬ IsJump d.opcode)
    (hop : ∀ r, op ≠ .branchInt r) :
    Twin split T (w₁.setAt ⟨w₁.buffer, w₁.size - 1⟩ fun d => { d with opcode := op })
      (w₂.setAt ⟨w₂.buffer, w₂.size - 1⟩ fun d => { d with opcode := op }) := by
  have hlt := Writer.at_lt hd
  have hnext := Writer.offset_succ split hd
  have hsize := h.size
  rw [Nat.sub_add_cancel (Nat.lt_of_le_of_lt (Nat.zero_le _) hlt), ← hsize, hwidth] at hnext
  have hq : w₂.size - 1 = w₁.offset split w₁.buffer (w₁.size - 1) := by omega
  refine h.edit h.buffer (Nat.le_of_eq hq.symm) ?_ fun d' hd' => ?_
  · rw [hq]
    exact Writer.offset_lt_succ _ _ _
  · obtain rfl := Option.some.inj (hd.symm.trans hd')
    refine ⟨(Draft.width_of_ne hop).trans hwidth.symm, fun hj => absurd hj hjump, ?_⟩
    cases (h.code _ _ h.buffer).at_ _ _ hd with
    | same hw hat hx =>
      refine .same (Draft.width_of_ne hop) ?_ hx
      rw [Writer.setAt_at, hq, if_pos ⟨rfl, rfl⟩, hat]
      rfl
    | split hs => exact absurd (.inr (.inr (.inr ⟨_, rfl⟩))) hjump

theorem widen_opcode (d : Draft) : (widen d).opcode = d.opcode := by
  unfold widen
  split <;> rfl

theorem widen_of_ne {d : Draft} (h : d.opcode ≠ .allocStack) : widen d = d := by
  unfold widen
  split
  · exact absurd rfl h
  · rfl

theorem widen_twin (op : Opcode) {x x' : Operand} (h : OperandTwin T x x') :
    ∃ y, widen ⟨op, x'⟩ = ⟨op, y⟩ ∧ OperandTwin T (widen ⟨op, x⟩).operand y := by
  refine ⟨(widen ⟨op, x'⟩).operand, ?_, ?_⟩
  · exact congrArg (Draft.mk · _) (widen_opcode ⟨op, x'⟩)
  · cases h with
    | label hl =>
      have hsame : ∀ l, widen ⟨op, .label l⟩ = ⟨op, .label l⟩ := fun l => by
        unfold widen
        split
        · next heq => cases heq
        · rfl
      rw [hsame, hsame]
      exact .label hl
    | same hx =>
      refine .same ?_
      unfold widen
      split
      · rfl
      · exact hx

/-- Room is made for one variable more. -/
theorem widened (h : Twin split T w₁ w₂) :
    Twin split T (w₁.setAt ⟨w₁.buffer, 0⟩ widen) (w₂.setAt ⟨w₂.buffer, 0⟩ widen) := by
  have hwidth : ∀ d, (widen d).width split = d.width split := fun d => by
    unfold Draft.width
    rw [widen_opcode]
  refine h.edit h.buffer (Nat.le_refl _) (w₁.offset_lt_succ w₁.buffer 0) fun d hd =>
    ⟨hwidth d, fun hj => (widen_opcode d).symm ▸ hj, ?_⟩
  have hset : ∀ i, (w₂.setAt ⟨w₂.buffer, 0⟩ widen).at w₂.buffer i =
      if i = 0 then (w₂.at w₂.buffer i).map widen else w₂.at w₂.buffer i := fun i => by
    rw [Writer.setAt_at]
    simp
  cases (h.code _ _ h.buffer).at_ _ _ hd with
  | @same _ x hw hat hx =>
    obtain ⟨op, x₀⟩ := d
    obtain ⟨y, hy, htwin⟩ := widen_twin op hx
    refine .same ((hwidth _).trans hw) ((hset 0).trans ?_) htwin
    rw [if_pos rfl, show w₂.at w₂.buffer 0 = _ from hat, widen_opcode]
    exact congrArg some hy
  | @split r x x' y hs hat hat' hx =>
    rw [widen_of_ne (by rintro ⟨⟩)]
    refine .split hs (y := y) ((hset 0).trans ?_) ((hset 1).trans hat') hx
    rw [if_pos rfl, show w₂.at w₂.buffer 0 = _ from hat]
    rfl

end Edit

/-! ### Branches merged on the left -/

section Merge

variable {r : Relation} {x : Operand}

theorem merged_at (hd : w₁.last? = some ⟨.compare .int r, x⟩) (b i : Nat) :
    (w₁.merged r).at b i =
      if b = w₁.buffer ∧ i = w₁.size - 1 then some ⟨.branchInt (negation r), .none⟩ else w₁.at b i := by
  rw [Writer.merged, Writer.setAt_at]
  split
  · next hi =>
    obtain ⟨rfl, rfl⟩ := hi
    rw [show w₁.at w₁.buffer (w₁.size - 1) = _ from hd]
    rfl
  · rfl

theorem merged_offset (hd : w₁.last? = some ⟨.compare .int r, x⟩) {b i : Nat}
    (hi : b = w₁.buffer → i < w₁.sizeOf b) : (w₁.merged r).offset split b i = w₁.offset split b i :=
  Writer.offset_congr_at fun k hk => by
    rw [merged_at hd, if_neg]
    rintro ⟨rfl, rfl⟩
    have hlt : i < w₁.size := hi rfl
    omega

/-- On the left a comparison becomes a branch, on the right a branch is added behind it. -/
theorem merge (h : Twin true T w₁ w₂) (hd : w₁.last? = some ⟨.compare .int r, x⟩)
    (hwait : w₁.labels.hasWaiting w₁.buffer = false) :
    Twin true (T.withHole ⟨w₁.buffer, w₁.size - 1⟩ ⟨w₂.buffer, w₂.size⟩) (w₁.merged r)
      (w₂.add ⟨.branchFalse, .none⟩) := by
  have hT := T.grows_withHole ⟨w₁.buffer, w₁.size - 1⟩ ⟨w₂.buffer, w₂.size⟩
  obtain ⟨hv, hv'⟩ := h.valid
  have hlt : w₁.size - 1 < w₁.size := Writer.at_lt hd
  have hsize := h.size
  have hlast : w₁.offset true w₁.buffer w₁.size = w₁.offset true w₁.buffer (w₁.size - 1) + 1 := by
    have := Writer.offset_succ true hd
    rwa [Nat.sub_add_cancel (Nat.lt_of_le_of_lt (Nat.zero_le _) hlt)] at this
  have hnew : (w₁.merged r).offset true w₁.buffer w₁.size = w₁.offset true w₁.buffer (w₁.size - 1) + 2 := by
    have hat : (w₁.merged r).at w₁.buffer (w₁.size - 1) = some ⟨.branchInt (negation r), .none⟩ := by
      rw [merged_at hd, if_pos ⟨rfl, rfl⟩]
    have := Writer.offset_succ true hat
    rw [Nat.sub_add_cancel (Nat.lt_of_le_of_lt (Nat.zero_le _) hlt), merged_offset hd fun _ => hlt] at this
    exact this
  -- nothing lands between the two instructions, so the second closes no label
  have hquiet : ∀ l, (l, w₂.buffer) ∉ w₂.labels.waiting := fun l hl => by
    have hw := h.hasWaiting.trans hwait
    rw [(LabelTable.hasWaiting_iff _ _).2 ⟨l, hl⟩] at hw
    cases hw
  have hget : ∀ l, (w₂.add ⟨.branchFalse, .none⟩).labels.get? l = w₂.labels.get? l := fun l =>
    (LabelTable.close_get _ _ _).trans (if_neg (hquiet l))
  have hwaiting : (w₂.add ⟨.branchFalse, .none⟩).labels.waiting = w₂.labels.waiting := by
    show (w₂.labels.close _).waiting = _
    simp only [LabelTable.close, List.partition_eq_filter_filter]
    refine List.filter_eq_self.2 fun w hw => ?_
    have hne : w.2 ≠ w₂.buffer := fun hb => hquiet w.1 (hb ▸ hw)
    simpa using hne
  refine { h with
    scopes := h.scopes.mono hT
    breaks := h.breaks.imp fun _ _ => List.Forall₂.imp fun _ _ => hT.holes _ _
    buffer_lt := fun b b' hb => ?_
    unbound := ⟨h.unbound.1, fun l hl => (hget l).trans (h.unbound.2 l hl)⟩
    waiting := hwaiting ▸ h.waiting
    bound := fun l l' hl hloose => ?_, code := fun b b' hb => ⟨?_, fun i d hi => ?_⟩, holes := fun p q hp => ?_ }
  · rw [Writer.setAt_buffers_size, Writer.add_buffers_size]
    exact h.buffer_lt b b' hb
  · rw [hget]
    refine optionRel_mono (h.bound l l' hl hloose) fun p q hp => ⟨hp.buffer, ?_, ?_⟩
    · rw [Writer.setAt_sizeOf]
      exact hp.lt
    · rw [merged_offset hd fun _ => hp.lt]
      exact hp.position
  · rw [Writer.setAt_sizeOf, Writer.add_sizeOf _ _ _ hv']
    have hcode := (h.code b b' hb).size
    by_cases hc : b = w₁.buffer
    · subst hc
      obtain rfl := (h.buffer_eq_iff hb).1 rfl
      rw [if_pos rfl, hnew]
      show w₂.size + 1 = _
      rw [hsize, hlast]
    · rw [if_neg fun hc' => hc ((h.buffer_eq_iff hb).2 hc'), merged_offset hd fun hc' => absurd hc' hc, hcode]
  · rw [merged_at hd] at hi
    split at hi
    · next hlast' =>
      obtain rfl := Option.some.inj hi
      obtain ⟨rfl, rfl⟩ := hlast'
      obtain rfl := (h.buffer_eq_iff hb).1 rfl
      rw [merged_offset hd fun _ => hlt]
      cases (h.code _ _ hb).at_ _ _ hd with
      | @same _ y hw hat hx =>
        refine .split rfl (y := y) ?_ ?_ (.same rfl)
        · rw [Writer.add_at _ _ _ _ hv', if_neg (by omega)]
          exact hat
        · rw [Writer.add_at _ _ _ _ hv', if_pos ⟨rfl, by omega⟩]
    · next hlast' =>
      have hlt' := Writer.at_lt hi
      have hoff : (w₁.merged r).offset true b i = w₁.offset true b i := merged_offset hd fun _ => hlt'
      rw [hoff]
      refine ((h.code b b' hb).at_ i d hi).mono hT fun k _ hk => ?_
      rw [Writer.add_at _ _ _ _ hv', if_neg]
      rintro ⟨rfl, rfl⟩
      obtain rfl := (h.buffer_eq_iff hb).2 rfl
      have hle : w₁.offset true w₁.buffer (i + 1) ≤ w₁.offset true w₁.buffer w₁.size := Writer.offset_le hlt'
      rw [Writer.offset_succ true hi] at hle
      omega
  · rcases hp with hp | ⟨rfl, rfl⟩
    · obtain ⟨hbuffer, ⟨d, hat, hjump⟩, hposition⟩ := h.holes p q hp
      have hplt := Writer.at_lt hat
      have hne : ¬ (p.buffer = w₁.buffer ∧ p.position = w₁.size - 1) := by
        rintro ⟨hb, hp⟩
        rw [hb, hp] at hat
        obtain rfl := Option.some.inj (hat.symm.trans hd)
        rcases hjump with hj | hj | hj | ⟨_, hj⟩ <;> cases hj
      refine ⟨hbuffer, ⟨d, ?_, hjump⟩, ?_⟩
      · rw [merged_at hd, if_neg hne]
        exact hat
      · rw [merged_offset hd fun hb => ?_]
        · exact hposition
        · -- a hole stands at a jump, the draft that is merged is a comparison
          have : p.position ≠ w₁.size - 1 := fun hp => hne ⟨hb, hp⟩
          rw [hb] at hplt ⊢
          exact Nat.add_lt_of_lt_sub (Nat.lt_of_le_of_ne (Nat.le_sub_one_of_lt hplt) this)
    · refine ⟨h.buffer, ⟨⟨.branchInt (negation r), .none⟩, ?_, .inr (.inr (.inr ⟨_, rfl⟩))⟩, ?_⟩
      · rw [merged_at hd, if_pos ⟨rfl, rfl⟩]
      · show w₂.size + 1 = (w₁.merged r).offset true w₁.buffer (w₁.size - 1 + 1)
        rw [Nat.sub_add_cancel (Nat.lt_of_le_of_lt (Nat.zero_le _) hlt), hnew]
        omega

end Merge

/-! ### Labels -/

section Labels

/-- Both sides make a label. -/
theorem reserved (h : Twin split T w₁ w₂) :
    Twin split T { w₁ with labels := w₁.labels.reserve.2 } { w₂ with labels := w₂.labels.reserve.2 } :=
  { h with
    label_lt := fun l l' hl => ⟨Nat.lt_succ_of_lt (h.label_lt l l' hl).1, Nat.lt_succ_of_lt (h.label_lt l l' hl).2⟩
    unbound := ⟨fun l hl => h.unbound.1 l (Nat.le_of_succ_le hl), fun l hl => h.unbound.2 l (Nat.le_of_succ_le hl)⟩
    bound := fun l l' hl hloose => optionRel_mono (h.bound l l' hl hloose) fun _ _ hp => hp.congr rfl
    code := fun b b' hb => (h.code b b' hb).congr rfl rfl
    holes := fun p q hp => (h.holes p q hp).congr rfl }

/-- Two labels that lead nowhere yet are paired. -/
theorem paired (h : Twin split T w₁ w₂) (l l' : Label) (hl : l.id < w₁.labels.next ∧ l'.id < w₂.labels.next)
    (hfree : ∀ m m', T.labels m m' → m ≠ l ∧ m' ≠ l') (hnone : w₁.labels.get? l = none)
    (hnone' : w₂.labels.get? l' = none) : Twin split (T.withLabel l l') w₁ w₂ := by
  have hT := T.grows_withLabel l l'
  refine { h with
    scopes := h.scopes.mono hT, label_lt := ?_, label_iff := ?_
    waiting := h.waiting.imp fun _ _ hp => ⟨hT.labels _ _ hp.1, hp.2⟩
    bound := ?_, code := fun b b' hb => (h.code b b' hb).mono hT, holes := fun p q hp => (h.holes p q hp).mono hT }
  · rintro m m' (hm | ⟨rfl, rfl⟩)
    · exact h.label_lt m m' hm
    · exact hl
  · rintro m m' k k' (hm | ⟨rfl, rfl⟩) (hk | ⟨rfl, rfl⟩)
    · exact h.label_iff _ _ _ _ hm hk
    · exact iff_of_false (hfree _ _ hm).1 (hfree _ _ hm).2
    · exact iff_of_false (hfree _ _ hk).1.symm (hfree _ _ hk).2.symm
    · exact iff_of_true rfl rfl
  · rintro m m' (hm | ⟨rfl, rfl⟩) hloose
    · exact optionRel_mono (h.bound m m' hm hloose) fun _ _ => PointTwin.mono hT
    · rw [hnone, hnone']
      exact .none

/-- Labels of which one was made after the other ones. -/
theorem newer (h : Twin split T w₁ w₂) {l l' m m' : Label} (hl : w₁.labels.next ≤ l.id) (hl' : w₂.labels.next ≤ l'.id)
    (hm : T.labels m m') : m ≠ l ∧ m' ≠ l' := by
  obtain ⟨hlt, hlt'⟩ := h.label_lt _ _ hm
  refine ⟨?_, ?_⟩
  · rintro rfl
    exact Nat.not_lt.2 hl hlt
  · rintro rfl
    exact Nat.not_lt.2 hl' hlt'

/-- Both sides make a label, and the two are paired. -/
theorem fresh (h : Twin split T w₁ w₂) :
    Twin split (T.withLabel ⟨w₁.labels.next⟩ ⟨w₂.labels.next⟩) { w₁ with labels := w₁.labels.reserve.2 }
      { w₂ with labels := w₂.labels.reserve.2 } :=
  h.reserved.paired _ _ ⟨Nat.lt_succ_self _, Nat.lt_succ_self _⟩
    (fun _ _ => h.newer (Nat.le_refl _) (Nat.le_refl _)) (h.unbound.1 _ (Nat.le_refl _))
    (h.unbound.2 _ (Nat.le_refl _))

theorem openedLabel (h : Twin split T w₁ w₂) :
    Twin split (T.withLabel ⟨w₁.labels.next⟩ ⟨w₂.labels.next⟩) w₁.openedLabel w₂.openedLabel :=
  { h.fresh with
    waiting := List.rel_append h.fresh.waiting (.cons ⟨.inr ⟨rfl, rfl⟩, h.buffer⟩ .nil)
    bound := fun l l' hl hloose => optionRel_mono (h.fresh.bound l l' hl hloose) fun _ _ hp => hp.congr rfl
    code := fun b b' hb => (h.fresh.code b b' hb).congr rfl rfl
    holes := fun p q hp => (h.fresh.holes p q hp).congr rfl }

end Labels

end Twin

/-! ### Names -/

namespace ScopeTwin

variable {T : Pairing} {s s' : Scope}

theorem declares (h : ScopeTwin T s s') (name : String) : s'.declares name = s.declares name := by
  have hfound := h.found name
  unfold Scope.declares
  generalize s.find? name = x, s'.find? name = y at hfound
  cases hfound <;> rfl

theorem empty (T : Pairing) (n : Nat) : ScopeTwin T ⟨[], n⟩ ⟨[], n⟩ := ⟨rfl, fun _ => .none⟩

theorem cons {e e' : Entity} (h : ScopeTwin T s s') (he : EntityTwin T e e') :
    ScopeTwin T ⟨e :: s.entities, s.frame⟩ ⟨e' :: s'.entities, s'.frame⟩ := by
  refine ⟨h.frame, fun name => ?_⟩
  have hname : e'.name = e.name := by rw [he.same]
  simp only [Scope.find?, List.find?_cons, hname]
  cases e.name == name with
  | true => exact .some he
  | false => exact h.found name

end ScopeTwin

namespace ChainTwin

variable {T : Pairing} {c c' : ScopeChain}

theorem functionDepth (h : ChainTwin T c c') : c'.functionDepth = c.functionDepth := by
  rw [ScopeChain.functionDepth, ScopeChain.functionDepth, h.frames]

theorem scopes (h : ChainTwin T c c') : List.Forall₂ (ScopeTwin T) c.scopes c'.scopes := .cons h.inner h.outer

theorem isTaken (h : ChainTwin T c c') (name : String) : c'.isTaken name = c.isTaken name := by
  have hs := h.scopes
  unfold ScopeChain.isTaken
  rw [h.frame, h.functionDepth]
  congr 1
  generalize c.scopes = ss, c'.scopes = ss' at hs
  induction hs with
  | nil => rfl
  | cons hs _ ih =>
    rw [List.takeWhile_cons, List.takeWhile_cons, hs.frame]
    split
    · rw [List.any_cons, List.any_cons, ih, hs.declares]
    · rfl

/-- A name stands for the same on both sides. -/
theorem resolve (h : ChainTwin T c c') (env : Environment) (name : String) :
    (∃ e e', c.resolve env name = .ok e ∧ c'.resolve env name = .ok e' ∧ EntityTwin T e e') ∨
      ∃ x, c.resolve env name = .error x ∧ c'.resolve env name = .error x := by
  have hs := h.scopes
  have hfound : Option.Rel (EntityTwin T) (c.scopes.findSome? fun s => s.find? name)
      (c'.scopes.findSome? fun s => s.find? name) := by
    generalize c.scopes = ss, c'.scopes = ss' at hs
    induction hs with
    | nil => exact .none
    | @cons s s' _ _ hs _ ih =>
      rw [List.findSome?_cons, List.findSome?_cons]
      have hone := hs.found name
      generalize s.find? name = x, s'.find? name = y at hone
      cases hone with
      | some he => exact .some he
      | none => exact ih
  unfold ScopeChain.resolve
  generalize (c.scopes.findSome? fun s => s.find? name) = x, (c'.scopes.findSome? fun s => s.find? name) = y at hfound
  cases hfound with
  | some he => exact .inl ⟨_, _, rfl, rfl, he⟩
  | none =>
    cases env.get? name with
    | some b => exact .inl ⟨_, _, rfl, rfl, rfl, .external⟩
    | none => exact .inr ⟨_, rfl, rfl⟩

theorem add {e e' : Entity} (h : ChainTwin T c c') (he : EntityTwin T e e') : ChainTwin T (c.add e) (c'.add e') :=
  ⟨h.inner.cons he, h.outer, h.frame, h.frames⟩

theorem beginScope (h : ChainTwin T c c') : ChainTwin T c.beginScope c'.beginScope := by
  refine ⟨?_, h.scopes, h.frame, h.frames⟩
  simp only [ScopeChain.beginScope, h.functionDepth]
  exact .empty _ _

theorem endScope (h : ChainTwin T c c') : ChainTwin T c.endScope c'.endScope := by
  obtain ⟨inner, outer, frame, frames⟩ := c
  obtain ⟨inner', outer', frame', frames'⟩ := c'
  obtain ⟨hinner, houter, hframe, hframes⟩ := h
  cases houter with
  | nil => exact ⟨hinner, .nil, hframe, hframes⟩
  | cons hs hrest => exact ⟨hs, hrest, hframe, hframes⟩

theorem beginFunction (h : ChainTwin T c c') : ChainTwin T c.beginFunction c'.beginFunction := by
  refine ⟨?_, h.scopes, rfl, ?_⟩
  · simp only [ScopeChain.beginFunction, h.functionDepth]
    exact .empty _ _
  · simp only [ScopeChain.beginFunction, h.frame, h.frames]

end ChainTwin

namespace Twin

variable {split : Bool} {T T' : Pairing} {w₁ w₂ v₁ v₂ : Writer}

theorem withScopes (h : Twin split T w₁ w₂) {c c' : ScopeChain} (hc : ChainTwin T c c')
    (hl : c.inner.frame = c.functionDepth) :
    Twin split T { w₁ with scopes := c } { w₂ with scopes := c' } :=
  { h with
    scopes := hc, level := hl
    bound := fun l l' hl hloose => optionRel_mono (h.bound l l' hl hloose) fun _ _ hp => hp.congr rfl
    code := fun b b' hb => (h.code b b' hb).congr rfl rfl
    holes := fun p q hp => (h.holes p q hp).congr rfl }

theorem leaving (h : Twin split T w₁ w₂) {breaks breaks' : List (List CodePoint)}
    (hb : List.Forall₂ (List.Forall₂ T.holes) breaks breaks') (ho : ∀ p ∈ breaks.flatten, p.buffer = w₁.buffer)
    (ho' : ∀ q ∈ breaks'.flatten, q.buffer = w₂.buffer) :
    Twin split T { w₁ with breaks } { w₂ with breaks := breaks' } :=
  { h with
    breaks := hb, own := ⟨ho, ho'⟩
    bound := fun l l' hl hloose => optionRel_mono (h.bound l l' hl hloose) fun _ _ hp => hp.congr rfl
    code := fun b b' hb => (h.code b b' hb).congr rfl rfl
    holes := fun p q hp => (h.holes p q hp).congr rfl }

/-- A function is declared, under new labels. -/
theorem entered (h : Twin split T w₁ w₂) {e e' : Entity}
    (he : EntityTwin (T.withLabel ⟨w₁.labels.next⟩ ⟨w₂.labels.next⟩) e e') :
    Twin split (T.withLabel ⟨w₁.labels.next⟩ ⟨w₂.labels.next⟩) (w₁.entered (w₁.scopes.add e))
      (w₂.entered (w₂.scopes.add e')) := h.fresh.withScopes (h.fresh.scopes.add he) h.level

end Twin

/-! ### Functions -/

/-- The writer in a new buffer, before the first instruction of a function. -/
def Writer.opened (w : Writer) (l : Label) (returns : Ty) : Writer :=
  { w with
    buffers := w.buffers.push #[]
    buffer := w.buffers.size
    breaks := []
    returns
    labels := w.labels.openReserved l w.buffers.size
    scopes := w.scopes.beginFunction }

section Opened

variable {w : Writer} {l : Label} {returns : Ty}

theorem Writer.opened_getD {b : Nat} (hb : b < w.buffers.size) :
    (w.opened l returns).buffers.getD b #[] = w.buffers.getD b #[] := by
  show (w.buffers.push #[]).getD b #[] = _
  simp only [Array.getD_eq_getD_getElem?, Array.getElem?_push, if_neg (Nat.ne_of_lt hb)]

theorem Writer.opened_at {b : Nat} (hb : b < w.buffers.size) (i : Nat) :
    (w.opened l returns).at b i = w.at b i := by
  rw [Writer.at, Writer.opened_getD hb, Writer.at]

theorem Writer.opened_sizeOf {b : Nat} (hb : b < w.buffers.size) :
    (w.opened l returns).sizeOf b = w.sizeOf b := by
  rw [Writer.sizeOf, Writer.opened_getD hb, Writer.sizeOf]

theorem Writer.opened_new (i : Nat) : (w.opened l returns).at w.buffers.size i = none := by
  show ((w.buffers.push #[]).getD w.buffers.size #[])[i]? = none
  simp

theorem Writer.opened_offset {split : Bool} {b : Nat} (hb : b < w.buffers.size) (i : Nat) :
    (w.opened l returns).offset split b i = w.offset split b i :=
  Writer.offset_congr_at fun k _ => Writer.opened_at hb k

end Opened

namespace Twin

variable {split : Bool} {T T' : Pairing} {w₁ w₂ v₁ v₂ : Writer} {l l' : Label}

/-- Both sides begin a function. -/
theorem opened (h : Twin split T w₁ w₂) (hl : T.labels l l') (returns : Ty) :
    Twin split (T.withBuffer w₁.buffers.size w₂.buffers.size) (w₁.opened l returns) (w₂.opened l' returns) := by
  have hT := T.grows_withBuffer w₁.buffers.size w₂.buffers.size
  have hold : ∀ {b b'}, T.buffers b b' → b ≠ w₁.buffers.size ∧ b' ≠ w₂.buffers.size := fun hb =>
    ⟨Nat.ne_of_lt (h.buffer_lt _ _ hb).1, Nat.ne_of_lt (h.buffer_lt _ _ hb).2⟩
  have hsize : ∀ {w : Writer} {l}, (w.opened l returns).buffers.size = w.buffers.size + 1 := by
    simp [Writer.opened]
  refine { h with
    returns := rfl, scopes := (h.scopes.mono hT).beginFunction, level := rfl, breaks := .nil
    own := ⟨nofun, nofun⟩, buffer := .inr ⟨rfl, rfl⟩
    buffer_lt := fun b b' hb => ?_, buffer_iff := fun b b' c c' hb hc => ?_
    waiting := List.rel_append (h.waiting.imp fun _ _ hp => ⟨hp.1, hT.buffers _ _ hp.2⟩)
      (.cons ⟨hl, .inr ⟨rfl, rfl⟩⟩ .nil)
    bound := fun m m' hm hloose => optionRel_mono (h.bound m m' hm hloose) fun p q hp => ?_
    code := fun b b' hb => ?_, holes := fun p q hp => ?_ }
  · rw [hsize, hsize]
    rcases hb with hb | ⟨rfl, rfl⟩
    · exact ⟨Nat.lt_succ_of_lt (h.buffer_lt _ _ hb).1, Nat.lt_succ_of_lt (h.buffer_lt _ _ hb).2⟩
    · exact ⟨Nat.lt_succ_self _, Nat.lt_succ_self _⟩
  · rcases hb with hb | ⟨rfl, rfl⟩
    · rcases hc with hc | ⟨rfl, rfl⟩
      · exact h.buffer_iff _ _ _ _ hb hc
      · -- an old buffer is never the one opened here
        exact iff_of_false (hold hb).1 (hold hb).2
    · rcases hc with hc | ⟨rfl, rfl⟩
      · exact iff_of_false (hold hc).1.symm (hold hc).2.symm
      · exact iff_of_true rfl rfl
  · have hlt := (h.buffer_lt _ _ hp.buffer).1
    refine ⟨hT.buffers _ _ hp.buffer, ?_, ?_⟩
    · rw [Writer.opened_sizeOf hlt]
      exact hp.lt
    · rw [Writer.opened_offset hlt]
      exact hp.position
  · rcases hb with hb | ⟨rfl, rfl⟩
    · obtain ⟨hlt, hlt'⟩ := h.buffer_lt _ _ hb
      refine ⟨?_, fun i d hd => ?_⟩
      · rw [Writer.opened_sizeOf hlt', Writer.opened_sizeOf hlt, Writer.opened_offset hlt]
        exact (h.code b b' hb).size
      · rw [Writer.opened_at hlt] at hd
        rw [Writer.opened_offset hlt]
        exact ((h.code b b' hb).at_ i d hd).mono hT fun k _ _ => Writer.opened_at hlt' k
    · refine ⟨?_, fun i d hd => ?_⟩
      · show ((w₂.buffers.push #[]).getD w₂.buffers.size #[]).size =
          (w₁.opened l returns).offset split w₁.buffers.size
            ((w₁.buffers.push #[]).getD w₁.buffers.size #[]).size
        simp
      · rw [Writer.opened_new] at hd
        cases hd
  · obtain ⟨hbuffer, ⟨d, hd, hjump⟩, hposition⟩ := h.holes p q hp
    have hlt := (h.buffer_lt _ _ hbuffer).1
    refine ⟨hT.buffers _ _ hbuffer, ⟨d, ?_, hjump⟩, ?_⟩
    · rw [Writer.opened_at hlt, hd]
    · rw [Writer.opened_offset hlt]
      exact hposition

/-- Both sides begin a function, and make room for its variables. -/
theorem inside (h : Twin split T w₁ w₂) (hl : T.labels l l') (returns : Ty) :
    Twin split (T.withBuffer w₁.buffers.size w₂.buffers.size) (w₁.inside l returns) (w₂.inside l' returns) :=
  (h.opened hl returns).add (.same rfl) nofun

end Twin

/-- What writing a function leaves as it was: everything, but for where its label leads. -/
structure Detached (l : Label) (w v : Writer) : Prop where
  scopes : v.scopes = w.scopes
  breaks : v.breaks = w.breaks
  buffer : v.buffer = w.buffer
  returns : v.returns = w.returns
  next : w.labels.next ≤ v.labels.next
  count : w.buffers.size ≤ v.buffers.size
  code : ∀ b < w.buffers.size, v.buffers.getD b #[] = w.buffers.getD b #[]
  waiting : v.labels.waiting = w.labels.waiting
  bound : ∀ m : Label, m.id < w.labels.next → m ≠ l → v.labels.get? m = w.labels.get? m

namespace Detached

variable {l : Label} {w v : Writer}

theorem kin (h : Detached l w v) (hl : w.Names l) : Kin w v where
  buffer := h.buffer
  scopes := h.scopes ▸ .refl _
  next := h.next
  count := h.count
  others b hb _ := h.code b hb
  waiting := by rw [h.waiting]
  own _ _ hm := h.waiting ▸ hm
  bound m hm _ hn := h.bound m hm fun he => hn (he ▸ hl)
  names m hm := by
    unfold Writer.Names at hm
    rw [h.scopes] at hm
    exact .inl hm

theorem typed (h : Detached l w v) (t : Ty) (a : Bool) : Detached l w (v.typed t a) := { h with }

/-- A function that has been written to its end. -/
theorem of_body {returns : Ty} (hw : ∀ p ∈ w.labels.waiting, p.2 < w.buffers.size)
    (hlevel : w.scopes.inner.frame = w.scopes.functionDepth) (h : Kin (w.inside l returns) v) :
    Detached l w ((v.add ⟨.ret, .none⟩).leave w) := by
  have hbuffer : v.buffer = w.buffers.size := h.buffer
  have hquiet : ∀ m, (m, w.buffers.size) ∉ w.labels.waiting := fun m hm => Nat.lt_irrefl _ (hw _ hm)
  have hinside : ∀ m, (m, w.buffers.size) ∉ (w.inside l returns).labels.waiting := fun m hm =>
    (Writer.inside_waiting.1 hm).2 rfl
  refine ⟨?_, rfl, rfl, rfl, h.next, ?_, fun b hb => ?_, ?_, fun m hm hne => ?_⟩
  · exact ScopeChain.endFunction_of_grows (Nat.le_of_eq hlevel) h.scopes
  · have hcount := h.count
    rw [Writer.inside_count] at hcount
    show w.buffers.size ≤ (v.add _).buffers.size
    rw [Writer.add_buffers_size]
    omega
  · show (v.add _).buffers.getD b #[] = _
    have hne : b ≠ w.buffers.size := Nat.ne_of_lt hb
    rw [(Kin.add (w := v) ⟨.ret, .none⟩).others b ?_ (hbuffer ▸ hne)]
    · rw [h.others b ?_ hne, Writer.inside_getD hb]
      rw [Writer.inside_count]
      omega
    · have hcount := h.count
      rw [Writer.inside_count] at hcount
      omega
  · have hclosed : ∀ (t : LabelTable) pt, (t.close pt).waiting = t.waiting.filter (·.2 != pt.buffer) := by
      intro t pt
      simp [LabelTable.close, List.partition_eq_filter_filter, Function.comp_def, bne]
    have hkin := h.waiting
    show (v.labels.close _).waiting = _
    rw [hclosed]
    show v.labels.waiting.filter (·.2 != v.buffer) = _
    rw [hbuffer]
    refine Eq.trans hkin ?_
    show (((w.labels.openReserved l w.buffers.size).close _).waiting.filter (·.2 != w.buffers.size)) = _
    -- opening the function adds its label to those that wait, and its first draft closes it
    rw [hclosed]
    simp only [LabelTable.openReserved, List.filter_filter]
    rw [List.filter_append, List.filter_eq_self.2]
    · simp
    · intro p hp
      have := hw p hp
      simp
      omega
  · refine (LabelTable.close_get _ _ _).trans ?_
    have hnames : ¬ (w.inside l returns).Names m := by
      rintro ⟨_, he, -⟩
      cases he
    rw [if_neg fun hw => hinside m (h.own m hm (by rwa [hbuffer] at hw)), h.bound m hm (hinside m) hnames,
      Writer.inside_get (hquiet m), if_neg hne]

end Detached

end StackScript.Assembly
