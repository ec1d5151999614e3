import Mathlib.Data.List.Forall2
import Mathlib.Order.Monotone.Basic
import StackScript.Proofs.Bodies

/-!
# Writers side by side

Two writers that write the same program in two ways: with comparisons merged into branches and without,
or with the functions of a statement list in another order.  Labels and buffers then have other numbers,
and one instruction on the left may stand for two on the right.

* `Pairing`: which labels and which buffers of the two belong together.
* `Twin`: the writers have written the same, up to a pairing.
* `Kin`: what a stretch of writing leaves as it was in one writer.
* `Together`: two stretches of writing that both fail, or lead from twins to twins.
-/

namespace StackScript.Assembly

open Typing Bytecode Host Syntax Assembly.Write

/-- Which labels, buffers and branches without a target of two writers belong together.  Where a loose
label leads does not matter. -/
structure Pairing where
  labels : Label → Label → Prop
  buffers : Nat → Nat → Prop
  holes : CodePoint → CodePoint → Prop
  loose : Label → Prop

/-- Later, more belongs together. -/
structure Pairing.Grows (T T' : Pairing) : Prop where
  labels : ∀ l l', T.labels l l' → T'.labels l l'
  buffers : ∀ b b', T.buffers b b' → T'.buffers b b'
  holes : ∀ p q, T.holes p q → T'.holes p q

namespace Pairing

variable {T T' T'' : Pairing}

theorem Grows.refl (T : Pairing) : T.Grows T := ⟨fun _ _ h => h, fun _ _ h => h, fun _ _ h => h⟩

theorem Grows.trans (h : T.Grows T') (h' : T'.Grows T'') : T.Grows T'' where
  labels _ _ hl := h'.labels _ _ (h.labels _ _ hl)
  buffers _ _ hb := h'.buffers _ _ (h.buffers _ _ hb)
  holes _ _ hp := h'.holes _ _ (h.holes _ _ hp)

/-- A pair of labels more. -/
def withLabel (T : Pairing) (l l' : Label) : Pairing :=
  { T with labels := fun m m' => T.labels m m' ∨ m = l ∧ m' = l' }

/-- A pair of buffers more. -/
def withBuffer (T : Pairing) (b b' : Nat) : Pairing :=
  { T with buffers := fun c c' => T.buffers c c' ∨ c = b ∧ c' = b' }

/-- A pair of branches without a target more. -/
def withHole (T : Pairing) (p q : CodePoint) : Pairing :=
  { T with holes := fun p' q' => T.holes p' q' ∨ p' = p ∧ q' = q }

theorem grows_withLabel (T : Pairing) (l l' : Label) : T.Grows (T.withLabel l l') :=
  ⟨fun _ _ => .inl, fun _ _ h => h, fun _ _ h => h⟩

theorem grows_withBuffer (T : Pairing) (b b' : Nat) : T.Grows (T.withBuffer b b') :=
  ⟨fun _ _ h => h, fun _ _ => .inl, fun _ _ h => h⟩

theorem grows_withHole (T : Pairing) (p q : CodePoint) : T.Grows (T.withHole p q) :=
  ⟨fun _ _ h => h, fun _ _ h => h, fun _ _ => .inl⟩

end Pairing

/-! ### Places in the code -/

/-- The number of instructions on the right that an instruction stands for: with `split`, a branch on
two integers stands for the comparison and a branch. -/
def Draft.width (split : Bool) (d : Draft) : Nat :=
  match split, d.opcode with
  | true, .branchInt _ => 2
  | _, _ => 1

/-- The number of instructions on the right that the first ones of a buffer stand for. -/
def Writer.offset (split : Bool) (w : Writer) (b : Nat) : Nat → Nat
  | 0 => 0
  | i + 1 => w.offset split b i + (w.at b i).elim 1 (·.width split)

section Offset

variable {split : Bool} {w w' : Writer} {b b' i j : Nat} {d : Draft}

theorem Draft.width_pos (split : Bool) (d : Draft) : 0 < d.width split := by
  unfold Draft.width
  split <;> omega

@[simp] theorem Draft.width_false (d : Draft) : d.width false = 1 := rfl

theorem Draft.width_of_ne (h : ∀ r, d.opcode ≠ .branchInt r) : d.width split = 1 := by
  unfold Draft.width
  split
  · next r hr => exact absurd hr (h r)
  · rfl

@[simp] theorem Writer.offset_zero : w.offset split b 0 = 0 := rfl

theorem Writer.offset_succ (split : Bool) (h : w.at b i = some d) :
    w.offset split b (i + 1) = w.offset split b i + d.width split := by
  rw [Writer.offset, h]
  rfl

@[simp] theorem Writer.offset_false (w : Writer) (b i : Nat) : w.offset false b i = i := by
  induction i with
  | zero => rfl
  | succ i ih =>
    rw [Writer.offset, ih]
    cases w.at b i <;> rfl

theorem Writer.offset_congr (h : ∀ k < i, (w'.at b' k).elim 1 (·.width split) = (w.at b k).elim 1 (·.width split)) :
    w'.offset split b' i = w.offset split b i := by
  induction i with
  | zero => rfl
  | succ i ih =>
    rw [Writer.offset, Writer.offset, ih fun k hk => h k (Nat.lt_succ_of_lt hk), h i (Nat.lt_succ_self i)]

theorem Writer.offset_congr_at (h : ∀ k < i, w'.at b' k = w.at b k) :
    w'.offset split b' i = w.offset split b i := Writer.offset_congr fun k hk => by rw [h k hk]

theorem Writer.offset_lt_succ (w : Writer) (b i : Nat) :
    w.offset split b i < w.offset split b (i + 1) := by
  rw [Writer.offset]
  cases w.at b i with
  | none => exact Nat.lt_succ_self _
  | some d => exact Nat.lt_add_of_pos_right (d.width_pos split)

theorem Writer.offset_strictMono (split : Bool) (w : Writer) (b : Nat) : StrictMono (w.offset split b) :=
  strictMono_nat_of_lt_succ (w.offset_lt_succ b)

theorem Writer.offset_lt (h : i < j) : w.offset split b i < w.offset split b j :=
  w.offset_strictMono split b h

theorem Writer.offset_le (h : i ≤ j) : w.offset split b i ≤ w.offset split b j :=
  (w.offset_strictMono split b).monotone h

end Offset

/-! ### The same on both sides -/

/-- Operands that name the same. -/
inductive OperandTwin (T : Pairing) : Operand → Operand → Prop
  | label {l l' : Label} (h : T.labels l l') : OperandTwin T (.label l) (.label l')
  | same {x : Operand} (h : isClosed x = true) : OperandTwin T x x

/-- What an instruction on the left stands for, in a buffer on the right. -/
inductive Mirrored (split : Bool) (T : Pairing) (code : Nat → Option Draft) (j : Nat) : Draft → Prop
  | same {d : Draft} {x : Operand} (hw : d.width split = 1) (hat : code j = some ⟨d.opcode, x⟩)
    (hx : OperandTwin T d.operand x) : Mirrored split T code j d
  | split {r : Relation} {x x' y : Operand} (hs : split = true) (hat : code j = some ⟨.compare .int r, y⟩)
    (hat' : code (j + 1) = some ⟨.branchFalse, x'⟩) (hx : OperandTwin T x x') :
    Mirrored split T code j ⟨.branchInt (negation r), x⟩

/-- Buffers with the same instructions. -/
structure CodeTwin (split : Bool) (T : Pairing) (w₁ w₂ : Writer) (b b' : Nat) : Prop where
  size : w₂.sizeOf b' = w₁.offset split b (w₁.sizeOf b)
  at_ : ∀ i d, w₁.at b i = some d → Mirrored split T (w₂.at b') (w₁.offset split b i) d

/-- The same place in the code. -/
structure PointTwin (split : Bool) (T : Pairing) (w : Writer) (p q : CodePoint) : Prop where
  buffer : T.buffers p.buffer q.buffer
  lt : p.position < w.sizeOf p.buffer
  position : q.position = w.offset split p.buffer p.position

/-- The same branch, the target of which is not known yet. -/
structure HoleTwin (split : Bool) (T : Pairing) (w : Writer) (p q : CodePoint) : Prop where
  buffer : T.buffers p.buffer q.buffer
  jump : ∃ d, w.at p.buffer p.position = some d ∧ IsJump d.opcode
  position : q.position + 1 = w.offset split p.buffer (p.position + 1)

/-- The same place of a value. -/
inductive LocationTwin (T : Pairing) : Location → Location → Prop
  | slot (i : Int) : LocationTwin T (.slot i) (.slot i)
  | entry {l l' : Label} (h : T.labels l l') : LocationTwin T (.entry l) (.entry l')
  | external : LocationTwin T .external .external

/-- Names that stand for the same. -/
structure EntityTwin (T : Pairing) (e e' : Entity) : Prop where
  same : e' = { e with location := e'.location }
  location : LocationTwin T e.location e'.location

/-- Blocks that declare the same. -/
structure ScopeTwin (T : Pairing) (s s' : Scope) : Prop where
  frame : s'.frame = s.frame
  found : ∀ name, Option.Rel (EntityTwin T) (s.find? name) (s'.find? name)

/-- Chains of blocks that declare the same. -/
structure ChainTwin (T : Pairing) (c c' : ScopeChain) : Prop where
  inner : ScopeTwin T c.inner c'.inner
  outer : List.Forall₂ (ScopeTwin T) c.outer c'.outer
  frame : c'.frame = c.frame
  frames : c'.frames = c.frames

/-- The writers have written the same. -/
structure Twin (split : Bool) (T : Pairing) (w₁ w₂ : Writer) : Prop where
  returns : w₂.returns = w₁.returns
  scopes : ChainTwin T w₁.scopes w₂.scopes
  level : w₁.scopes.inner.frame = w₁.scopes.functionDepth
  breaks : List.Forall₂ (List.Forall₂ T.holes) w₁.breaks w₂.breaks
  own : (∀ p ∈ w₁.breaks.flatten, p.buffer = w₁.buffer) ∧ ∀ q ∈ w₂.breaks.flatten, q.buffer = w₂.buffer
  buffer : T.buffers w₁.buffer w₂.buffer
  label_lt : ∀ l l', T.labels l l' → l.id < w₁.labels.next ∧ l'.id < w₂.labels.next
  label_iff : ∀ l l' m m', T.labels l l' → T.labels m m' → (l = m ↔ l' = m')
  buffer_lt : ∀ b b', T.buffers b b' → b < w₁.buffers.size ∧ b' < w₂.buffers.size
  buffer_iff : ∀ b b' c c', T.buffers b b' → T.buffers c c' → (b = c ↔ b' = c')
  unbound : (∀ l : Label, w₁.labels.next ≤ l.id → w₁.labels.get? l = none) ∧
    ∀ l : Label, w₂.labels.next ≤ l.id → w₂.labels.get? l = none
  waiting : List.Forall₂ (fun p q => T.labels p.1 q.1 ∧ T.buffers p.2 q.2) w₁.labels.waiting w₂.labels.waiting
  bound : ∀ l l', T.labels l l' → ¬ T.loose l →
    Option.Rel (PointTwin split T w₁) (w₁.labels.get? l) (w₂.labels.get? l')
  code : ∀ b b', T.buffers b b' → CodeTwin split T w₁ w₂ b b'
  holes : ∀ p q, T.holes p q → HoleTwin split T w₁ p q

/-! ### What belongs together stays together -/

section Mono

variable {split : Bool} {T T' : Pairing} {w₁ w₂ : Writer}

theorem OperandTwin.mono {x x' : Operand} (hT : T.Grows T') (h : OperandTwin T x x') : OperandTwin T' x x' := by
  cases h with
  | label h => exact .label (hT.labels _ _ h)
  | same h => exact .same h

theorem Mirrored.mono {code code' : Nat → Option Draft} {j : Nat} {d : Draft} (hT : T.Grows T')
    (hc : ∀ k, j ≤ k → k < j + d.width split → code' k = code k) (h : Mirrored split T code j d) :
    Mirrored split T' code' j d := by
  cases h with
  | same hw hat hx => exact .same hw ((hc j (Nat.le_refl j) (by omega)).trans hat) (hx.mono hT)
  | split hs hat hat' hx =>
    subst hs
    have hwidth : ∀ r x, Draft.width true ⟨.branchInt r, x⟩ = 2 := fun _ _ => rfl
    rw [hwidth] at hc
    exact .split rfl ((hc j (Nat.le_refl j) (by omega)).trans hat)
      ((hc (j + 1) (Nat.le_succ j) (by omega)).trans hat') (hx.mono hT)

theorem LocationTwin.mono {x x' : Location} (hT : T.Grows T') (h : LocationTwin T x x') :
    LocationTwin T' x x' := by
  cases h with
  | slot i => exact .slot i
  | entry h => exact .entry (hT.labels _ _ h)
  | external => exact .external

theorem EntityTwin.mono {e e' : Entity} (hT : T.Grows T') (h : EntityTwin T e e') : EntityTwin T' e e' :=
  ⟨h.same, h.location.mono hT⟩

theorem optionRel_mono {α β : Type} {R S : α → β → Prop} {x : Option α} {y : Option β}
    (hxy : Option.Rel R x y) (h : ∀ a b, R a b → S a b) : Option.Rel S x y := by
  cases hxy with
  | some hab => exact .some (h _ _ hab)
  | none => exact .none

theorem ScopeTwin.mono {s s' : Scope} (hT : T.Grows T') (h : ScopeTwin T s s') : ScopeTwin T' s s' :=
  ⟨h.frame, fun name => optionRel_mono (h.found name) fun _ _ => EntityTwin.mono hT⟩

theorem ChainTwin.mono {c c' : ScopeChain} (hT : T.Grows T') (h : ChainTwin T c c') : ChainTwin T' c c' :=
  ⟨h.inner.mono hT, h.outer.imp fun _ _ => ScopeTwin.mono hT, h.frame, h.frames⟩

theorem PointTwin.mono {p q : CodePoint} (hT : T.Grows T') (h : PointTwin split T w₁ p q) :
    PointTwin split T' w₁ p q := ⟨hT.buffers _ _ h.buffer, h.lt, h.position⟩

theorem HoleTwin.mono {p q : CodePoint} (hT : T.Grows T') (h : HoleTwin split T w₁ p q) :
    HoleTwin split T' w₁ p q := ⟨hT.buffers _ _ h.buffer, h.jump, h.position⟩

theorem CodeTwin.mono {b b' : Nat} (hT : T.Grows T') (h : CodeTwin split T w₁ w₂ b b') :
    CodeTwin split T' w₁ w₂ b b' :=
  ⟨h.size, fun i d hd => (h.at_ i d hd).mono hT fun _ _ _ => rfl⟩

/-! What is written is all that the places depend on. -/

variable {v₁ v₂ : Writer}

theorem Writer.offset_of_buffers (h : v₁.buffers = w₁.buffers) (b i : Nat) :
    v₁.offset split b i = w₁.offset split b i :=
  Writer.offset_congr_at fun k _ => by rw [Writer.at, Writer.at, h]

theorem PointTwin.congr {p q : CodePoint} (h : PointTwin split T w₁ p q) (hv : v₁.buffers = w₁.buffers) :
    PointTwin split T v₁ p q := by
  refine ⟨h.buffer, ?_, ?_⟩
  · rw [Writer.sizeOf, hv]
    exact h.lt
  · rw [Writer.offset_of_buffers hv]
    exact h.position

theorem HoleTwin.congr {p q : CodePoint} (h : HoleTwin split T w₁ p q) (hv : v₁.buffers = w₁.buffers) :
    HoleTwin split T v₁ p q := by
  refine ⟨h.buffer, ?_, ?_⟩
  · rw [Writer.at, hv]
    exact h.jump
  · rw [Writer.offset_of_buffers hv]
    exact h.position

theorem CodeTwin.congr {b b' : Nat} (h : CodeTwin split T w₁ w₂ b b') (hv₁ : v₁.buffers = w₁.buffers)
    (hv₂ : v₂.buffers = w₂.buffers) : CodeTwin split T v₁ v₂ b b' := by
  refine ⟨?_, fun i d hd => ?_⟩
  · rw [Writer.sizeOf, Writer.sizeOf, Writer.offset_of_buffers hv₁, hv₁, hv₂]
    exact h.size
  · rw [Writer.at, hv₁] at hd
    rw [Writer.offset_of_buffers hv₁]
    exact (h.at_ i d hd).mono (.refl T) fun k _ _ => by rw [Writer.at, Writer.at, hv₂]

end Mono

/-! ### What writing leaves as it was -/

/-- The label is the entry of a function of the innermost block. -/
def Writer.Names (w : Writer) (l : Label) : Prop := ∃ e ∈ w.scopes.inner.entities, e.location = .entry l

/-- What a stretch of writing leaves as it was: the other buffers, the labels that wait there, and where
labels lead that neither wait in the buffer in use nor are the entry of a function of this block. -/
structure Kin (w v : Writer) : Prop where
  buffer : v.buffer = w.buffer
  scopes : w.scopes.Grows v.scopes
  next : w.labels.next ≤ v.labels.next
  count : w.buffers.size ≤ v.buffers.size
  others : ∀ b < w.buffers.size, b ≠ w.buffer → v.buffers.getD b #[] = w.buffers.getD b #[]
  waiting : v.labels.waiting.filter (·.2 != w.buffer) = w.labels.waiting.filter (·.2 != w.buffer)
  own : ∀ l : Label, l.id < w.labels.next → (l, w.buffer) ∈ v.labels.waiting → (l, w.buffer) ∈ w.labels.waiting
  bound : ∀ l : Label, l.id < w.labels.next → (l, w.buffer) ∉ w.labels.waiting → ¬ w.Names l →
    v.labels.get? l = w.labels.get? l
  names : ∀ l, v.Names l → w.Names l ∨ w.labels.next ≤ l.id

namespace Kin

variable {w v u : Writer}

theorem refl (w : Writer) : Kin w w where
  buffer := rfl
  scopes := .refl _
  next := Nat.le_refl _
  count := Nat.le_refl _
  others _ _ _ := rfl
  waiting := rfl
  own _ _ h := h
  bound _ _ _ _ := rfl
  names _ h := .inl h

theorem trans (h : Kin w v) (h' : Kin v u) : Kin w u where
  buffer := h'.buffer.trans h.buffer
  scopes := h.scopes.trans h'.scopes
  next := Nat.le_trans h.next h'.next
  count := Nat.le_trans h.count h'.count
  others b hb hne :=
    (h'.others b (Nat.lt_of_lt_of_le hb h.count) (h.buffer ▸ hne)).trans (h.others b hb hne)
  waiting := by
    have := h'.waiting
    rw [h.buffer] at this
    exact this.trans h.waiting
  own l hl hm := by
    have := h'.own l (Nat.lt_of_lt_of_le hl h.next)
    rw [h.buffer] at this
    exact h.own l hl (this hm)
  bound l hl hm hn := by
    have := h'.bound l (Nat.lt_of_lt_of_le hl h.next)
    rw [h.buffer] at this
    refine (this (fun hv => hm (h.own l hl hv)) fun hv => ?_).trans (h.bound l hl hm hn)
    rcases h.names l hv with hw | hle
    · exact hn hw
    · omega
  names l hu := by
    rcases h'.names l hu with hv | hle
    · exact h.names l hv
    · exact .inr (Nat.le_trans h.next hle)

/-- Notes about the expression written last do not matter. -/
theorem of_same (hb : v.buffer = w.buffer) (hs : v.scopes = w.scopes) (hl : v.labels = w.labels)
    (hc : v.buffers = w.buffers) : Kin w v := by
  refine ⟨hb, hs ▸ .refl _, Nat.le_of_eq (by rw [hl]), Nat.le_of_eq (by rw [hc]), fun _ _ _ => by rw [hc],
    by rw [hl], fun _ _ => by rw [hl]; exact id, fun _ _ _ _ => by rw [hl], fun l hn => .inl ?_⟩
  unfold Writer.Names at hn
  rwa [hs] at hn

theorem add (d : Draft) : Kin w (w.add d) where
  buffer := rfl
  scopes := .refl _
  next := Nat.le_refl _
  count := Nat.le_of_eq (w.add_buffers_size d).symm
  others b hb hne := by
    show (w.buffers.modify w.buffer _).getD b #[] = _
    simp only [Array.getD_eq_getD_getElem?, Array.getElem?_modify, if_neg (Ne.symm hne)]
  waiting := by
    show (w.labels.close _).waiting.filter _ = _
    simp [LabelTable.close, List.partition_eq_filter_filter, Function.comp_def, bne]
  own l _ hm := ((LabelTable.close_waiting _ _ _).1 hm).1
  bound l _ hm _ := (LabelTable.close_get _ _ _).trans (if_neg hm)
  names _ h := .inl h

theorem setAt {pt : CodePoint} (hpt : pt.buffer = w.buffer) (f : Draft → Draft) : Kin w (w.setAt pt f) where
  buffer := rfl
  scopes := .refl _
  next := Nat.le_refl _
  count := Nat.le_of_eq (w.setAt_buffers_size pt f).symm
  others b hb hne := by
    show (w.buffers.modify pt.buffer _).getD b #[] = _
    simp only [Array.getD_eq_getD_getElem?, Array.getElem?_modify, hpt, if_neg (Ne.symm hne)]
  waiting := rfl
  own _ _ h := h
  bound _ _ _ _ := rfl
  names _ h := .inl h

theorem openedLabel : Kin w w.openedLabel where
  buffer := rfl
  scopes := .refl _
  next := Nat.le_succ _
  count := Nat.le_refl _
  others _ _ _ := rfl
  waiting := by simp [Writer.openedLabel, LabelTable.fresh, LabelTable.openReserved, LabelTable.reserve]
  own l hl hm := by
    rcases (LabelTable.openReserved_waiting _ _ _ _).1 hm with hm | hm
    · exact hm
    · obtain rfl := (Prod.mk.inj hm).1
      exact absurd hl (Nat.lt_irrefl _)
  bound _ _ _ _ := rfl
  names _ h := .inl h

/-- Names are declared. -/
theorem declared {c : ScopeChain} (hg : w.scopes.Grows c)
    (hn : ∀ l, ({ w with scopes := c } : Writer).Names l → w.Names l) : Kin w { w with scopes := c } where
  buffer := rfl
  scopes := hg
  next := Nat.le_refl _
  count := Nat.le_refl _
  others _ _ _ := rfl
  waiting := rfl
  own _ _ h := h
  bound _ _ _ _ := rfl
  names l h := .inl (hn l h)

/-- A function is declared, under a new label. -/
theorem entered {name : String} {s : Signature} {e : Entity} {c : ScopeChain}
    (h : w.scopes.declareFunction name ⟨w.labels.next⟩ s = (.ok e, c)) : Kin w (w.entered c) := by
  obtain ⟨hnew, he, rfl⟩ := ScopeChain.declareFunction_eq_ok h
  refine ⟨rfl, ScopeChain.grows_add ?_, Nat.le_succ _, Nat.le_refl _, fun _ _ _ => rfl, rfl,
    fun _ _ h => h, fun _ _ _ _ => rfl, fun l ⟨f, hf, hl⟩ => ?_⟩
  · rw [he]
    exact hnew
  · rcases List.mem_cons.1 (show f ∈ e :: w.scopes.inner.entities from hf) with rfl | hf
    · rw [he] at hl
      obtain rfl := Location.entry.inj hl
      exact .inr (Nat.le_refl _)
    · exact .inl ⟨f, hf, hl⟩

/-- A block is closed again. -/
theorem block (h : Kin { w with scopes := w.scopes.beginScope } v) :
    Kin w { v with scopes := v.scopes.endScope } where
  buffer := h.buffer
  scopes := ScopeChain.grows_endScope h.scopes
  next := h.next
  count := h.count
  others := h.others
  waiting := h.waiting
  own := h.own
  bound l hl hm _ := h.bound l hl hm fun ⟨_, he, _⟩ => absurd he List.not_mem_nil
  names l hn := by
    unfold Writer.Names at hn
    rw [ScopeChain.endScope_of_grows h.scopes] at hn
    exact .inl hn

end Kin

/-! ### Two stretches of writing -/

/-- Two stretches of writing lead from twins to twins. -/
structure Passes (split : Bool) (T T' : Pairing) (w₁ w₂ v₁ v₂ : Writer) : Prop where
  grows : T.Grows T'
  loose : T'.loose = T.loose
  twin : Twin split T' v₁ v₂
  left : Kin w₁ v₁
  right : Kin w₂ v₂
  labels : ∀ l l', T'.labels l l' → T.labels l l' ∨ w₁.labels.next ≤ l.id ∧ w₂.labels.next ≤ l'.id
  buffers : ∀ b b', T'.buffers b b' → T.buffers b b' ∨ w₁.buffers.size ≤ b ∧ w₂.buffers.size ≤ b'
  covered : (∀ b, w₁.buffers.size ≤ b → b < v₁.buffers.size → ∃ b', T'.buffers b b') ∧
    ∀ b', w₂.buffers.size ≤ b' → b' < v₂.buffers.size → ∃ b, T'.buffers b b'

namespace Passes

variable {split : Bool} {T T' T'' : Pairing} {w₁ w₂ v₁ v₂ u₁ u₂ : Writer}

theorem refl (h : Twin split T w₁ w₂) : Passes split T T w₁ w₂ w₁ w₂ :=
  ⟨.refl T, rfl, h, .refl _, .refl _, fun _ _ => .inl, fun _ _ => .inl,
    fun _ hle hlt => absurd hlt (Nat.not_lt.2 hle), fun _ hle hlt => absurd hlt (Nat.not_lt.2 hle)⟩

theorem trans (h : Passes split T T' w₁ w₂ v₁ v₂) (h' : Passes split T' T'' v₁ v₂ u₁ u₂) :
    Passes split T T'' w₁ w₂ u₁ u₂ where
  grows := h.grows.trans h'.grows
  loose := h'.loose.trans h.loose
  twin := h'.twin
  left := h.left.trans h'.left
  right := h.right.trans h'.right
  labels l l' hl := by
    rcases h'.labels l l' hl with hl | ⟨hl, hl'⟩
    · exact h.labels l l' hl
    · exact .inr ⟨Nat.le_trans h.left.next hl, Nat.le_trans h.right.next hl'⟩
  buffers b b' hb := by
    rcases h'.buffers b b' hb with hb | ⟨hb, hb'⟩
    · exact h.buffers b b' hb
    · exact .inr ⟨Nat.le_trans h.left.count hb, Nat.le_trans h.right.count hb'⟩
  covered := by
    refine ⟨fun b hle hlt => ?_, fun b hle hlt => ?_⟩
    · by_cases hb : b < v₁.buffers.size
      · obtain ⟨b', hb'⟩ := h.covered.1 b hle hb
        exact ⟨b', h'.grows.buffers _ _ hb'⟩
      · exact h'.covered.1 b (Nat.le_of_not_lt hb) hlt
    · by_cases hb : b < v₂.buffers.size
      · obtain ⟨b', hb'⟩ := h.covered.2 b hle hb
        exact ⟨b', h'.grows.buffers _ _ hb'⟩
      · exact h'.covered.2 b (Nat.le_of_not_lt hb) hlt

/-- Nothing new belongs together. -/
theorem still (h : Twin split T v₁ v₂) (h₁ : Kin w₁ v₁) (h₂ : Kin w₂ v₂)
    (hc₁ : v₁.buffers.size = w₁.buffers.size) (hc₂ : v₂.buffers.size = w₂.buffers.size) :
    Passes split T T w₁ w₂ v₁ v₂ :=
  ⟨.refl T, rfl, h, h₁, h₂, fun _ _ => .inl, fun _ _ => .inl,
    fun _ hle hlt => absurd hlt (Nat.not_lt.2 (hc₁ ▸ hle)),
    fun _ hle hlt => absurd hlt (Nat.not_lt.2 (hc₂ ▸ hle))⟩

/-- A branch without a target is new. -/
theorem opening {p q : CodePoint} (h : Twin split (T.withHole p q) v₁ v₂) (h₁ : Kin w₁ v₁) (h₂ : Kin w₂ v₂)
    (hc₁ : v₁.buffers.size = w₁.buffers.size) (hc₂ : v₂.buffers.size = w₂.buffers.size) :
    Passes split T (T.withHole p q) w₁ w₂ v₁ v₂ :=
  ⟨T.grows_withHole p q, rfl, h, h₁, h₂, fun _ _ => .inl, fun _ _ => .inl,
    fun _ hle hlt => absurd hlt (Nat.not_lt.2 (hc₁ ▸ hle)),
    fun _ hle hlt => absurd hlt (Nat.not_lt.2 (hc₂ ▸ hle))⟩

end Passes

/-- What two stretches of writing come to: both fail, or both answer, and lead to twins. -/
inductive Agree {α β : Type} (split : Bool) (T : Pairing) (w₁ w₂ : Writer)
    (R : Pairing → Writer → Writer → α → β → Prop) :
    Except CompileError (α × Writer) → Except CompileError (β × Writer) → Prop
  | ok {T' : Pairing} {v₁ v₂ : Writer} {a : α} {b : β} (hp : Passes split T T' w₁ w₂ v₁ v₂)
      (h : R T' v₁ v₂ a b) : Agree split T w₁ w₂ R (.ok (a, v₁)) (.ok (b, v₂))
  | error (e e' : CompileError) : Agree split T w₁ w₂ R (.error e) (.error e')

namespace Agree

variable {α β : Type} {split : Bool} {T : Pairing} {w₁ w₂ v₁ v₂ : Writer}
  {R : Pairing → Writer → Writer → α → β → Prop} {r₁ : Except CompileError (α × Writer)}
  {r₂ : Except CompileError (β × Writer)} {a : α} {b : β} {e : CompileError}

theorem of_left (h : Agree split T w₁ w₂ R r₁ r₂) (hr : r₁ = .ok (a, v₁)) :
    ∃ T' b v₂, r₂ = .ok (b, v₂) ∧ Passes split T T' w₁ w₂ v₁ v₂ ∧ R T' v₁ v₂ a b := by
  subst hr
  cases h with
  | ok hp hR => exact ⟨_, _, _, rfl, hp, hR⟩

theorem of_right (h : Agree split T w₁ w₂ R r₁ r₂) (hr : r₂ = .ok (b, v₂)) :
    ∃ T' a v₁, r₁ = .ok (a, v₁) ∧ Passes split T T' w₁ w₂ v₁ v₂ ∧ R T' v₁ v₂ a b := by
  subst hr
  cases h with
  | ok hp hR => exact ⟨_, _, _, rfl, hp, hR⟩

theorem fails_right (h : Agree split T w₁ w₂ R r₁ r₂) (hr : r₁ = .error e) : ∃ e', r₂ = .error e' := by
  subst hr
  cases h with
  | error e e' => exact ⟨e', rfl⟩

theorem fails_left (h : Agree split T w₁ w₂ R r₁ r₂) (hr : r₂ = .error e) : ∃ e', r₁ = .error e' := by
  subst hr
  cases h with
  | error e' e => exact ⟨e', rfl⟩

end Agree

/-- Two stretches of writing from these twins. -/
def Together {α β : Type} (split : Bool) (T : Pairing) (w₁ w₂ : Writer)
    (R : Pairing → Writer → Writer → α → β → Prop) (x : Write α) (y : Write β) : Prop :=
  Agree split T w₁ w₂ R (x w₁) (y w₂)

/-- The answers are the same. -/
def Equal {α : Type} (_ : Pairing) (_ _ : Writer) (a b : α) : Prop := b = a

/-- Nothing is asked of the answers. -/
def Any {α β : Type} (_ : Pairing) (_ _ : Writer) (_ : α) (_ : β) : Prop := True

namespace Together

variable {α β γ δ : Type} {split : Bool} {T : Pairing} {w₁ w₂ v₁ v₂ : Writer}
  {R : Pairing → Writer → Writer → α → β → Prop} {S : Pairing → Writer → Writer → γ → δ → Prop}

theorem ok {T' : Pairing} {x : Write α} {y : Write β} {a : α} {b : β} (hx : x w₁ = .ok (a, v₁))
    (hy : y w₂ = .ok (b, v₂)) (hp : Passes split T T' w₁ w₂ v₁ v₂) (hR : R T' v₁ v₂ a b) :
    Together split T w₁ w₂ R x y := by
  unfold Together
  rw [hx, hy]
  exact .ok hp hR

theorem pure {a : α} {b : β} (h : Twin split T w₁ w₂) (hR : R T w₁ w₂ a b) :
    Together split T w₁ w₂ R (pure a) (pure b) := .ok rfl rfl (.refl h) hR

theorem throw {e e' : CompileError} :
    Together split T w₁ w₂ R (throw e : Write α) (MonadExcept.throw e' : Write β) := .error e e'

theorem bind {x : Write α} {y : Write β} {f : α → Write γ} {g : β → Write δ}
    (hxy : Together split T w₁ w₂ R x y)
    (hfg : ∀ T' v₁ v₂ a b, Passes split T T' w₁ w₂ v₁ v₂ → R T' v₁ v₂ a b →
      Together split T' v₁ v₂ S (f a) (g b)) : Together split T w₁ w₂ S (x >>= f) (y >>= g) := by
  unfold Together at hxy
  show Agree split T w₁ w₂ S (x w₁ >>= fun p => f p.1 p.2) (y w₂ >>= fun p => g p.1 p.2)
  generalize x w₁ = r₁, y w₂ = r₂ at hxy
  cases hxy with
  | error e e' => exact .error e e'
  | @ok T' v₁ v₂ a b hp hR =>
    have hrest := hfg T' v₁ v₂ a b hp hR
    unfold Together at hrest
    show Agree split T w₁ w₂ S (f a v₁) (g b v₂)
    generalize f a v₁ = r₁, g b v₂ = r₂ at hrest
    cases hrest with
    | error e e' => exact .error e e'
    | ok hp' hS => exact .ok (hp.trans hp') hS

theorem mono {R' : Pairing → Writer → Writer → α → β → Prop} {x : Write α} {y : Write β}
    (h : Together split T w₁ w₂ R x y)
    (hR : ∀ T' v₁ v₂ a b, Passes split T T' w₁ w₂ v₁ v₂ → R T' v₁ v₂ a b → R' T' v₁ v₂ a b) :
    Together split T w₁ w₂ R' x y := by
  unfold Together at h ⊢
  generalize x w₁ = r₁, y w₂ = r₂ at h
  cases h with
  | error e e' => exact .error e e'
  | ok hp h => exact .ok hp (hR _ _ _ _ _ hp h)

theorem discard {x : Write α} {y : Write β} (h : Together split T w₁ w₂ R x y) :
    Together split T w₁ w₂ Equal (Functor.discard x) (Functor.discard y) := by
  show Together split T w₁ w₂ Equal ((fun _ => ()) <$> x) ((fun _ => ()) <$> y)
  rw [map_eq_pure_bind, map_eq_pure_bind]
  exact h.bind fun _ _ _ _ _ hp _ => .pure hp.twin rfl

/-- What both take from their writers. -/
theorem get {f : Writer → Write γ} {g : Writer → Write δ}
    (h : Together split T w₁ w₂ S (f w₁) (g w₂)) :
    Together split T w₁ w₂ S (MonadState.get >>= f) (MonadState.get >>= g) := h

end Together

end StackScript.Assembly
