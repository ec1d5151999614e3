import StackScript.Proofs.CodeShape
import StackScript.Proofs.WriteSteps

/-!
# What writing keeps

* `Points` and `Promise`: what a label stands for.  The label of a branch points to one instruction
  from when it is opened.  The label of a function can be opened more than once, but only where a
  function body starts that takes the number of arguments promised.
* `Wf`: what holds of a writer at any time, but for the first moments of a function body.
* `Frame`: what a stretch of writing keeps of what was there before.  Instructions stay, but that a
  branch gets its target and that room is made for more variables.
-/

namespace StackScript.Assembly

open Typing Bytecode Host Syntax

/-- The operations whose operand is filled in later. -/
def IsJump (op : Opcode) : Prop :=
  op = .jump ∨ op = .branchFalse ∨ op = .branchTrue ∨ ∃ r, op = .branchInt r

/-- How an instruction may change after it was written. -/
inductive Refines : Draft → Draft → Prop
  | same {d} : Refines d d
  | target {op l} (branch : IsJump op) : Refines ⟨op, .none⟩ ⟨op, .label l⟩
  | room {m n : Nat} (h : m ≤ n) : Refines ⟨.allocStack, .int m⟩ ⟨.allocStack, .int n⟩

theorem Refines.trans {d d' d'' : Draft} (h : Refines d d') (h' : Refines d' d'') : Refines d d'' := by
  cases h with
  | same => exact h'
  | target hb =>
    cases h' with
    | same => exact .target hb
  | room hm =>
    generalize hd : (⟨.allocStack, .int _⟩ : Draft) = x at h'
    cases h' with
    | same => exact hd ▸ .room hm
    | target hb => simp at hd
    | room hn =>
      simp only [Draft.mk.injEq, Operand.int.injEq, Int.natCast_inj, true_and] at hd
      exact .room (Nat.le_trans hm (hd ▸ hn))

/-- An instruction whose operand is a label does not change any more. -/
theorem Refines.of_label {d d' : Draft} {l : Label} (h : Refines d d') (hd : d.operand = .label l) :
    d' = d := by
  cases h with
  | same => rfl
  | target => simp at hd
  | room => simp at hd

namespace Writer

/-! ### Labels -/

/-- A label stands for an instruction, which is written already or is the next one in its buffer. -/
structure Points (w : Writer) (l : Label) (pt : CodePoint) : Prop where
  old : l.id < w.labels.next
  place : (w.labels.get? l = some pt ∧ ∀ b, (l, b) ∉ w.labels.waiting) ∨
    (w.labels.get? l = none ∧ (l, pt.buffer) ∈ w.labels.waiting ∧
      (∀ b, (l, b) ∈ w.labels.waiting → b = pt.buffer) ∧ pt.position = w.sizeOf pt.buffer)

/-- A label stands for a function with `n` parameters: it is bound to the first instruction of such
a function, if it is bound, and what declares it says so. -/
structure Promise (arity : Nat → Nat) (w : Writer) (l : Label) (n : Nat) : Prop where
  old : l.id < w.labels.next
  closed : ∀ b, (l, b) ∉ w.labels.waiting
  bound : ∀ pt, w.labels.get? l = some pt →
    pt.position = 0 ∧ pt.buffer ≠ 0 ∧ pt.buffer < w.buffers.size ∧ arity pt.buffer = n
  declared : ∀ e ∈ w.scopes.entities, e.location = .entry l →
    ∃ s, e.signature = some s ∧ s.params.length = n

theorem Points.add {w : Writer} {l : Label} {pt : CodePoint} (h : w.Points l pt) (d : Draft)
    (hw : w.buffer < w.buffers.size) : (w.add d).Points l pt := by
  refine ⟨h.old, ?_⟩
  have hget := w.labels.close_get ⟨w.buffer, w.size⟩ l
  have hwait := w.labels.close_waiting ⟨w.buffer, w.size⟩
  rcases h.place with ⟨hb, hn⟩ | ⟨hb, hm, hu, hp⟩
  · left
    refine ⟨?_, fun b hb => hn b ((hwait _).1 hb).1⟩
    exact hget.trans (by rw [if_neg (hn _), hb])
  · by_cases hc : pt.buffer = w.buffer
    · left
      refine ⟨?_, fun b hb => ?_⟩
      · refine hget.trans ?_
        rw [if_pos (hc ▸ hm), Option.some_inj, CodePoint.mk.injEq]
        exact ⟨hc.symm, by rw [hp, hc]⟩
      · have h' := (hwait _).1 hb
        exact h'.2 ((hu _ h'.1).trans hc)
    · right
      refine ⟨hget.trans ?_, (hwait _).2 ⟨hm, hc⟩, fun b hb => hu b ((hwait _).1 hb).1, ?_⟩
      · rw [if_neg (fun h' => hc (hu _ h').symm), hb]
      · rw [add_sizeOf _ _ _ hw, if_neg hc, hp]

theorem Promise.add {arity : Nat → Nat} {w : Writer} {l : Label} {n : Nat}
    (h : w.Promise arity l n) (d : Draft) : (w.add d).Promise arity l n where
  old := h.old
  closed b hb := h.closed b ((w.labels.close_waiting _ _).1 hb).1
  bound pt hpt := by
    have hget := w.labels.close_get ⟨w.buffer, w.size⟩ l
    rw [if_neg (h.closed _)] at hget
    rw [add_buffers_size]
    exact h.bound pt (hget.symm.trans hpt)
  declared := h.declared

theorem Points.openedLabel {w : Writer} {l : Label} {pt : CodePoint} (h : w.Points l pt) :
    w.openedLabel.Points l pt := by
  have hne : ∀ b, (l, b) ≠ ((⟨w.labels.next⟩ : Label), w.buffer) := by
    rintro b hb
    have := h.old
    rw [(Prod.mk.inj hb).1] at this
    exact absurd this (Nat.lt_irrefl _)
  have hwait : ∀ b, (l, b) ∈ w.openedLabel.labels.waiting ↔ (l, b) ∈ w.labels.waiting := fun b =>
    (LabelTable.openReserved_waiting _ _ _ _).trans (or_iff_left (hne b))
  refine ⟨Nat.lt_succ_of_lt h.old, ?_⟩
  rcases h.place with ⟨hb, hn⟩ | ⟨hb, hm, hu, hp⟩
  · exact .inl ⟨hb, fun b hb => hn b ((hwait b).1 hb)⟩
  · exact .inr ⟨hb, (hwait _).2 hm, fun b hb => hu b ((hwait b).1 hb), hp⟩

theorem Promise.openedLabel {arity : Nat → Nat} {w : Writer} {l : Label} {n : Nat}
    (h : w.Promise arity l n) : w.openedLabel.Promise arity l n where
  old := Nat.lt_succ_of_lt h.old
  closed b hb := by
    rcases (LabelTable.openReserved_waiting _ _ _ _).1 hb with hb | hb
    · exact h.closed b hb
    · have := h.old
      rw [(Prod.mk.inj hb).1] at this
      exact absurd this (Nat.lt_irrefl _)
  bound := h.bound
  declared := h.declared

/-- A label stands for the same instruction while buffers keep their sizes. -/
theorem Points.congr {w w' : Writer} {l : Label} {pt : CodePoint} (h : w.Points l pt)
    (hl : w'.labels = w.labels) (hs : w'.sizeOf pt.buffer = w.sizeOf pt.buffer) :
    w'.Points l pt := by
  obtain ⟨ho, hp⟩ := h
  exact ⟨hl ▸ ho, by rw [hl, hs]; exact hp⟩

theorem Promise.congr {arity : Nat → Nat} {w w' : Writer} {l : Label} {n : Nat}
    (h : w.Promise arity l n) (hl : w'.labels = w.labels)
    (hb : w.buffers.size ≤ w'.buffers.size)
    (he : ∀ e ∈ w'.scopes.entities, e.location = .entry l → e ∈ w.scopes.entities) :
    w'.Promise arity l n where
  old := hl ▸ h.old
  closed b := hl ▸ h.closed b
  bound pt hpt := by
    obtain ⟨h0, h1, h2, h3⟩ := h.bound pt (hl ▸ hpt)
    exact ⟨h0, h1, Nat.lt_of_lt_of_le h2 hb, h3⟩
  declared e hm hloc := h.declared e (he e hm hloc) hloc

end Writer

/-! ### Well-formed writers -/

/-- What holds of a writer; `arity` is the number of parameters of each buffer's function. -/
structure Wf (arity : Nat → Nat) (w : Writer) : Prop where
  valid : w.buffer < w.buffers.size
  bound : ∀ l pt, w.labels.get? l = some pt → l.id < w.labels.next
  waiting : ∀ l b, (l, b) ∈ w.labels.waiting → l.id < w.labels.next
  entries : ∀ e ∈ w.scopes.entities, ∀ l, e.location = .entry l →
    ∃ s, e.signature = some s ∧ w.Promise arity l s.params.length
  sound : w.scopes.Sound (arity w.buffer)
  main : w.scopes.functionDepth = 0 → w.buffer = 0
  room : ∃ n : Nat, w.at w.buffer 0 = some ⟨.allocStack, .int n⟩ ∧ w.scopes.frame.size ≤ n
  top : ∃ n : Nat, w.at 0 0 = some ⟨.allocStack, .int n⟩ ∧ w.scopes.topFrame.size ≤ n
  jumps : ∀ pt ∈ w.breaks.flatten, pt.buffer = w.buffer ∧
    w.at w.buffer pt.position = some ⟨.jump, .none⟩
  distinct : w.breaks.flatten.Nodup

/-- What a stretch of writing keeps of the writer `w`, from whose buffer in use the first `n`
instructions count. -/
structure Frame (arity : Nat → Nat) (n : Nat) (w w' : Writer) : Prop where
  buffer : w'.buffer = w.buffer
  buffers : w.buffers.size ≤ w'.buffers.size
  size : w.size ≤ w'.size
  kept : ∀ i < n, ∀ d, w.at w.buffer i = some d → ∃ d', w'.at w.buffer i = some d' ∧ Refines d d'
  others : ∀ b < w.buffers.size, b ≠ w.buffer → w'.buffers.getD b #[] = w.buffers.getD b #[]
  points : ∀ l pt, 0 < pt.position → w.Points l pt → w'.Points l pt
  promise : ∀ l m, w.Promise arity l m → w'.Promise arity l m

namespace Frame

variable {arity : Nat → Nat} {n m : Nat} {w w₁ w₂ : Writer}

theorem refl : Frame arity n w w where
  buffer := rfl
  buffers := Nat.le_refl _
  size := Nat.le_refl _
  kept _ _ d hd := ⟨d, hd, .same⟩
  others _ _ _ := rfl
  points _ _ _ h := h
  promise _ _ h := h

theorem trans (h : Frame arity n w w₁) (h' : Frame arity m w₁ w₂) (hn : n ≤ m) :
    Frame arity n w w₂ where
  buffer := h'.buffer.trans h.buffer
  buffers := Nat.le_trans h.buffers h'.buffers
  size := Nat.le_trans h.size h'.size
  kept i hi d hd := by
    obtain ⟨d₁, h₁, hr⟩ := h.kept i hi d hd
    obtain ⟨d₂, h₂, hr'⟩ := h'.kept i (by omega) d₁ (h.buffer ▸ h₁)
    exact ⟨d₂, h.buffer ▸ h₂, hr.trans hr'⟩
  others b hb hne :=
    (h'.others b (Nat.lt_of_lt_of_le hb h.buffers) (h.buffer ▸ hne)).trans (h.others b hb hne)
  points l pt hp hpt := h'.points l pt hp (h.points l pt hp hpt)
  promise l k hl := h'.promise l k (h.promise l k hl)

theorem mono (h : Frame arity m w w₁) (hn : n ≤ m) : Frame arity n w w₁ := refl.trans h hn

end Frame

/-- A stretch of writing from `w` to `w'`, which is well-formed and keeps what was there. -/
structure Leads (arity : Nat → Nat) (n : Nat) (w w' : Writer) : Prop where
  wf : Wf arity w'
  frame : Frame arity n w w'

namespace Leads

variable {arity : Nat → Nat} {n m : Nat} {w w₁ w₂ : Writer}

theorem refl (h : Wf arity w) : Leads arity n w w := ⟨h, .refl⟩

theorem trans (h : Leads arity n w w₁) (h' : Leads arity m w₁ w₂) (hn : n ≤ m) :
    Leads arity n w w₂ := ⟨h'.wf, h.frame.trans h'.frame hn⟩

/-- Stretches that keep all instructions. -/
theorem append (h : Leads arity w.size w w₁) (h' : Leads arity w₁.size w₁ w₂) :
    Leads arity w.size w w₂ := h.trans h' h.frame.size

end Leads

/-! ### Steps -/

section Steps

variable {arity : Nat → Nat} {n : Nat} {w w' : Writer}

/-- The writers differ at most in what is noted about the expression written last. -/
structure Alike (w w' : Writer) : Prop where
  buffers : w'.buffers = w.buffers
  labels : w'.labels = w.labels
  scopes : w'.scopes = w.scopes
  breaks : w'.breaks = w.breaks
  buffer : w'.buffer = w.buffer

namespace Alike

theorem at_eq (h : Alike w w') (b i : Nat) : w'.at b i = w.at b i := by
  rw [Writer.at, Writer.at, h.buffers]

theorem sizeOf_eq (h : Alike w w') (b : Nat) : w'.sizeOf b = w.sizeOf b := by
  rw [Writer.sizeOf, Writer.sizeOf, h.buffers]

theorem size_eq (h : Alike w w') : w'.size = w.size := by
  rw [Writer.size, h.sizeOf_eq, h.buffer]

theorem promise (h : Alike w w') {l : Label} {k : Nat} (hl : w.Promise arity l k) :
    w'.Promise arity l k :=
  hl.congr h.labels (Nat.le_of_eq (by rw [h.buffers])) fun e he _ => h.scopes ▸ he

theorem leads (h : Alike w w') (hw : Wf arity w) : Leads arity n w w' := by
  refine ⟨⟨?_, ?_, ?_, fun e he l hl => ?_, ?_, ?_, ?_, ?_, ?_, ?_⟩, ⟨h.buffer, ?_, ?_,
    fun i _ d hd => ⟨d, (h.at_eq _ _).trans hd, .same⟩, fun b _ _ => by rw [h.buffers],
    fun l pt _ hl => hl.congr h.labels (h.sizeOf_eq _), fun _ _ => h.promise⟩⟩
  · rw [h.buffer, h.buffers]
    exact hw.valid
  · rw [h.labels]
    exact hw.bound
  · rw [h.labels]
    exact hw.waiting
  · obtain ⟨s, hs, hp⟩ := hw.entries e (h.scopes ▸ he) l hl
    exact ⟨s, hs, h.promise hp⟩
  · rw [h.scopes, h.buffer]
    exact hw.sound
  · rw [h.scopes, h.buffer]
    exact hw.main
  · simpa only [h.at_eq, h.scopes, h.buffer] using hw.room
  · simpa only [h.at_eq, h.scopes] using hw.top
  · simpa only [h.at_eq, h.breaks, h.buffer] using hw.jumps
  · simpa only [h.breaks] using hw.distinct
  · exact Nat.le_of_eq (by rw [h.buffers])
  · exact Nat.le_of_eq h.size_eq.symm

end Alike

theorem Writer.typed_alike (w : Writer) (t : Ty) (a : Bool) : Alike w (w.typed t a) :=
  ⟨rfl, rfl, rfl, rfl, rfl⟩

theorem Wf.size_pos (hw : Wf arity w) : 0 < w.size := by
  obtain ⟨_, h, -⟩ := hw.room
  exact Writer.at_lt h

theorem Writer.add_at_old {d : Draft} {b i : Nat} (hw : w.buffer < w.buffers.size)
    (h : i < w.sizeOf b) : (w.add d).at b i = w.at b i := by
  rw [add_at _ _ _ _ hw, if_neg]
  rintro ⟨rfl, rfl⟩
  exact absurd h (Nat.lt_irrefl _)

theorem Wf.add (hw : Wf arity w) (d : Draft) : Leads arity n w (w.add d) := by
  have hat : ∀ {b i d'}, w.at b i = some d' → (w.add d).at b i = some d' := fun h => by
    rw [Writer.add_at_old hw.valid (Writer.at_lt h), h]
  refine ⟨⟨by simpa using hw.valid, fun l pt hl => ?_, fun l b hl => ?_, fun e he l hl => ?_, hw.sound,
    hw.main, ?_, ?_, fun pt hpt => ?_, hw.distinct⟩, ⟨rfl, by simp, ?_, fun i _ d' hd => ?_,
    fun b _ hne => ?_, fun l pt _ hl => hl.add d hw.valid, fun l k hl => hl.add d⟩⟩
  · have hget := w.labels.close_get ⟨w.buffer, w.size⟩ l
    by_cases hm : (l, w.buffer) ∈ w.labels.waiting
    · exact hw.waiting l _ hm
    · rw [if_neg hm] at hget
      exact hw.bound l pt (hget.symm.trans hl)
  · exact hw.waiting l b ((w.labels.close_waiting _ _).1 hl).1
  · obtain ⟨s, hs, hp⟩ := hw.entries e he l hl
    exact ⟨s, hs, hp.add d⟩
  · obtain ⟨k, hk, hle⟩ := hw.room
    exact ⟨k, hat hk, hle⟩
  · obtain ⟨k, hk, hle⟩ := hw.top
    exact ⟨k, hat hk, hle⟩
  · obtain ⟨hb, hj⟩ := hw.jumps pt hpt
    exact ⟨hb, hat hj⟩
  · show w.size ≤ (w.add d).sizeOf w.buffer
    rw [Writer.add_sizeOf _ _ _ hw.valid, if_pos rfl]
    exact Nat.le_succ _
  · exact ⟨d', hat hd, .same⟩
  · show (w.buffers.modify w.buffer _).getD b #[] = _
    rw [Writer.getD_modify _ _ _ _ fun h => absurd hw.valid (Nat.not_lt.2 h), if_neg hne]

theorem Wf.add_size (hw : Wf arity w) (d : Draft) : (w.add d).size = w.size + 1 := by
  show (w.add d).sizeOf w.buffer = _
  rw [Writer.add_sizeOf _ _ _ hw.valid, if_pos rfl]

theorem Wf.add_last (hw : Wf arity w) (d : Draft) : (w.add d).at w.buffer w.size = some d := by
  rw [Writer.add_at _ _ _ _ hw.valid, if_pos ⟨rfl, rfl⟩]

theorem Wf.openedLabel (hw : Wf arity w) : Leads arity n w w.openedLabel := by
  refine ⟨⟨hw.valid, fun l pt hl => Nat.lt_succ_of_lt (hw.bound l pt hl), fun l b hl => ?_,
    fun e he l hl => ?_, hw.sound, hw.main, hw.room, hw.top, hw.jumps, hw.distinct⟩,
    ⟨rfl, Nat.le_refl _, Nat.le_refl _, fun _ _ d hd => ⟨d, hd, .same⟩, fun _ _ _ => rfl,
    fun _ _ _ hl => hl.openedLabel, fun _ _ hl => hl.openedLabel⟩⟩
  · rcases (LabelTable.openReserved_waiting _ _ _ _).1 hl with hl | hl
    · exact Nat.lt_succ_of_lt (hw.waiting l b hl)
    · rw [(Prod.mk.inj hl).1]
      exact Nat.lt_succ_self _
  · obtain ⟨s, hs, hp⟩ := hw.entries e he l hl
    exact ⟨s, hs, hp.openedLabel⟩

/-- A new label stands for the next instruction. -/
theorem Wf.openedLabel_points (hw : Wf arity w) :
    w.openedLabel.Points ⟨w.labels.next⟩ ⟨w.buffer, w.size⟩ := by
  refine ⟨Nat.lt_succ_self _, .inr ⟨?_, ?_, fun b hb => ?_, rfl⟩⟩
  · show w.labels.get? ⟨w.labels.next⟩ = none
    cases h : w.labels.get? ⟨w.labels.next⟩ with
    | none => rfl
    | some pt => exact absurd (hw.bound _ _ h) (Nat.lt_irrefl _)
  · exact (LabelTable.openReserved_waiting _ _ _ _).2 (.inr rfl)
  · rcases (LabelTable.openReserved_waiting _ _ _ _).1 hb with hb | hb
    · exact absurd (hw.waiting _ _ hb) (Nat.lt_irrefl _)
    · exact (Prod.mk.inj hb).2

theorem Writer.openedLabel_waiting (w : Writer) : w.openedLabel.labels.hasWaiting w.buffer = true :=
  (LabelTable.hasWaiting_iff _ _).2 ⟨_, (LabelTable.openReserved_waiting _ _ _ _).2 (.inr rfl)⟩

/-- An instruction of the buffer in use, but not the first one and no jump out of a loop, is changed
in place. -/
theorem Wf.setAt (hw : Wf arity w) {i : Nat} {f : Draft → Draft} (hi : i ≠ 0)
    (hj : ∀ d, w.at w.buffer i = some d → ⟨w.buffer, i⟩ ∉ w.breaks.flatten)
    (hf : i < n → ∀ d, w.at w.buffer i = some d → Refines d (f d)) :
    Leads arity n w (w.setAt ⟨w.buffer, i⟩ f) := by
  have hat : ∀ {b k}, k ≠ i ∨ b ≠ w.buffer → (w.setAt ⟨w.buffer, i⟩ f).at b k = w.at b k :=
    fun h => by
      rw [Writer.setAt_at, if_neg]
      rintro ⟨rfl, rfl⟩
      simp at h
  refine ⟨⟨by simpa using hw.valid, hw.bound, hw.waiting, fun e he l hl => ?_, hw.sound, hw.main, ?_,
    ?_, fun pt hpt => ?_, hw.distinct⟩, ⟨rfl, by simp, ?_, fun k hk d hd => ?_, fun b _ hne => ?_,
    fun l pt _ hl => hl.congr rfl (by simp), fun l k hl => hl.congr rfl (by simp) fun _ h _ => h⟩⟩
  · obtain ⟨s, hs, hp⟩ := hw.entries e he l hl
    exact ⟨s, hs, hp.congr rfl (by simp) fun _ h _ => h⟩
  · obtain ⟨k, hk, hle⟩ := hw.room
    exact ⟨k, (hat (.inl (Ne.symm hi))).trans hk, hle⟩
  · obtain ⟨k, hk, hle⟩ := hw.top
    exact ⟨k, (hat (.inl (Ne.symm hi))).trans hk, hle⟩
  · obtain ⟨hb, hd⟩ := hw.jumps pt hpt
    refine ⟨hb, (hat (.inl ?_)).trans hd⟩
    rintro rfl
    exact hj _ hd (hb ▸ hpt)
  · show w.size ≤ (w.setAt _ f).sizeOf w.buffer
    simp
  · by_cases hki : k = i
    · subst hki
      refine ⟨f d, ?_, hf hk d hd⟩
      rw [Writer.setAt_at, if_pos ⟨rfl, rfl⟩, hd]
      rfl
    · exact ⟨d, (hat (.inl hki)).trans hd, .same⟩
  · show (w.buffers.modify w.buffer _).getD b #[] = _
    rw [Writer.getD_modify _ _ _ _ (by simp), if_neg hne]

/-- The writer after a branch written before is made to lead to the next instruction. -/
def Writer.landed (w : Writer) (i : Nat) : Writer :=
  w.openedLabel.setAt ⟨w.buffer, i⟩ fun d => { d with operand := .label ⟨w.labels.next⟩ }

theorem Wf.landed (hw : Wf arity w) {i : Nat} {op : Opcode} (hi : i ≠ 0)
    (hat : w.at w.buffer i = some ⟨op, .none⟩) (hop : IsJump op)
    (hj : ⟨w.buffer, i⟩ ∉ w.breaks.flatten) : Leads arity n w (w.landed i) := by
  have hopen : Leads arity n w w.openedLabel := hw.openedLabel
  refine hopen.trans (hopen.wf.setAt hi (fun _ _ => hj) fun _ d hd => ?_) (Nat.le_refl n)
  obtain rfl := Option.some.inj (hat.symm.trans hd)
  exact .target hop

@[simp] theorem Writer.landed_buffer (w : Writer) (i : Nat) : (w.landed i).buffer = w.buffer := rfl

@[simp] theorem Writer.landed_scopes (w : Writer) (i : Nat) : (w.landed i).scopes = w.scopes := rfl

@[simp] theorem Writer.landed_breaks (w : Writer) (i : Nat) : (w.landed i).breaks = w.breaks := rfl

@[simp] theorem Writer.landed_sizeOf (w : Writer) (i b : Nat) :
    (w.landed i).sizeOf b = w.sizeOf b := by
  simp [Writer.landed]

theorem Writer.landed_size (w : Writer) (i : Nat) : (w.landed i).size = w.size :=
  w.landed_sizeOf i w.buffer

theorem Writer.landed_at {i : Nat} {d : Draft} (hat : w.at w.buffer i = some d) :
    (w.landed i).at w.buffer i = some ⟨d.opcode, .label ⟨w.labels.next⟩⟩ := by
  rw [Writer.landed, Writer.setAt_at, if_pos ⟨rfl, rfl⟩, Writer.openedLabel_at, hat]
  rfl

theorem Writer.landed_at_ne {i k b : Nat} (h : k ≠ i) : (w.landed i).at b k = w.at b k := by
  rw [Writer.landed, Writer.setAt_at, if_neg fun hb => h hb.2, Writer.openedLabel_at]

theorem Wf.landed_points (hw : Wf arity w) (i : Nat) :
    (w.landed i).Points ⟨w.labels.next⟩ ⟨w.buffer, w.size⟩ :=
  hw.openedLabel_points.congr rfl (by simp [Writer.landed])

theorem Writer.landed_waiting (w : Writer) (i : Nat) :
    (w.landed i).labels.hasWaiting w.buffer = true := w.openedLabel_waiting

end Steps

end StackScript.Assembly
