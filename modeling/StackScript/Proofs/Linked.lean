import StackScript.Proofs.Writing

/-!
# From writers to finished programs

A writer commits the finished program: what is written and can no longer be replaced stands in the
program, at the start of its buffer plus its position.  `Link` says where buffers and labels end up,
and `Kept` is the commitment.  It holds of the last writer, and goes back along `Frame`.
-/

namespace StackScript.Assembly

open Typing Bytecode Host Syntax

/-- A finished program, and where the buffers and labels of its writer are found in it. -/
structure Link where
  program : Program
  environment : Environment
  /-- The number of parameters of each buffer's function. -/
  arity : Nat → Nat
  /-- The index of the first instruction of each buffer. -/
  base : Nat → Nat
  /-- The number of instructions of each buffer. -/
  size : Nat → Nat
  /-- The number of variables of each buffer's function. -/
  slots : Nat → Nat
  /-- The number of buffers. -/
  count : Nat
  /-- The buffer that an instruction was written into. -/
  owner : Nat → Nat
  target : Label → Option Nat

namespace Link

/-- The variables of a buffer's function. -/
def room (K : Link) (b : Nat) : Room := ⟨K.arity b, K.slots b⟩

/-- A function starts where its buffer does. -/
def layout (K : Link) : Layout where
  program := K.program
  environment := K.environment
  top := K.slots 0
  count := K.count
  params := K.arity
  start := K.base
  stop b := K.base b + K.size b
  address := K.target
  roomOf a := K.room (K.owner a)

def operand (K : Link) : Operand → Operand
  | .label l =>
    match K.target l with
    | some t => .int (t : Nat)
    | none => .label l
  | x => x

def draft (K : Link) (d : Draft) : Draft := ⟨d.opcode, K.operand d.operand⟩

theorem draft_label {K : Link} {op : Opcode} {l : Label} {t : Nat} (h : K.target l = some t) :
    K.draft ⟨op, .label l⟩ = ⟨op, .int t⟩ := by
  simp [draft, operand, h]

/-- What is written at a place stands in the program, but for later refinements. -/
structure Settled (K : Link) (b i : Nat) (d d' : Draft) : Prop where
  refines : Refines d d'
  has : K.layout.Has (K.base b + i) (K.draft d')
  bound : ∀ l, d'.operand = .label l → ∃ t, K.target l = some t
  slots : ∀ n : Nat, i = 0 → d' = ⟨.allocStack, .int n⟩ → n = K.slots b
  owner : K.owner (K.base b + i) = b

end Link

/-- An instruction that does not change any more. -/
def Draft.Final (d : Draft) : Prop := ∀ d', Refines d d' → d' = d

/-- Can the operand change after the instruction is written? -/
def isOpen : Opcode → Bool
  | .jump | .branchFalse | .branchTrue | .branchInt _ | .allocStack => true
  | _ => false

theorem Draft.final_of_label {d : Draft} {l : Label} (h : d.operand = .label l) : d.Final :=
  fun _ hr => hr.of_label h

theorem Draft.final_of_closed {d : Draft} (h : isOpen d.opcode = false) : d.Final := by
  intro d' hr
  cases hr with
  | same => rfl
  | target hb => rcases hb with rfl | rfl | rfl | ⟨r, rfl⟩ <;> simp [isOpen] at h
  | room => simp [isOpen] at h

/-- What a writer commits a finished program to: the first `n` instructions of the buffer in use,
all other buffers, and the labels.  The buffers behind the one in use are closed. -/
structure Kept (K : Link) (n : Nat) (w : Writer) : Prop where
  code : ∀ i < n, ∀ d, w.at w.buffer i = some d → ∃ d', K.Settled w.buffer i d d'
  last : ∀ d l, w.at w.buffer n = some d → d.operand = .label l → ∃ t, K.target l = some t
  others : ∀ b < w.buffers.size, b ≠ w.buffer → ∀ i d, w.at b i = some d → ∃ d', K.Settled b i d d'
  closed : ∀ b, w.buffer < b → b < w.buffers.size → K.size b = w.sizeOf b
  points : ∀ l pt, 0 < pt.position → w.Points l pt → ∀ t, K.target l = some t →
    t = K.base pt.buffer + pt.position
  promise : ∀ l m, w.Promise K.arity l m → ∀ t, K.target l = some t → K.layout.Entry m t

namespace Kept

variable {K : Link} {k n m : Nat} {w w' : Writer}

/-- The label of a committed instruction, or of the one behind the last of these, is bound. -/
theorem bound (h : Kept K n w) {i : Nat} {d : Draft} {l : Label} (hi : i ≤ n)
    (hd : w.at w.buffer i = some d) (hl : d.operand = .label l) : ∃ t, K.target l = some t := by
  rcases Nat.lt_or_ge i n with hi' | hi'
  · obtain ⟨d', hs⟩ := h.code i hi' d hd
    exact hs.bound l (by rw [hs.refines.of_label hl]; exact hl)
  · obtain rfl : i = n := by omega
    exact h.last d l hd hl

/-- What is committed later was committed before. -/
theorem back (h : Kept K m w') (hf : Frame K.arity n w w') (hm : k ≤ m) (hn : k ≤ n)
    (hl : ∀ d l, w.at w.buffer k = some d → d.operand = .label l →
      k < n ∨ ∃ t, K.target l = some t) : Kept K k w where
  code i hi d hd := by
    obtain ⟨d', hd', hr⟩ := hf.kept i (by omega) d hd
    obtain ⟨d'', hs⟩ := h.code i (by omega) d' (hf.buffer ▸ hd')
    exact ⟨d'', hr.trans hs.refines, hf.buffer ▸ hs.has, hs.bound, hf.buffer ▸ hs.slots,
      hf.buffer ▸ hs.owner⟩
  last d l hd hdl := by
    rcases hl d l hd hdl with hk | ht
    · obtain ⟨d', hd', hr⟩ := hf.kept k hk d hd
      obtain rfl := hr.of_label hdl
      exact h.bound hm (hf.buffer ▸ hd') hdl
    · exact ht
  others b hb hne i d hd := by
    have ho := hf.others b hb hne
    refine h.others b (Nat.lt_of_lt_of_le hb hf.buffers) (hf.buffer ▸ hne) i d ?_
    rwa [Writer.at, ho]
  closed b hlt hb := by
    have ho := hf.others b hb (Nat.ne_of_gt hlt)
    rw [h.closed b (hf.buffer ▸ hlt) (Nat.lt_of_lt_of_le hb hf.buffers), Writer.sizeOf, ho, Writer.sizeOf]
  points l pt hp hpt := h.points l pt hp (hf.points l pt hp hpt)
  promise l p hp := h.promise l p (hf.promise l p hp)

/-- The whole of what was written before some more was written. -/
theorem whole (h : Kept K m w') (hf : Frame K.arity w.size w w') (hm : w.size ≤ m) :
    Kept K w.size w :=
  h.back hf hm (Nat.le_refl _) fun _ _ hd _ => absurd (Writer.at_lt hd) (Nat.lt_irrefl _)

/-- The same without the last instruction. -/
theorem front (h : Kept K m w') (hf : Frame K.arity w.size w w') (hm : w.size - 1 ≤ m)
    (hw : 0 < w.size) : Kept K (w.size - 1) w :=
  h.back hf hm (by omega) fun _ _ _ _ => .inl (by omega)

/-- All but the last instruction, which was replaced by one with the same operand. -/
theorem rewritten {f : Draft → Draft} (h : Kept K m (w.setAt ⟨w.buffer, w.size - 1⟩ f))
    (hf : Frame K.arity (w.size - 1) w (w.setAt ⟨w.buffer, w.size - 1⟩ f)) (hm : w.size - 1 ≤ m)
    (ho : ∀ d l, w.last? = some d → d.operand = .label l → (f d).operand = d.operand) :
    Kept K (w.size - 1) w := by
  refine h.back hf hm (Nat.le_refl _) fun d l hd hl => .inr ?_
  refine h.bound (i := w.size - 1) hm ?_ ((ho d l hd hl).trans hl)
  rw [Writer.setAt_buffer, Writer.setAt_at, if_pos ⟨rfl, rfl⟩, hd]
  rfl

theorem has (h : Kept K n w) {i : Nat} {d : Draft} (hi : i < n) (hd : w.at w.buffer i = some d)
    (hf : d.Final) : K.layout.Has (K.base w.buffer + i) (K.draft d) := by
  obtain ⟨d', hs⟩ := h.code i hi d hd
  exact hf d' hs.refines ▸ hs.has

/-- A committed instruction belongs to the function of its buffer. -/
theorem owned (h : Kept K n w) {i : Nat} (hn : n ≤ w.size) (hi : i < n) :
    K.layout.roomOf (K.base w.buffer + i) = K.room w.buffer := by
  obtain ⟨d, hd⟩ := Writer.at_isSome (Nat.lt_of_lt_of_le hi hn)
  obtain ⟨d', hs⟩ := h.code i hi d hd
  show K.room (K.owner _) = _
  rw [hs.owner]

/-- The first instruction of a buffer makes room for the variables. -/
theorem settled_room {b k : Nat} {d' : Draft} (hs : K.Settled b 0 ⟨.allocStack, .int (k : Nat)⟩ d') :
    k ≤ K.slots b ∧ d' = ⟨.allocStack, .int (K.slots b : Nat)⟩ := by
  generalize hd : (⟨.allocStack, .int (k : Nat)⟩ : Draft) = d at hs
  have hr := hs.refines
  cases hr with
  | same =>
    obtain rfl := hs.slots k rfl hd.symm
    exact ⟨Nat.le_refl _, hd.symm⟩
  | target hb => rcases hb with rfl | rfl | rfl | ⟨r, rfl⟩ <;> simp at hd
  | room hle =>
    obtain rfl := hs.slots _ rfl rfl
    simp only [Draft.mk.injEq, Operand.int.injEq, Int.natCast_inj, true_and] at hd
    exact ⟨hd ▸ hle, rfl⟩

/-- There is room for the variables of the function. -/
theorem room (h : Kept K n w) (hw : Wf K.arity w) (hn : 0 < n) :
    w.scopes.frame.size ≤ K.slots w.buffer := by
  obtain ⟨k, hk, hle⟩ := hw.room
  obtain ⟨d', hs⟩ := h.code 0 hn _ hk
  exact Nat.le_trans hle (settled_room hs).1

/-- There is room for the variables of the top level. -/
theorem top (h : Kept K n w) (hw : Wf K.arity w) (hn : 0 < n) :
    w.scopes.topFrame.size ≤ K.slots 0 := by
  obtain ⟨k, hk, hle⟩ := hw.top
  by_cases hb : 0 = w.buffer
  · obtain ⟨d', hs⟩ := h.code 0 hn _ (by rw [← hb]; exact hk)
    rw [← hb] at hs
    exact Nat.le_trans hle (settled_room hs).1
  · obtain ⟨d', hs⟩ := h.others 0 (Nat.lt_of_le_of_lt (Nat.zero_le _) hw.valid) hb 0 _ hk
    exact Nat.le_trans hle (settled_room hs).1

/-- A branch leads where its label points to. -/
theorem has_target (h : Kept K n w) {i : Nat} {op : Opcode} {l : Label} {pt : CodePoint} (hi : i < n)
    (hd : w.at w.buffer i = some ⟨op, .label l⟩) (hp : 0 < pt.position) (hl : w.Points l pt) :
    K.layout.Has (K.base w.buffer + i) ⟨op, .int (K.base pt.buffer + pt.position : Nat)⟩ := by
  obtain ⟨d', hs⟩ := h.code i hi _ hd
  obtain rfl := hs.refines.of_label rfl
  obtain ⟨t, ht⟩ := hs.bound l rfl
  have hhas := hs.has
  rw [Link.draft_label ht] at hhas
  rwa [h.points l pt hp hl t ht] at hhas

/-- A branch that was made to lead to the next instruction leads there. -/
theorem has_landed {i : Nat} {op : Opcode} (h : Kept K m (w.landed i)) (hw : Wf K.arity w) (hi : i < m)
    (hat : w.at w.buffer i = some ⟨op, .none⟩) :
    K.layout.Has (K.base w.buffer + i) ⟨op, .int (K.base w.buffer + w.size : Nat)⟩ :=
  h.has_target hi (Writer.landed_at hat) hw.size_pos (hw.landed_points i)

end Kept

end StackScript.Assembly
