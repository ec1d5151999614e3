import StackScript.Proofs.BlockWriting

/-!
# Where branches and calls lead

What holds while any tree is written, also one in which a function stands outside of a statement
list:

* `Fits`: an instruction is complete, or it is a branch that gets its target later.  The target of a
  branch lies in the buffer of the branch; a function goes by a label that the first instruction of
  a function body has, or is owed.
* `Intact`: every instruction fits, `holes` being the branches that still wait for their target and
  `owed` the labels of the functions that are declared, but not written.
* `Keeps`: what a stretch of writing leaves as it was.  Where labels lead stays so, and the function
  bodies that were written end with a return.
-/

namespace StackScript.Assembly

open Typing Bytecode Host Syntax Assembly.Write

/-- The operations whose operand names a function. -/
def NamesFunction (op : Opcode) : Prop := op = .loadFunction ∨ op = .callInternal

def isPlain : Opcode → Bool
  | .jump | .branchFalse | .branchTrue | .branchInt _ | .loadFunction | .callInternal => false
  | _ => true

def isClosed : Operand → Bool
  | .label _ => false
  | _ => true

theorem isClosed_ne_label {x : Operand} (h : isClosed x = true) (l : Label) : x ≠ .label l := by
  rintro rfl
  cases h

theorem IsJump.not_plain {op : Opcode} (h : IsJump op) : isPlain op = false := by
  rcases h with rfl | rfl | rfl | ⟨_, rfl⟩ <;> rfl

theorem NamesFunction.not_plain {op : Opcode} (h : NamesFunction op) : isPlain op = false := by
  rcases h with rfl | rfl <;> rfl

namespace Writer

/-- A label that stands for an instruction of a buffer, written or next, and by which no function
goes. -/
structure Lands (w : Writer) (l : Label) (b : Nat) : Prop where
  points : ∃ i, w.Points l ⟨b, i⟩
  unnamed : ∀ e ∈ w.scopes.entities, e.location ≠ .entry l

/-- A label that is bound to the first instruction of a function body. -/
structure Enters (w : Writer) (l : Label) : Prop where
  bound : ∃ b, b ≠ 0 ∧ b < w.buffers.size ∧ w.labels.get? l = some ⟨b, 0⟩
  closed : ∀ b, (l, b) ∉ w.labels.waiting

/-- An instruction at a place, given the branches without a target and the labels that are owed. -/
inductive Fits (w : Writer) (holes : List CodePoint) (owed : List Label) (pt : CodePoint) :
    Draft → Prop
  | jump {op l} (jump : IsJump op) (lands : w.Lands l pt.buffer) : Fits w holes owed pt ⟨op, .label l⟩
  | hole {op x} (jump : IsJump op) (missing : pt ∈ holes) : Fits w holes owed pt ⟨op, x⟩
  | function {op l} (names : NamesFunction op) (known : w.Enters l ∨ l ∈ owed) :
      Fits w holes owed pt ⟨op, .label l⟩
  | plain {d} (plain : isPlain d.opcode = true) (closed : isClosed d.operand = true) :
      Fits w holes owed pt d

/-- A function body that is written to its end. -/
structure Finished (w : Writer) (b : Nat) : Prop where
  last : w.at b (w.sizeOf b - 1) = some ⟨.ret, .none⟩
  quiet : ∀ l, (l, b) ∉ w.labels.waiting

end Writer

/-- All instructions fit, but that `holes` have no target and functions that go by `owed` labels no
body. -/
structure Intact (holes : List CodePoint) (owed : List Label) (w : Writer) : Prop where
  valid : w.buffer < w.buffers.size
  level : w.scopes.inner.frame = w.scopes.functionDepth
  bound : ∀ l pt, w.labels.get? l = some pt → l.id < w.labels.next ∧ pt.position < w.sizeOf pt.buffer
  waiting : ∀ l b, (l, b) ∈ w.labels.waiting → l.id < w.labels.next ∧ b < w.buffers.size
  rooms : ∀ b < w.buffers.size, ∃ n : Nat, w.at b 0 = some ⟨.allocStack, .int n⟩
  fits : ∀ b i d, w.at b i = some d → w.Fits (holes ++ w.breaks.flatten) owed ⟨b, i⟩ d
  branches : ∀ pt ∈ holes ++ w.breaks.flatten,
    ∃ d, w.at pt.buffer pt.position = some d ∧ IsJump d.opcode
  own : ∀ pt ∈ w.breaks.flatten, pt.buffer = w.buffer
  entries : ∀ e ∈ w.scopes.entities, ∀ l, e.location = .entry l →
    l.id < w.labels.next ∧ (∀ b, (l, b) ∉ w.labels.waiting) ∧ (w.Enters l ∨ l ∈ owed)

/-- What a stretch of writing keeps, apart from the scopes; in it a number of functions is written. -/
structure Keeps (functions : Nat) (w w' : Writer) : Prop where
  buffer : w'.buffer = w.buffer
  count : w'.buffers.size = w.buffers.size + functions
  lands : ∀ l b, w.Lands l b → w'.Lands l b
  enters : ∀ l, w.Enters l → w'.Enters l
  others : ∀ b < w.buffers.size, b ≠ w.buffer → w'.buffers.getD b #[] = w.buffers.getD b #[]
  quiet : ∀ l, ∀ b < w.buffers.size, b ≠ w.buffer → (l, b) ∈ w'.labels.waiting →
    (l, b) ∈ w.labels.waiting
  finished : ∀ b, w.buffers.size ≤ b → b < w'.buffers.size → w'.Finished b

/-- A stretch of writing that leaves all intact. -/
structure Weaves (holes : List CodePoint) (owed : List Label) (functions : Nat) (w w' : Writer) :
    Prop where
  intact : Intact holes owed w'
  keeps : Keeps functions w w'
  scopes : ScopeChain.Grows w.scopes w'.scopes
  depth : w'.breaks.length = w.breaks.length

variable {holes holes' : List CodePoint} {owed owed' : List Label} {m n : Nat} {w w₁ w₂ w' : Writer}

namespace Writer

theorem Fits.mono {pt : CodePoint} {d : Draft} (h : w.Fits holes owed pt d)
    (hl : ∀ l, w.Lands l pt.buffer → w'.Lands l pt.buffer) (he : ∀ l, w.Enters l → w'.Enters l)
    (hh : pt ∈ holes → IsJump d.opcode → w'.Fits holes' owed' pt d)
    (ho : ∀ l ∈ owed, w'.Enters l ∨ l ∈ owed') : w'.Fits holes' owed' pt d := by
  cases h with
  | jump hj hlands => exact .jump hj (hl _ hlands)
  | hole hj hm => exact hh hm hj
  | function hn hk => exact .function hn (hk.elim (fun h => .inl (he _ h)) (ho _))
  | plain hp hx => exact .plain hp hx

/-- What a label stands for does not depend on what is noted about expressions and scopes. -/
theorem Lands.scoped {c : ScopeChain} {l : Label} {b : Nat} (h : w.Lands l b)
    (hc : ∀ e ∈ c.entities, e.location = .entry l → e ∈ w.scopes.entities) :
    ({ w with scopes := c } : Writer).Lands l b where
  points := h.points.imp fun _ hp => hp.congr rfl rfl
  unnamed e he hl := h.unnamed e (hc e he hl) hl

theorem Finished.congr {b : Nat} (h : w.Finished b)
    (hb : w'.buffers.getD b #[] = w.buffers.getD b #[])
    (hq : ∀ l, (l, b) ∈ w'.labels.waiting → (l, b) ∈ w.labels.waiting) : w'.Finished b where
  last := by
    have := h.last
    rwa [Writer.at, sizeOf, ← hb] at this
  quiet l hl := h.quiet l (hq l hl)

end Writer

namespace Keeps

theorem lt (h : Keeps n w w') {b : Nat} (hb : b < w.buffers.size) : b < w'.buffers.size := by
  rw [h.count]
  omega

theorem refl : Keeps 0 w w where
  buffer := rfl
  count := rfl
  lands _ _ h := h
  enters _ h := h
  others _ _ _ := rfl
  quiet _ _ _ _ h := h
  finished _ hle hlt := absurd hlt (Nat.not_lt.2 hle)

theorem trans (hv : w.buffer < w.buffers.size) (h : Keeps m w w₁) (h' : Keeps n w₁ w₂) :
    Keeps (m + n) w w₂ where
  buffer := h'.buffer.trans h.buffer
  count := by rw [h'.count, h.count, Nat.add_assoc]
  lands l b hl := h'.lands l b (h.lands l b hl)
  enters l hl := h'.enters l (h.enters l hl)
  others b hb hne :=
    (h'.others b (h.lt hb) (h.buffer ▸ hne)).trans (h.others b hb hne)
  quiet l b hb hne hl :=
    h.quiet l b hb hne (h'.quiet l b (h.lt hb) (h.buffer ▸ hne) hl)
  finished b hle hlt := by
    by_cases hb : b < w₁.buffers.size
    · have hne : b ≠ w₁.buffer := by
        rw [h.buffer]
        omega
      exact (h.finished b hle hb).congr (h'.others b hb hne) fun l => h'.quiet l b hb hne
    · exact h'.finished b (Nat.le_of_not_lt hb) hlt

end Keeps

namespace Weaves

theorem refl (h : Intact holes owed w) : Weaves holes owed 0 w w := ⟨h, .refl, .refl _, rfl⟩

theorem trans (hv : w.buffer < w.buffers.size) (h : Weaves holes owed m w w₁)
    (h' : Weaves holes' owed' n w₁ w₂) : Weaves holes' owed' (m + n) w w₂ :=
  ⟨h'.intact, h.keeps.trans hv h'.keeps, h.scopes.trans h'.scopes, h'.depth.trans h.depth⟩

end Weaves

/-! ### Steps -/

section Steps

/-- Notes about the expression written last do not matter. -/
theorem Intact.alike (h : Intact holes owed w) (ha : Alike w w') : Weaves holes owed 0 w w' := by
  obtain ⟨type, assignable, scopes, breaks, buffer, returns, callee, labels, buffers⟩ := w
  obtain ⟨type', assignable', scopes', breaks', buffer', returns', callee', labels', buffers'⟩ := w'
  obtain ⟨rfl, rfl, rfl, rfl, rfl⟩ := ha
  have hlands : ∀ l b,
      Writer.Lands ⟨type, assignable, scopes', breaks', buffer', returns, callee, labels', buffers'⟩ l b →
      Writer.Lands ⟨type', assignable', scopes', breaks', buffer', returns', callee', labels', buffers'⟩ l b :=
    fun l b hl => ⟨hl.points.imp fun _ hp => hp.congr rfl rfl, hl.unnamed⟩
  have henters : ∀ l,
      Writer.Enters ⟨type, assignable, scopes', breaks', buffer', returns, callee, labels', buffers'⟩ l →
      Writer.Enters ⟨type', assignable', scopes', breaks', buffer', returns', callee', labels', buffers'⟩ l :=
    fun l hl => ⟨hl.bound, hl.closed⟩
  refine ⟨⟨h.valid, h.level, h.bound, h.waiting, h.rooms, fun b i d hd => ?_, h.branches, h.own,
    fun e he l hl => ?_⟩, ⟨rfl, rfl, hlands, henters, fun _ _ _ => rfl,
    fun _ _ _ _ h => h, fun b hle hlt => absurd hlt (Nat.not_lt.2 hle)⟩, .refl _, rfl⟩
  · exact (h.fits b i d hd).mono (hlands · _) henters (fun hm hj => .hole hj hm) fun _ => .inr
  · obtain ⟨hid, hclosed, hknown⟩ := h.entries e he l hl
    exact ⟨hid, hclosed, hknown.imp_left (henters l)⟩

theorem Intact.typed (h : Intact holes owed w) (t : Ty) (a : Bool) :
    Weaves holes owed 0 w (w.typed t a) := h.alike (w.typed_alike t a)

theorem Writer.Enters.add {l : Label} (h : w.Enters l) (d : Draft) : (w.add d).Enters l where
  bound := by
    obtain ⟨b, hb, hlt, hget⟩ := h.bound
    refine ⟨b, hb, by rwa [Writer.add_buffers_size], ?_⟩
    refine (w.labels.close_get ⟨w.buffer, w.size⟩ l).trans ?_
    rw [if_neg (h.closed _), hget]
  closed b hb := h.closed b ((w.labels.close_waiting _ _).1 hb).1

theorem Writer.Lands.add {l : Label} {b : Nat} (h : w.Lands l b) (d : Draft)
    (hv : w.buffer < w.buffers.size) : (w.add d).Lands l b :=
  ⟨h.points.imp fun _ hp => hp.add d hv, h.unnamed⟩

/-- A new instruction that fits; a branch may wait for its target. -/
theorem Intact.add (h : Intact holes owed w) {d : Draft}
    (hd : w.Fits (holes' ++ w.breaks.flatten) owed ⟨w.buffer, w.size⟩ d)
    (hold : ∀ pt ∈ holes, pt ∈ holes')
    (hnew : ∀ pt ∈ holes', pt ∈ holes ∨ pt = ⟨w.buffer, w.size⟩ ∧ IsJump d.opcode) :
    Weaves holes' owed 0 w (w.add d) := by
  have hat : ∀ {b i d'}, w.at b i = some d' → (w.add d).at b i = some d' := fun hd' => by
    rw [Writer.add_at_old h.valid (Writer.at_lt hd'), hd']
  have hlands : ∀ l b, w.Lands l b → (w.add d).Lands l b := fun l b hl => hl.add d h.valid
  have henters : ∀ l, w.Enters l → (w.add d).Enters l := fun l hl => hl.add d
  have hwait : ∀ l b, (l, b) ∈ (w.add d).labels.waiting ↔ (l, b) ∈ w.labels.waiting ∧ b ≠ w.buffer :=
    fun l b => w.labels.close_waiting _ _
  have hsub : ∀ pt ∈ holes ++ w.breaks.flatten, pt ∈ holes' ++ w.breaks.flatten := fun pt hpt =>
    List.mem_append.2 ((List.mem_append.1 hpt).imp_left (hold pt))
  refine ⟨⟨by simpa using h.valid, h.level, fun l pt hl => ?_, fun l b hl => ?_, fun b hb => ?_,
    fun b i d' hd' => ?_, fun pt hpt => ?_, h.own, fun e he l hl => ?_⟩,
    ⟨rfl, by simp, hlands, henters, fun b _ hne => ?_, fun l b _ _ hl => ((hwait l b).1 hl).1,
      fun b hle hlt => ?_⟩, .refl _, rfl⟩
  · have hget := w.labels.close_get ⟨w.buffer, w.size⟩ l
    -- the new draft is where the labels waiting in this buffer land
    by_cases hm : (l, w.buffer) ∈ w.labels.waiting
    · rw [if_pos hm] at hget
      obtain rfl := Option.some.inj (hget.symm.trans hl)
      refine ⟨(h.waiting l _ hm).1, ?_⟩
      rw [Writer.add_sizeOf _ _ _ h.valid, if_pos rfl]
      exact Nat.lt_succ_self _
    · rw [if_neg hm] at hget
      obtain ⟨hid, hlt⟩ := h.bound l pt (hget.symm.trans hl)
      refine ⟨hid, Nat.lt_of_lt_of_le hlt ?_⟩
      rw [Writer.add_sizeOf _ _ _ h.valid]
      split <;> omega
  · rw [Writer.add_buffers_size]
    exact h.waiting l b ((hwait l b).1 hl).1
  · rw [Writer.add_buffers_size] at hb
    exact (h.rooms b hb).imp fun _ => hat
  · by_cases hlast : b = w.buffer ∧ i = w.size
    · obtain ⟨rfl, rfl⟩ := hlast
      rw [Writer.add_at _ _ _ _ h.valid, if_pos ⟨rfl, rfl⟩] at hd'
      obtain rfl := Option.some.inj hd'
      exact hd.mono (hlands · _) henters (fun hm hj => .hole hj hm) fun _ => .inr
    · rw [Writer.add_at _ _ _ _ h.valid, if_neg hlast] at hd'
      exact (h.fits b i d' hd').mono (hlands · _) henters (fun hm hj => .hole hj (hsub _ hm))
        fun _ => .inr
  · have hpt' : pt ∈ holes ++ w.breaks.flatten ∨ pt = ⟨w.buffer, w.size⟩ ∧ IsJump d.opcode := by
      rcases List.mem_append.1 hpt with hpt | hpt
      · exact (hnew pt hpt).imp_left fun h => List.mem_append_left _ h
      · exact .inl (List.mem_append_right _ hpt)
    rcases hpt' with hpt | ⟨rfl, hj⟩
    · obtain ⟨d', hd', hj⟩ := h.branches pt hpt
      exact ⟨d', hat hd', hj⟩
    · exact ⟨d, by rw [Writer.add_at _ _ _ _ h.valid, if_pos ⟨rfl, rfl⟩], hj⟩
  · obtain ⟨hid, hclosed, hknown⟩ := h.entries e he l hl
    exact ⟨hid, fun b hb => hclosed b ((hwait l b).1 hb).1, hknown.imp_left (henters l)⟩
  · show (w.buffers.modify w.buffer _).getD b #[] = _
    rw [Writer.getD_modify _ _ _ _ fun hc => absurd h.valid (Nat.not_lt.2 hc), if_neg hne]
  · rw [Writer.add_buffers_size] at hlt
    exact absurd hlt (Nat.not_lt.2 hle)

/-- A new instruction whose operand is no label. -/
theorem Intact.put (h : Intact holes owed w) {o : Opcode} {x : Operand} (ho : isPlain o = true)
    (hx : isClosed x = true) : Weaves holes owed 0 w (w.add ⟨o, x⟩) :=
  h.add (.plain ho hx) (fun _ h => h) fun _ h => .inl h

/-- A new branch that gets its target later. -/
theorem Intact.putHole (h : Intact holes owed w) {o : Opcode} (hj : IsJump o) :
    Weaves (⟨w.buffer, w.size⟩ :: holes) owed 0 w (w.add ⟨o, .none⟩) :=
  h.add (.hole hj List.mem_cons_self) (fun _ h => List.mem_cons_of_mem _ h) fun _ hm =>
    (List.mem_cons.1 hm).symm.imp_right fun h => ⟨h, hj⟩

/-- A new label stands for the next instruction. -/
theorem Intact.openedLabel (h : Intact holes owed w) :
    Weaves holes owed 0 w w.openedLabel ∧ w.openedLabel.Lands ⟨w.labels.next⟩ w.buffer := by
  have hwait : ∀ l b, (l, b) ∈ w.openedLabel.labels.waiting ↔
      (l, b) ∈ w.labels.waiting ∨ (l, b) = (⟨w.labels.next⟩, w.buffer) := fun l b =>
    LabelTable.openReserved_waiting _ _ _ _
  have hlands : ∀ l b, w.Lands l b → w.openedLabel.Lands l b := fun l b hl =>
    ⟨hl.points.imp fun _ hp => hp.openedLabel, hl.unnamed⟩
  have hne : ∀ {l : Label}, l.id < w.labels.next → ∀ b, (l, b) ≠ ((⟨w.labels.next⟩ : Label), w.buffer) := by
    rintro l hid b hb
    -- the label is fresh, and every one known so far has a smaller number
    rw [(Prod.mk.inj hb).1] at hid
    exact absurd hid (Nat.lt_irrefl _)
  have henters : ∀ l, w.Enters l → w.openedLabel.Enters l := fun l hl => by
    obtain ⟨b, hb, hlt, hget⟩ := hl.bound
    exact ⟨⟨b, hb, hlt, hget⟩, fun b' hb' => ((hwait l b').1 hb').elim (hl.closed b')
      (hne (h.bound l _ hget).1 b')⟩
  refine ⟨⟨⟨h.valid, h.level, fun l pt hl => ?_, fun l b hl => ?_, h.rooms, fun b i d hd => ?_,
    h.branches, h.own, fun e he l hl => ?_⟩, ⟨rfl, rfl, hlands, henters,
    fun _ _ _ => rfl, fun l b _ hne hl => ?_, fun b hle hlt => absurd hlt (Nat.not_lt.2 hle)⟩, .refl _, rfl⟩,
    ⟨w.size, Nat.lt_succ_self _, .inr ⟨?_, (hwait _ _).2 (.inr rfl), fun b hb => ?_, rfl⟩⟩,
    fun e he hl => ?_⟩
  · obtain ⟨hid, hlt⟩ := h.bound l pt hl
    exact ⟨Nat.lt_succ_of_lt hid, hlt⟩
  · rcases (hwait l b).1 hl with hl | hl
    · obtain ⟨hid, hlt⟩ := h.waiting l b hl
      exact ⟨Nat.lt_succ_of_lt hid, hlt⟩
    · obtain ⟨rfl, rfl⟩ := Prod.mk.inj hl
      exact ⟨Nat.lt_succ_self _, h.valid⟩
  · exact (h.fits b i d hd).mono (hlands · _) henters (fun hm hj => .hole hj hm) fun _ => .inr
  · obtain ⟨hid, hclosed, hknown⟩ := h.entries e he l hl
    exact ⟨Nat.lt_succ_of_lt hid, fun b hb => ((hwait l b).1 hb).elim (hclosed b) (hne hid b),
      hknown.imp_left (henters l)⟩
  · rcases (hwait l b).1 hl with hl | hl
    · exact hl
    · exact absurd (Prod.mk.inj hl).2 hne
  · show w.labels.get? ⟨w.labels.next⟩ = none
    cases hget : w.labels.get? ⟨w.labels.next⟩ with
    | none => rfl
    | some pt => exact absurd (h.bound _ _ hget).1 (Nat.lt_irrefl _)
  · rcases (hwait _ b).1 hb with hb | hb
    · exact absurd (h.waiting _ _ hb).1 (Nat.lt_irrefl _)
    · exact (Prod.mk.inj hb).2
  · exact absurd (h.entries e he _ hl).1 (Nat.lt_irrefl _)

/-- An instruction of the buffer in use is changed into one that fits.  The place may cease to be a
branch without a target, or become one. -/
theorem Intact.setAt (h : Intact holes owed w) {i : Nat} {d : Draft} {f : Draft → Draft}
    (hat : w.at w.buffer i = some d) (hfits : w.Fits (holes' ++ w.breaks.flatten) owed ⟨w.buffer, i⟩ (f d))
    (hroom : i = 0 → ∃ n : Nat, f d = ⟨.allocStack, .int n⟩)
    (hjump : IsJump d.opcode → IsJump (f d).opcode)
    (hold : ∀ pt ∈ holes, pt ∈ holes' ∨ pt = ⟨w.buffer, i⟩)
    (hnew : ∀ pt ∈ holes', pt ∈ holes ∨ pt = ⟨w.buffer, i⟩ ∧ IsJump (f d).opcode) :
    Weaves holes' owed 0 w (w.setAt ⟨w.buffer, i⟩ f) := by
  have hself : (w.setAt ⟨w.buffer, i⟩ f).at w.buffer i = some (f d) := by
    rw [Writer.setAt_at, if_pos ⟨rfl, rfl⟩, hat]
    rfl
  have hother : ∀ {b k}, ¬ (b = w.buffer ∧ k = i) → (w.setAt ⟨w.buffer, i⟩ f).at b k = w.at b k :=
    fun hne => by rw [Writer.setAt_at, if_neg hne]
  have hlands : ∀ l b, w.Lands l b → (w.setAt ⟨w.buffer, i⟩ f).Lands l b := fun l b hl =>
    ⟨hl.points.imp fun _ hp => hp.congr rfl (by simp), hl.unnamed⟩
  have henters : ∀ l, w.Enters l → (w.setAt ⟨w.buffer, i⟩ f).Enters l := fun l hl =>
    ⟨by simpa using hl.bound, hl.closed⟩
  refine ⟨⟨by simpa using h.valid, h.level, fun l pt hl => ?_, fun l b hl => ?_, fun b hb => ?_,
    fun b k d' hd' => ?_, fun pt hpt => ?_, h.own, fun e he l hl => ?_⟩, ⟨rfl, by simp, hlands,
    henters, fun b _ hne => ?_, fun _ _ _ _ h => h, fun b hle hlt => ?_⟩, .refl _, rfl⟩
  · rw [Writer.setAt_sizeOf]
    exact h.bound l pt hl
  · rw [Writer.setAt_buffers_size]
    exact h.waiting l b hl
  · rw [Writer.setAt_buffers_size] at hb
    by_cases hbi : b = w.buffer ∧ 0 = i
    · obtain ⟨rfl, rfl⟩ := hbi
      -- only the first draft of a buffer has to go on making room for the variables
      obtain ⟨n, hn⟩ := hroom rfl
      exact ⟨n, hself.trans (congrArg some hn)⟩
    · rw [hother hbi]
      exact h.rooms b hb
  · by_cases hbi : b = w.buffer ∧ k = i
    · obtain ⟨rfl, rfl⟩ := hbi
      obtain rfl := Option.some.inj (hself.symm.trans hd')
      exact hfits.mono (hlands · _) henters (fun hm hj => .hole hj hm) fun _ => .inr
    · rw [hother hbi] at hd'
      refine (h.fits b k d' hd').mono (hlands · _) henters (fun hm hj => .hole hj ?_) fun _ => .inr
      rcases List.mem_append.1 hm with hm | hm
      · refine List.mem_append_left _ ((hold _ hm).resolve_right fun hpt => hbi ?_)
        exact CodePoint.mk.inj hpt
      · exact List.mem_append_right _ hm
  · by_cases hbi : pt = ⟨w.buffer, i⟩
    · subst hbi
      refine ⟨f d, hself, ?_⟩
      rcases List.mem_append.1 hpt with hpt | hpt
      · rcases hnew _ hpt with hpt | ⟨-, hj⟩
        · obtain ⟨d', hd', hj⟩ := h.branches _ (List.mem_append_left _ hpt)
          obtain rfl := Option.some.inj (hat.symm.trans hd')
          exact hjump hj
        · exact hj
      · obtain ⟨d', hd', hj⟩ := h.branches _ (List.mem_append_right _ hpt)
        obtain rfl := Option.some.inj (hat.symm.trans hd')
        exact hjump hj
    · have hpt' : pt ∈ holes ++ w.breaks.flatten := by
        rcases List.mem_append.1 hpt with hpt | hpt
        · exact List.mem_append_left _ ((hnew pt hpt).resolve_right fun hc => hbi hc.1)
        · exact List.mem_append_right _ hpt
      obtain ⟨d', hd', hj⟩ := h.branches pt hpt'
      refine ⟨d', (hother fun hc => hbi ?_).trans hd', hj⟩
      cases pt
      rw [CodePoint.mk.injEq]
      exact hc
  · obtain ⟨hid, hclosed, hknown⟩ := h.entries e he l hl
    exact ⟨hid, hclosed, hknown.imp_left (henters l)⟩
  · show (w.buffers.modify w.buffer _).getD b #[] = _
    rw [Writer.getD_modify _ _ _ _ (by simp), if_neg hne]
  · rw [Writer.setAt_buffers_size] at hlt
    exact absurd hlt (Nat.not_lt.2 hle)

/-- The first instruction of a buffer is no other than the one that makes room. -/
theorem Intact.not_first (h : Intact holes owed w) {i : Nat} {d : Draft}
    (hat : w.at w.buffer i = some d) (hd : d.opcode ≠ .allocStack) : i ≠ 0 := by
  rintro rfl
  obtain ⟨n, hn⟩ := h.rooms _ h.valid
  obtain rfl := Option.some.inj (hn.symm.trans hat)
  exact hd rfl

theorem IsJump.ne_allocStack {op : Opcode} (h : IsJump op) : op ≠ .allocStack := by
  rintro rfl
  rcases h with h | h | h | ⟨_, h⟩ <;> cases h

/-- A branch without a target gets one. -/
theorem Intact.patch {pt : CodePoint} {l : Label} (h : Intact (pt :: holes) owed w)
    (hb : pt.buffer = w.buffer) (hl : w.Lands l w.buffer) :
    Weaves holes owed 0 w (w.setAt pt fun d => { d with operand := .label l }) := by
  obtain ⟨b, i⟩ := pt
  obtain rfl : b = w.buffer := hb
  obtain ⟨d, hd, hj⟩ := h.branches _ (List.mem_append_left _ List.mem_cons_self)
  exact h.setAt hd (.jump hj hl) (fun h0 => absurd h0 (h.not_first hd hj.ne_allocStack)) id
    (fun _ hm => (List.mem_cons.1 hm).symm) fun _ hm => .inl (List.mem_cons_of_mem _ hm)

/-- A branch without a target is made to lead to the next instruction. -/
theorem Intact.land {pt : CodePoint} (h : Intact (pt :: holes) owed w) (hb : pt.buffer = w.buffer) :
    Weaves holes owed 0 w
      (w.openedLabel.setAt pt fun d => { d with operand := .label ⟨w.labels.next⟩ }) := by
  obtain ⟨hopen, hlands⟩ := h.openedLabel
  exact hopen.trans h.valid (hopen.intact.patch hb hlands)

/-- The order in which branches wait for their targets does not matter. -/
theorem Intact.reorder (h : Intact holes owed w) (hh : ∀ pt, pt ∈ holes' ↔ pt ∈ holes) :
    Intact holes' owed w := by
  have hsame : ∀ pt, pt ∈ holes' ++ w.breaks.flatten ↔ pt ∈ holes ++ w.breaks.flatten := fun pt => by
    rw [List.mem_append, List.mem_append, hh]
  exact ⟨h.valid, h.level, h.bound, h.waiting, h.rooms, fun b i d hd =>
    (h.fits b i d hd).mono (fun _ => id) (fun _ => id) (fun hm hj => .hole hj ((hsame _).2 hm))
      fun _ => .inr, fun pt hpt => h.branches pt ((hsame pt).1 hpt), h.own, h.entries⟩

theorem Weaves.reorder (h : Weaves holes owed n w w') (hh : ∀ pt, pt ∈ holes' ↔ pt ∈ holes) :
    Weaves holes' owed n w w' := ⟨h.intact.reorder hh, h.keeps, h.scopes, h.depth⟩

/-- The instruction written last becomes another one that is no branch. -/
theorem Intact.changeLast (h : Intact holes owed w) {d : Draft} {f : Draft → Draft}
    (hd : w.last? = some d) (hfits : w.Fits (holes ++ w.breaks.flatten) owed ⟨w.buffer, w.size - 1⟩ (f d))
    (hroom : d.opcode ≠ .allocStack) (hjump : ¬ IsJump d.opcode) :
    Weaves holes owed 0 w (w.setAt ⟨w.buffer, w.size - 1⟩ f) :=
  h.setAt hd hfits (fun h0 => absurd h0 (h.not_first hd hroom)) (fun hj => absurd hj hjump)
    (fun _ => .inl) fun _ => .inl

end Steps

/-! ### Code that leaves all intact -/

/-- Code that leaves all intact, wherever it is written, and in which a number of functions is
written. -/
def SafeFor {α : Type} (functions : Nat) (code : Write α) : Prop :=
  ∀ ⦃holes owed w a w'⦄, Intact holes owed w → code w = .ok (a, w') →
    Weaves holes owed functions w w'

/-- Code that leaves all intact, without functions. -/
abbrev Safe {α : Type} (code : Write α) : Prop := SafeFor 0 code

/-- Code that writes a branch without a target, and answers its place. -/
def Opens (code : Write CodePoint) : Prop :=
  ∀ ⦃holes owed w pt w'⦄, Intact holes owed w → code w = .ok (pt, w') →
    pt.buffer = w.buffer ∧ Weaves (pt :: holes) owed 0 w w'

section Safe

variable {α β : Type}

theorem SafeFor.bind {x : Write α} {f : α → Write β} (hx : SafeFor m x)
    (hf : ∀ a, SafeFor n (f a)) : SafeFor (m + n) (x >>= f) := by
  intro holes owed w b w' hw h
  obtain ⟨a, w₁, hxa, hfb⟩ := bind_eq_ok.1 h
  have h₁ := hx hw hxa
  exact h₁.trans hw.valid (hf a h₁.intact hfb)

theorem Safe.bind {x : Write α} {f : α → Write β} (hx : Safe x) (hf : ∀ a, Safe (f a)) :
    Safe (x >>= f) := SafeFor.bind hx hf

theorem Safe.pure (a : α) : Safe (pure a : Write α) := by
  intro holes owed w b w' hw h
  obtain ⟨rfl, rfl⟩ := pure_eq_ok.1 h
  exact .refl hw

theorem Safe.throw (e : CompileError) : Safe (throw e : Write α) := fun _ _ _ _ _ _ h =>
  (throw_eq_ok.1 h).elim

/-- Code that only looks at the writer. -/
theorem Safe.of_same {x : Write α} (hx : ∀ w a w', x w = .ok (a, w') → w' = w) : Safe x := by
  intro holes owed w a w' hw h
  obtain rfl := hx _ _ _ h
  exact .refl hw

theorem Safe.of_alike {x : Write α} (hx : ∀ w a w', x w = .ok (a, w') → Alike w w') : Safe x :=
  fun _ _ _ _ _ hw h => hw.alike (hx _ _ _ h)

theorem Safe.put {op : Opcode} {x : Operand} (hop : isPlain op = true) (hx : isClosed x = true) :
    Safe (Write.put op x) := by
  intro holes owed w a w' hw h
  obtain rfl := put_eq_ok.1 h
  exact hw.put hop hx

theorem Safe.setType (t : Ty) (a : Bool) : Safe (Write.setType t a) :=
  .of_alike fun w _ _ h => (setType_eq_ok.1 h) ▸ w.typed_alike t a

theorem Safe.lastType : Safe Write.lastType := .of_same fun _ _ _ h => (lastType_eq_ok.1 h).2

theorem Safe.orThrow (e : CompileError) (o : Option α) : Safe (Write.orThrow e o) :=
  .of_same fun _ _ _ h => (orThrow_eq_ok.1 h).2

theorem Safe.get : Safe (get : Write Writer) := .of_same fun _ _ _ h => (get_eq_ok.1 h).2

theorem SafeFor.discard {x : Write α} (hx : SafeFor n x) : SafeFor n (discard x) := by
  intro holes owed w a w' hw h
  obtain ⟨b, hb⟩ := discard_eq_ok.1 h
  exact hx hw hb

theorem Safe.ite {p : Prop} [Decidable p] {x y : Write α} (hx : Safe x) (hy : Safe y) :
    Safe (if p then x else y) := by
  split
  · exact hx
  · exact hy

theorem Safe.forM {f : α → Write Unit} {l : List α} (hf : ∀ a ∈ l, Safe (f a)) : Safe (l.forM f) := by
  induction l with
  | nil => exact .pure ()
  | cons a rest ih =>
    exact (hf a List.mem_cons_self).bind fun _ => ih fun b hb => hf b (List.mem_cons_of_mem _ hb)

theorem Safe.mapM {f : α → Write β} {l : List α} (hf : ∀ a ∈ l, Safe (f a)) : Safe (l.mapM f) := by
  induction l with
  | nil => exact .pure []
  | cons a rest ih =>
    rw [List.mapM_cons]
    exact (hf a List.mem_cons_self).bind fun _ =>
      (ih fun b hb => hf b (List.mem_cons_of_mem _ hb)).bind fun _ => .pure _

/-- What follows may rely on what was answered. -/
theorem Safe.bind_of {x : Write α} {f : α → Write β} (hx : Safe x)
    (hf : ∀ a w w', x w = .ok (a, w') → Safe (f a)) : Safe (x >>= f) := by
  intro holes owed w b w' hw h
  obtain ⟨a, w₁, hxa, hfb⟩ := bind_eq_ok.1 h
  have h₁ := hx hw hxa
  exact h₁.trans hw.valid (hf a w w₁ hxa h₁.intact hfb)

end Safe

/-! ### Rules -/

/-- No rule adds a branch or the name of a function. -/
theorem isPlain_of_isBinary {op : Opcode} (h : isBinary op = true) : isPlain op = true := by
  cases op <;> first | rfl | cases h

theorem isPlain_of_isUnary {op : Opcode} (h : isUnary op = true) : isPlain op = true := by
  cases op <;> first | rfl | cases h

/-- The load written last becomes a store or an update. -/
theorem Safe.replaceLoad {f : Opcode → Option Opcode}
    (hf : ∀ o o', f o = some o' → isPlain o = true ∧ o ≠ .allocStack ∧ isPlain o' = true) :
    Safe (Write.replaceLoad f) := by
  intro holes owed w a w' hw h
  obtain ⟨⟨op, x⟩, o', hd, ho, rfl⟩ := replaceLoad_eq_ok.1 h
  obtain ⟨hop, hroom, ho'⟩ := hf _ _ ho
  have hjump : ¬ IsJump op := fun hj => absurd hop (by simp [hj.not_plain])
  refine hw.changeLast hd (.plain ho' ?_) hroom hjump
  cases hw.fits _ _ _ hd with
  | jump hj => exact absurd hj hjump
  | hole hj => exact absurd hj hjump
  | function hn => exact absurd hop (by simp [hn.not_plain])
  | plain _ hx => exact hx

theorem Safe.storeLast : Safe (Write.replaceLoad storeFor?) := .replaceLoad fun o o' h => by
  rcases storeFor?_eq_some h with ⟨_, _, rfl, rfl⟩ | ⟨_, rfl, rfl⟩ | ⟨_, rfl, rfl⟩ <;>
    exact ⟨rfl, nofun, rfl⟩

theorem Safe.updateLast (u : Bytecode.Update) : Safe (Write.replaceLoad (updateFor? u)) :=
  .replaceLoad fun o o' h => by
    rcases updateFor?_eq_some h with ⟨_, _, rfl, rfl⟩ | ⟨_, rfl, rfl⟩ | ⟨_, rfl, rfl⟩ <;>
      exact ⟨rfl, nofun, rfl⟩

theorem Safe.applyRule {rule : Rule} {x : Operand}
    (hrule : ∀ o, rule.action = .emit o → isPlain o = true) (hx : isClosed x = true) :
    Safe (Write.applyRule rule x) := by
  unfold Write.applyRule
  dsimp only
  split
  · next o ho => exact (Safe.put (hrule o ho) hx).bind fun _ => .setType _ _
  · next u _ => exact (Safe.updateLast u).bind fun _ => .setType _ _
  · exact (Safe.throw _).bind fun _ => .setType _ _

theorem Safe.findRule (t : Ty) (o : Typing.Operation) : Safe (Write.findRule t o) := .orThrow _ _

theorem Safe.findShortCircuit (t : Ty) (o : Typing.Operation) : Safe (Write.findShortCircuit t o) :=
  (Safe.findRule t o).bind fun _ => .ite (.pure _) (.throw _)

theorem Safe.joinTypes (l r : Ty) (u : Usage) : Safe (Write.joinTypes l r u) := .orThrow _ _

theorem Safe.value {code : Write Unit} (hc : Safe code) (u : Usage) : Safe (Write.value code u) :=
  hc.bind fun _ => Safe.lastType.bind fun _ => .ite (.throw _) (.pure ())

theorem Safe.typedValue {code : Write Unit} (hc : Safe code) (u : Usage) :
    Safe (Write.typedValue code u) := (hc.value u).bind fun _ => .lastType

/-! ### Branches -/

theorem Opens.emit {op : Opcode} (hj : IsJump op) : Opens (Write.emit op .none) := by
  intro holes owed w pt w' hw h
  obtain ⟨rfl, rfl⟩ := emit_eq_ok.1 h
  exact ⟨rfl, hw.putHole hj⟩

theorem Opens.emitBranchIfFalse (setting : Setting) : Opens (Write.emitBranchIfFalse setting) := by
  intro holes owed w pt w' hw h
  rcases emitBranchIfFalse_eq_ok h with ⟨rfl, rfl⟩ | ⟨d, r, hd, hr, -, rfl, rfl⟩
  · exact ⟨rfl, hw.putHole (.inr (.inl rfl))⟩
  · have hj : IsJump (.branchInt (negation r)) := .inr (.inr (.inr ⟨_, rfl⟩))
    have hroom : d.opcode ≠ .allocStack := by rw [hr]; nofun
    refine ⟨rfl, hw.setAt hd (.hole hj List.mem_cons_self) (fun h0 => absurd h0 (hw.not_first hd hroom))
      (fun _ => hj) (fun _ hm => .inl (List.mem_cons_of_mem _ hm)) fun pt hm => ?_⟩
    exact (List.mem_cons.1 hm).symm.imp_right fun h => ⟨h, hj⟩

/-- Code that gives the branch at `pt` its target. -/
def Closes {α : Type} (pt : CodePoint) (code : Write α) : Prop :=
  ∀ ⦃holes owed w a w'⦄, Intact (pt :: holes) owed w → pt.buffer = w.buffer →
    code w = .ok (a, w') → Weaves holes owed 0 w w'

section Closes

variable {α β : Type} {pt : CodePoint}

theorem Safe.opened {x : Write CodePoint} {f : CodePoint → Write β} (hx : Opens x)
    (hf : ∀ pt, Closes pt (f pt)) : Safe (x >>= f) := by
  intro holes owed w b w' hw h
  obtain ⟨pt, w₁, h₁, h₂⟩ := bind_eq_ok.1 h
  obtain ⟨hb, hopen⟩ := hx hw h₁
  exact hopen.trans hw.valid (hf pt hopen.intact (hb.trans hopen.keeps.buffer.symm) h₂)

theorem Closes.bind {x : Write α} {f : α → Write β} (hx : Safe x) (hf : ∀ a, Closes pt (f a)) :
    Closes pt (x >>= f) := by
  intro holes owed w b w' hw hb h
  obtain ⟨a, w₁, h₁, h₂⟩ := bind_eq_ok.1 h
  have hone := hx hw h₁
  exact hone.trans hw.valid (hf a hone.intact (hb.trans hone.keeps.buffer.symm) h₂)

/-- The branch leads to what comes next. -/
theorem Closes.land {rest : Write β} (hr : Safe rest) :
    Closes pt (do Write.patch pt (← openLabel); rest) := by
  intro holes owed w b w' hw hb h
  simp only [bind_eq_ok, openLabel_eq_ok, patch_eq_ok] at h
  obtain ⟨_, _, ⟨rfl, rfl⟩, _, _, rfl, h⟩ := h
  have hland := hw.land hb
  exact hland.trans hw.valid (hr hland.intact h)

/-- The branch leads to what comes behind another one, which gets its own target later. -/
theorem Closes.over {x : Write CodePoint} {f : CodePoint → Write β} (hx : Opens x)
    (hf : ∀ pt', Closes pt' (f pt')) :
    Closes pt (do let pt' ← x; Write.patch pt (← openLabel); f pt') := by
  intro holes owed w b w' hw hb h
  simp only [bind_eq_ok, openLabel_eq_ok, patch_eq_ok] at h
  obtain ⟨pt', w₁, h₁, _, _, ⟨rfl, rfl⟩, _, _, rfl, h⟩ := h
  obtain ⟨hb', hopen⟩ := hx hw h₁
  have hswap : Intact (pt :: pt' :: holes) owed w₁ :=
    hopen.intact.reorder fun _ => by simp only [List.mem_cons]; tauto
  have hland := hopen.trans hw.valid (hswap.land (hb.trans hopen.keeps.buffer.symm))
  exact hland.trans hw.valid (hf pt' hland.intact (hb'.trans hland.keeps.buffer.symm) h)

end Closes

/-! ### Expressions -/

theorem literal_safe (v : Literal) : Safe (literal v) := by
  cases v <;> exact (Safe.put rfl rfl).bind fun _ => .setType _ _

theorem templatePart_safe {parts : List (Write Unit)} (hp : ∀ code ∈ parts, Safe code) :
    Safe (templatePart parts).1 ∧ ∀ code ∈ (templatePart parts).2, Safe code := by
  cases parts with
  | nil => exact ⟨.pure 0, nofun⟩
  | cons code parts =>
    exact ⟨((hp code List.mem_cons_self).value _).bind fun _ => .pure 1,
      fun other ho => hp other (List.mem_cons_of_mem _ ho)⟩

theorem templateParts_safe {chunks : List String} {parts : List (Write Unit)}
    (hp : ∀ code ∈ parts, Safe code) : Safe (templateParts chunks parts) := by
  induction chunks generalizing parts with
  | nil => exact .pure 0
  | cons chunk chunks ih =>
    obtain ⟨hpart, hrest⟩ := templatePart_safe hp
    have hpiece : ∀ n : Nat, Safe (do
        let count ← (templatePart parts).1
        return n + count + (← templateParts chunks (templatePart parts).2)) := fun n =>
      hpart.bind fun _ => (ih hrest).bind fun _ => .pure _
    unfold templateParts
    dsimp only
    split
    · exact hpiece 0
    · exact (Safe.put rfl rfl).bind fun _ => hpiece 1

theorem template_safe {chunks : List String} {parts : List (Write Unit)}
    (hp : ∀ code ∈ parts, Safe code) : Safe (template chunks parts) := by
  refine (templateParts_safe hp).bind fun count => ?_
  by_cases hcount : (count == 0) = true
  · rw [if_pos hcount]
    exact (Safe.put rfl rfl).bind fun _ => .setType _ _
  · rw [if_neg hcount]
    exact (Safe.put rfl rfl).bind fun _ => .setType _ _

theorem collection_safe {items : List (Write Unit)} {op : Opcode} {t : Ty}
    (hi : ∀ code ∈ items, Safe code) (hop : isPlain op = true) : Safe (collection items op t) :=
  (Safe.forM fun code hc => (hi code hc).value _).bind fun _ =>
    (Safe.put hop rfl).bind fun _ => .setType _ _

theorem object_safe {fields : List (String × Write Unit)} (hf : ∀ f ∈ fields, Safe f.2) :
    Safe (object fields) :=
  (Safe.forM fun f hm => (Safe.put rfl rfl).bind fun _ => (hf f hm).value _).bind fun _ =>
    (Safe.put rfl rfl).bind fun _ => .setType _ _

/-- The label of a function that a name stands for leads to the function, or is owed. -/
theorem function_safe (setting : Setting) {s : String} {e : Entity} {l : Label}
    (hw : Intact holes owed w) (he : w.scopes.resolve setting.environment s = .ok e)
    (hl : e.location = .entry l) : Weaves holes owed 0 w (w.add ⟨.loadFunction, .label l⟩) := by
  have hm := (ScopeChain.Sound.mem_of_resolve he (by rw [hl]; nofun)).1
  exact hw.add (.function (.inl rfl) (hw.entries e hm l hl).2.2) (fun _ h => h) fun _ h => .inl h

theorem name_safe (setting : Setting) (s : String) : Safe (name setting s) := by
  intro holes owed w u w' hw h
  simp only [name, bind_eq_ok, resolveName_eq_ok, modify_eq_ok] at h
  obtain ⟨e, w, ⟨he, rfl⟩, _, w₁, hw₁, h⟩ := h
  have hnote : Weaves holes owed 0 w w₁ := hw.alike (hw₁ ▸ ⟨rfl, rfl, rfl, rfl, rfl⟩)
  refine hnote.trans hw.valid (n := 0) ?_
  cases hl : e.location with
  | external =>
    simp only [hl] at h
    exact ((Safe.put rfl rfl).bind fun _ => Safe.setType _ _) hnote.intact h
  | entry l =>
    simp only [hl, bind_eq_ok, put_eq_ok, setType_eq_ok, modify_eq_ok] at h
    obtain ⟨_, _, rfl, _, _, rfl, rfl⟩ := h
    have hadd : Weaves holes owed 0 w₁ (w₁.add ⟨.loadFunction, .label l⟩) := by
      refine function_safe setting hnote.intact (s := s) (e := e) ?_ hl
      rw [hw₁]
      exact he
    refine hadd.trans hnote.intact.valid (n := 0) (hadd.intact.alike ?_)
    exact ⟨rfl, rfl, rfl, rfl, rfl⟩
  | slot i =>
    simp only [hl] at h
    refine Safe.bind (Safe.of_same fun _ _ _ h => (areaOf_eq_ok h).1) (fun area => ?_) hnote.intact h
    refine (Safe.findRule _ _).bind_of fun rule w w' hrule => .applyRule (fun o ho => ?_) rfl
    obtain ⟨-, rfl⟩ := Ty.slotRule?_eq_some.1 (findRule_eq_ok.1 hrule).1
    obtain rfl := Action.emit.inj ho
    rfl

theorem checkAssignable_safe (setting : Setting) (target : Expr) :
    Safe (checkAssignable setting target) :=
  .of_same fun _ _ _ h => (checkAssignable_eq_ok h).1

theorem assignmentTarget_safe {setting : Setting} {target : Expr} {code : Write Unit}
    (hc : Safe code) : Safe (assignmentTarget setting target code) :=
  (checkAssignable_safe setting target).bind fun _ => hc.bind fun _ => Safe.get.bind fun _ => by
    dsimp only
    split
    · exact (Safe.throw _).bind fun _ => .lastType
    · exact .lastType

theorem update_safe {setting : Setting} {op : UnaryOp} {side : Side} {target : Expr}
    {code : Write Unit} (hop : op = .increment ∨ op = .decrement) (hc : Safe code) :
    Safe (update setting op side target code) := by
  refine (assignmentTarget_safe hc).bind fun t => (Safe.findRule _ _).bind_of fun rule w w' hrule => ?_
  refine .applyRule (fun o ho => ?_) rfl
  rw [Ty.unaryRule?_updates (findRule_eq_ok.1 hrule).1 hop] at ho
  cases ho

theorem unary_safe {op : UnaryOp} {code : Write Unit} (hop : op = .minus ∨ op = .not)
    (hc : Safe code) : Safe (unary op code) := by
  refine (hc.typedValue _).bind fun t => (Safe.findRule _ _).bind_of fun rule w w' hrule => ?_
  refine .applyRule (fun o ho => ?_) rfl
  obtain ⟨o', ho', hu, -⟩ := Ty.unaryRule?_emits (findRule_eq_ok.1 hrule).1 hop
  exact Action.emit.inj (ho.symm.trans ho') ▸ isPlain_of_isUnary hu

theorem binary_safe {op : BinaryOp} {left right : Write Unit} (hop : op.isLogical = false)
    (hl : Safe left) (hr : Safe right) : Safe (binary op left right) := by
  refine (hl.typedValue _).bind fun _ => (hr.typedValue _).bind fun _ => (Safe.joinTypes _ _ _).bind
    fun t => (Safe.findRule _ _).bind_of fun rule w w' hrule => .applyRule (fun o ho => ?_) rfl
  obtain ⟨o', ho', hb, -⟩ := Ty.binaryRule?_emits (findRule_eq_ok.1 hrule).1 hop
  exact Action.emit.inj (ho.symm.trans ho') ▸ isPlain_of_isBinary hb

theorem logical_safe {op : BinaryOp} {left right : Write Unit} (hl : Safe left) (hr : Safe right) :
    Safe (logical op left right) := by
  refine (hl.typedValue _).bind fun _ => Safe.opened (.emit ?_) fun branch => ?_
  · split
    · exact .inr (.inr (.inl rfl))
    · exact .inr (.inl rfl)
  refine .bind (hr.typedValue _) fun _ => .bind (.joinTypes _ _ _) fun t => .bind (.findShortCircuit _ _)
    fun rule => .over (.emit (.inl rfl)) fun skip => .bind (.put rfl rfl) fun _ =>
      .land (.setType _ _)

theorem ternary_safe {setting : Setting} {test yes no : Write Unit} (ht : Safe test) (hy : Safe yes)
    (hn : Safe no) : Safe (ternary setting test yes no) :=
  (ht.value _).bind fun _ => Safe.opened (.emitBranchIfFalse setting) fun _ =>
    .bind (hy.typedValue _) fun _ => .over (.emit (.inl rfl)) fun _ => .bind (hn.typedValue _) fun _ =>
      .land ((Safe.joinTypes _ _ _).bind fun _ => .setType _ _)

theorem member_safe {code : Write Unit} (hc : Safe code) (field : String) : Safe (member code field) := by
  refine (hc.typedValue _).bind fun t => (Safe.orThrow _ _).bind_of fun rule w w' hrule =>
    .applyRule (fun o ho => ?_) rfl
  obtain ⟨_, ho', -⟩ := Ty.fieldRule_emits (orThrow_eq_ok.1 hrule).1
  obtain rfl := Action.emit.inj (ho'.symm.trans ho)
  rfl

theorem index_safe {code : Write Unit} {indices : List (Write Unit)} (hc : Safe code)
    (hi : ∀ i ∈ indices, Safe i) : Safe (index code indices) := by
  refine (hc.typedValue _).bind fun t => (Safe.forM fun i hm => (hi i hm).value _).bind fun _ =>
    (Safe.orThrow _ _).bind_of fun rule w w' hrule => .applyRule (fun o ho => ?_) rfl
  obtain ⟨_, ho', -⟩ := Ty.elementRule?_emits (orThrow_eq_ok.1 hrule).1
  obtain rfl := Action.emit.inj (ho'.symm.trans ho)
  rfl

theorem assign_safe {setting : Setting} {code targetCode : Write Unit} {target : Expr}
    (hc : Safe code) (ht : Safe targetCode) : Safe (assign setting code target targetCode) := by
  refine hc.bind fun _ => Safe.lastType.bind fun _ => (assignmentTarget_safe ht).bind fun _ => ?_
  dsimp only
  split
  · exact (Safe.throw _).bind fun _ => Safe.storeLast.bind fun _ => .setType _ _
  · exact Safe.storeLast.bind fun _ => .setType _ _

/-- The load of a function becomes its call. -/
theorem callFunction_safe {types : List Ty} {known : Option (String × Signature)} {x : Operand}
    (hw : Intact holes owed w) (hd : w.last? = some ⟨.loadFunction, x⟩)
    (h : callFunction types known w = .ok ((), w')) : Weaves holes owed 0 w w' := by
  obtain ⟨f, s, -, -, w₁, hw₁, rfl⟩ := callFunction_eq_ok h
  have hcall : Weaves holes owed 0 w w₁ := by
    subst hw₁
    refine hw.changeLast hd ?_ nofun (by rintro (h | h | h | ⟨_, h⟩) <;> cases h)
    generalize hdraft : (⟨.loadFunction, x⟩ : Draft) = d at hd
    cases hw.fits _ _ _ hd with
    | jump hj | hole hj =>
      obtain ⟨rfl, rfl⟩ := Draft.mk.inj hdraft
      exact absurd hj.not_plain (by
        rcases hj with h | h | h | ⟨_, h⟩ <;> cases h)
    | function _ hk =>
      obtain ⟨rfl, rfl⟩ := Draft.mk.inj hdraft
      exact .function (.inr rfl) hk
    | plain hp =>
      rw [← hdraft] at hp
      cases hp
  have hdrop : Weaves holes owed 0 w (if types.isEmpty then w₁ else w₁.add ⟨.popStack, .int types.length⟩) := by
    split
    · exact hcall
    · exact hcall.trans hw.valid (hcall.intact.put rfl rfl)
  have hpush := hdrop.trans hw.valid
    (hdrop.intact.put (o := pushReturnFor s.returns) (x := .none) rfl rfl)
  exact hpush.trans hw.valid (hpush.intact.typed _ _)

theorem callHost_safe (count : Nat) : Safe (callHost count) :=
  (Safe.put rfl rfl).bind fun _ => (Safe.put rfl rfl).bind fun _ => .setType _ _

theorem call_safe {arguments : List (Write Unit)} {callee : Write Unit}
    (ha : ∀ a ∈ arguments, Safe a) (hc : Safe callee) : Safe (call arguments callee) := by
  refine (Safe.mapM fun a hm => (ha a hm).typedValue _).bind fun types => hc.bind fun _ =>
    Safe.lastType.bind fun t => Safe.get.bind fun w => ?_
  refine Safe.bind (Safe.of_alike fun w _ _ h => ?_) fun _ => ?_
  · obtain rfl := modify_eq_ok.1 h
    exact ⟨rfl, rfl, rfl, rfl, rfl⟩
  intro holes owed w u w' hw h
  simp only [bind_eq_ok, lastOpcode_eq_ok] at h
  obtain ⟨_, w, ⟨rfl, rfl⟩, h⟩ := h
  have host : ∀ {op : Opcode}, (if leavesHostFunction op && (t == .any || t == .function) then
      callHost types.length else throw (.notCallable t)) w = .ok ((), w') → Weaves holes owed 0 w w' :=
    fun h => Safe.ite (callHost_safe _) (.throw _) hw h
  cases hlast : w.last? with
  | none =>
    rw [hlast] at h
    exact (throw_eq_ok.1 h).elim
  | some d =>
    obtain ⟨op, x⟩ := d
    rw [hlast] at h
    by_cases hf : op = .loadFunction
    · subst hf
      exact callFunction_safe hw hlast h
    by_cases he : op = .loadExternal
    · subst he
      exact callHost_safe _ hw h
    cases op <;> first | contradiction | exact host h

mutual

/-- The code of an expression leaves all intact. -/
theorem expr_safe (setting : Setting) : (e : Expr) → Safe (expr setting e)
  | .literal v => by
    rw [expr]
    exact literal_safe v
  | .template chunks parts => by
    rw [expr]
    exact template_safe (exprs_safe setting parts)
  | .name s => by
    rw [expr]
    exact name_safe setting s
  | .unary op side operand => by
    have hc := expr_safe setting operand
    cases op <;> simp only [expr]
    case increment => exact update_safe (.inl rfl) hc
    case decrement => exact update_safe (.inr rfl) hc
    case minus => exact unary_safe (.inl rfl) hc
    case not => exact unary_safe (.inr rfl) hc
  | .binary op left right => by
    rw [expr]
    split
    · exact logical_safe (expr_safe setting left) (expr_safe setting right)
    · next hop => exact binary_safe (by simpa using hop) (expr_safe setting left) (expr_safe setting right)
  | .member object field => by
    rw [expr]
    exact member_safe (expr_safe setting object) field
  | .index object indices => by
    rw [expr]
    exact index_safe (expr_safe setting object) (exprs_safe setting indices)
  | .call callee arguments => by
    rw [expr]
    exact call_safe (exprs_safe setting arguments) (expr_safe setting callee)
  | .assign op target v => by
    have ht := expr_safe setting target
    have hv := expr_safe setting v
    rw [expr]
    split
    · next o ho => exact assign_safe (binary_safe (AssignOp.binary?_plain ho) ht hv) ht
    · exact assign_safe (hv.value _) ht
  | .array items => by
    rw [expr]
    exact collection_safe (exprs_safe setting items) rfl
  | .set items => by
    rw [expr]
    exact collection_safe (exprs_safe setting items) rfl
  | .object fields => by
    rw [expr]
    exact object_safe (fieldExprs_safe setting fields)
  | .ternary test yes no => by
    rw [expr]
    exact ternary_safe (expr_safe setting test) (expr_safe setting yes) (expr_safe setting no)

theorem exprs_safe (setting : Setting) : (es : List Expr) → ∀ code ∈ exprs setting es, Safe code
  | [] => by
    rw [exprs]
    nofun
  | e :: es => by
    rw [exprs]
    exact List.forall_mem_cons.2 ⟨expr_safe setting e, exprs_safe setting es⟩

theorem fieldExprs_safe (setting : Setting) :
    (fields : List (String × Expr)) → ∀ f ∈ fieldExprs setting fields, Safe f.2
  | [] => by
    rw [fieldExprs]
    nofun
  | (key, e) :: fields => by
    rw [fieldExprs, fieldExpr]
    exact List.forall_mem_cons.2 ⟨expr_safe setting e, fieldExprs_safe setting fields⟩

end

end StackScript.Assembly
