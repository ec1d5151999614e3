import Mathlib.Data.List.Forall2
import StackScript.Proofs.Linked
import StackScript.Proofs.Rules

/-!
# The code that is written for expressions

For each kind of expression, that what is written for it has the shape of its code in the finished
program (`ExprWritten`), given this of the parts.  `expr_written` puts these together along the
tree.
-/

namespace StackScript.Assembly

open Typing Bytecode Host Syntax Assembly.Write

/-- Do branches of the expression's own code meet behind its end? -/
def endsAtJoin : Expr → Bool
  | .ternary .. => true
  | .binary op _ _ => op.isLogical
  | _ => false

/-- What was there before stays as it is, but for the room for variables. -/
def Still (w w' : Writer) : Prop := ∀ i, i ≠ 0 → i < w.size → w'.at w.buffer i = w.at w.buffer i

theorem Still.trans {w w₁ w₂ : Writer} (h : Still w w₁) (h' : Still w₁ w₂)
    (hb : w₁.buffer = w.buffer) (hs : w.size ≤ w₁.size) : Still w w₂ := fun i hi hlt =>
  (hb ▸ h' i hi (Nat.lt_of_lt_of_le hlt hs)).trans (h i hi hlt)

/-- A stretch of writing without declarations and without jumps out of loops. -/
structure Stretch (arity : Nat → Nat) (w w' : Writer) : Prop extends Leads arity w.size w w' where
  scopes : w'.scopes = w.scopes
  breaks : w'.breaks = w.breaks
  count : w'.buffers.size = w.buffers.size
  still : Still w w'

namespace Stretch

variable {arity : Nat → Nat} {w w₁ w₂ : Writer}

theorem refl (h : Wf arity w) : Stretch arity w w := ⟨.refl h, rfl, rfl, rfl, fun _ _ _ => rfl⟩

theorem trans (h : Stretch arity w w₁) (h' : Stretch arity w₁ w₂) : Stretch arity w w₂ :=
  ⟨h.toLeads.append h'.toLeads, h'.scopes.trans h.scopes, h'.breaks.trans h.breaks,
    h'.count.trans h.count, h.still.trans h'.still h.frame.buffer h.frame.size⟩

theorem buffer (h : Stretch arity w w₁) : w₁.buffer = w.buffer := h.frame.buffer

theorem add (h : Stretch arity w w₁) (d : Draft) : Stretch arity w (w₁.add d) :=
  h.trans ⟨h.wf.add d, rfl, rfl, by simp, fun _ _ hi => Writer.add_at_old h.wf.valid hi⟩

theorem openedLabel (h : Stretch arity w w₁) : Stretch arity w w₁.openedLabel :=
  h.trans ⟨h.wf.openedLabel, rfl, rfl, rfl, fun _ _ _ => rfl⟩

theorem alike (h : Stretch arity w w₁) (ha : Alike w₁ w₂) : Stretch arity w w₂ :=
  h.trans ⟨ha.leads h.wf, ha.scopes, ha.breaks, by rw [ha.buffers], fun _ _ _ => ha.at_eq _ _⟩

theorem typed (h : Stretch arity w w₁) (t : Ty) (a : Bool) : Stretch arity w (w₁.typed t a) :=
  h.alike (w₁.typed_alike t a)

theorem not_jump (h : Stretch arity w w₁) (hw : Wf arity w) {i : Nat} (hi : w.size ≤ i) :
    ⟨w₁.buffer, i⟩ ∉ w₁.breaks.flatten := fun hm =>
  absurd (Writer.at_lt (hw.jumps _ (h.breaks ▸ hm)).2) (Nat.not_lt.2 hi)

/-- An instruction of the stretch is changed. -/
theorem setAt (h : Stretch arity w w₁) {n i : Nat} {f : Draft → Draft} (hi : w.size ≤ i) (hn : w.size ≤ n)
    (hset : Leads arity n w₁ (w₁.setAt ⟨w₁.buffer, i⟩ f)) :
    Stretch arity w (w₁.setAt ⟨w₁.buffer, i⟩ f) := by
  refine ⟨h.toLeads.trans hset hn, h.scopes, h.breaks, by simpa using h.count, fun k hk hlt => ?_⟩
  rw [Writer.setAt_at, if_neg (by rintro ⟨-, rfl⟩; exact absurd hlt (Nat.not_lt.2 hi))]
  exact h.still k hk hlt

/-- The last instruction of a stretch is replaced. -/
theorem replaced (h : Stretch arity w w₁) (hw : Wf arity w) (hg : w.size < w₁.size)
    (f : Draft → Draft) :
    Leads arity (w₁.size - 1) w₁ (w₁.setAt ⟨w₁.buffer, w₁.size - 1⟩ f) ∧
      Stretch arity w (w₁.setAt ⟨w₁.buffer, w₁.size - 1⟩ f) := by
  have hpos := hw.size_pos
  have hset : Leads arity (w₁.size - 1) w₁ (w₁.setAt ⟨w₁.buffer, w₁.size - 1⟩ f) :=
    h.wf.setAt (by omega) (fun _ _ => h.not_jump hw (by omega)) fun hlt => absurd hlt (Nat.lt_irrefl _)
  exact ⟨hset, h.setAt (by omega) (by omega) hset⟩

/-- A branch of the stretch is made to lead to the next instruction. -/
theorem landed (h : Stretch arity w w₁) (hw : Wf arity w) {i : Nat} {op : Opcode} (hi : w.size ≤ i)
    (hat : w₁.at w₁.buffer i = some ⟨op, .none⟩) (hop : IsJump op) :
    Stretch arity w (w₁.landed i) := by
  have hpos := hw.size_pos
  refine ⟨h.toLeads.append (h.wf.landed (by omega) hat hop (h.not_jump hw hi)), h.scopes, h.breaks,
    by simpa [Writer.landed] using h.count, fun k hk hlt => ?_⟩
  rw [Writer.landed_at_ne (by omega)]
  exact h.still k hk hlt

/-- An instruction of a stretch stays as it is in the next stretch. -/
theorem still_at (h : Stretch arity w w₁) {i : Nat} {d : Draft} (hi : i ≠ 0)
    (hat : w.at w.buffer i = some d) : w₁.at w₁.buffer i = some d := by
  rw [h.buffer, h.still i hi (Writer.at_lt hat), hat]

end Stretch

theorem Link.draft_eq {K : Link} {d : Draft} (h : ∀ l, d.operand ≠ .label l) : K.draft d = d := by
  obtain ⟨op, x⟩ := d
  cases x <;> first | rfl | exact absurd rfl (h _)

/-- The last instruction of an expression is no jump, no branch and no room for variables. -/
theorem ExprCode.last_closed {L : Layout} {r : Room} {c : ScopeChain} {e : Expr} {p q : Nat}
    {d : Draft} {t : Ty} {a : Bool} : ExprCode L r c e p q d t a → isOpen d.opcode = false
  | @ExprCode.literal _ _ _ v _ => by cases v <;> rfl
  | @ExprCode.template _ _ _ _ _ _ _ n _ => by
    unfold templateDraft
    split <;> rfl
  | .external .. => rfl
  | .function .. => rfl
  | .variable .. => rfl
  | .update _ _ _ _ _ load _ => by
    rcases updateFor?_eq_some load with ⟨_, _, -, rfl⟩ | ⟨_, -, rfl⟩ | ⟨_, -, rfl⟩ <;> rfl
  | .unary computes _ found action => by
    obtain ⟨o, ho, hu, -⟩ := Ty.unaryRule?_emits found computes
    obtain rfl := Action.emit.inj (ho.symm.trans action)
    cases o <;> first | rfl | cases hu
  | .binary plain _ _ _ found action => by
    obtain ⟨o, ho, hu, -⟩ := Ty.binaryRule?_emits found plain
    obtain rfl := Action.emit.inj (ho.symm.trans action)
    cases o <;> first | rfl | cases hu
  | .logical .. => rfl
  | .ternary _ _ _ second _ _ => second.last_closed
  | .member _ found action => by
    obtain ⟨_, ho, -⟩ := Ty.fieldRule_emits found
    obtain rfl := Action.emit.inj (ho.symm.trans action)
    rfl
  | .index _ _ found action => by
    obtain ⟨_, ho, -⟩ := Ty.elementRule?_emits found
    obtain rfl := Action.emit.inj (ho.symm.trans action)
    rfl
  | .callFunction .. => rfl
  | .callHost .. => rfl
  | .assign _ _ _ _ load => by
    rcases storeFor?_eq_some load with ⟨_, _, -, rfl⟩ | ⟨_, -, rfl⟩ | ⟨_, -, rfl⟩ <;> rfl
  | .array .. => rfl
  | .set .. => rfl
  | .object .. => rfl

/-- An instruction that is no load of a function, and whose operand is no label. -/
def Draft.Plain (d : Draft) : Prop := d.opcode ≠ .loadFunction ∧ ∀ l, d.operand ≠ .label l

/-- What is written for an expression. -/
structure ExprWritten (K : Link) (e : Expr) (w w' : Writer) : Prop extends Stretch K.arity w w' where
  grows : w.size < w'.size
  joins : endsAtJoin e = true → w'.labels.hasWaiting w'.buffer = true
  last : ∀ d, w'.last? = some d → d.Plain ∨ ∃ l f s, d = ⟨.loadFunction, .label l⟩ ∧
    w'.callee = some (f, s) ∧ w'.Promise K.arity l s.params.length
  code : ∀ d, w'.last? = some d → Kept K (w'.size - 1) w' →
    ExprCode K.layout (K.room w.buffer) w.scopes e (K.base w.buffer + w.size)
      (K.base w.buffer + w'.size) (K.draft d) w'.type w'.assignable

/-- What is written for an expression that leaves a value. -/
structure ValueWritten (K : Link) (e : Expr) (w w' : Writer) : Prop
    extends Stretch K.arity w w' where
  grows : w.size < w'.size
  leaves : w'.type ≠ .void
  code : Kept K w'.size w' → ValueCode K.layout (K.room w.buffer) w.scopes e
    (K.base w.buffer + w.size) (K.base w.buffer + w'.size) w'.type

/-- The code that `code` writes is that of an expression. -/
def Writes (K : Link) (code : Write Unit) (e : Expr) : Prop :=
  ∀ ⦃w w'⦄, Wf K.arity w → code w = .ok ((), w') → ExprWritten K e w w'

variable {K : Link} {w w₁ w₂ w' : Writer} {e : Expr} {d : Draft} {t : Ty} {a : Bool}

theorem ExprWritten.last_some (h : ExprWritten K e w w') : ∃ d, w'.last? = some d :=
  Writer.at_isSome (Nat.sub_lt (Nat.lt_of_le_of_lt (Nat.zero_le _) h.grows) Nat.one_pos)

/-- The last instruction of an expression that is not replaced. -/
theorem ExprWritten.in_place (h : ExprWritten K e w w') (hk : Kept K w'.size w') :
    ∃ q d, K.base w.buffer + w'.size = q + 1 ∧ ExprCode K.layout (K.room w.buffer) w.scopes e
      (K.base w.buffer + w.size) (q + 1) d w'.type w'.assignable ∧ K.layout.Has q d := by
  obtain ⟨d, hd⟩ := h.last_some
  have hgrows := h.grows
  have hc := h.code d hd (hk.front .refl (by omega) (by omega))
  have hhas := hk.has (i := w'.size - 1) (by omega) hd (Draft.final_of_closed hc.last_closed)
  rw [h.buffer] at hhas
  refine ⟨K.base w.buffer + (w'.size - 1), K.draft d, by omega, ?_, hhas⟩
  rwa [show K.base w.buffer + (w'.size - 1) + 1 = K.base w.buffer + w'.size by omega]

theorem ExprWritten.value (h : ExprWritten K e w w') (ht : w'.type ≠ .void) :
    ValueWritten K e w w' := by
  refine ⟨h.toStretch, h.grows, ht, fun hk => ?_⟩
  obtain ⟨q, d, hq, hc, hhas⟩ := h.in_place hk
  rw [hq]
  exact .value hc hhas ht

/-- An expression whose code ends in an instruction of its own. -/
theorem ExprWritten.of_add (h : Stretch K.arity w w₁) (he : endsAtJoin e = false)
    (hd : d.Plain)
    (hc : Kept K w₁.size w₁ → ExprCode K.layout (K.room w.buffer) w.scopes e
      (K.base w.buffer + w.size) (K.base w.buffer + w₁.size + 1) d t a) :
    ExprWritten K e w ((w₁.add d).typed t a) := by
  have hs : ((w₁.add d).typed t a).size = w₁.size + 1 := h.wf.add_size d
  have hl : ((w₁.add d).typed t a).last? = some d := by
    rw [Writer.last?, hs]
    exact h.wf.add_last d
  refine ⟨(h.add d).typed t a, ?_, fun hj => ?_, fun d' hd' => ?_, fun d' hd' hk => ?_⟩
  · rw [hs]
    exact Nat.lt_succ_of_le h.frame.size
  · rw [he] at hj
    exact absurd hj (by simp)
  · obtain rfl := Option.some.inj (hl.symm.trans hd')
    exact .inl hd
  · obtain rfl := Option.some.inj (hl.symm.trans hd')
    rw [hs, Nat.add_sub_cancel] at hk
    have hf := ((Stretch.refl h.wf).add d |>.typed t a).frame
    rw [Link.draft_eq hd.2, hs]
    exact hc (hk.whole hf (Nat.le_refl _))

/-! ### Literals and names -/

theorem literal_writes (v : Literal) : Writes K (literal v) (.literal v) := by
  intro w w' hw h
  have heq : w' = (w.add (literalDraft v)).typed (literalType v) false := by
    cases v <;>
    · simp only [literal, bind_eq_ok, put_eq_ok, setType_eq_ok] at h
      obtain ⟨_, _, rfl, rfl⟩ := h
      rfl
  subst heq
  refine .of_add (.refl hw) rfl ?_ fun _ => .literal
  cases v <;> exact ⟨by rintro ⟨⟩, by rintro _ ⟨⟩⟩

theorem areaOf_eq_ok {e : Entity} {area : Area} (h : areaOf e w = .ok (area, w')) :
    w' = w ∧ ((area = .own ∧ e.frame = w.scopes.functionDepth) ∨
      (area = .top ∧ e.frame ≠ w.scopes.functionDepth ∧ e.frame = 0)) := by
  simp only [areaOf, bind_eq_ok, get_eq_ok] at h
  obtain ⟨_, _, ⟨hw, hw'⟩, h⟩ := h
  rw [hw, hw'] at h
  split at h
  · next hf =>
    obtain ⟨rfl, rfl⟩ := pure_eq_ok.1 h
    exact ⟨rfl, .inl ⟨rfl, by simpa using hf⟩⟩
  · next hf =>
    split at h
    · next h0 =>
      obtain ⟨rfl, rfl⟩ := pure_eq_ok.1 h
      exact ⟨rfl, .inr ⟨rfl, by simpa using hf, by simpa using h0⟩⟩
    · exact (throw_eq_ok.1 h).elim

/-- There is a variable where a name is placed. -/
theorem reaches_of_placed {n : Nat} {s : String} {area : Area} {i : Int} (hw : Wf K.arity w)
    (hk : Kept K n w) (hn : 0 < n) (h : w.scopes.Placed (K.arity w.buffer) s area i) :
    K.layout.Reaches (K.room w.buffer) area i := by
  have hroom := hk.room hw hn
  have htop := hk.top hw hn
  cases h with
  | frame hi =>
    have := (Array.getElem?_eq_some_iff.1 hi).1
    exact .inl ⟨by omega, by show (_ : Int) < (K.slots w.buffer : Nat); omega⟩
  | param hi => exact .inr ⟨by show -2 - ((K.arity w.buffer : Nat) : Int) ≤ _; simp; omega, by simp; omega⟩
  | top _ hi =>
    have := (Array.getElem?_eq_some_iff.1 hi).1
    exact ⟨by omega, by show (_ : Int) < (K.slots 0 : Nat); omega⟩

/-- The name of a function is written as the load of its label. -/
theorem function_written {s : String} {f : Entity} {l : Label} (hw : Wf K.arity w)
    (hr : w.scopes.resolve K.environment s = .ok f) (hl : f.location = .entry l)
    (ha : Alike w w₁) (ha' : Alike (w₁.add ⟨.loadFunction, .label l⟩) w') (ht : w'.type = .function)
    (hta : w'.assignable = true)
    (hc : w'.callee = f.signature.map fun signature => (f.name, signature)) :
    ExprWritten K (.name s) w w' := by
  have hs : Stretch K.arity w w₁ := (Stretch.refl hw).alike ha
  have hs' : Stretch K.arity w w' := (hs.add _).alike ha'
  have hsize : w'.size = w.size + 1 := by rw [ha'.size_eq, hs.wf.add_size, ha.size_eq]
  have hlast : w'.last? = some ⟨.loadFunction, .label l⟩ := by
    rw [Writer.last?, hsize, ha'.at_eq, ha'.buffer, ← ha.size_eq]
    exact hs.wf.add_last _
  obtain ⟨sig, hsig, hp⟩ :=
    hw.entries f (ScopeChain.Sound.mem_of_resolve hr (by simp [hl])).1 l hl
  have hp' := hs'.frame.promise l _ hp
  refine ⟨hs', by omega, by rintro ⟨⟩, fun d hd => ?_, fun d hd hk => ?_⟩
  · obtain rfl := Option.some.inj (hlast.symm.trans hd)
    exact .inr ⟨l, f.name, sig, rfl, by rw [hc, hsig]; rfl, hp'⟩
  · obtain rfl := Option.some.inj (hlast.symm.trans hd)
    obtain ⟨t, hlt⟩ := hk.bound (Nat.le_refl _) hd rfl
    rw [Link.draft_label hlt, ht, hta, hsize]
    exact .function hr hl hlt (hk.promise l _ hp' t hlt)

theorem name_writes {setting : Setting} (hK : K.environment = setting.environment) (s : String) :
    Writes K (name setting s) (.name s) := by
  intro w w' hw h
  simp only [Write.name, bind_eq_ok, resolveName_eq_ok, modify_eq_ok] at h
  obtain ⟨e, w, ⟨hr, rfl⟩, _, w₁, hw₁, h⟩ := h
  rw [← hK] at hr
  have ha : Alike w w₁ := hw₁ ▸ ⟨rfl, rfl, rfl, rfl, rfl⟩
  have hs : Stretch K.arity w w₁ := (Stretch.refl hw).alike ha
  cases hl : e.location with
  | external =>
    simp only [hl, bind_eq_ok, put_eq_ok, setType_eq_ok] at h
    obtain ⟨_, _, rfl, rfl⟩ := h
    refine .of_add hs rfl ⟨by rintro ⟨⟩, by rintro _ ⟨⟩⟩ fun _ => ?_
    rw [ha.size_eq]
    exact .external hr hl
  | entry l =>
    simp only [hl, bind_eq_ok, put_eq_ok, setType_eq_ok, modify_eq_ok] at h
    obtain ⟨_, w₂, rfl, _, w₃, rfl, rfl⟩ := h
    exact function_written hw hr hl ha ⟨rfl, rfl, rfl, rfl, rfl⟩ rfl rfl rfl
  | slot i =>
    simp only [hl, bind_eq_ok, findRule_eq_ok] at h
    obtain ⟨area, w₂, harea, rule, _, ⟨hrule, rfl⟩, h⟩ := h
    obtain ⟨hw₂, harea⟩ := areaOf_eq_ok harea
    subst hw₂
    obtain ⟨hv, rfl⟩ := Ty.slotRule?_eq_some.1 hrule
    obtain rfl := (applyRule_eq_ok h).1 _ rfl
    rw [ha.scopes] at harea
    -- a name of this function, or one of the program that a function uses
    have hp : w.scopes.Placed (K.arity w.buffer) s area i := by
      rcases harea with ⟨rfl, hf⟩ | ⟨rfl, hne, hf⟩
      · exact hw.sound.placed_own hr hl hf
      · exact hw.sound.placed_top hr hl hne hf
    refine .of_add hs rfl ⟨by rintro ⟨⟩, by rintro _ ⟨⟩⟩ fun hk => ?_
    rw [ha.size_eq]
    refine .variable hr hl ?_ hv hp
      (reaches_of_placed hw (hk.whole hs.frame hs.frame.size) hw.size_pos hp) ?_
    · rcases harea with ⟨rfl, hf⟩ | ⟨rfl, hne, -⟩
      · exact iff_of_true rfl hf
      · exact iff_of_false nofun hne
    · rcases harea with ⟨rfl, -⟩ | ⟨-, -, hf⟩
      · nofun
      · exact fun _ => hf

/-! ### Values one behind the other -/

/-- What is written for expressions that leave values. -/
structure ValuesWritten (K : Link) (es : List Expr) (w w' : Writer) : Prop
    extends Stretch K.arity w w' where
  code : Kept K w'.size w' → ∃ types, ValuesCode K.layout (K.room w.buffer) w.scopes es
    (K.base w.buffer + w.size) (K.base w.buffer + w'.size) types

theorem ValuesWritten.nil (hw : Wf K.arity w) : ValuesWritten K [] w w :=
  ⟨.refl hw, fun _ => ⟨[], .nil⟩⟩

theorem ValuesWritten.cons {es : List Expr} (h : ValueWritten K e w w₁)
    (hs : ValuesWritten K es w₁ w') : ValuesWritten K (e :: es) w w' := by
  refine ⟨h.toStretch.trans hs.toStretch, fun hk => ?_⟩
  obtain ⟨types, hrest⟩ := hs.code hk
  rw [h.buffer, h.scopes] at hrest
  exact ⟨_, .cons (h.code (hk.whole hs.frame hs.frame.size)) hrest⟩

theorem values_written {codes : List (Write Unit)} {es : List Expr} {usage : Usage}
    (hc : List.Forall₂ (Writes K) codes es) (hw : Wf K.arity w)
    (h : (codes.forM fun code => value code usage) w = .ok ((), w')) : ValuesWritten K es w w' := by
  induction hc generalizing w with
  | nil =>
    obtain ⟨-, rfl⟩ := pure_eq_ok.1 h
    exact .nil hw
  | cons he _ ih =>
    simp only [List.forM_eq_forM, List.forM_cons, bind_eq_ok, value_eq_ok] at h
    obtain ⟨_, w₁, ⟨h₁, hv⟩, h⟩ := h
    have hfirst := (he hw h₁).value hv
    exact .cons hfirst (ih hfirst.wf h)

theorem typedValues_written {codes : List (Write Unit)} {es : List Expr} {usage : Usage}
    {types : List Ty} (hc : List.Forall₂ (Writes K) codes es) (hw : Wf K.arity w)
    (h : (codes.mapM fun code => typedValue code usage) w = .ok (types, w')) :
    ValuesWritten K es w w' ∧ types.length = es.length := by
  induction hc generalizing w types with
  | nil =>
    obtain ⟨rfl, rfl⟩ := pure_eq_ok.1 h
    exact ⟨.nil hw, rfl⟩
  | cons he _ ih =>
    simp only [List.mapM_cons, bind_eq_ok, typedValue_eq_ok, pure_eq_ok] at h
    obtain ⟨_, w₁, ⟨h₁, hv, -⟩, rest, _, h, rfl, rfl⟩ := h
    have hfirst := (he hw h₁).value hv
    obtain ⟨hrest, hlen⟩ := ih hfirst.wf h
    exact ⟨.cons hfirst hrest, by rw [List.length_cons, List.length_cons, hlen]⟩

theorem collection_writes {codes : List (Write Unit)} {es : List Expr} {o : Opcode} {t : Ty}
    {e : Expr} (hc : List.Forall₂ (Writes K) codes es) (he : endsAtJoin e = false)
    (ho : o ≠ .loadFunction) (hcode : ∀ {r c p q types}, ValuesCode K.layout r c es p q types →
      ExprCode K.layout r c e p (q + 1) ⟨o, .int es.length⟩ t false) :
    Writes K (collection codes o t) e := by
  intro w w' hw h
  simp only [collection, bind_eq_ok, put_eq_ok, setType_eq_ok] at h
  obtain ⟨_, w₁, h₁, _, _, rfl, rfl⟩ := h
  have hv := values_written hc hw h₁
  refine .of_add hv.toStretch he ⟨ho, nofun⟩ fun hk => ?_
  obtain ⟨types, hcodes⟩ := hv.code hk
  rw [hc.length_eq]
  exact hcode hcodes

/-- A constant in front of a stretch. -/
theorem has_front {d : Draft} {m : Nat} (hw : Wf K.arity w) (hd : isOpen d.opcode = false)
    (hl : ∀ l, d.operand ≠ .label l) (hs : Stretch K.arity (w.add d) w') (hk : Kept K m w')
    (hm : w'.size ≤ m) : K.layout.Has (K.base w.buffer + w.size) d := by
  have hsize := hw.add_size d
  have hle := hs.frame.size
  have h := (hk.whole hs.frame (by omega)).has (by omega) (hw.add_last d) (Draft.final_of_closed hd)
  rwa [Link.draft_eq hl] at h

theorem fields_written {codes : List (String × Write Unit)} {fields : List (String × Expr)}
    (hc : List.Forall₂ (fun c f => c.1 = f.1 ∧ Writes K c.2 f.2) codes fields)
    (hw : Wf K.arity w)
    (h : (codes.forM fun (name, code) => do
      put (.loadConst .w64) (.str name)
      value code .objectField) w = .ok ((), w')) :
    Stretch K.arity w w' ∧ (Kept K w'.size w' → FieldsCode K.layout (K.room w.buffer) w.scopes fields
      (K.base w.buffer + w.size) (K.base w.buffer + w'.size)) := by
  induction hc generalizing w with
  | nil =>
    obtain ⟨-, rfl⟩ := pure_eq_ok.1 h
    exact ⟨.refl hw, fun _ => .nil⟩
  | @cons c f _ _ he _ ih =>
    obtain ⟨key, code⟩ := c
    obtain ⟨_, e⟩ := f
    obtain ⟨rfl, he⟩ := he
    simp only [List.forM_eq_forM, List.forM_cons, bind_eq_ok, put_eq_ok, value_eq_ok] at h
    obtain ⟨_, w₂, ⟨_, _, rfl, h₂, hv⟩, h⟩ := h
    have hadd : Stretch K.arity w (w.add ⟨.loadConst .w64, .str key⟩) := (Stretch.refl hw).add _
    have hfirst := (he hadd.wf h₂).value hv
    obtain ⟨hrest, hcode⟩ := ih hfirst.wf h
    refine ⟨hadd.trans (hfirst.toStretch.trans hrest), fun hk => ?_⟩
    have hone := hfirst.code (hk.whole hrest.frame hrest.frame.size)
    have hothers := hcode hk
    rw [hfirst.buffer, hfirst.scopes] at hothers
    rw [hw.add_size, ← Nat.add_assoc] at hone
    exact .cons (has_front hw rfl (by rintro _ ⟨⟩) (hfirst.toStretch.trans hrest) hk (Nat.le_refl _)) hone
      hothers

theorem object_writes {codes : List (String × Write Unit)} {fields : List (String × Expr)}
    (hc : List.Forall₂ (fun c f => c.1 = f.1 ∧ Writes K c.2 f.2) codes fields) :
    Writes K (object codes) (.object fields) := by
  intro w w' hw h
  simp only [object, bind_eq_ok, put_eq_ok, setType_eq_ok] at h
  obtain ⟨_, w₁, h₁, _, _, rfl, rfl⟩ := h
  obtain ⟨hs, hcode⟩ := fields_written hc hw h₁
  refine .of_add hs rfl ⟨by rintro ⟨⟩, by rintro _ ⟨⟩⟩ fun hk => ?_
  rw [hc.length_eq]
  exact .object (hcode hk)

/-! ### Templates -/

theorem templateParts_written {chunks : List String} {parts : List (Write Unit)} {es : List Expr}
    {n : Nat} (hc : List.Forall₂ (Writes K) parts es) (hw : Wf K.arity w)
    (h : templateParts chunks parts w = .ok (n, w')) :
    Stretch K.arity w w' ∧ (Kept K w'.size w' → PartsCode K.layout (K.room w.buffer) w.scopes chunks
      es (K.base w.buffer + w.size) (K.base w.buffer + w'.size) n) := by
  induction chunks generalizing w parts es n with
  | nil =>
    obtain ⟨rfl, rfl⟩ := pure_eq_ok.1 h
    exact ⟨.refl hw, fun _ => .done⟩
  | cons chunk chunks ih =>
    -- the piece behind the text
    have piece : ∀ {w₁ w₂ : Writer} {count rest : Nat}, Wf K.arity w₁ →
        (templatePart parts).1 w₁ = .ok (count, w₂) →
        templateParts chunks (templatePart parts).2 w₂ = .ok (rest, w') →
        Stretch K.arity w₁ w' ∧ (Kept K w'.size w' →
          PieceCode K.layout (K.room w₁.buffer) w₁.scopes chunks es (K.base w₁.buffer + w₁.size)
            (K.base w₁.buffer + w'.size) (rest + count)) := by
      intro w₁ w₂ count rest hw₁ hpart hrest
      cases hc with
      | nil =>
        obtain ⟨rfl, rfl⟩ := pure_eq_ok.1 hpart
        obtain ⟨hs, hcode⟩ := ih .nil hw₁ hrest
        exact ⟨hs, fun hk => .none (hcode hk)⟩
      | cons he hes =>
        simp only [templatePart, bind_eq_ok, value_eq_ok, pure_eq_ok] at hpart
        obtain ⟨_, _, ⟨h₂, hv⟩, rfl, rfl⟩ := hpart
        have hfirst := (he hw₁ h₂).value hv
        obtain ⟨hs, hcode⟩ := ih hes hfirst.wf hrest
        refine ⟨hfirst.toStretch.trans hs, fun hk => ?_⟩
        have hothers := hcode hk
        rw [hfirst.buffer, hfirst.scopes] at hothers
        exact .some (hfirst.code (hk.whole hs.frame hs.frame.size)) hothers
    unfold templateParts at h
    by_cases hempty : chunk.isEmpty = true
    · rw [if_pos hempty] at h
      simp only [bind_eq_ok, pure_eq_ok] at h
      obtain ⟨_, _, ⟨rfl, rfl⟩, count, w₂, hpart, rest, _, hrest, rfl, rfl⟩ := h
      obtain ⟨hs, hcode⟩ := piece hw hpart hrest
      rw [show 0 + count + rest = rest + count by omega]
      exact ⟨hs, fun hk => .noText hempty (hcode hk)⟩
    · rw [if_neg hempty] at h
      simp only [bind_eq_ok, pure_eq_ok, put_eq_ok] at h
      obtain ⟨_, _, rfl, _, _, ⟨rfl, rfl⟩, count, w₂, hpart, rest, _, hrest, rfl, rfl⟩ := h
      have hadd : Stretch K.arity w (w.add ⟨.loadConst .w64, .str chunk⟩) := (Stretch.refl hw).add _
      obtain ⟨hs, hcode⟩ := piece hadd.wf hpart hrest
      refine ⟨hadd.trans hs, fun hk => ?_⟩
      have hrest := hcode hk
      rw [hw.add_size, ← Nat.add_assoc] at hrest
      rw [show 1 + count + rest = rest + count + 1 by omega]
      exact .text (by simpa using hempty) (has_front hw rfl (by rintro _ ⟨⟩) hs hk (Nat.le_refl _)) hrest

theorem template_writes {chunks : List String} {parts : List (Write Unit)} {es : List Expr}
    (hc : List.Forall₂ (Writes K) parts es) : Writes K (template chunks parts) (.template chunks es) := by
  intro w w' hw h
  rw [template, bind_eq_ok] at h
  obtain ⟨n, w₁, h₁, h⟩ := h
  obtain ⟨hs, hcode⟩ := templateParts_written hc hw h₁
  have hadd : w' = (w₁.add (templateDraft n)).typed .string false := by
    unfold templateDraft
    by_cases hn : n = 0
    · rw [if_pos (beq_iff_eq.2 hn)] at h
      simp only [bind_eq_ok, put_eq_ok, setType_eq_ok] at h
      obtain ⟨_, _, rfl, rfl⟩ := h
      rw [if_pos hn]
    · rw [if_neg fun hb => hn (beq_iff_eq.1 hb)] at h
      simp only [bind_eq_ok, put_eq_ok, setType_eq_ok] at h
      obtain ⟨_, _, rfl, rfl⟩ := h
      rw [if_neg hn]
  subst hadd
  refine .of_add hs rfl ?_ fun hk => .template (hcode hk)
  unfold templateDraft
  split <;> exact ⟨by rintro ⟨⟩, by rintro _ ⟨⟩⟩

/-! ### Operators that add an instruction -/

theorem unary_writes {op : UnaryOp} {side : Side} {code : Write Unit} (hc : Writes K code e)
    (hop : op = .minus ∨ op = .not) : Writes K (unary op code) (.unary op side e) := by
  intro w w' hw h
  simp only [unary, bind_eq_ok, typedValue_eq_ok, findRule_eq_ok] at h
  obtain ⟨_, w₁, ⟨h₁, hv, rfl⟩, rule, _, ⟨hrule, rfl⟩, h⟩ := h
  obtain ⟨o, ho, hu, -⟩ := Ty.unaryRule?_emits hrule hop
  obtain rfl := (applyRule_eq_ok h).1 o ho
  have hone := (hc hw h₁).value hv
  exact .of_add hone.toStretch rfl ⟨(by rintro rfl; cases hu), nofun⟩ fun hk => .unary hop (hone.code hk) hrule ho

theorem binary_writes {op : BinaryOp} {left right : Write Unit} {l r : Expr}
    (hl : Writes K left l) (hr : Writes K right r) (hop : op.isLogical = false) :
    Writes K (binary op left right) (.binary op l r) := by
  intro w w' hw h
  simp only [binary, bind_eq_ok, typedValue_eq_ok, joinTypes_eq_ok, findRule_eq_ok] at h
  obtain ⟨_, w₁, ⟨h₁, hv₁, rfl⟩, _, w₂, ⟨h₂, hv₂, rfl⟩, t, _, ⟨hjoin, rfl⟩, rule, _, ⟨hrule, rfl⟩, h⟩ := h
  obtain ⟨o, ho, hb, -⟩ := Ty.binaryRule?_emits hrule hop
  obtain rfl := (applyRule_eq_ok h).1 o ho
  have hfirst := (hl hw h₁).value hv₁
  have hsecond := (hr hfirst.wf h₂).value hv₂
  refine .of_add (hfirst.toStretch.trans hsecond.toStretch) hop ⟨(by rintro rfl; cases hb), nofun⟩
    fun hk => ?_
  have hcode := hsecond.code hk
  rw [hfirst.buffer, hfirst.scopes] at hcode
  exact .binary hop (hfirst.code (hk.whole hsecond.frame hsecond.frame.size)) hcode hjoin hrule ho

theorem member_writes {code : Write Unit} (hc : Writes K code e) (field : String) :
    Writes K (member code field) (.member e field) := by
  intro w w' hw h
  simp only [member, bind_eq_ok, typedValue_eq_ok, orThrow_eq_ok] at h
  obtain ⟨_, w₁, ⟨h₁, hv, rfl⟩, rule, _, ⟨hrule, rfl⟩, h⟩ := h
  obtain ⟨o, ho, -⟩ := Ty.fieldRule_emits hrule
  obtain rfl := (applyRule_eq_ok h).1 _ ho
  have hone := (hc hw h₁).value hv
  exact .of_add hone.toStretch rfl ⟨by rintro ⟨⟩, by rintro _ ⟨⟩⟩ fun hk => .member (hone.code hk) hrule ho

theorem index_writes {code : Write Unit} {codes : List (Write Unit)} {es : List Expr}
    (hc : Writes K code e) (hcs : List.Forall₂ (Writes K) codes es) :
    Writes K (index code codes) (.index e es) := by
  intro w w' hw h
  simp only [index, bind_eq_ok, typedValue_eq_ok, orThrow_eq_ok] at h
  obtain ⟨_, w₁, ⟨h₁, hv, rfl⟩, _, w₂, h₂, rule, _, ⟨hrule, rfl⟩, h⟩ := h
  obtain ⟨o, ho, -⟩ := Ty.elementRule?_emits hrule
  obtain rfl := (applyRule_eq_ok h).1 _ ho
  have hone := (hc hw h₁).value hv
  have hrest := values_written hcs hone.wf h₂
  refine .of_add (hone.toStretch.trans hrest.toStretch) rfl ⟨by rintro ⟨⟩, by rintro _ ⟨⟩⟩ fun hk => ?_
  obtain ⟨types, hcodes⟩ := hrest.code hk
  rw [hone.buffer, hone.scopes] at hcodes
  rw [hcs.length_eq]
  exact .index (hone.code (hk.whole hrest.frame hrest.frame.size)) hcodes hrule ho

/-! ### Targets -/

theorem checkAssignable_eq_ok {setting : Setting} {target : Expr}
    (h : checkAssignable setting target w = .ok ((), w')) :
    w' = w ∧ Writable setting.environment w.scopes target := by
  have constant : ∀ {s : String} {p : Entity → Bool} {err : CompileError},
      (do if p (← resolveName setting s) then throw err : Write Unit) w = .ok ((), w') →
      w' = w ∧ ∃ f, w.scopes.resolve setting.environment s = .ok f ∧ p f = false := by
    intro s p err h
    simp only [bind_eq_ok, resolveName_eq_ok] at h
    obtain ⟨f, _, ⟨hf, hw⟩, h⟩ := h
    rw [hw] at h
    split at h
    · exact (throw_eq_ok.1 h).elim
    · next hp => exact ⟨(pure_eq_ok.1 h).2, f, hf, by simpa using hp⟩
  unfold checkAssignable at h
  split at h
  · exact constant h
  · next hne =>
    -- behind a member or an index, the base may not be a name of the host
    have hbase : w' = w ∧ ∀ s, baseOf target = .name s →
        ∃ f, w.scopes.resolve setting.environment s = .ok f ∧ f.location ≠ .external := by
      generalize baseOf target = base at h
      cases base with
      | name s =>
        obtain ⟨hw, f, hf, hp⟩ := constant (p := fun f => f.location == .external) h
        exact ⟨hw, fun _ hs => ⟨f, by rwa [← Expr.name.inj hs], by simpa using hp⟩⟩
      | _ => exact ⟨(pure_eq_ok.1 h).2, fun s hs => by cases hs⟩
    refine ⟨hbase.1, ?_⟩
    unfold Writable
    split
    · exact absurd rfl (hne _)
    · exact hbase.2

theorem assignmentTarget_eq_ok {setting : Setting} {target : Expr} {code : Write Unit}
    (h : assignmentTarget setting target code w = .ok (t, w')) :
    Writable setting.environment w.scopes target ∧ code w = .ok ((), w') ∧ w'.assignable = true ∧
      t = w'.type := by
  simp only [assignmentTarget, bind_eq_ok, get_eq_ok] at h
  obtain ⟨_, w₁, hcheck, _, w₂, hcode, _, w₃, ⟨rfl, rfl⟩, h⟩ := h
  obtain ⟨rfl, hwritable⟩ := checkAssignable_eq_ok hcheck
  split at h
  · next ha =>
    simp only [bind_eq_ok, throw_eq_ok, false_and, exists_false] at h
  · next ha =>
    obtain ⟨rfl, rfl⟩ := lastType_eq_ok.1 h
    exact ⟨hwritable, hcode, by simpa using ha, rfl⟩

/-- The load at the end of an expression becomes another instruction with its operand. -/
theorem load_replaced {f : Opcode → Option Opcode} (h : ExprWritten K e w w₁) (hw : Wf K.arity w)
    (hf : f .loadFunction = none) (hf' : ∀ o, f o ≠ some .loadFunction)
    (hr : replaceLoad f w₁ = .ok ((), w₂)) :
    Stretch K.arity w w₂ ∧ w₂.size = w₁.size ∧ ∃ o o' x, f o = some o' ∧
      w₂.last? = some ⟨o', x⟩ ∧ Draft.Plain ⟨o', x⟩ ∧ ∀ m, w₂.size - 1 ≤ m → Kept K m w₂ →
        ExprCode K.layout (K.room w.buffer) w.scopes e (K.base w.buffer + w.size)
          (K.base w.buffer + w₁.size) ⟨o, x⟩ w₁.type w₁.assignable := by
  obtain ⟨⟨o, x⟩, o', hd, ho, rfl⟩ := replaceLoad_eq_ok.1 hr
  obtain ⟨hset, hs⟩ := h.toStretch.replaced hw h.grows fun d => { d with opcode := o' }
  have hx : ∀ l, x ≠ .label l := by
    rintro l rfl
    rcases h.last _ hd with hp | ⟨_, _, _, hl, -⟩
    · exact hp.2 l rfl
    · rw [(Draft.mk.inj hl).1] at ho
      exact absurd (ho.symm.trans hf) nofun
  have hsize : (w₁.setAt ⟨w₁.buffer, w₁.size - 1⟩ fun d => { d with opcode := o' }).size = w₁.size :=
    Writer.setAt_sizeOf ..
  refine ⟨hs, hsize, o, o', x, ho, ?_, ⟨fun h => hf' o (h ▸ ho), hx⟩, fun m hm hk => ?_⟩
  · rw [Writer.last?, hsize, Writer.setAt_buffer, Writer.setAt_at, if_pos ⟨rfl, rfl⟩]
    rw [Writer.last?] at hd
    rw [hd]
    rfl
  · rw [hsize] at hm
    have hcode := h.code _ hd (hk.rewritten hset.frame hm fun _ _ _ _ => rfl)
    rwa [Link.draft_eq hx] at hcode

theorem update_writes {setting : Setting} (hK : K.environment = setting.environment) {op : UnaryOp}
    {side : Side} {code : Write Unit} (hc : Writes K code e) (hop : op = .increment ∨ op = .decrement) :
    Writes K (update setting op side e code) (.unary op side e) := by
  intro w w' hw h
  simp only [update, bind_eq_ok, findRule_eq_ok] at h
  obtain ⟨_, w₁, htarget, rule, _, ⟨hrule, rfl⟩, h⟩ := h
  obtain ⟨hwritable, h₁, ha, rfl⟩ := assignmentTarget_eq_ok htarget
  have hact := congrArg Rule.action (Ty.unaryRule?_updates hrule hop)
  obtain ⟨w₂, hload, rfl⟩ := (applyRule_eq_ok h).2 _ hact
  have hone := hc hw h₁
  obtain ⟨hs, hsize, o, o', x, ho, hlast, hx, hcode⟩ := load_replaced hone hw rfl updateFor?_ne hload
  have hgrows := hone.grows
  have hlast' : (w₂.typed rule.result rule.assignable).last? = some ⟨o', x⟩ := hlast
  have hsize' : (w₂.typed rule.result rule.assignable).size = w₂.size := rfl
  refine ⟨hs.typed _ _, by omega, by rintro ⟨⟩, fun d hd => ?_, fun d hd hk => ?_⟩
  · obtain rfl := Option.some.inj (hlast'.symm.trans hd)
    exact .inl hx
  · obtain rfl := Option.some.inj (hlast'.symm.trans hd)
    have hk₂ : Kept K (w₂.size - 1) w₂ :=
      hk.front ((w₂.typed_alike _ _).leads hs.wf).frame (Nat.le_refl _) (by omega)
    have htarget := hcode _ (Nat.le_refl _) hk₂
    rw [ha] at htarget
    rw [Link.draft_eq hx.2, hsize', hsize]
    exact .update hop htarget (by rwa [show K.layout.environment = _ from hK]) hrule hact ho rfl

/-! ### Assignments -/

/-- The code that `code` writes is that of an expression that leaves a value. -/
def WritesValue (K : Link) (code : Write Unit) (e : Expr) : Prop :=
  ∀ ⦃w w'⦄, Wf K.arity w → code w = .ok ((), w') → ValueWritten K e w w'

theorem value_writesValue {code : Write Unit} {usage : Usage} (hc : Writes K code e) :
    WritesValue K (value code usage) e := fun _ _ hw h =>
  have ⟨h, ht⟩ := value_eq_ok.1 h
  (hc hw h).value ht

theorem binary_writesValue {op : BinaryOp} {left right : Write Unit} {l r : Expr}
    (hl : Writes K left l) (hr : Writes K right r) (hop : op.isLogical = false) :
    WritesValue K (binary op left right) (.binary op l r) := by
  intro w w' hw h
  refine (binary_writes hl hr hop hw h).value ?_
  simp only [binary, bind_eq_ok, typedValue_eq_ok, joinTypes_eq_ok, findRule_eq_ok] at h
  obtain ⟨_, _, -, _, _, -, _, _, -, rule, _, ⟨hrule, -⟩, h⟩ := h
  obtain ⟨o, ho, -, hv, -⟩ := Ty.binaryRule?_emits hrule hop
  obtain rfl := (applyRule_eq_ok h).1 o ho
  exact hv

theorem assign_writes {setting : Setting} (hK : K.environment = setting.environment) {op : AssignOp}
    {code targetCode : Write Unit} {target v : Expr}
    (hc : WritesValue K code (storedExpr op target v)) (ht : Writes K targetCode target) :
    Writes K (assign setting code target targetCode) (.assign op target v) := by
  intro w w' hw h
  simp only [assign, bind_eq_ok, lastType_eq_ok] at h
  obtain ⟨_, w₁, h₁, _, _, ⟨rfl, rfl⟩, _, w₂, htarget, h⟩ := h
  obtain ⟨hwritable, h₂, ha, rfl⟩ := assignmentTarget_eq_ok htarget
  have hvalue := hc hw h₁
  have hone := ht hvalue.wf h₂
  split at h
  · simp only [bind_eq_ok, throw_eq_ok, false_and, exists_false] at h
  · next haccepts =>
    simp only [bind_eq_ok, setType_eq_ok] at h
    obtain ⟨_, w₃, hload, rfl⟩ := h
    -- the load of the target is replaced by the store; all in front of it stays
    obtain ⟨hs, hsize, o, o', x, ho, hlast, hx, hcode⟩ := load_replaced hone hvalue.wf rfl storeFor?_ne hload
    have hgrows := hone.grows
    have hgrows' := hvalue.grows
    have hlast' : (w₃.typed .void false).last? = some ⟨o', x⟩ := hlast
    have hsize' : (w₃.typed .void false).size = w₃.size := rfl
    refine ⟨hvalue.toStretch.trans (hs.typed _ _), by omega, by rintro ⟨⟩, fun d hd => ?_,
      fun d hd hk => ?_⟩
    · obtain rfl := Option.some.inj (hlast'.symm.trans hd)
      exact .inl hx
    · obtain rfl := Option.some.inj (hlast'.symm.trans hd)
      have hk₃ : Kept K (w₃.size - 1) w₃ :=
        hk.front ((w₃.typed_alike _ _).leads hs.wf).frame (Nat.le_refl _) (by omega)
      have htarget := hcode _ (Nat.le_refl _) hk₃
      rw [ha, hvalue.buffer, hvalue.scopes] at htarget
      have hstored := hvalue.code (hk₃.whole hs.frame (by omega))
      rw [Link.draft_eq hx.2, hsize', hsize]
      refine .assign hstored htarget ?_ (by simpa using haccepts) ho
      rw [← hvalue.scopes]
      rwa [show K.layout.environment = _ from hK]

/-! ### Calls -/

theorem checkArguments_eq_ok {function : String} {position : Nat} {params arguments : List Ty}
    (h : checkArguments function position params arguments w = .ok ((), w')) : w' = w := by
  induction params generalizing position arguments with
  | nil => exact (pure_eq_ok.1 h).2
  | cons expected params ih =>
    cases arguments with
    | nil => exact (pure_eq_ok.1 h).2
    | cons found arguments =>
      unfold checkArguments at h
      split at h
      · simp only [bind_eq_ok, throw_eq_ok, false_and, exists_false] at h
      · exact ih h

/-- The load of a function, replaced by its call. -/
theorem callFunction_eq_ok {types : List Ty} {known : Option (String × Signature)}
    (h : callFunction types known w = .ok ((), w')) :
    ∃ f s, known = some (f, s) ∧ s.params.length = types.length ∧ ∃ w₁,
      w₁ = w.setAt ⟨w.buffer, w.size - 1⟩ (fun d => { d with opcode := .callInternal }) ∧
      w' = ((if types.isEmpty then w₁ else w₁.add ⟨.popStack, .int types.length⟩).add
        ⟨pushReturnFor s.returns, .none⟩).typed s.returns false := by
  simp only [callFunction, bind_eq_ok, orThrow_eq_ok] at h
  obtain ⟨⟨f, s⟩, _, ⟨rfl, rfl⟩, h⟩ := h
  dsimp only at h
  split at h
  · simp only [bind_eq_ok, throw_eq_ok, false_and, exists_false] at h
  · next harity =>
    simp only [bind_eq_ok, changeLast_eq_ok] at h
    obtain ⟨_, w₁, hcheck, _, _, rfl, h⟩ := h
    obtain rfl := checkArguments_eq_ok hcheck
    refine ⟨f, s, rfl, by simpa using harity, _, rfl, ?_⟩
    by_cases hempty : types.isEmpty = true
    · simp only [hempty, Bool.not_true, Bool.false_eq_true, if_false, bind_eq_ok, put_eq_ok,
        setType_eq_ok] at h
      obtain ⟨_, _, rfl, rfl⟩ := h
      rw [if_pos hempty]
    · simp only [hempty, Bool.not_false, if_true, bind_eq_ok, put_eq_ok, setType_eq_ok] at h
      obtain ⟨_, _, rfl, _, _, rfl, rfl⟩ := h
      rw [if_neg hempty]

theorem callFunction_written {es : List Expr} {types : List Ty} {known : Option (String × Signature)}
    {w₃ : Writer} (hargs : ValuesWritten K es w w₁) (hlen : types.length = es.length)
    (hcallee : ExprWritten K e w₁ w₂) (ha : Alike w₂ w₃) (hknown : known = w₂.callee)
    (hd : w₂.last? = some d) (hop : d.opcode = .loadFunction)
    (h : callFunction types known w₃ = .ok ((), w')) : ExprWritten K (.call e es) w w' := by
  obtain ⟨f, s, hk, harity, w₄, hw₄, rfl⟩ := callFunction_eq_ok h
  obtain ⟨l, f', s', rfl, hcall, hpromise⟩ :=
    (hcallee.last d hd).resolve_left fun hp => hp.1 hop
  obtain ⟨rfl, rfl⟩ : f' = f ∧ s' = s := by
    rw [hknown, hcall, Option.some_inj, Prod.mk.injEq] at hk
    exact hk
  have hgrows := hcallee.grows
  have hsize₃ := ha.size_eq
  -- the load of the function becomes the call
  obtain ⟨hset, hs⟩ := (hcallee.toStretch.alike ha).replaced hargs.wf (by omega)
    fun d => { d with opcode := .callInternal }
  rw [← hw₄] at hset hs
  have hsize₄ : w₄.size = w₃.size := by rw [hw₄]; exact Writer.setAt_sizeOf ..
  have hcallAt : w₄.at w₄.buffer (w₃.size - 1) = some ⟨.callInternal, .label l⟩ := by
    rw [Writer.last?, ← ha.at_eq, ← ha.buffer, ← hsize₃] at hd
    rw [hw₄, Writer.setAt_buffer, Writer.setAt_at, if_pos ⟨rfl, rfl⟩, hd]
    rfl
  -- up to the call, once the program is linked and the label has an address
  have hfour : Kept K w₄.size w₄ → ∃ q t : Nat, K.base w.buffer + w₂.size = q + 1 ∧
      (∃ types, ValuesCode K.layout (K.room w.buffer) w.scopes es (K.base w.buffer + w.size)
        (K.base w.buffer + w₁.size) types) ∧
      ExprCode K.layout (K.room w.buffer) w.scopes e (K.base w.buffer + w₁.size) (q + 1)
        ⟨.loadFunction, .int t⟩ w₂.type w₂.assignable ∧
      K.layout.Entry es.length t ∧ K.layout.Has q ⟨.callInternal, .int t⟩ := by
    intro hk
    obtain ⟨t, ht⟩ := hk.bound (i := w₃.size - 1) (by omega) hcallAt rfl
    have hhas := hk.has (i := w₃.size - 1) (by omega) hcallAt (Draft.final_of_label rfl)
    rw [Link.draft_label ht] at hhas
    have hk₃ : Kept K (w₃.size - 1) w₃ := by
      rw [hw₄] at hk hset
      exact hk.rewritten hset.frame (by rw [hw₄] at hsize₄; omega)
        fun _ _ _ _ => rfl
    have hk₂ : Kept K (w₂.size - 1) w₂ :=
      hk₃.front (ha.leads hcallee.wf).frame (by omega) (by omega)
    have hargsCode := hargs.code (hk.whole hs.frame hs.frame.size)
    have hcode := hcallee.code _ hd hk₂
    have hentry := hk.promise l _ (hset.frame.promise l _ (ha.promise hpromise)) t ht
    rw [hs.buffer, hargs.buffer] at hhas
    rw [hargs.buffer, hargs.scopes, Link.draft_label ht] at hcode
    refine ⟨K.base w.buffer + (w₂.size - 1), t, by omega, hargsCode, ?_, ?_, hsize₃ ▸ hhas⟩
    · rwa [show K.base w.buffer + (w₂.size - 1) + 1 = K.base w.buffer + w₂.size by omega]
    · rwa [← hlen, ← harity]
  have hstretch : Stretch K.arity w w₄ := hargs.toStretch.trans hs
  by_cases hempty : types.isEmpty = true
  · -- without arguments there are none to drop
    have hnil : es.length = 0 := by rw [← hlen, List.isEmpty_iff.1 hempty]; rfl
    rw [if_pos hempty]
    refine .of_add hstretch rfl ⟨by rintro ⟨⟩, by rintro _ ⟨⟩⟩ fun hk => ?_
    obtain ⟨q, t, hq, ⟨types, hargsCode⟩, hcode, hentry, hhas⟩ := hfour hk
    rw [hsize₄, hsize₃, hq]
    exact .callFunction hargsCode hcode hentry hhas (hnil ▸ .none)
  · rw [if_neg hempty]
    refine .of_add (hstretch.add _) rfl ⟨by rintro ⟨⟩, by rintro _ ⟨⟩⟩ fun hk => ?_
    have hsize₅ := hstretch.wf.add_size ⟨.popStack, .int types.length⟩
    have hk₄ := hk.whole (hstretch.wf.add _).frame (by omega)
    have hdrop := hk.has (i := w₄.size) (by omega) (hstretch.wf.add_last _)
      (Draft.final_of_closed rfl)
    obtain ⟨q, t, hq, ⟨types, hargsCode⟩, hcode, hentry, hhas⟩ := hfour hk₄
    rw [Writer.add_buffer, hstretch.buffer, hsize₄, hsize₃, hq] at hdrop
    rw [hsize₅, hsize₄, hsize₃, ← Nat.add_assoc, hq]
    refine .callFunction hargsCode hcode hentry hhas (.some ?_ (hlen ▸ hdrop))
    rw [← hlen]
    simpa using hempty

theorem callHost_written {es : List Expr} {w₃ : Writer} (hargs : ValuesWritten K es w w₁)
    (hcallee : ExprWritten K e w₁ w₂) (ha : Alike w₂ w₃) (hd : w₂.last? = some d)
    (hhost : d.opcode = .loadExternal ∨
      (leavesHostFunction d.opcode = true ∧ (w₂.type = .any ∨ w₂.type = .function)))
    (h : callHost es.length w₃ = .ok ((), w')) : ExprWritten K (.call e es) w w' := by
  simp only [callHost, bind_eq_ok, put_eq_ok, setType_eq_ok] at h
  obtain ⟨_, _, rfl, _, _, rfl, rfl⟩ := h
  have hs : Stretch K.arity w₁ w₃ := hcallee.toStretch.alike ha
  have hgrows := hcallee.grows
  have hsize₃ := ha.size_eq
  have hsize₄ := hs.wf.add_size ⟨.callExternal, .int es.length⟩
  -- what loads the function of the host has no label
  have hx : ∀ l, d.operand ≠ .label l := by
    intro l hl
    rcases hcallee.last d hd with hp | ⟨_, _, _, rfl, -⟩
    · exact hp.2 l hl
    · rcases hhost with hhost | ⟨hhost, -⟩ <;> cases hhost
  refine .of_add ((hargs.toStretch.trans hs).add _) rfl ⟨by rintro ⟨⟩, by rintro _ ⟨⟩⟩ fun hk => ?_
  have hk₃ := hk.whole (hs.wf.add _).frame (by omega)
  have hk₂ := hk₃.whole (ha.leads hcallee.wf).frame (by omega)
  have hcode := hcallee.code d hd (hk₂.front .refl (by omega) (by omega))
  have hload := hk₂.has (i := w₂.size - 1) (by omega) hd (Draft.final_of_closed hcode.last_closed)
  have hcall := hk.has (i := w₃.size) (by omega) (hs.wf.add_last _) (Draft.final_of_closed rfl)
  obtain ⟨types, hargsCode⟩ := hargs.code (hk₃.whole hs.frame hs.frame.size)
  obtain ⟨q, hq⟩ : ∃ q, K.base w.buffer + w₂.size = q + 1 := ⟨K.base w.buffer + (w₂.size - 1), by omega⟩
  rw [Link.draft_eq hx] at hcode hload
  rw [hargs.buffer, hargs.scopes, hq] at hcode
  rw [hcallee.buffer, hargs.buffer, show K.base w.buffer + (w₂.size - 1) = q by omega] at hload
  rw [Writer.add_buffer, hs.buffer, hargs.buffer, hsize₃, hq] at hcall
  rw [hsize₄, hsize₃, ← Nat.add_assoc, hq]
  exact .callHost hargsCode hcode hload hhost hcall

theorem call_writes {codes : List (Write Unit)} {es : List Expr} {code : Write Unit}
    (hcs : List.Forall₂ (Writes K) codes es) (hc : Writes K code e) :
    Writes K (call codes code) (.call e es) := by
  intro w w' hw h
  simp only [call, bind_eq_ok, lastType_eq_ok, get_eq_ok, modify_eq_ok, lastOpcode_eq_ok] at h
  obtain ⟨types, w₁, hargs, _, w₂, hcallee, _, _, ⟨rfl, rfl⟩, _, w₂, ⟨rfl, rfl⟩, _, w₃, hw₃, _, w₃,
    ⟨rfl, rfl⟩, h⟩ := h
  obtain ⟨hargs, hlen⟩ := typedValues_written hcs hw hargs
  have hcallee := hc hargs.wf hcallee
  obtain ⟨⟨op, x⟩, hd⟩ := hcallee.last_some
  have ha : Alike w₂ w₃ := hw₃ ▸ ⟨rfl, rfl, rfl, rfl, rfl⟩
  have hd₃ : w₃.last? = some ⟨op, x⟩ := by rw [hw₃]; exact hd
  have host : ∀ {op' : Opcode}, op' = op → (if leavesHostFunction op' && (w₂.type == .any || w₂.type == .function)
      then callHost types.length else throw (.notCallable w₂.type)) w₃ = .ok ((), w') →
      ExprWritten K (.call e es) w w' := by
    rintro _ rfl h
    split at h
    · next hh =>
      rw [hlen] at h
      exact callHost_written hargs hcallee ha hd (.inr (by simpa using hh)) h
    · exact (throw_eq_ok.1 h).elim
  rw [hd₃] at h
  by_cases hf : op = .loadFunction
  · subst hf
    exact callFunction_written hargs hlen hcallee ha rfl hd rfl h
  by_cases he : op = .loadExternal
  · subst he
    exact callHost_written hargs hcallee ha hd (.inl rfl) (by rw [← hlen]; exact h)
  cases op <;> first | contradiction | exact host rfl h

/-! ### Branches -/

theorem logical_writes {op : BinaryOp} {left right : Write Unit} {l r : Expr}
    (hl : Writes K left l) (hr : Writes K right r) (hop : op.isLogical = true) :
    Writes K (logical op left right) (.binary op l r) := by
  intro w w' hw h
  have hskip : (if (op == .either) = true then Opcode.branchTrue else .branchFalse) = skipBranch op := by
    simp [skipBranch]
  have hjump : IsJump (skipBranch op) := by
    unfold skipBranch IsJump
    split <;> simp
  simp only [logical, bind_eq_ok, typedValue_eq_ok, joinTypes_eq_ok, findShortCircuit_eq_ok, emit_eq_ok,
    openLabel_eq_ok, patch_eq_ok, put_eq_ok, setType_eq_ok, hskip] at h
  obtain ⟨_, w₁, ⟨h₁, hv₁, rfl⟩, _, w₂, ⟨rfl, rfl⟩, _, w₃, ⟨h₃, hv₃, rfl⟩, t, _, ⟨hjoin, rfl⟩,
    rule, w₃, ⟨hrule, -, rfl⟩, _, w₄, ⟨rfl, rfl⟩, _, _, ⟨rfl, rfl⟩, _, w₆, hw₆, _, w₇, rfl, _, _,
    ⟨rfl, rfl⟩, _, w₉, hw₉, rfl⟩ := h
  have hfirst := (hl hw h₁).value hv₁
  have hs₂ : Stretch K.arity w (w₁.add ⟨skipBranch op, .none⟩) := hfirst.toStretch.add _
  have hsecond := (hr hs₂.wf h₃).value hv₃
  have hs₄ := hsecond.toStretch.add ⟨.jump, .none⟩
  have hgrows := hfirst.grows
  have hgrows₃ := hsecond.grows
  have hsize₂ := hfirst.wf.add_size ⟨skipBranch op, .none⟩
  have hsize₄ := hsecond.wf.add_size ⟨.jump, .none⟩
  -- the branch behind the left operand leads to the constant
  have hbranch := hs₄.still_at (i := w₁.size) (by omega) (hfirst.wf.add_last _)
  have hw₆' : w₆ = (w₃.add ⟨.jump, .none⟩).landed w₁.size := by
    rw [hw₆, Writer.landed, Writer.add_buffer, hsecond.buffer, Writer.add_buffer]
  have hs₆ : Stretch K.arity w w₆ := by
    rw [hw₆']
    exact (hs₂.trans hs₄).landed hw (by omega) hbranch hjump
  have hsize₆ : w₆.size = w₃.size + 1 := by rw [hw₆', Writer.landed_size, hsize₄]
  -- the jump behind the right operand leads behind it
  have hskipAt : w₆.at w₆.buffer w₃.size = some ⟨.jump, .none⟩ := by
    rw [hw₆', Writer.landed_buffer, Writer.landed_at_ne (by omega)]
    exact hsecond.wf.add_last _
  have hs₇ : Stretch K.arity w₆ (w₆.add ⟨.loadConst .w8, .bool (op == .either)⟩) :=
    (Stretch.refl hs₆.wf).add _
  have hsize₇ := hs₆.wf.add_size ⟨.loadConst .w8, .bool (op == .either)⟩
  have hskipAt' := hs₇.still_at (by omega) hskipAt
  have hw₉' : w₉ = (w₆.add ⟨.loadConst .w8, .bool (op == .either)⟩).landed w₃.size := by
    rw [hw₉, Writer.landed, Writer.add_buffer, hs₆.buffer, hsecond.buffer, Writer.add_buffer,
      hfirst.buffer]
  have hs₉ : Stretch K.arity w w₉ := by
    rw [hw₉']
    exact (hs₆.trans hs₇).landed hw (by omega) hskipAt' (.inl rfl)
  have hsize₉ : w₉.size = w₃.size + 2 := by rw [hw₉', Writer.landed_size, hsize₇, hsize₆]
  have hlast : (w₉.typed rule.result false).last? =
      some ⟨.loadConst .w8, .bool (op == .either)⟩ := by
    show w₉.at w₉.buffer (w₉.size - 1) = _
    rw [hsize₉, hw₉', Writer.landed_buffer, Writer.landed_at_ne (by omega), Writer.add_buffer,
      show w₃.size + 2 - 1 = w₆.size by omega]
    exact hs₆.wf.add_last _
  refine ⟨hs₉.typed _ _, ?_, fun _ => ?_, fun d hd => ?_, fun d hd hk => ?_⟩
  · show w.size < w₉.size
    omega
  · show w₉.labels.hasWaiting w₉.buffer = true
    rw [hw₉']
    exact Writer.landed_waiting _ _
  · obtain rfl := Option.some.inj (hlast.symm.trans hd)
    exact .inl ⟨by rintro ⟨⟩, by rintro _ ⟨⟩⟩
  · obtain rfl := Option.some.inj (hlast.symm.trans hd)
    -- from here on backwards: what the linked program has of the last part, it has of the parts before
    have hk₉ : Kept K (w₃.size + 1) w₉ :=
      (hk.front ((w₉.typed_alike _ _).leads hs₉.wf).frame (Nat.le_refl _) (by omega)).back
        .refl (n := w₉.size) (by omega) (by omega) fun _ _ _ _ => .inl (by omega)
    rw [hw₉'] at hk₉
    have hjump₂ := hk₉.has_landed (hs₆.trans hs₇).wf (by omega) hskipAt'
    have hl₉ : Leads K.arity w₆.size w₆ _ := hs₇.toLeads.append
      (hs₇.wf.landed (by omega) hskipAt' (.inl rfl) ((hs₆.trans hs₇).not_jump hw (by omega)))
    have hk₆ := hk₉.whole hl₉.frame (by omega)
    have hk₆' : Kept K w₆.size ((w₃.add ⟨.jump, .none⟩).landed w₁.size) := by rwa [← hw₆']
    have hjump₁ := hk₆'.has_landed hs₄.wf (by omega) hbranch
    have hl₆ : Leads K.arity w₃.size w₃ w₆ := by
      rw [hw₆']
      exact (hsecond.wf.add _).append
        (hs₄.wf.landed (by omega) hbranch hjump ((hs₂.trans hs₄).not_jump hw (by omega)))
    have hk₃ := hk₆.whole hl₆.frame (by omega)
    have hs₁₃ := ((Stretch.refl hfirst.wf).add ⟨skipBranch op, .none⟩).trans hsecond.toStretch
    have hcode₁ := hfirst.code (hk₃.whole hs₁₃.frame hs₁₃.frame.size)
    have hcode₂ := hsecond.code hk₃
    rw [hs₂.buffer, hs₂.scopes, hsize₂, ← Nat.add_assoc] at hcode₂
    rw [(hs₂.trans hs₄).buffer, hsize₄, ← Nat.add_assoc] at hjump₁
    rw [(hs₆.trans hs₇).buffer, hsize₇, hsize₆] at hjump₂
    show ExprCode _ _ _ _ _ (K.base w.buffer + w₉.size) _ _ _
    rw [hsize₉]
    exact .logical hop hcode₁ hjump₁ hcode₂ hjump₂ hjoin hrule

/-- A comparison of integers at the end of a condition is that of a binary operator. -/
theorem ExprCode.merged {L : Layout} {r : Room} {c : ScopeChain} {p q no : Nat} {rel : Relation}
    (h : ExprCode L r c e p q d t a) (hd : d.opcode = .compare .int rel)
    (he : endsAtJoin e = false) (branch : L.Has (q - 1) ⟨.branchInt (negation rel), .int no⟩) :
    CondCode L r c e p q no := by
  cases h with
  | binary plain first second joined found action =>
    obtain rfl : _ = Opcode.compare .int rel := hd
    exact .merged plain first second joined found action branch
  | literal => rename_i v; cases v <;> cases hd
  | template =>
    unfold templateDraft at hd
    split at hd <;> cases hd
  | update _ _ _ _ _ load =>
    rcases updateFor?_eq_some load with ⟨_, _, -, rfl⟩ | ⟨_, -, rfl⟩ | ⟨_, -, rfl⟩ <;> cases hd
  | unary computes _ found action =>
    obtain ⟨o, ho, hu, -⟩ := Ty.unaryRule?_emits found computes
    obtain rfl := Action.emit.inj (action.symm.trans ho)
    obtain rfl : _ = Opcode.compare .int rel := hd
    cases hu
  | ternary => cases he
  | logical decides => exact absurd (decides.symm.trans he) nofun
  | member _ found action =>
    obtain ⟨_, ho, -⟩ := Ty.fieldRule_emits found
    obtain rfl := Action.emit.inj (action.symm.trans ho)
    cases hd
  | index _ _ found action =>
    obtain ⟨_, ho, -⟩ := Ty.elementRule?_emits found
    obtain rfl := Action.emit.inj (action.symm.trans ho)
    cases hd
  | assign _ _ _ _ load =>
    rcases storeFor?_eq_some load with ⟨_, _, -, rfl⟩ | ⟨_, -, rfl⟩ | ⟨_, -, rfl⟩ <;> cases hd
  | _ => cases hd

/-- What is written for a condition: the branch at `pt` is taken if it does not hold. -/
structure CondWritten (K : Link) (e : Expr) (w w' : Writer) (pt : CodePoint) : Prop
    extends Stretch K.arity w w' where
  point : pt = ⟨w.buffer, w'.size - 1⟩
  grows : w.size < w'.size
  branch : ∃ op, w'.at w'.buffer (w'.size - 1) = some ⟨op, .none⟩ ∧ IsJump op ∧ op ≠ .jump ∧
    (Kept K (w'.size - 1) w' → ∀ no : Nat,
      K.layout.Has (K.base w.buffer + (w'.size - 1)) ⟨op, .int no⟩ →
      CondCode K.layout (K.room w.buffer) w.scopes e (K.base w.buffer + w.size)
        (K.base w.buffer + w'.size) no)

theorem cond_written {setting : Setting} {code : Write Unit} {usage : Usage} {pt : CodePoint}
    (hc : Writes K code e) (hw : Wf K.arity w) (h₁ : value code usage w = .ok ((), w₁))
    (h : emitBranchIfFalse setting w₁ = .ok (pt, w')) : CondWritten K e w w' pt := by
  obtain ⟨h₁, hv⟩ := value_eq_ok.1 h₁
  have hone := hc hw h₁
  have hgrows := hone.grows
  rcases emitBranchIfFalse_eq_ok h with ⟨rfl, rfl⟩ | ⟨d, rel, hd, hop, hwait, rfl, rfl⟩
  · have hsize := hone.wf.add_size ⟨.branchFalse, .none⟩
    refine ⟨hone.toStretch.add _, by rw [hsize, hone.buffer]; rfl, by omega, .branchFalse, ?_,
      .inr (.inl rfl), nofun, fun hk no hno => ?_⟩
    · rw [hsize]
      exact hone.wf.add_last _
    · rw [hsize] at hk hno ⊢
      have hk₁ := hk.whole (hone.wf.add _).frame (by omega)
      exact .branch ((hone.value hv).code hk₁) hno
  · obtain ⟨hset, hs⟩ := hone.toStretch.replaced hw hgrows
      fun _ => ⟨.branchInt (negation rel), .none⟩
    have hsize : (w₁.setAt ⟨w₁.buffer, w₁.size - 1⟩
        fun _ => ⟨.branchInt (negation rel), .none⟩).size = w₁.size := Writer.setAt_sizeOf ..
    refine ⟨hs, by rw [hsize, hone.buffer], by omega, .branchInt (negation rel), ?_,
      .inr (.inr (.inr ⟨_, rfl⟩)), nofun, fun hk no hno => ?_⟩
    · rw [hsize, Writer.setAt_buffer, Writer.setAt_at, if_pos ⟨rfl, rfl⟩]
      rw [Writer.last?] at hd
      rw [hd]
      rfl
    · rw [hsize] at hk hno ⊢
      have hk₁ : Kept K (w₁.size - 1) w₁ := hk.rewritten hset.frame (Nat.le_refl _)
        fun d' l hd' hl => by
          obtain rfl := Option.some.inj (hd.symm.trans hd')
          rcases hone.last d hd with hp | ⟨_, _, _, rfl, -⟩
          · exact absurd hl (hp.2 l)
          · cases hop
      -- a label that waits behind the comparison would have kept it apart from the branch
      have hjoin : endsAtJoin e = false := by
        by_contra hj
        rw [hone.joins (by simpa using hj)] at hwait
        cases hwait
      refine (hone.code d hd hk₁).merged hop hjoin ?_
      rwa [show K.base w.buffer + w₁.size - 1 = K.base w.buffer + (w₁.size - 1) by omega]

theorem ternary_writes {setting : Setting} {test yes no : Write Unit} {et ey en : Expr}
    (ht : Writes K test et) (hy : Writes K yes ey) (hn : Writes K no en) :
    Writes K (ternary setting test yes no) (.ternary et ey en) := by
  intro w w' hw h
  simp only [ternary, bind_eq_ok, typedValue_eq_ok, joinTypes_eq_ok, emit_eq_ok, openLabel_eq_ok,
    patch_eq_ok, setType_eq_ok] at h
  obtain ⟨_, w₁, h₁, pt, w₂, h₂, _, w₃, ⟨h₃, hv₃, rfl⟩, _, w₄, ⟨rfl, rfl⟩, _, _, ⟨rfl, rfl⟩, _, w₅,
    hw₅, _, w₆, ⟨h₆, hv₆, rfl⟩, _, _, ⟨rfl, rfl⟩, _, _, hw₇, t, w₇, ⟨hjoin, rfl⟩, rfl⟩ := h
  have hpos := hw.size_pos
  have hcond := cond_written ht hw h₁ h₂
  obtain ⟨op, hat, hjump, -, hcode⟩ := hcond.branch
  have hgrows := hcond.grows
  have hfirst := (hy hcond.wf h₃).value hv₃
  have hgrows₃ := hfirst.grows
  have hs₄ := hfirst.toStretch.add ⟨.jump, .none⟩
  have hsize₄ := hfirst.wf.add_size ⟨.jump, .none⟩
  -- the branch behind the condition leads to the second arm
  have hbranch := hs₄.still_at (by omega) hat
  have hw₅' : w₅ = (w₃.add ⟨.jump, .none⟩).landed (w₂.size - 1) := by
    rw [hw₅, hcond.point, Writer.landed, hs₄.buffer, hcond.buffer]
  have hs₅ : Stretch K.arity w w₅ := by
    rw [hw₅']
    exact (hcond.toStretch.trans hs₄).landed hw (by omega) hbranch hjump
  have hsize₅ : w₅.size = w₃.size + 1 := by rw [hw₅', Writer.landed_size, hsize₄]
  -- the jump behind the first arm leads behind the second one
  have hskip₅ : w₅.at w₅.buffer w₃.size = some ⟨.jump, .none⟩ := by
    rw [hw₅', Writer.landed_buffer, Writer.landed_at_ne (by omega)]
    exact hfirst.wf.add_last _
  have hsecond := hn hs₅.wf h₆
  have hgrows₆ := hsecond.grows
  have hskip := hsecond.still_at (by omega) hskip₅
  have hs₆ := hs₅.trans hsecond.toStretch
  have hw₇' : w₇ = w₆.landed w₃.size := by
    rw [hw₇, Writer.landed, hs₆.buffer, (hcond.toStretch.trans hfirst.toStretch).buffer]
  have hs₇ : Stretch K.arity w w₇ := by
    rw [hw₇']
    exact hs₆.landed hw (by omega) hskip (.inl rfl)
  have hsize₇ : w₇.size = w₆.size := by rw [hw₇', Writer.landed_size]
  have hlast : (w₇.typed t false).last? = w₆.last? := by
    show w₇.at w₇.buffer (w₇.size - 1) = _
    rw [hsize₇, hw₇', Writer.landed_buffer, Writer.landed_at_ne (by omega)]
    rfl
  have hl₇ : Leads K.arity w₆.size w₆ w₇ := by
    rw [hw₇']
    exact hs₆.wf.landed (by omega) hskip (.inl rfl) (hs₆.not_jump hw (by omega))
  refine ⟨hs₇.typed _ _, ?_, fun _ => ?_, fun d hd => ?_, fun d hd hk => ?_⟩
  · show w.size < w₇.size
    omega
  · show w₇.labels.hasWaiting w₇.buffer = true
    rw [hw₇']
    exact Writer.landed_waiting _ _
  · rcases hsecond.last d (hlast ▸ hd) with hp | ⟨l, f, s, rfl, hcallee, hpromise⟩
    · exact .inl hp
    · refine .inr ⟨l, f, s, rfl, ?_, (w₇.typed_alike _ _).promise (hl₇.frame.promise _ _ hpromise)⟩
      show w₇.callee = _
      rw [hw₇']
      exact hcallee
  · -- from here on backwards, as for the shortcuts
    have hk₇ : Kept K (w₆.size - 1) w₇ := by
      have := hk.front ((w₇.typed_alike t false).leads hs₇.wf).frame (Nat.le_refl _) (by omega)
      rwa [hsize₇] at this
    have hk₆ : Kept K (w₆.size - 1) w₆ := hk₇.front hl₇.frame (Nat.le_refl _) (by omega)
    rw [hw₇'] at hk₇
    have hjump₂ := hk₇.has_landed hs₆.wf (by omega) hskip
    have hcode₂ := hsecond.code d (hlast ▸ hd) hk₆
    have hk₅ := hk₆.whole hsecond.frame (by omega)
    have hl₅ : Leads K.arity w₃.size w₃ w₅ := by
      rw [hw₅']
      exact (hfirst.wf.add _).append
        (hs₄.wf.landed (by omega) hbranch hjump ((hcond.toStretch.trans hs₄).not_jump hw (by omega)))
    have hk₃ := hk₅.whole hl₅.frame (by omega)
    rw [hw₅'] at hk₅
    have hjump₁ := hk₅.has_landed hs₄.wf (by rw [hw₅'] at hsize₅; omega) hbranch
    have hcode₁ := hfirst.code hk₃
    have hk₂ := (hk₃.whole hfirst.frame hfirst.frame.size).front .refl (by omega) (by omega)
    rw [hs₄.buffer, hcond.buffer, hsize₄] at hjump₁
    have hchoice := hcode hk₂ _ hjump₁
    rw [hcond.buffer, hcond.scopes] at hcode₁
    rw [hs₅.buffer, hs₅.scopes, hsize₅, ← Nat.add_assoc] at hcode₂
    rw [hs₆.buffer] at hjump₂
    show ExprCode _ _ _ _ _ (K.base w.buffer + w₇.size) _ _ _
    rw [hsize₇]
    exact .ternary hchoice hcode₁ hjump₂ hcode₂ hv₆ hjoin

/-! ### Trees -/

theorem AssignOp.binary?_plain {op : AssignOp} {o : BinaryOp} (h : op.binary? = some o) :
    o.isLogical = false := by
  cases op <;> cases h <;> rfl

mutual

/-- What is written for an expression has the shape of its code. -/
theorem expr_writes {setting : Setting} (hK : K.environment = setting.environment) :
    (e : Expr) → Writes K (expr setting e) e
  | .literal v => by
    rw [expr]
    exact literal_writes v
  | .template chunks parts => by
    rw [expr]
    exact template_writes (exprs_write hK parts)
  | .name s => by
    rw [expr]
    exact name_writes hK s
  | .unary op side operand => by
    rw [expr.eq_def]
    cases op with
    | increment => exact update_writes hK (expr_writes hK operand) (.inl rfl)
    | decrement => exact update_writes hK (expr_writes hK operand) (.inr rfl)
    | minus => exact unary_writes (expr_writes hK operand) (.inl rfl)
    | not => exact unary_writes (expr_writes hK operand) (.inr rfl)
  | .binary op left right => by
    rw [expr]
    split
    · next hop => exact logical_writes (expr_writes hK left) (expr_writes hK right) hop
    · next hop => exact binary_writes (expr_writes hK left) (expr_writes hK right) (by simpa using hop)
  | .member object field => by
    rw [expr]
    exact member_writes (expr_writes hK object) field
  | .index object indices => by
    rw [expr]
    exact index_writes (expr_writes hK object) (exprs_write hK indices)
  | .call callee arguments => by
    rw [expr]
    exact call_writes (exprs_write hK arguments) (expr_writes hK callee)
  | .assign op target v => by
    rw [expr]
    refine assign_writes hK ?_ (expr_writes hK target)
    cases ho : op.binary? with
    | some o =>
      rw [storedExpr, ho]
      exact binary_writesValue (expr_writes hK target) (expr_writes hK v) (AssignOp.binary?_plain ho)
    | none =>
      rw [storedExpr, ho]
      exact value_writesValue (expr_writes hK v)
  | .array items => by
    rw [expr]
    exact collection_writes (exprs_write hK items) rfl nofun .array
  | .set items => by
    rw [expr]
    exact collection_writes (exprs_write hK items) rfl nofun .set
  | .object fields => by
    rw [expr]
    exact object_writes (fields_write hK fields)
  | .ternary test yes no => by
    rw [expr]
    exact ternary_writes (expr_writes hK test) (expr_writes hK yes) (expr_writes hK no)

theorem exprs_write {setting : Setting} (hK : K.environment = setting.environment) :
    (es : List Expr) → List.Forall₂ (Writes K) (exprs setting es) es
  | [] => by
    rw [exprs]
    exact .nil
  | e :: es => by
    rw [exprs]
    exact .cons (expr_writes hK e) (exprs_write hK es)

theorem fields_write {setting : Setting} (hK : K.environment = setting.environment) :
    (fields : List (String × Expr)) →
      List.Forall₂ (fun c f => c.1 = f.1 ∧ Writes K c.2 f.2) (fieldExprs setting fields) fields
  | [] => by
    rw [fieldExprs]
    exact .nil
  | (key, e) :: fields => by
    rw [fieldExprs, fieldExpr]
    exact .cons ⟨rfl, expr_writes hK e⟩ (fields_write hK fields)

end

end StackScript.Assembly
