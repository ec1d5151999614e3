import StackScript.Proofs.ExprWriting
import StackScript.Proofs.Placement

/-!
# The code that is written for statements

For each kind of statement, that what is written for it has the shape of its code in the finished
program.  A function is written into a buffer of its own; what is written into it has the shape of
a function's code, and what was there before stays as it is.
-/

namespace StackScript.Assembly

open Typing Bytecode Host Syntax Assembly.Write

/-- A stretch of writing that may contain declarations and jumps out of loops. -/
structure Passage (arity : Nat → Nat) (w w' : Writer) : Prop extends Leads arity w.size w w' where
  still : Still w w'
  scopes : ScopeChain.Grows w.scopes w'.scopes
  depth : w'.breaks.length = w.breaks.length
  breaks : ∀ k : Nat, w.breaks[k]?.getD [] ⊆ w'.breaks[k]?.getD []
  fresh : ∀ pt ∈ w'.breaks.flatten, pt ∈ w.breaks.flatten ∨ w.size ≤ pt.position

namespace Passage

variable {arity : Nat → Nat} {w w₁ w₂ : Writer}

theorem refl (h : Wf arity w) : Passage arity w w :=
  ⟨.refl h, fun _ _ _ => rfl, .refl _, rfl, fun _ => List.Subset.refl _, fun _ h => .inl h⟩

theorem trans (h : Passage arity w w₁) (h' : Passage arity w₁ w₂) : Passage arity w w₂ where
  toLeads := h.toLeads.append h'.toLeads
  still := h.still.trans h'.still h.frame.buffer h.frame.size
  scopes := h.scopes.trans h'.scopes
  depth := h'.depth.trans h.depth
  breaks k := List.Subset.trans (h.breaks k) (h'.breaks k)
  fresh pt hp := by
    rcases h'.fresh pt hp with hp | hp
    · exact h.fresh pt hp
    · exact .inr (Nat.le_trans h.frame.size hp)

theorem buffer (h : Passage arity w w₁) : w₁.buffer = w.buffer := h.frame.buffer

theorem still_at (h : Passage arity w w₁) {i : Nat} {d : Draft} (hi : i ≠ 0)
    (hat : w.at w.buffer i = some d) : w₁.at w₁.buffer i = some d := by
  rw [h.buffer, h.still i hi (Writer.at_lt hat), hat]

/-- An instruction between the stretches is no jump out of a loop. -/
theorem not_jump (h : Passage arity w w₁) {i : Nat} (hi : i < w.size)
    (hn : ⟨w.buffer, i⟩ ∉ w.breaks.flatten) : ⟨w₁.buffer, i⟩ ∉ w₁.breaks.flatten := by
  intro hm
  rw [h.buffer] at hm
  rcases h.fresh _ hm with hm | hm
  · exact hn hm
  · exact absurd hi (Nat.not_lt.2 hm)

/-- A branch of the stretch is made to lead to the next instruction. -/
theorem landed (h : Passage arity w w₁) (hw : Wf arity w) {i : Nat} {op : Opcode} (hi : w.size ≤ i)
    (hat : w₁.at w₁.buffer i = some ⟨op, .none⟩) (hop : IsJump op)
    (hj : ⟨w₁.buffer, i⟩ ∉ w₁.breaks.flatten) : Passage arity w (w₁.landed i) where
  toLeads := h.toLeads.append (h.wf.landed (by have := hw.size_pos; omega) hat hop hj)
  still k hk hlt := by
    rw [Writer.landed_at_ne (by omega)]
    exact h.still k hk hlt
  scopes := h.scopes
  depth := h.depth
  breaks := h.breaks
  fresh := h.fresh

end Passage

theorem Stretch.passage {arity : Nat → Nat} {w w' : Writer} (h : Stretch arity w w') :
    Passage arity w w' where
  toLeads := h.toLeads
  still := h.still
  scopes := h.scopes ▸ .refl _
  depth := by rw [h.breaks]
  breaks k := by
    rw [h.breaks]
    exact List.Subset.refl _
  fresh pt hp := .inl (h.breaks ▸ hp)

/-- A branch that is no plain jump is no jump out of a loop. -/
theorem Wf.branch_not_jump {arity : Nat → Nat} {w : Writer} (hw : Wf arity w) {i : Nat} {d : Draft}
    (hat : w.at w.buffer i = some d) (hd : d.opcode ≠ .jump) :
    ⟨w.buffer, i⟩ ∉ w.breaks.flatten := fun hm => by
  have := (hw.jumps _ hm).2
  rw [hat] at this
  rw [Option.some.inj this] at hd
  exact hd rfl

/-! ### Scopes -/

section Scopes

variable {arity : Nat → Nat} {n : Nat} {w w' : Writer} {c : ScopeChain}

/-- A change of the scopes that declares no function and takes no slot. -/
theorem Wf.scoped (hw : Wf arity w) (hs : c.Sound (arity w.buffer))
    (hdepth : c.functionDepth = w.scopes.functionDepth)
    (hframe : c.frame.size ≤ w.scopes.frame.size) (htop : c.topFrame.size ≤ w.scopes.topFrame.size)
    (hold : ∀ e ∈ c.entities, ∀ l, e.location = .entry l → e ∈ w.scopes.entities) :
    Leads arity n w { w with scopes := c } := by
  have hpromise : ∀ {l m}, w.Promise arity l m →
      ({ w with scopes := c } : Writer).Promise arity l m := fun hp =>
    hp.congr rfl (Nat.le_refl _) fun e he hl => hold e he _ hl
  refine ⟨⟨hw.valid, hw.bound, hw.waiting, fun e he l hl => ?_, hs, fun h => hw.main (hdepth ▸ h), ?_,
    ?_, hw.jumps, hw.distinct⟩, ⟨rfl, Nat.le_refl _, Nat.le_refl _, fun _ _ d hd => ⟨d, hd, .same⟩,
    fun _ _ _ => rfl, fun l pt _ hl => hl.congr rfl rfl, fun _ _ => hpromise⟩⟩
  · obtain ⟨s, hs, hp⟩ := hw.entries e (hold e he l hl) l hl
    exact ⟨s, hs, hpromise hp⟩
  · obtain ⟨k, hk, hle⟩ := hw.room
    exact ⟨k, hk, Nat.le_trans hframe hle⟩
  · obtain ⟨k, hk, hle⟩ := hw.top
    exact ⟨k, hk, Nat.le_trans htop hle⟩

theorem beginScope_leads (hw : Wf arity w) :
    Leads arity n w { w with scopes := w.scopes.beginScope } := by
  have he : w.scopes.beginScope.entities = w.scopes.entities := by
    simp [ScopeChain.beginScope, ScopeChain.entities, ScopeChain.scopes]
  exact hw.scoped hw.sound.beginScope rfl (Nat.le_refl _) (Nat.le_refl _) fun e h _ _ => he ▸ h

/-- A new variable and the room for it. -/
theorem declared_leads {name : String} {k : Bool} {t : Ty} {e : Entity} (hw : Wf arity w)
    (h : w.scopes.declareLocal name k t = (.ok e, c)) :
    Leads arity n w (({ w with scopes := c } : Writer).setAt ⟨w.buffer, 0⟩ widen) := by
  have hg := ScopeChain.grows_declareLocal hw.sound.level h
  have hsound := hw.sound.declareLocal h
  have hdepth := hg.functionDepth
  obtain ⟨-, he, hc⟩ := ScopeChain.declareLocal_eq_ok h
  have hframe : c.frame.size = w.scopes.frame.size + 1 := by rw [hc]; simp [ScopeChain.add]
  have hmem : ∀ f ∈ c.entities, ∀ l, f.location = .entry l → f ∈ w.scopes.entities := by
    intro f hf l hl
    rw [hc] at hf
    rcases List.mem_cons.1 hf with rfl | hf
    · rw [he] at hl
      cases hl
    · exact hf
  generalize hw' : Writer.setAt _ _ _ = w'
  have hat : ∀ b i, i ≠ 0 ∨ b ≠ w.buffer → w'.at b i = w.at b i := fun b i hi => by
    rw [← hw', Writer.setAt_at, if_neg (fun h => hi.elim (· h.2) (· h.1))]
    rfl
  -- the room of the function gets one cell more, and this is all that changes in the buffer
  have hroom : ∀ m : Nat, w.at w.buffer 0 = some ⟨.allocStack, .int m⟩ →
      w'.at w.buffer 0 = some ⟨.allocStack, .int (m + 1 : Nat)⟩ := fun m hm => by
    rw [← hw', Writer.setAt_at, if_pos ⟨rfl, rfl⟩]
    show (w.at w.buffer 0).map widen = _
    rw [hm]
    rfl
  have hpromise : ∀ {l m}, w.Promise arity l m → w'.Promise arity l m := fun hp => by
    refine hp.congr (by rw [← hw']; rfl) (by rw [← hw']; simp) fun f hf hl => ?_
    rw [← hw'] at hf
    exact hmem f hf _ hl
  have hbuffer : w'.buffer = w.buffer := by rw [← hw']; rfl
  have hscopes : w'.scopes = c := by rw [← hw']; rfl
  have hsize : ∀ b, w'.sizeOf b = w.sizeOf b := fun b => by
    rw [← hw', Writer.setAt_sizeOf]
    rfl
  obtain ⟨m, hm, hle⟩ := hw.room
  refine ⟨⟨?_, ?_, ?_, fun f hf l hl => ?_, ?_, ?_, ?_, ?_, fun pt hpt => ?_, ?_⟩,
    ⟨hbuffer, ?_, ?_, fun i _ d hd => ?_, fun b _ hne => ?_, fun l pt _ hl => hl.congr ?_ (hsize _),
      fun _ _ => hpromise⟩⟩
  · rw [hbuffer, ← hw', Writer.setAt_buffers_size]
    exact hw.valid
  · rw [← hw']
    exact hw.bound
  · rw [← hw']
    exact hw.waiting
  · rw [hscopes] at hf
    obtain ⟨s, hs, hp⟩ := hw.entries f (hmem f hf l hl) l hl
    exact ⟨s, hs, hpromise hp⟩
  · rw [hscopes, hbuffer]
    exact hsound
  · rw [hscopes, hbuffer, hdepth]
    exact hw.main
  · rw [hscopes, hbuffer]
    exact ⟨m + 1, hroom m hm, by omega⟩
  · obtain ⟨k, hk, hkle⟩ := hw.top
    by_cases h0 : w.scopes.functionDepth = 0
    · rw [hscopes, ScopeChain.topFrame_of_top (hdepth.trans h0)]
      rw [hw.main h0] at hroom hm
      exact ⟨m + 1, hroom m hm, by omega⟩
    · rw [hscopes, ScopeChain.topFrame_of_inside h0 hg.frames]
      -- inside of a function, the frame of the program stays as it is
      by_cases hb : 0 = w.buffer
      · rw [← hb] at hroom
        exact ⟨k + 1, hroom k hk, Nat.le_succ_of_le hkle⟩
      · exact ⟨k, (hat 0 0 (.inr hb)).trans hk, hkle⟩
  · rw [← hw'] at hpt
    obtain ⟨hb, hj⟩ := hw.jumps pt hpt
    rw [hbuffer]
    refine ⟨hb, (hat _ _ (.inl fun h0 => ?_)).trans hj⟩
    rw [h0, hm] at hj
    cases hj
  · rw [← hw']
    exact hw.distinct
  · exact Nat.le_of_eq (by rw [← hw', Writer.setAt_buffers_size])
  · exact Nat.le_of_eq (by rw [Writer.size, Writer.size, hbuffer, hsize])
  · by_cases hi : i = 0
    · subst hi
      obtain rfl := Option.some.inj (hm.symm.trans hd)
      exact ⟨_, hroom m hm, .room (Nat.le_succ m)⟩
    · exact ⟨d, (hat _ _ (.inl hi)).trans hd, .same⟩
  · rw [← hw']
    show (w.buffers.modify w.buffer _).getD b #[] = _
    rw [Writer.getD_modify _ _ _ _ (by simp), if_neg hne]
  · rw [← hw']
    rfl

end Scopes

/-! ### Variables -/

variable {K : Link} {w w₁ w₂ w₃ w' : Writer}

theorem initialType_written {declared t : Ty} {usage : Usage} (hw : Wf K.arity w)
    (h : initialType declared usage w = .ok (t, w')) : Stretch K.arity w w' ∧
      (Kept K w'.size w' → InitialCode K.layout declared w.type (K.base w.buffer + w.size)
        (K.base w.buffer + w'.size) t) := by
  simp only [initialType, bind_eq_ok, lastType_eq_ok] at h
  obtain ⟨found, w, ⟨rfl, rfl⟩, h⟩ := h
  by_cases hany : declared = .any
  · subst hany
    rw [if_pos (beq_self_eq_true _)] at h
    obtain ⟨rfl, rfl⟩ := pure_eq_ok.1 h
    exact ⟨.refl hw, fun _ => .any⟩
  rw [if_neg (by simpa using hany)] at h
  by_cases haccepts : declared.accepts w.type = true
  · rw [if_pos haccepts] at h
    obtain ⟨rfl, rfl⟩ := pure_eq_ok.1 h
    exact ⟨.refl hw, fun _ => .same hany haccepts⟩
  rw [if_neg haccepts] at h
  cases hconv : w.type.conversion? declared with
  | none =>
    rw [hconv] at h
    exact (throw_eq_ok.1 h).elim
  | some o =>
    simp only [hconv, bind_eq_ok, put_eq_ok, pure_eq_ok] at h
    obtain ⟨_, _, rfl, rfl, rfl⟩ := h
    have hu := Ty.conversion?_unary hconv
    refine ⟨(Stretch.refl hw).add _, fun hk => ?_⟩
    have hsize := hw.add_size ⟨o, .none⟩
    have hhas := hk.has (i := w.size) (by omega) (hw.add_last _)
      (Draft.final_of_closed (by cases o <;> first | rfl | cases hu))
    rw [hsize, ← Nat.add_assoc]
    exact .convert hany (by simpa using haccepts) hconv hhas

/-- The declaration of a variable, and the room for it. -/
theorem declared_passage {name : String} {k : Bool} {t : Ty} {e : Entity} {c : ScopeChain}
    (hw : Wf K.arity w) (h : w.scopes.declareLocal name k t = (.ok e, c)) :
    Passage K.arity w (({ w with scopes := c } : Writer).setAt ⟨w.buffer, 0⟩ widen) where
  toLeads := declared_leads hw h
  still i hi _ := by
    rw [Writer.setAt_at, if_neg fun h => hi h.2]
    rfl
  scopes := ScopeChain.grows_declareLocal hw.sound.level h
  depth := rfl
  breaks _ := List.Subset.refl _
  fresh _ h := .inl h

/-! ### Statements -/

/-- The buffers from the `n`th on are there for these functions. -/
def Numbered (arity : Nat → Nat) (n : Nat) (bodies : List (Nat × List Stmt)) : Prop :=
  ∀ i f, bodies[i]? = some f → arity (n + i) = f.1

theorem Numbered.cons {arity : Nat → Nat} {n : Nat} {f : Nat × List Stmt}
    {rest : List (Nat × List Stmt)} (h : Numbered arity n (f :: rest)) :
    arity n = f.1 ∧ Numbered arity (n + 1) rest :=
  ⟨h 0 f rfl, fun i m hi => by
    rw [show n + 1 + i = n + (i + 1) by omega]
    exact h (i + 1) m hi⟩

theorem Numbered.append {arity : Nat → Nat} {n : Nat} {l l' : List (Nat × List Stmt)}
    (h : Numbered arity n (l ++ l')) : Numbered arity n l ∧ Numbered arity (n + l.length) l' := by
  refine ⟨fun i k hi => h i k ?_, fun i k hi => ?_⟩
  · rw [List.getElem?_append_left (List.getElem?_eq_some_iff.1 hi).1, hi]
  · rw [Nat.add_assoc]
    refine h (l.length + i) k ?_
    rw [List.getElem?_append_right (Nat.le_add_right _ _), Nat.add_sub_cancel_left, hi]

/-- The buffers from the `n`th on hold the code of these functions. -/
def Covers (K : Link) (n : Nat) (functions : List Function) : Prop :=
  ∀ i f, functions[i]? = some f → FunctionCode K.layout f (n + i)

theorem Covers.nil {K : Link} {n : Nat} : Covers K n [] := nofun

theorem Covers.cons {K : Link} {n : Nat} {f : Function} {rest : List Function}
    (h : FunctionCode K.layout f n) (h' : Covers K (n + 1) rest) :
    Covers K n (f :: rest) := fun i g hi => by
  cases i with
  | zero => exact Option.some.inj hi ▸ h
  | succ i =>
    rw [show n + (i + 1) = n + 1 + i by omega]
    exact h' i g hi

theorem Covers.append {K : Link} {n m : Nat} {l l' : List Function} (h : Covers K n l)
    (h' : Covers K m l') (hm : m = n + l.length) : Covers K n (l ++ l') := fun i f hi => by
  rcases Nat.lt_or_ge i l.length with hlt | hge
  · rw [List.getElem?_append_left hlt] at hi
    exact h i f hi
  · rw [List.getElem?_append_right hge] at hi
    rw [show n + i = m + (i - l.length) by omega]
    exact h' _ f hi

/-- The functions that the innermost block declares have these numbers of parameters. -/
def Agrees (c : ScopeChain) (functions : List (String × Nat)) : Prop :=
  ∀ f ∈ functions, ∀ e, c.inner.find? f.1 = some e → ∀ s, e.signature = some s →
    s.params.length = f.2

/-- The jumps out of the open loops lead to the loops' ends. -/
def Exits (K : Link) (w : Writer) (exits : List Nat) : Prop :=
  ∀ (k : Nat) (pt : CodePoint), pt ∈ w.breaks[k]?.getD [] → ∃ exit : Nat, exits[k]? = some exit ∧
    K.layout.Has (K.base pt.buffer + pt.position) ⟨.jump, .int exit⟩

theorem Exits.back {exits : List Nat} (h : Exits K w' exits) (hp : Passage K.arity w w') :
    Exits K w exits := fun k pt hpt => h k pt (hp.breaks k hpt)

/-- What a statement relies on when it is written: the numbers of parameters of its functions, and
of the functions of its block. -/
structure Ready (K : Link) (functions : List (String × Nat)) (s : Stmt) (w : Writer) : Prop where
  numbered : Numbered K.arity w.buffers.size s.bodies
  consistent : Consistent functions
  agrees : Agrees w.scopes functions
  own : s.own ⊆ functions
  steady : s.Steady

/-- What is written for a statement. -/
structure StmtWritten (K : Link) (functions : List (String × Nat)) (s : Stmt) (w w' : Writer) : Prop
    extends Passage K.arity w w' where
  count : w'.buffers.size = w.buffers.size + s.bodies.length
  names : w'.scopes.context = s.after w.scopes.context
  agrees : Agrees w'.scopes functions
  functions : Kept K w'.size w' → Covers K w.buffers.size (s.functions w.scopes.context)
  code : ∀ exits, Kept K w'.size w' → Exits K w' exits → StmtCode K.layout (K.room w.buffer) exits
    w.scopes s w'.scopes (K.base w.buffer + w.size) (K.base w.buffer + w'.size)

/-- The code that `code` writes is that of a statement. -/
def WritesStmt (K : Link) (code : Write Unit) (s : Stmt) : Prop :=
  ∀ ⦃w w' functions⦄, Wf K.arity w → code w = .ok ((), w') → Ready K functions s w →
    StmtWritten K functions s w w'

/-- A statement without functions. -/
theorem StmtWritten.of_passage {functions : List (String × Nat)} {s : Stmt} (h : Passage K.arity w w')
    (hcount : w'.buffers.size = w.buffers.size) (hs : s.bodies = [])
    (hn : w'.scopes.context = s.after w.scopes.context) (ha : Agrees w'.scopes functions)
    (hc : ∀ exits, Kept K w'.size w' → Exits K w' exits → StmtCode K.layout (K.room w.buffer) exits
      w.scopes s w'.scopes (K.base w.buffer + w.size) (K.base w.buffer + w'.size)) :
    StmtWritten K functions s w w' where
  toPassage := h
  count := by rw [hcount, hs]; rfl
  names := hn
  agrees := ha
  functions _ := by
    rw [List.eq_nil_of_length_eq_zero ((s.functions_length _).trans (congrArg _ hs))]
    exact .nil
  code := hc

theorem StmtWritten.of_stretch {functions : List (String × Nat)} {s : Stmt} (h : Stretch K.arity w w')
    (hr : Ready K functions s w) (hs : s.bodies = []) (hn : ∀ c, s.after c = c)
    (hc : ∀ exits, Kept K w'.size w' → Exits K w' exits → StmtCode K.layout (K.room w.buffer) exits
      w.scopes s w.scopes (K.base w.buffer + w.size) (K.base w.buffer + w'.size)) :
    StmtWritten K functions s w w' :=
  .of_passage h.passage h.count hs (by rw [h.scopes, hn]) (h.scopes ▸ hr.agrees) (h.scopes.symm ▸ hc)

/-! ### Expressions, variables and returns -/

/-- A value that is dropped. -/
theorem dropped_written {code : Write Unit} {e : Expr} (hc : Writes K code e) (hw : Wf K.arity w)
    (h : code w = .ok ((), w₁))
    (h' : (w₁.type = .void ∧ w' = w₁) ∨ (w₁.type ≠ .void ∧ w' = w₁.add ⟨.popStack, .int (1 : Nat)⟩)) :
    Stretch K.arity w w' ∧ (Kept K w'.size w' → DroppedCode K.layout (K.room w.buffer) w.scopes e
      (K.base w.buffer + w.size) (K.base w.buffer + w'.size)) := by
  have hone := hc hw h
  rcases h' with ⟨hv, rfl⟩ | ⟨hv, rfl⟩
  · refine ⟨hone.toStretch, fun hk => ?_⟩
    obtain ⟨q, d, hq, hcode, hhas⟩ := hone.in_place hk
    rw [hv] at hcode
    rw [hq]
    exact .void hcode hhas
  · refine ⟨hone.toStretch.add _, fun hk => ?_⟩
    have hsize := hone.wf.add_size ⟨.popStack, .int (1 : Nat)⟩
    have hhas := hk.has (i := w₁.size) (by omega) (hone.wf.add_last _) (Draft.final_of_closed rfl)
    have hcode := (hone.value hv).code (hk.whole (hone.wf.add _).frame (by omega))
    rw [Writer.add_buffer, hone.buffer] at hhas
    rw [hsize, ← Nat.add_assoc]
    exact .drop hcode hhas

theorem exprStmt_eq_ok {code : Write Unit} {keep left : Bool}
    (h : exprStmt code keep w = .ok (left, w')) : ∃ w₁, code w = .ok ((), w₁) ∧
      ((w₁.type = .void ∧ left = false ∧ w' = w₁) ∨
        (w₁.type ≠ .void ∧ keep = true ∧ left = true ∧ w' = w₁) ∨
        (w₁.type ≠ .void ∧ keep = false ∧ left = false ∧
          w' = w₁.add ⟨.popStack, .int (1 : Nat)⟩)) := by
  simp only [exprStmt, bind_eq_ok, lastType_eq_ok] at h
  obtain ⟨_, _, hc, _, w₁, ⟨rfl, rfl⟩, h⟩ := h
  refine ⟨w₁, hc, ?_⟩
  by_cases hv : w₁.type = .void
  · rw [if_pos (beq_iff_eq.2 hv)] at h
    obtain ⟨rfl, rfl⟩ := pure_eq_ok.1 h
    exact .inl ⟨hv, rfl, rfl⟩
  rw [if_neg fun hb => hv (beq_iff_eq.1 hb)] at h
  cases keep with
  | true =>
    obtain ⟨rfl, rfl⟩ := pure_eq_ok.1 h
    exact .inr (.inl ⟨hv, rfl, rfl, rfl⟩)
  | false =>
    simp only [Bool.false_eq_true, if_false, bind_eq_ok, put_eq_ok, pure_eq_ok] at h
    obtain ⟨_, _, rfl, rfl, rfl⟩ := h
    exact .inr (.inr ⟨hv, rfl, rfl, rfl⟩)

theorem exprStmt_writes {code : Write Unit} {e : Expr} (hc : Writes K code e) :
    WritesStmt K (discard (exprStmt code false)) (.expr e) := by
  intro w w' functions hw h hr
  obtain ⟨_, h⟩ := discard_eq_ok.1 h
  obtain ⟨w₁, h₁, h⟩ := exprStmt_eq_ok h
  have hend : (w₁.type = .void ∧ w' = w₁) ∨
      (w₁.type ≠ .void ∧ w' = w₁.add ⟨.popStack, .int (1 : Nat)⟩) := by
    rcases h with ⟨hv, -, hw'⟩ | ⟨-, hk, -⟩ | ⟨hv, -, -, hw'⟩
    · exact .inl ⟨hv, hw'⟩
    · cases hk
    · exact .inr ⟨hv, hw'⟩
  obtain ⟨hs, hcode⟩ := dropped_written hc hw h₁ hend
  exact .of_stretch hs hr rfl (fun _ => rfl) fun _ hk _ => .expr (hcode hk)

/-- A new variable hides no function of its block. -/
theorem Agrees.declareLocal {c c' : ScopeChain} {name : String} {k : Bool} {t : Ty} {e : Entity}
    {functions : List (String × Nat)} (ha : Agrees c functions)
    (h : c.declareLocal name k t = (.ok e, c')) : Agrees c' functions := by
  obtain ⟨-, rfl, rfl⟩ := ScopeChain.declareLocal_eq_ok h
  intro f hf e he s hs
  simp only [ScopeChain.add, Scope.find?, List.find?_cons] at he
  split at he
  · obtain rfl := Option.some.inj he
    cases hs
  · exact ha f hf e he s hs

/-- The store of an initial value. -/
theorem store_written {t : Ty} {i : Int} (hw : Wf K.arity w)
    (h : (do
      applyRule (← findRule t (.loadSlot .own)) (.int i)
      replaceLoad storeFor?
      setType .void false : Write Unit) w = .ok ((), w')) :
    Stretch K.arity w w' ∧ w'.size = w.size + 1 ∧ (Kept K w'.size w' →
      K.layout.Has (K.base w.buffer + w.size) ⟨.store .own t.width, .int i⟩) := by
  simp only [bind_eq_ok, findRule_eq_ok, setType_eq_ok] at h
  obtain ⟨rule, w, ⟨hrule, rfl⟩, _, w₁, happly, _, w₂, hload, rfl⟩ := h
  obtain ⟨-, rfl⟩ := Ty.slotRule?_eq_some.1 hrule
  have hw₁ := (applyRule_eq_ok happly).1 _ rfl
  have hs : Stretch K.arity w w₁ := by
    rw [hw₁]
    exact ((Stretch.refl hw).add _).typed _ _
  have hsize : w₁.size = w.size + 1 := by
    rw [hw₁]
    exact hw.add_size _
  have hlast : w₁.at w₁.buffer (w₁.size - 1) = some ⟨.load .own t.width, .int i⟩ := by
    rw [hsize, hw₁]
    exact hw.add_last _
  -- the load of the new slot is put at the end, and becomes a store
  obtain ⟨d, o, hd, ho, rfl⟩ := replaceLoad_eq_ok.1 hload
  obtain rfl := Option.some.inj (hlast.symm.trans hd)
  obtain rfl := Option.some.inj ho
  obtain ⟨-, hs'⟩ := hs.replaced hw (by omega) fun d => { d with opcode := .store .own t.width }
  have hsize' : (w₁.setAt ⟨w₁.buffer, w₁.size - 1⟩
      fun d => { d with opcode := .store .own t.width }).size = w.size + 1 :=
    (Writer.setAt_sizeOf ..).trans hsize
  refine ⟨hs'.typed _ _, hsize', fun hk => ?_⟩
  have hk' : Kept K (w.size + 1) (w₁.setAt ⟨w₁.buffer, w₁.size - 1⟩
      fun d => { d with opcode := .store .own t.width }) := by
    rw [← hsize']
    exact hk.whole ((Writer.typed_alike _ _ _).leads hs'.wf).frame (Nat.le_refl _)
  have hhas := hk'.has (i := w.size) (by omega) (d := ⟨.store .own t.width, .int i⟩) (by
    rw [show w.size = w₁.size - 1 by omega, Writer.setAt_buffer, Writer.setAt_at,
      if_pos ⟨rfl, rfl⟩, hlast]
    rfl) (Draft.final_of_closed rfl)
  rwa [Writer.setAt_buffer, hs.buffer] at hhas

theorem declare_writes {d : Declaration} {initial : Option (Write Unit)}
    (hc : Option.Rel (Writes K) initial d.initial) :
    WritesStmt K (declare d initial) (.declare d) := by
  intro w w' functions hw h hr
  generalize hinit : d.initial = init at hc
  cases hc with
  | none =>
    simp only [declare, bind_eq_ok, resolveType_eq_ok, pure_eq_ok, inScopes_eq_ok, reserveSlot_eq_ok,
      Option.isSome_none, Bool.false_eq_true, if_false, setType_eq_ok] at h
    obtain ⟨t, w, ⟨ht, rfl⟩, _, w, ⟨rfl, rfl⟩, e, _, ⟨c, hc, rfl⟩, _, w₁, hw₁, rfl⟩ := h
    have hp : Passage K.arity w w₁ := hw₁ ▸ declared_passage hw hc
    have hscopes : w₁.scopes = c := by rw [hw₁]; rfl
    have hsize : w₁.size = w.size := by rw [hw₁]; exact Writer.setAt_sizeOf ..
    refine .of_passage (hp.trans ((Stretch.refl hp.wf).typed .void false).passage) ?_ rfl ?_ ?_
      fun _ hk _ => ?_
    · show w₁.buffers.size = _
      rw [hw₁, Writer.setAt_buffers_size]
    · show w₁.scopes.context = _
      rw [hscopes]
      exact ScopeChain.context_declareLocal hc
    · show Agrees w₁.scopes functions
      rw [hscopes]
      exact hr.agrees.declareLocal hc
    · -- the linked function has room for the new slot
      have hroom := (hk.whole ((Stretch.refl hp.wf).typed .void false).frame (Nat.le_refl _)).room
        hp.wf hp.wf.size_pos
      rw [hscopes, hp.buffer] at hroom
      have hframe : c.frame.size = w.scopes.frame.size + 1 := by
        rw [(ScopeChain.declareLocal_eq_ok hc).2.2]
        simp [ScopeChain.add]
      show StmtCode _ _ _ _ _ w₁.scopes _ (K.base w.buffer + w₁.size)
      rw [hscopes, hsize]
      refine .declare hinit ht hc (.inl ⟨by omega, ?_⟩)
      show (_ : Int) < (K.slots w.buffer : Nat)
      omega
  | @some code init hcode =>
    simp only [declare, bind_eq_ok, resolveType_eq_ok, inScopes_eq_ok, reserveSlot_eq_ok,
      value_eq_ok, Option.isSome_some, if_true] at h
    obtain ⟨declared, w, ⟨hd, rfl⟩, _, w₁, ⟨h₁, hv⟩, t, w₂, h₂, e, _, ⟨c, hc, rfl⟩, _, w₃, hw₃, h⟩ := h
    have hvalue := (hcode hw h₁).value hv
    obtain ⟨hs₂, hconv⟩ := initialType_written hvalue.wf h₂
    have hp₃ : Passage K.arity w₂ w₃ := hw₃ ▸ declared_passage hs₂.wf hc
    have hscopes₃ : w₃.scopes = c := by rw [hw₃]; rfl
    have hsize₃ : w₃.size = w₂.size := by rw [hw₃]; exact Writer.setAt_sizeOf ..
    have hcount₃ : w₃.buffers.size = w₂.buffers.size := by rw [hw₃, Writer.setAt_buffers_size]
    have hlocation : e.location = .slot w₂.scopes.frame.size := by
      rw [(ScopeChain.declareLocal_eq_ok hc).2.1]
    rw [hlocation] at h
    obtain ⟨hs₄, hsize₄, hstore⟩ := store_written hp₃.wf h
    -- first the value and its conversion, in which the new name is not known yet
    have hs₁₂ := hvalue.toStretch.trans hs₂
    have hsc := hs₁₂.scopes
    have hb := hs₁₂.buffer
    have hp := hs₁₂.passage.trans (hp₃.trans hs₄.passage)
    refine .of_passage hp ?_ rfl ?_ ?_ fun exits hk _ => ?_
    · rw [hs₄.count, hcount₃, hs₁₂.count]
    · rw [hs₄.scopes, hscopes₃, ScopeChain.context_declareLocal hc, hsc]
      rfl
    · rw [hs₄.scopes, hscopes₃]
      exact (hsc ▸ hr.agrees : Agrees w₂.scopes functions).declareLocal hc
    · have hk₂ := hk.whole (hp₃.trans hs₄.passage).frame (hp₃.trans hs₄.passage).frame.size
      have hcode₁ := hvalue.code (hk₂.whole hs₂.frame hs₂.frame.size)
      have hcode₂ := hconv hk₂
      have hhas := hstore hk
      have hroom := (hk.whole hs₄.frame hs₄.frame.size).room hp₃.wf hp₃.wf.size_pos
      have hframe : c.frame.size = w₂.scopes.frame.size + 1 := by
        rw [(ScopeChain.declareLocal_eq_ok hc).2.2]
        simp [ScopeChain.add]
      rw [hp₃.buffer, hb, hsize₃] at hhas
      rw [hvalue.buffer] at hcode₂
      rw [hscopes₃, hp₃.buffer, hb] at hroom
      rw [hs₄.scopes, hscopes₃, hsize₄, hsize₃, ← Nat.add_assoc]
      rw [hsc] at hc hframe hhas
      refine .initial hinit hd hcode₁ hcode₂ hc (.inl ⟨by omega, ?_⟩) hhas
      show (_ : Int) < (K.slots w.buffer : Nat)
      omega

theorem empty_writes : WritesStmt K (pure ()) .empty := by
  intro w w' functions hw h hr
  obtain ⟨-, rfl⟩ := pure_eq_ok.1 h
  exact .of_stretch (.refl hw) hr rfl (fun _ => rfl) fun _ _ _ => .empty

/-- A value with one instruction behind it. -/
theorem value_add_written {e : Expr} {d : Draft} (h : ValueWritten K e w w₁) (hd : isOpen d.opcode = false)
    (hl : ∀ l, d.operand ≠ .label l) (hk : Kept K (w₁.add d).size (w₁.add d)) :
    ValueCode K.layout (K.room w.buffer) w.scopes e (K.base w.buffer + w.size)
        (K.base w.buffer + w₁.size) w₁.type ∧
      K.layout.Has (K.base w.buffer + w₁.size) d ∧
      K.base w.buffer + (w₁.add d).size = K.base w.buffer + w₁.size + 1 := by
  have hsize := h.wf.add_size d
  have hhas := hk.has (i := w₁.size) (by omega) (h.wf.add_last _) (Draft.final_of_closed hd)
  rw [Link.draft_eq hl, Writer.add_buffer, h.buffer] at hhas
  exact ⟨h.code (hk.whole (h.wf.add _).frame (by omega)), hhas, by omega⟩

/-- One instruction is written. -/
theorem add_has {d : Draft} (hw : Wf K.arity w) (hd : isOpen d.opcode = false)
    (hl : ∀ l, d.operand ≠ .label l) (hs : Passage K.arity (w.add d) w') (hk : Kept K w'.size w') :
    K.layout.Has (K.base w.buffer + w.size) d := by
  have hsize := hw.add_size d
  have h := (hk.whole hs.frame hs.frame.size).has (i := w.size) (by omega) (hw.add_last d)
    (Draft.final_of_closed hd)
  rwa [Link.draft_eq hl] at h

theorem ret_writes {code : Option (Write Unit)} {e : Option Expr}
    (hc : Option.Rel (Writes K) code e) : WritesStmt K (ret code) (.ret e) := by
  intro w w' functions hw h hr
  simp only [ret, bind_eq_ok, get_eq_ok] at h
  obtain ⟨_, _, ⟨hg, hg'⟩, h⟩ := h
  rw [hg, hg'] at h
  -- a return of the program ends the run, one of a function leaves its frame
  by_cases hdepth : w.scopes.functionDepth = 0
  · rw [if_pos (beq_iff_eq.2 hdepth)] at h
    cases hc with
    | none =>
      simp only [bind_eq_ok, put_eq_ok, setType_eq_ok] at h
      obtain ⟨_, w₁, rfl, _, w₂, rfl, rfl⟩ := h
      have hs := (Stretch.refl hw).add ⟨.loadNull, .none⟩
      have hs₂ := ((Stretch.refl hs.wf).add ⟨.term, .none⟩).typed .void false
      refine .of_stretch (hs.trans hs₂) hr rfl (fun _ => rfl) fun _ hk _ => ?_
      have hsize₁ := hw.add_size ⟨.loadNull, .none⟩
      have hsize₂ := hs.wf.add_size ⟨.term, .none⟩
      have hnull := add_has (d := ⟨_, .none⟩) hw rfl (by rintro _ ⟨⟩) hs₂.passage hk
      have hterm := add_has (d := ⟨_, .none⟩) hs.wf rfl (by rintro _ ⟨⟩)
        ((Stretch.refl (hs.wf.add (n := 0) _).wf).typed .void false).passage hk
      rw [Writer.add_buffer, hsize₁] at hterm
      rw [Writer.typed_size, hsize₂, hsize₁]
      exact .stopNull hdepth hnull hterm
    | some he =>
      simp only [bind_eq_ok, value_eq_ok, put_eq_ok, setType_eq_ok] at h
      obtain ⟨_, w₁, ⟨h₁, hv⟩, _, w₂, rfl, rfl⟩ := h
      have hvalue := (he hw h₁).value hv
      refine .of_stretch ((hvalue.toStretch.add _).typed _ _) hr rfl (fun _ => rfl) fun _ hk _ => ?_
      obtain ⟨hcode, hhas, hq⟩ := value_add_written (d := ⟨_, .none⟩) hvalue rfl (by rintro _ ⟨⟩)
        (hk.whole ((Writer.typed_alike _ _ _).leads (hvalue.wf.add (n := 0) _).wf).frame (Nat.le_refl _))
      show StmtCode _ _ _ _ _ _ _ (K.base w.buffer + (w₁.add _).size)
      rw [hq]
      exact .stop hdepth hcode hhas
  · rw [if_neg fun hb => hdepth (beq_iff_eq.1 hb)] at h
    cases hc with
    | none =>
      simp only [bind_eq_ok, put_eq_ok, setType_eq_ok] at h
      obtain ⟨_, w₁, rfl, rfl⟩ := h
      have hs := (Stretch.refl hw).add ⟨.ret, .none⟩
      refine .of_stretch (hs.typed _ _) hr rfl (fun _ => rfl) fun _ hk _ => ?_
      have hsize := hw.add_size ⟨.ret, .none⟩
      have hret := add_has (d := ⟨_, .none⟩) hw rfl (by rintro _ ⟨⟩) ((Stretch.refl hs.wf).typed .void false).passage hk
      rw [Writer.typed_size, hsize, ← Nat.add_assoc]
      exact .leaveNull hdepth hret
    | some he =>
      simp only [bind_eq_ok, typedValue_eq_ok, get_eq_ok, discard_eq_ok, joinTypes_eq_ok, put_eq_ok,
        setType_eq_ok] at h
      obtain ⟨_, w₁, ⟨h₁, hv, rfl⟩, _, _, ⟨rfl, rfl⟩, _, w₁, ⟨_, -, rfl⟩, _, w₂, rfl, rfl⟩ := h
      have hvalue := (he hw h₁).value hv
      refine .of_stretch ((hvalue.toStretch.add _).typed _ _) hr rfl (fun _ => rfl) fun _ hk _ => ?_
      obtain ⟨hcode, hhas, hq⟩ := value_add_written (d := ⟨_, .none⟩) hvalue rfl (by rintro _ ⟨⟩)
        (hk.whole ((Writer.typed_alike _ _ _).leads (hvalue.wf.add (n := 0) _).wf).frame (Nat.le_refl _))
      show StmtCode _ _ _ _ _ _ _ (K.base w.buffer + (w₁.add _).size)
      rw [hq]
      exact .leave hdepth hcode hhas

/-! ### Jumps out of loops -/

/-- A jump that is noted for one of the loops. -/
theorem flatten_modify_perm {l : List (List CodePoint)} {k : Nat} (hk : k < l.length)
    (pt : CodePoint) : (l.modify k (pt :: ·)).flatten.Perm (pt :: l.flatten) := by
  induction l generalizing k with
  | nil => exact absurd hk (Nat.not_lt_zero _)
  | cons a l ih =>
    cases k with
    | zero => exact .refl _
    | succ k =>
      have := ih (Nat.lt_of_succ_lt_succ hk)
      exact (this.append_left a).trans List.perm_middle

/-- Another list of jumps out of loops. -/
theorem Wf.noted {arity : Nat → Nat} {n : Nat} {breaks : List (List CodePoint)} (hw : Wf arity w)
    (hj : ∀ pt ∈ breaks.flatten, pt.buffer = w.buffer ∧
      w.at w.buffer pt.position = some ⟨.jump, .none⟩) (hd : breaks.flatten.Nodup) :
    Leads arity n w { w with breaks } := by
  have hpromise : ∀ {l m}, w.Promise arity l m →
      ({ w with breaks } : Writer).Promise arity l m := fun hp =>
    hp.congr rfl (Nat.le_refl _) fun _ h _ => h
  refine ⟨⟨hw.valid, hw.bound, hw.waiting, fun e he l hl => ?_, hw.sound, hw.main, hw.room, hw.top,
    hj, hd⟩, ⟨rfl, Nat.le_refl _, Nat.le_refl _, fun _ _ d hd => ⟨d, hd, .same⟩, fun _ _ _ => rfl,
    fun l pt _ hl => hl.congr rfl rfl, fun _ _ => hpromise⟩⟩
  obtain ⟨s, hs, hp⟩ := hw.entries e he l hl
  exact ⟨s, hs, hpromise hp⟩

theorem brk_writes (level : Nat) : WritesStmt K (brk level) (.brk level) := by
  intro w w' functions hw h hr
  simp only [brk, bind_eq_ok, get_eq_ok] at h
  obtain ⟨_, _, ⟨hg, hg'⟩, h⟩ := h
  rw [hg, hg'] at h
  split at h
  swap
  · exact (throw_eq_ok.1 h).elim
  next hlevel =>
  simp only [bind_eq_ok, emit_eq_ok, modify_eq_ok] at h
  obtain ⟨pt, w₁, ⟨rfl, rfl⟩, hw'⟩ := h
  have hlt : level - 1 < w.breaks.length := by omega
  -- the jump is noted for the loop that it leaves
  have hperm := flatten_modify_perm hlt ⟨w.buffer, w.size⟩
  have hs := (Stretch.refl hw).add ⟨.jump, .none⟩
  have hnew : (⟨w.buffer, w.size⟩ : CodePoint) ∉ w.breaks.flatten := fun hm =>
    absurd (Writer.at_lt (hw.jumps _ hm).2) (Nat.lt_irrefl _)
  have hl : Leads K.arity (w.add ⟨.jump, .none⟩).size (w.add ⟨.jump, .none⟩) w' := by
    rw [hw']
    refine hs.wf.noted (fun pt hpt => ?_) (hperm.nodup_iff.2 (List.nodup_cons.2 ⟨hnew, hw.distinct⟩))
    rcases List.mem_cons.1 (hperm.mem_iff.1 hpt) with rfl | hpt
    · exact ⟨rfl, hw.add_last _⟩
    · exact hs.wf.jumps pt hpt
  have hbreaks : w'.breaks = w.breaks.modify (level - 1) (⟨w.buffer, w.size⟩ :: ·) := by
    rw [hw']
    rfl
  have hp : Passage K.arity w w' := by
    refine ⟨hs.toLeads.append hl, ?_, ?_, ?_, fun k => ?_, fun pt hpt => ?_⟩
    · rw [hw']
      exact hs.still
    · rw [hw']
      exact .refl _
    · rw [hbreaks, List.length_modify]
    · rw [hbreaks, List.getElem?_modify]
      cases w.breaks[k]? with
      | none => exact List.nil_subset _
      | some pts =>
        show pts ⊆ if level - 1 = k then _ else pts
        split
        · exact List.subset_cons_self _ _
        · exact List.Subset.refl _
    · rw [hbreaks] at hpt
      rcases List.mem_cons.1 (hperm.mem_iff.1 hpt) with rfl | hpt
      · exact .inr (Nat.le_refl _)
      · exact .inl hpt
  refine .of_passage hp ?_ rfl ?_ ?_ fun exits hk hexits => ?_
  · rw [hw']
    exact hs.count
  · rw [hw']
    rfl
  · rw [hw']
    exact hr.agrees
  · obtain ⟨exit, hexit, hhas⟩ := hexits (level - 1) ⟨w.buffer, w.size⟩ (by
      rw [hbreaks, List.getElem?_modify_eq, List.getElem?_eq_getElem hlt]
      exact List.mem_cons_self)
    have hsize : w'.size = w.size + 1 := by
      rw [hw']
      exact hw.add_size _
    have hscopes : w'.scopes = w.scopes := by rw [hw']; rfl
    rw [hsize, hscopes]
    exact .brk (by omega) hexit hhas

/-! ### Conditions -/

variable {functions : List (String × Nat)}

/-- What the second of two parts relies on. -/
theorem Numbered.second {bodies bodies' : List (Nat × List Stmt)}
    (h : Numbered K.arity w.buffers.size (bodies ++ bodies'))
    (hc : w₁.buffers.size = w.buffers.size + bodies.length) :
    Numbered K.arity w₁.buffers.size bodies' := hc ▸ h.append.2

theorem cond_writes {setting : Setting} {test yes : Write Unit} {et : Expr} {sy : Stmt}
    (ht : Writes K test et) (hy : WritesStmt K yes sy) :
    WritesStmt K (Write.cond setting test yes none) (.cond et sy none) := by
  intro w w' functions hw h hr
  simp only [Write.cond, bind_eq_ok, openLabel_eq_ok, patch_eq_ok, setType_eq_ok] at h
  obtain ⟨_, w₁, h₁, pt, w₂, h₂, _, w₃, h₃, _, _, ⟨rfl, rfl⟩, _, w₄, hw₄, rfl⟩ := h
  have hpos := hw.size_pos
  have hcond := cond_written ht hw h₁ h₂
  have hgrows := hcond.grows
  obtain ⟨op, hat, hjump, hne, hcode⟩ := hcond.branch
  have hbodies : (Stmt.cond et sy none).bodies = sy.bodies := by
    simp [Stmt.bodies, bodies?]
  have hown : (Stmt.cond et sy none).own = sy.own := by simp [Stmt.own, own?]
  have hsteady := hr.steady
  rw [Stmt.Steady] at hsteady
  have hyes := hy hcond.wf h₃ ⟨by rw [hcond.count, ← hbodies]; exact hr.numbered, hr.consistent,
    hcond.scopes ▸ hr.agrees, hown ▸ hr.own, hsteady.1⟩
  have hbranch := hyes.still_at (by omega) hat
  have hsize₃ := hyes.frame.size
  have hp := hcond.passage.trans hyes.toPassage
  have hnot := hyes.wf.branch_not_jump hbranch hne
  -- the branch behind the condition leads behind the statement
  have hw₄' : w₄ = w₃.landed (w₂.size - 1) := by
    rw [hw₄, hcond.point, Writer.landed, hp.buffer]
  subst hw₄'
  have hl : Leads K.arity w₃.size w₃ (w₃.landed (w₂.size - 1)) :=
    hyes.wf.landed (by omega) hbranch hjump hnot
  have hp' := hp.landed hw (by omega) hbranch hjump hnot
  have hsize : (w₃.landed (w₂.size - 1)).size = w₃.size := Writer.landed_size _ _
  have hcount : (w₃.landed (w₂.size - 1)).buffers.size = w₃.buffers.size := by
    simp [Writer.landed]
  have hkept : Kept K ((w₃.landed (w₂.size - 1)).typed .void false).size
      ((w₃.landed (w₂.size - 1)).typed .void false) → Kept K w₃.size (w₃.landed (w₂.size - 1)) :=
    fun hk => by
      have := hk.whole ((Writer.typed_alike _ _ _).leads hp'.wf).frame (Nat.le_refl _)
      rwa [hsize] at this
  refine ⟨hp'.trans ((Stretch.refl hp'.wf).typed _ _).passage, ?_, ?_, hyes.agrees, fun hk => ?_,
    fun exits hk hexits => ?_⟩
  · show (w₃.landed (w₂.size - 1)).buffers.size = _
    rw [hcount, hyes.count, hcond.count, hbodies]
  · show w₃.scopes.context = _
    rw [hyes.names, hcond.scopes]
    rfl
  · have hk₃ := (hkept hk).whole hl.frame (Nat.le_refl _)
    have hfunctions := hyes.functions hk₃
    rw [hcond.count, hcond.scopes] at hfunctions
    exact hfunctions.append .nil rfl
  · have hk₄ := hkept hk
    have hk₃ := hk₄.whole hl.frame (Nat.le_refl _)
    have hbody := hyes.code exits hk₃ hexits
    have hto := hk₄.has_landed hyes.wf (by omega) hbranch
    have hk₂ := (hk₃.whole hyes.frame hsize₃).front .refl (by omega) (by omega)
    rw [hp.buffer] at hto
    have hchoice := hcode hk₂ _ hto
    rw [hcond.buffer, hcond.scopes] at hbody
    rw [Writer.typed_size, hsize]
    exact .cond hchoice hbody

theorem condElse_writes {setting : Setting} {test yes no : Write Unit} {et : Expr} {sy sn : Stmt}
    (ht : Writes K test et) (hy : WritesStmt K yes sy) (hn : WritesStmt K no sn) :
    WritesStmt K (Write.cond setting test yes (some no)) (.cond et sy (some sn)) := by
  intro w w' functions hw h hr
  simp only [Write.cond, bind_eq_ok, emit_eq_ok, openLabel_eq_ok, patch_eq_ok, setType_eq_ok] at h
  obtain ⟨_, w₁, h₁, pt, w₂, h₂, _, w₃, h₃, _, w₄, ⟨rfl, rfl⟩, _, _, ⟨rfl, rfl⟩, _, w₅, hw₅, _, w₆, h₆,
    _, _, ⟨rfl, rfl⟩, _, w₇, hw₇, rfl⟩ := h
  have hpos := hw.size_pos
  have hcond := cond_written ht hw h₁ h₂
  have hgrows := hcond.grows
  obtain ⟨op, hat, hjump, hne, hcode⟩ := hcond.branch
  have hsteady := hr.steady
  rw [Stmt.Steady, Steady?] at hsteady
  have hbodies : (Stmt.cond et sy (some sn)).bodies = sy.bodies ++ sn.bodies := by
    rw [Stmt.bodies, bodies?]
  have hown : (Stmt.cond et sy (some sn)).own = sy.own ++ sn.own := by rw [Stmt.own, own?]
  have hnumbered := hr.numbered
  rw [hbodies] at hnumbered
  have hownAll := hr.own
  rw [hown, List.append_subset] at hownAll
  have hyes := hy hcond.wf h₃ ⟨hcond.count ▸ hnumbered.append.1, hr.consistent,
    hcond.scopes ▸ hr.agrees, hownAll.1, hsteady.1⟩
  have hsize₃ := hyes.frame.size
  have hs₄ := (Stretch.refl hyes.wf).add ⟨.jump, .none⟩
  have hsize₄ := hyes.wf.add_size ⟨.jump, .none⟩
  have hp₄ := (hcond.passage.trans hyes.toPassage).trans hs₄.passage
  -- the branch behind the condition leads to the second arm
  have hbranch := (hyes.toPassage.trans hs₄.passage).still_at (by omega) hat
  have hnot := hs₄.wf.branch_not_jump hbranch hne
  have hw₅' : w₅ = (w₃.add ⟨.jump, .none⟩).landed (w₂.size - 1) := by
    rw [hw₅, hcond.point, Writer.landed, hp₄.buffer]
  have hp₅ : Passage K.arity w w₅ := by
    rw [hw₅']
    exact hp₄.landed hw (by omega) hbranch hjump hnot
  have hl₅ : Leads K.arity w₃.size w₃ w₅ := by
    rw [hw₅']
    exact hs₄.toLeads.append (hs₄.wf.landed (by omega) hbranch hjump hnot)
  have hsize₅ : w₅.size = w₃.size + 1 := by rw [hw₅', Writer.landed_size, hsize₄]
  have hcount₅ : w₅.buffers.size = w.buffers.size + sy.bodies.length := by
    rw [hw₅', ← hcond.count, ← hyes.count, ← hs₄.count]
    simp [Writer.landed]
  have hscopes₅ : w₅.scopes = w₃.scopes := by rw [hw₅']; rfl
  -- the jump behind the first arm leads behind the second one
  have hskip₅ : w₅.at w₅.buffer w₃.size = some ⟨.jump, .none⟩ := by
    rw [hw₅', Writer.landed_buffer, Writer.landed_at_ne (by omega)]
    exact hyes.wf.add_last _
  have hnot₅ : ⟨w₅.buffer, w₃.size⟩ ∉ w₅.breaks.flatten := by
    rw [hw₅']
    exact fun hm => absurd (Writer.at_lt (hyes.wf.jumps _ hm).2) (Nat.lt_irrefl _)
  have hno := hn hp₅.wf h₆ ⟨Numbered.second hnumbered hcount₅, hr.consistent,
    hscopes₅ ▸ hyes.agrees, hownAll.2, hsteady.2⟩
  have hsize₆ := hno.frame.size
  have hskip := hno.still_at (by omega) hskip₅
  have hnot₆ := hno.not_jump (by omega) hnot₅
  have hp₆ := hp₅.trans hno.toPassage
  have hw₇' : w₇ = w₆.landed w₃.size := by
    rw [hw₇, Writer.landed, hp₆.buffer, (hcond.passage.trans hyes.toPassage).buffer]
  have hp₇ : Passage K.arity w w₇ := by
    rw [hw₇']
    exact hp₆.landed hw (by omega) hskip (.inl rfl) hnot₆
  have hl₇ : Leads K.arity w₆.size w₆ w₇ := by
    rw [hw₇']
    exact hno.wf.landed (by omega) hskip (.inl rfl) hnot₆
  have hsize₇ : w₇.size = w₆.size := by rw [hw₇', Writer.landed_size]
  have hcount₇ : w₇.buffers.size = w₆.buffers.size := by rw [hw₇']; simp [Writer.landed]
  have hscopes₇ : w₇.scopes = w₆.scopes := by rw [hw₇']; rfl
  have hkept : Kept K (w₇.typed .void false).size (w₇.typed .void false) → Kept K w₆.size w₇ :=
    fun hk => by
      have := hk.whole ((Writer.typed_alike _ _ _).leads hp₇.wf).frame (Nat.le_refl _)
      rwa [hsize₇] at this
  have hnames : w₃.scopes.context = sy.after w.scopes.context := by rw [hyes.names, hcond.scopes]
  refine ⟨hp₇.trans ((Stretch.refl hp₇.wf).typed _ _).passage, ?_, ?_, ?_, fun hk => ?_,
    fun exits hk hexits => ?_⟩
  · show w₇.buffers.size = _
    rw [hcount₇, hno.count, hcount₅, hbodies, List.length_append, Nat.add_assoc]
  · show w₇.scopes.context = _
    rw [hscopes₇, hno.names, hscopes₅, hnames]
    rfl
  · show Agrees w₇.scopes functions
    exact hscopes₇ ▸ hno.agrees
  · have hk₆ := (hkept hk).whole hl₇.frame (Nat.le_refl _)
    have hk₃ := (hk₆.whole hno.frame hsize₆).whole hl₅.frame (by omega)
    have hfirst := hyes.functions hk₃
    have hsecond := hno.functions hk₆
    rw [show w₂.buffers.size = w.buffers.size from hcond.count, hcond.scopes] at hfirst
    rw [hscopes₅, hnames] at hsecond
    exact hfirst.append hsecond (by rw [hcount₅, Stmt.functions_length])
  · have hk₇ := hkept hk
    have hk₆ := hk₇.whole hl₇.frame (Nat.le_refl _)
    have hk₅ := hk₆.whole hno.frame hsize₆
    have hk₃ := hk₅.whole hl₅.frame (by omega)
    -- the jumps out of the loops around are not touched
    have hexits₆ : Exits K w₆ exits := by
      intro k pt hpt
      refine hexits k pt ?_
      show pt ∈ w₇.breaks[k]?.getD []
      rw [hw₇']
      exact hpt
    have hexits₃ : Exits K w₃ exits := by
      intro k pt hpt
      refine hexits₆.back hno.toPassage k pt ?_
      rw [hw₅']
      exact hpt
    rw [hw₇'] at hk₇
    have hto₂ := hk₇.has_landed hno.wf (by omega) hskip
    rw [hw₅'] at hk₅ hsize₅
    have hto₁ := hk₅.has_landed hs₄.wf (by omega) hbranch
    have hk₂ := (hk₃.whole hyes.frame hsize₃).front .refl (by omega) (by omega)
    rw [hp₄.buffer, hsize₄] at hto₁
    have hchoice := hcode hk₂ _ hto₁
    have hfirst := hyes.code exits hk₃ hexits₃
    have hsecond := hno.code exits hk₆ hexits₆
    rw [hcond.buffer, hcond.scopes] at hfirst
    rw [hp₅.buffer, hscopes₅, hw₅', hsize₅, ← Nat.add_assoc] at hsecond
    rw [hp₆.buffer] at hto₂
    show StmtCode _ _ _ _ _ w₇.scopes _ (K.base w.buffer + w₇.size)
    rw [hscopes₇, hsize₇]
    exact .condElse hchoice hfirst hto₂ hsecond

/-! ### Loops -/

/-- The jumps out of a loop are made to lead to one label. -/
theorem patches_lead {n : Nat} {l : Label} {jumps : List CodePoint} (hw : Wf K.arity w)
    (hj : ∀ pt ∈ jumps, pt.buffer = w.buffer ∧ w.at w.buffer pt.position = some ⟨.jump, .none⟩)
    (hd : jumps.Nodup) (hdis : ∀ pt ∈ jumps, pt ∉ w.breaks.flatten)
    (h : (jumps.forM fun jump => patch jump l) w = .ok ((), w')) :
    Leads K.arity n w w' ∧ (∀ b, w'.sizeOf b = w.sizeOf b) ∧ w'.buffers.size = w.buffers.size ∧
      w'.scopes = w.scopes ∧ w'.breaks = w.breaks ∧ w'.labels = w.labels ∧
      (∀ pt ∈ jumps, w'.at w.buffer pt.position = some ⟨.jump, .label l⟩) ∧
      ∀ i, (∀ pt ∈ jumps, pt.position ≠ i) → w'.at w.buffer i = w.at w.buffer i := by
  induction jumps generalizing w with
  | nil =>
    obtain ⟨-, rfl⟩ := pure_eq_ok.1 h
    exact ⟨.refl hw, fun _ => rfl, rfl, rfl, rfl, rfl, nofun, fun _ _ => rfl⟩
  | cons pt rest ih =>
    simp only [List.forM_eq_forM, List.forM_cons, bind_eq_ok, patch_eq_ok] at h
    obtain ⟨_, w₁, hw₁, h⟩ := h
    obtain ⟨b, i⟩ := pt
    obtain ⟨hb, hat⟩ := hj _ List.mem_cons_self
    obtain rfl : b = w.buffer := hb
    obtain ⟨hnew, hd⟩ := List.nodup_cons.1 hd
    have hat₁ : ∀ k, k ≠ i → w₁.at w.buffer k = w.at w.buffer k := fun k hk => by
      rw [hw₁, Writer.setAt_at, if_neg fun h => hk h.2]
    -- at the start of a buffer there is the room, and no jump
    have hi : i ≠ 0 := by
      rintro rfl
      obtain ⟨m, hm, -⟩ := hw.room
      rw [hm] at hat
      cases hat
    have hl : Leads K.arity n w w₁ := by
      rw [hw₁]
      refine hw.setAt hi (fun _ _ => hdis _ List.mem_cons_self) fun _ d hd => ?_
      obtain rfl := Option.some.inj (hat.symm.trans hd)
      exact .target (.inl rfl)
    have hne : ∀ pt ∈ rest, pt.position ≠ i := fun pt hpt he => by
      have hpb := (hj pt (List.mem_cons_of_mem _ hpt)).1
      exact hnew (by rw [← hpb, ← he]; exact hpt)
    have hbuffer : w₁.buffer = w.buffer := by rw [hw₁]; rfl
    have hbreaks : w₁.breaks = w.breaks := by rw [hw₁]; rfl
    obtain ⟨hl', hsize, hcount, hscopes, hbreaks', hlabels, hset, hrest⟩ := ih hl.wf
      (fun pt hpt => by
        obtain ⟨hb, hp⟩ := hj pt (List.mem_cons_of_mem _ hpt)
        rw [hbuffer, hat₁ _ (hne pt hpt)]
        exact ⟨hb, hp⟩) hd (fun pt hpt => hbreaks ▸ hdis pt (List.mem_cons_of_mem _ hpt)) h
    rw [hbuffer] at hset hrest
    refine ⟨hl.trans hl' (Nat.le_refl _), fun b => ?_, ?_, ?_, hbreaks'.trans hbreaks, ?_,
      fun pt hpt => ?_, fun k hk => ?_⟩
    · rw [hsize, hw₁, Writer.setAt_sizeOf]
    · rw [hcount, hw₁, Writer.setAt_buffers_size]
    · rw [hscopes, hw₁]
      rfl
    · rw [hlabels, hw₁]
      rfl
    · rcases List.mem_cons.1 hpt with rfl | hpt
      · rw [hrest i hne, hw₁, Writer.setAt_at, if_pos ⟨rfl, rfl⟩, hat]
        rfl
      · exact hset pt hpt
    · rw [hrest k fun pt hpt => hk pt (List.mem_cons_of_mem _ hpt),
        hat₁ k (hk _ List.mem_cons_self).symm]

theorem step_written {step : Option (Write Unit)} {e : Option Expr} (hw : Wf K.arity w)
    (hc : Option.Rel (Writes K) step e) (h : step.elim (pure ()) dropped w = .ok ((), w')) :
    Stretch K.arity w w' ∧ (Kept K w'.size w' → StepCode K.layout (K.room w.buffer) w.scopes e
      (K.base w.buffer + w.size) (K.base w.buffer + w'.size)) := by
  cases hc with
  | none =>
    obtain ⟨-, rfl⟩ := pure_eq_ok.1 h
    exact ⟨.refl hw, fun _ => .none⟩
  | some he =>
    simp only [Option.elim_some, dropped, bind_eq_ok, lastType_eq_ok] at h
    obtain ⟨_, _, h₁, _, w₁, ⟨rfl, rfl⟩, h⟩ := h
    have hcases : (w₁.type = .void ∧ w' = w₁) ∨
        (w₁.type ≠ .void ∧ w' = w₁.add ⟨.popStack, .int (1 : Nat)⟩) := by
      by_cases hv : w₁.type = .void
      · rw [if_neg (by simpa using hv)] at h
        exact .inl ⟨hv, (pure_eq_ok.1 h).2⟩
      · rw [if_pos (by simpa using hv)] at h
        exact .inr ⟨hv, put_eq_ok.1 h⟩
    obtain ⟨hs, hcode⟩ := dropped_written he hw h₁ hcases
    exact ⟨hs, fun hk => .some (hcode hk)⟩

/-- What is written for a loop behind its first part. -/
structure RoundsWritten (K : Link) (functions : List (String × Nat)) (test : Expr)
    (step : Option Expr) (body : Stmt) (w w' : Writer) : Prop extends Passage K.arity w w' where
  count : w'.buffers.size = w.buffers.size + body.bodies.length
  names : w'.scopes.context = body.after w.scopes.context
  agrees : Agrees w'.scopes functions
  functions : Kept K w'.size w' → Covers K w.buffers.size (body.functions w.scopes.context)
  code : ∀ exits, Kept K w'.size w' → Exits K w' exits → ∃ m k q,
    CondCode K.layout (K.room w.buffer) w.scopes test (K.base w.buffer + w.size) m (q + 1) ∧
      StmtCode K.layout (K.room w.buffer) ((q + 1) :: exits) w.scopes body w'.scopes m k ∧
      StepCode K.layout (K.room w.buffer) w'.scopes step k q ∧
      K.layout.Has q ⟨.jump, .int (K.base w.buffer + w.size : Nat)⟩ ∧
      K.base w.buffer + w'.size = q + 1

/-- The jumps out of a loop: they stand in its body. -/
theorem Passage.inner_jumps {arity : Nat → Nat}
    (h : Passage arity { w with breaks := [] :: w.breaks } w') :
    ∃ jumps outer, w'.breaks = jumps :: outer ∧ outer.length = w.breaks.length ∧
      (∀ k : Nat, w.breaks[k]?.getD [] ⊆ outer[k]?.getD []) ∧
      (∀ pt ∈ outer.flatten, pt ∈ w.breaks.flatten ∨ w.size ≤ pt.position) ∧
      ∀ pt ∈ jumps, w.size ≤ pt.position := by
  have hdepth := h.depth
  have hnodup := h.wf.distinct
  have hsub := h.breaks
  have hfresh := h.fresh
  cases hb : w'.breaks with
  | nil => rw [hb] at hdepth; cases hdepth
  | cons jumps outer =>
    rw [hb] at hdepth hnodup hsub hfresh
    rw [List.flatten_cons] at hnodup
    refine ⟨jumps, outer, rfl, Nat.succ.inj hdepth, fun k => hsub (k + 1), fun pt hpt =>
      hfresh pt (List.mem_append_right _ hpt), fun pt hpt => ?_⟩
    refine (hfresh pt (List.mem_append_left _ hpt)).resolve_left fun hm => ?_
    -- what stood there before the loop is still a jump out of a loop around it
    obtain ⟨pts, hpts, hm⟩ := List.mem_flatten.1 hm
    obtain ⟨k, hk, rfl⟩ := List.getElem_of_mem hpts
    cases k with
    | zero => cases hm
    | succ k =>
      have hmem := hsub (k + 1) (by
        rw [List.getElem?_eq_getElem hk]
        exact hm)
      rw [List.getElem?_cons_succ] at hmem
      cases ho : outer[k]? with
      | none => rw [ho] at hmem; cases hmem
      | some pts =>
        rw [ho] at hmem
        exact (List.nodup_append.1 hnodup).2.2 pt hpt pt
          (List.mem_flatten.2 ⟨pts, List.mem_of_getElem? ho, hmem⟩) rfl

/-- The end of a loop: the branch of its condition and the jumps out of it are made to lead to the
next instruction. -/
structure LoopClosed (K : Link) (i : Nat) (op : Opcode) (jumps : List CodePoint)
    (outer : List (List CodePoint)) (w w' : Writer) : Prop extends Leads K.arity w.size w w' where
  size : w'.size = w.size
  count : w'.buffers.size = w.buffers.size
  scopes : w'.scopes = w.scopes
  breaks : w'.breaks = outer
  still : ∀ k, k ≠ i → (∀ pt ∈ jumps, pt.position ≠ k) → w'.at w.buffer k = w.at w.buffer k
  leaves : Kept K w'.size w' → K.layout.Has (K.base w.buffer + i)
    ⟨op, .int (K.base w.buffer + w.size : Nat)⟩
  exits : Kept K w'.size w' → ∀ pt ∈ jumps, K.layout.Has (K.base pt.buffer + pt.position)
    ⟨.jump, .int (K.base w.buffer + w.size : Nat)⟩

theorem loop_closed {i : Nat} {op : Opcode} {jumps : List CodePoint}
    {outer : List (List CodePoint)} (hw : Wf K.arity w) (hbreaks : w.breaks = jumps :: outer)
    (hi : i ≠ 0) (hat : w.at w.buffer i = some ⟨op, .none⟩) (hop : IsJump op) (hne : op ≠ .jump)
    (h : (((w.landed i).breaks.headD []).forM fun jump => patch jump ⟨w.labels.next⟩)
      { w.landed i with breaks := (w.landed i).breaks.tail } = .ok ((), w')) :
    LoopClosed K i op jumps outer w w' := by
  have hnot := hw.branch_not_jump hat hne
  have hl : Leads K.arity w.size w (w.landed i) := hw.landed hi hat hop hnot
  have hdistinct := hl.wf.distinct
  have hjumps := hl.wf.jumps
  rw [Writer.landed_breaks, hbreaks] at h hdistinct hjumps
  rw [List.flatten_cons, List.nodup_append] at hdistinct
  have hl' : Leads K.arity w.size (w.landed i) { w.landed i with breaks := outer } :=
    hl.wf.noted (fun pt hpt => hjumps pt (List.mem_append_right _ hpt)) hdistinct.2.1
  obtain ⟨hlead, hsizes, hcount, hscopes, hbreaks', hlabels, hset, hrest⟩ :=
    patches_lead (n := w.size) hl'.wf (fun pt hpt => hjumps pt (List.mem_append_left _ hpt))
      hdistinct.1 (fun pt hpt hm => hdistinct.2.2 pt hpt pt hm rfl) h
  have hsize : w'.size = w.size := by
    rw [Writer.size, hlead.frame.buffer, hsizes]
    exact Writer.landed_size _ _
  have hlt : i < w'.size := by
    rw [hsize]
    exact Writer.at_lt hat
  -- the branch at the test is none of the jumps
  have hinot : ∀ pt ∈ jumps, pt.position ≠ i := by
    rintro ⟨b, _⟩ hpt rfl
    obtain ⟨rfl, -⟩ := hw.jumps _ (by
      rw [hbreaks]
      exact List.mem_append_left _ hpt)
    exact hnot (by
      rw [hbreaks]
      exact List.mem_append_left _ hpt)
  have hpoints : w'.Points ⟨w.labels.next⟩ ⟨w.buffer, w.size⟩ :=
    (hw.landed_points i).congr hlabels (hsizes _)
  have hbuffer : w'.buffer = w.buffer := hlead.frame.buffer
  refine ⟨(hl.trans hl' (Nat.le_refl _)).trans hlead (Nat.le_refl _), hsize,
    hcount.trans (by simp [Writer.landed]), hscopes, hbreaks', fun k hk hkj => ?_, fun hk => ?_,
    fun hk pt hpt => ?_⟩
  · exact (hrest k hkj).trans (Writer.landed_at_ne hk)
  · have hbranch : w'.at w'.buffer i = some ⟨op, .label ⟨w.labels.next⟩⟩ := by
      rw [hbuffer]
      exact (hrest i hinot).trans (Writer.landed_at hat)
    have := hk.has_target hlt hbranch hw.size_pos hpoints
    rwa [hbuffer] at this
  · obtain ⟨b, k⟩ := pt
    obtain ⟨hb, hpat⟩ := hw.jumps ⟨b, k⟩ (by
      rw [hbreaks]
      exact List.mem_append_left _ hpt)
    obtain rfl : b = w.buffer := hb
    have hjump : w'.at w'.buffer k = some ⟨.jump, .label ⟨w.labels.next⟩⟩ := by
      rw [hbuffer]
      exact hset _ hpt
    have := hk.has_target (by rw [hsize]; exact Writer.at_lt hpat) hjump hw.size_pos hpoints
    rwa [hbuffer] at this

theorem modifyGet_eq_ok {α : Type} {f : Writer → α × Writer} {a : α} :
    (modifyGet f : Write α) w = .ok (a, w') ↔ a = (f w).1 ∧ w' = (f w).2 := by
  show Except.ok ((f w).1, (f w).2) = _ ↔ _
  grind

/-- A loop behind its first part. -/
def rounds (setting : Setting) (test body : Write Unit) (step : Option (Write Unit)) :
    Write Unit := do
  let start ← openLabel
  value test .loopTest
  let exit ← emitBranchIfFalse setting
  modify fun w => { w with breaks := [] :: w.breaks }
  body
  step.elim (pure ()) dropped
  put .jump (.label start)
  let behind ← openLabel
  patch exit behind
  let jumps ← modifyGet fun w => (w.breaks.headD [], { w with breaks := w.breaks.tail })
  jumps.forM fun jump => patch jump behind

theorem loop_none {setting : Setting} {test body : Write Unit} {step : Option (Write Unit)} :
    loop setting none (some test) (some body) step = (do
      rounds setting test body step
      setType .void false) := by
  cases step <;> simp [loop, rounds, orThrow]

theorem loop_some {setting : Setting} {initial test body : Write Unit}
    {step : Option (Write Unit)} :
    loop setting (some initial) (some test) (some body) step = (do
      beginScope
      initial
      rounds setting test body step
      endScope
      setType .void false) := by
  cases step <;> simp [loop, rounds, orThrow]

theorem rounds_written {setting : Setting} {test body : Write Unit} {step : Option (Write Unit)}
    {et : Expr} {es : Option Expr} {sb : Stmt} (hw : Wf K.arity w) (ht : Writes K test et)
    (hb : WritesStmt K body sb) (hs : Option.Rel (Writes K) step es) (hr : Ready K functions sb w)
    (h : rounds setting test body step w = .ok ((), w')) :
    RoundsWritten K functions et es sb w w' := by
  simp only [rounds, bind_eq_ok, openLabel_eq_ok, modify_eq_ok, put_eq_ok, patch_eq_ok,
    modifyGet_eq_ok] at h
  obtain ⟨_, _, ⟨rfl, rfl⟩, _, w₁, h₁, exit, w₂, h₂, _, _, rfl, _, w₃, h₃, _, w₄, h₄, _, _, rfl, _, _,
    ⟨rfl, rfl⟩, _, w₅, h₅, jumps, _, ⟨rfl, rfl⟩, h₆⟩ := h
  have hpos := hw.size_pos
  have hopen := (Stretch.refl hw).openedLabel
  have hcond := cond_written ht hopen.wf h₁ h₂
  have hgrows : w.size < w₂.size := hcond.grows
  have hstart := hopen.trans hcond.toStretch
  obtain ⟨op, hat, hjump, hne, hcode⟩ := hcond.branch
  -- the body starts without jumps out of its loop
  have hl₃ : Leads K.arity w₂.size w₂ { w₂ with breaks := [] :: w₂.breaks } :=
    hcond.wf.noted hcond.wf.jumps hcond.wf.distinct
  have hbody := hb hl₃.wf h₃ ⟨by rw [show _ = w₂.buffers.size from rfl, hcond.count]; exact hr.numbered,
    hr.consistent, by rw [show _ = w₂.scopes from rfl, hcond.scopes]; exact hr.agrees, hr.own,
    hr.steady⟩
  obtain ⟨jumps, outer, hbreaks, hlength, hsub, hfresh, hinner⟩ := hbody.toPassage.inner_jumps
  obtain ⟨hs₄, hstep⟩ := step_written hbody.wf hs h₄
  have hsize₃ : w₂.size ≤ w₃.size := hbody.frame.size
  have hsize₄ := hs₄.frame.size
  have hs₇ := hs₄.add ⟨.jump, .label ⟨w.labels.next⟩⟩
  have hsize₇ := hs₄.wf.add_size ⟨.jump, .label ⟨w.labels.next⟩⟩
  have hback := hs₄.wf.add_last ⟨.jump, .label ⟨w.labels.next⟩⟩
  have hbuffer₄ : w₄.buffer = w.buffer := (hs₄.buffer.trans hbody.buffer).trans hstart.buffer
  generalize hw₇ : w₄.add ⟨.jump, .label ⟨w.labels.next⟩⟩ = w₇ at *
  have hbuffer₇ : w₇.buffer = w.buffer := by rw [← hw₇]; exact hbuffer₄
  have hbranch : w₇.at w₇.buffer (w₂.size - 1) = some ⟨op, .none⟩ :=
    hs₇.still_at (by omega) (hbody.still_at (by omega) hat)
  have hw₅ : w₅ = w₇.landed (w₂.size - 1) := by
    rw [h₅, hcond.point, Writer.landed, hbuffer₇]
    rfl
  rw [hw₅] at h₆
  have hclosed := loop_closed hs₇.wf (hs₇.breaks.trans hbreaks) (by omega) hbranch hjump hne h₆
  have hlead : Leads K.arity w.size w w' := ((((hstart.toLeads.append hl₃).append
    hbody.toLeads).append hs₇.toLeads).append hclosed.toLeads)
  have hscopes : w'.scopes = w₃.scopes := hclosed.scopes.trans hs₇.scopes
  -- what the linked program has of the whole loop, it has of its parts
  have hkept : Kept K w'.size w' → Kept K w₇.size w₇ := fun hk =>
    hk.whole hclosed.frame (Nat.le_of_eq hclosed.size.symm)
  have hkept₃ : Kept K w'.size w' → Kept K w₃.size w₃ := fun hk =>
    (hkept hk).whole hs₇.frame hs₇.frame.size
  have hstill : Still w w₃ :=
    hstart.still.trans hbody.still hstart.buffer (Nat.le_of_lt hgrows)
  have hstill := hstill.trans hs₇.still (hbody.buffer.trans hstart.buffer) (by omega)
  refine ⟨⟨hlead, fun i hi hlt => ?_, ?_, ?_, fun k => ?_, fun pt hpt => ?_⟩, ?_, ?_, ?_,
    fun hk => ?_, fun exits hk hexits => ?_⟩
  · rw [← hbuffer₇, hclosed.still i (by omega) fun pt hpt => by have := hinner pt hpt; omega,
      hbuffer₇]
    exact hstill i hi hlt
  · rw [hscopes]
    have := hbody.scopes
    rwa [show ScopeChain.Grows _ _ = ScopeChain.Grows w₂.scopes w₃.scopes from rfl,
      hstart.scopes] at this
  · rw [hclosed.breaks, hlength, hstart.breaks]
  · rw [hclosed.breaks, ← hstart.breaks]
    exact hsub k
  · rw [hclosed.breaks] at hpt
    rcases hfresh pt hpt with hm | hm
    · exact .inl (hstart.breaks ▸ hm)
    · exact .inr (by omega)
  · rw [hclosed.count, hs₇.count, hbody.count]
    show w₂.buffers.size + _ = _
    rw [hstart.count]
  · rw [hscopes, hbody.names]
    show sb.after w₂.scopes.context = _
    rw [hstart.scopes]
  · rw [hscopes]
    exact hbody.agrees
  · have hfunctions := hbody.functions (hkept₃ hk)
    rwa [show ({ w₂ with breaks := [] :: w₂.breaks } : Writer).buffers.size = w.buffers.size from
      hstart.count, show ({ w₂ with breaks := [] :: w₂.breaks } : Writer).scopes = w.scopes from
      hstart.scopes] at hfunctions
  · have hk₇ := hkept hk
    have hk₄ : Kept K w₄.size w₄ := hk₇.whole (hw₇ ▸ (hs₄.wf.add _).frame) (by omega)
    have hk₃ := hk₄.whole hs₄.frame hsize₄
    have hk₂ := ((hk₃.whole hbody.frame hsize₃).whole hl₃.frame (Nat.le_refl _)).front .refl
      (Nat.sub_le _ _) (by omega)
    have hleave := hclosed.leaves hk
    have hexit := hclosed.exits hk
    rw [hbuffer₇, hsize₇] at hleave hexit
    -- the label of the loop's start still points there
    have hpoints : w₇.Points ⟨w.labels.next⟩ ⟨w.buffer, w.size⟩ :=
      hs₇.frame.points _ _ hpos (hbody.frame.points _ _ hpos (hl₃.frame.points _ _ hpos
        (hcond.frame.points _ _ hpos hw.openedLabel_points)))
    have hjumpback := hk₇.has_target (i := w₄.size) (by omega) (by
      rw [hbuffer₇, ← hbuffer₄]
      exact hback) hpos hpoints
    have hchoice := hcode hk₂ _ hleave
    have hin : StmtCode K.layout (K.room w₂.buffer) ((K.base w.buffer + w₄.size + 1) :: exits)
        w₂.scopes sb w₃.scopes (K.base w₂.buffer + w₂.size) (K.base w₂.buffer + w₃.size) := by
      refine hbody.code _ hk₃ fun k pt hpt => ?_
      rw [hbreaks] at hpt
      cases k with
      | zero => exact ⟨_, rfl, hexit pt hpt⟩
      | succ k => exact hexits k pt (hclosed.breaks ▸ hpt)
    have hstepcode := hstep hk₄
    rw [hbody.buffer, show ({ w₂ with breaks := [] :: w₂.breaks } : Writer).buffer = w₂.buffer from rfl,
      hstart.buffer] at hstepcode
    rw [hstart.buffer, hstart.scopes] at hin
    rw [hbuffer₇] at hjumpback
    rw [hscopes]
    refine ⟨K.base w.buffer + w₂.size, K.base w.buffer + w₃.size, K.base w.buffer + w₄.size, hchoice,
      hin, hstepcode, hjumpback, ?_⟩
    rw [hclosed.size, hsize₇]
    rfl

/-! ### Blocks -/

/-- A block that is closed again. -/
theorem Passage.block (hw : Wf K.arity w)
    (h : Passage K.arity { w with scopes := w.scopes.beginScope } w') :
    Passage K.arity w { w' with scopes := w'.scopes.endScope } ∧
      Leads K.arity w'.size w' { w' with scopes := w'.scopes.endScope } := by
  have hend := ScopeChain.endScope_of_grows h.scopes
  have hgrows := ScopeChain.grows_endScope h.scopes
  have hdepth : w'.scopes.functionDepth = w.scopes.functionDepth := h.scopes.functionDepth
  have hlead : Leads K.arity w'.size w' { w' with scopes := w'.scopes.endScope } := by
    refine h.wf.scoped ?_ ?_ ?_ ?_ fun e he l hl => ?_
    · rw [h.buffer, hend]
      exact hw.sound.frame_grows fun i n hi => h.scopes.frame i n hi
    · rw [hgrows.functionDepth, hdepth]
    · exact Nat.le_of_eq (by rw [hend])
    · refine Nat.le_of_eq ?_
      by_cases h0 : w.scopes.functionDepth = 0
      · rw [ScopeChain.topFrame_of_top (hgrows.functionDepth.trans h0),
          ScopeChain.topFrame_of_top (hdepth.trans h0), hend]
      · rw [ScopeChain.topFrame_of_inside h0 hgrows.frames,
          ScopeChain.topFrame_of_inside h0 h.scopes.frames]
    · rw [hend] at he
      refine h.scopes.mem_entities ?_
      simpa [ScopeChain.beginScope, ScopeChain.entities, ScopeChain.scopes] using he
  exact ⟨⟨((beginScope_leads hw).append h.toLeads).append hlead, h.still, hgrows, h.depth, h.breaks,
    h.fresh⟩, hlead⟩

theorem Agrees.endScope {c c' : ScopeChain} (ha : Agrees c functions)
    (h : ScopeChain.Grows c.beginScope c') : Agrees c'.endScope functions := by
  rw [ScopeChain.endScope_of_grows h]
  exact ha

theorem agrees_beginScope (c : ScopeChain) (functions : List (String × Nat)) :
    Agrees c.beginScope functions := fun _ _ _ he => nomatch he

theorem loop_writes {setting : Setting} {initial test body step : Option (Write Unit)}
    {si sb : Option Stmt} {et es : Option Expr} (hi : Option.Rel (WritesStmt K) initial si)
    (ht : Option.Rel (Writes K) test et) (hb : Option.Rel (WritesStmt K) body sb)
    (hs : Option.Rel (Writes K) step es) :
    WritesStmt K (loop setting initial test body step) (.loop si et es sb) := by
  intro w w' functions hw h hr
  cases ht with
  | none =>
    simp only [Write.loop, bind_eq_ok, orThrow_eq_ok] at h
    obtain ⟨_, _, ⟨h, -⟩, -⟩ := h
    cases h
  | @some test et ht =>
  cases hb with
  | none =>
    simp only [Write.loop, bind_eq_ok, orThrow_eq_ok] at h
    obtain ⟨_, _, -, _, _, ⟨h, -⟩, -⟩ := h
    cases h
  | @some body sb hb =>
  have hsteady := hr.steady
  have hnumbered := hr.numbered
  have hown := hr.own
  cases hi with
  | none =>
    simp only [loop_none, bind_eq_ok, setType_eq_ok] at h
    obtain ⟨_, w₁, h, rfl⟩ := h
    have hs₁ : (Stmt.loop none (some et) es (some sb)).bodies = sb.bodies := by
      simp [Stmt.bodies, bodies?]
    rw [hs₁] at hnumbered
    rw [Stmt.own, own?] at hown
    rw [Stmt.Steady, Steady?] at hsteady
    have hone := rounds_written hw ht hb hs ⟨hnumbered, hr.consistent, hr.agrees, hown, hsteady⟩ h
    have hlast := (Writer.typed_alike w₁ .void false).leads (n := w₁.size) hone.wf
    refine ⟨hone.toPassage.trans ((Stretch.refl hone.wf).typed _ _).passage, ?_, hone.names, hone.agrees,
      fun hk => hone.functions (hk.whole hlast.frame (Nat.le_refl _)),
      fun exits hk hexits => ?_⟩
    · rw [hs₁]
      exact hone.count
    · obtain ⟨m, k, q, hchoice, hbody, hstep, hback, hq⟩ :=
        hone.code exits (hk.whole hlast.frame (Nat.le_refl _)) hexits
      rw [Writer.typed_size, hq]
      exact .loop .none hchoice hbody hstep hback
  | @some initial si hi =>
    simp only [loop_some, bind_eq_ok, beginScope, endScope, modify_eq_ok, setType_eq_ok] at h
    obtain ⟨_, _, rfl, _, w₁, h₁, _, w₂, h₂, _, _, rfl, rfl⟩ := h
    rw [Stmt.bodies, bodies?, bodies?] at hnumbered
    rw [Stmt.Steady, Steady?, own?] at hsteady
    have hbegin := beginScope_leads (n := w.size) hw
    have hfirst := hi hbegin.wf h₁ ⟨hnumbered.append.1, hsteady.1, agrees_beginScope _ _,
      List.subset_append_left _ _, hsteady.2.1⟩
    have hcount₁ : w₁.buffers.size = w.buffers.size + si.bodies.length := hfirst.count
    -- the rounds come behind the initial statement, in its scope
    have hone := rounds_written hfirst.wf ht hb hs ⟨Numbered.second hnumbered hcount₁, hsteady.1,
      hfirst.agrees, List.subset_append_right _ _, hsteady.2.2⟩ h₂
    obtain ⟨hp, hend⟩ := (hfirst.toPassage.trans hone.toPassage).block hw
    have hgrows := (hfirst.toPassage.trans hone.toPassage).scopes
    have hlast := hend.append
      ((Writer.typed_alike { w₂ with scopes := w₂.scopes.endScope } .void false).leads hp.wf)
    have hnames : w₁.scopes.context = si.after w.scopes.context.openBlock := hfirst.names
    refine ⟨hp.trans ((Stretch.refl hp.wf).typed _ _).passage, ?_, ?_, hr.agrees.endScope hgrows,
      fun hk => ?_, fun exits hk hexits => ?_⟩
    · show w₂.buffers.size = _
      rw [hone.count, hcount₁, Stmt.bodies, bodies?, bodies?, List.length_append, Nat.add_assoc]
    · show w₂.scopes.endScope.context = _
      rw [ScopeChain.context_endScope, hone.names, hnames]
      rfl
    · have hk₂ := hk.whole hlast.frame (Nat.le_refl _)
      have hsecond := hone.functions hk₂
      rw [hnames] at hsecond
      exact (hfirst.functions (hk₂.whole hone.frame hone.frame.size)).append hsecond
        (by rw [hcount₁, Stmt.functions_length])
    · have hk₂ := hk.whole hlast.frame (Nat.le_refl _)
      obtain ⟨m, k, q, hchoice, hbody, hstep, hback, hq⟩ := hone.code exits hk₂ hexits
      have hcode := hfirst.code exits (hk₂.whole hone.frame hone.frame.size)
        ((show Exits K w₂ exits from hexits).back hone.toPassage)
      have hbuffer : w₁.buffer = w.buffer := hfirst.buffer
      rw [hbuffer] at hchoice hbody hstep hback hq
      show StmtCode _ _ _ _ _ w₂.scopes.endScope _ (K.base w.buffer + w₂.size)
      rw [hq]
      exact .loop (.some hcode) hchoice hbody hstep hback

end StackScript.Assembly
