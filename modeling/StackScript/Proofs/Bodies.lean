import StackScript.Proofs.Targets

/-!
# Branches and calls in statements

Writing a statement leaves all intact.  A branch whose target comes later is a hole while the code in
between is written; the jumps out of a loop are noted in `breaks`, and get their target when the
loop is closed.  The functions that a statement list declares are owed until their bodies are
written (`Pays`).
-/

namespace StackScript.Assembly

open Typing Bytecode Host Syntax Assembly.Write

variable {holes holes' : List CodePoint} {owed owed' : List Label} {m n : Nat} {w w₁ w₂ w' : Writer}

/-! ### Scopes, debts and jumps out of loops -/

theorem Writer.Enters.congr {l : Label} (h : w.Enters l) (hl : w'.labels = w.labels)
    (hb : w.buffers.size ≤ w'.buffers.size) : w'.Enters l where
  bound := by
    obtain ⟨b, h0, hlt, hget⟩ := h.bound
    exact ⟨b, h0, Nat.lt_of_lt_of_le hlt hb, hl ▸ hget⟩
  closed b := hl ▸ h.closed b

/-- Scopes that know no function that was not known. -/
theorem Intact.scoped {c : ScopeChain} (h : Intact holes owed w)
    (hl : c.inner.frame = c.functionDepth)
    (hc : ∀ e ∈ c.entities, ∀ l, e.location = .entry l → e ∈ w.scopes.entities) :
    Intact holes owed { w with scopes := c } ∧ Keeps 0 w { w with scopes := c } := by
  have hlands : ∀ l b, w.Lands l b → ({ w with scopes := c } : Writer).Lands l b := fun l b hb =>
    hb.scoped fun e he hel => hc e he l hel
  have henters : ∀ l, w.Enters l → ({ w with scopes := c } : Writer).Enters l := fun l he =>
    he.congr rfl (Nat.le_refl _)
  refine ⟨⟨h.valid, hl, h.bound, h.waiting, h.rooms, fun b i d hd => ?_, h.branches, h.own,
    fun e he l hel => ?_⟩, rfl, rfl, hlands, henters, fun _ _ _ => rfl, fun _ _ _ _ h => h,
    fun b hle hlt => absurd hlt (Nat.not_lt.2 hle)⟩
  · exact (h.fits b i d hd).mono (hlands · _) henters (fun hm hj => .hole hj hm) fun _ => .inr
  · obtain ⟨hid, hclosed, hknown⟩ := h.entries e (hc e he l hel) l hel
    exact ⟨hid, hclosed, hknown.imp_left (henters l)⟩

/-- Labels that have a body are owed no more. -/
theorem Intact.settle (h : Intact holes owed w) (ho : ∀ l ∈ owed, w.Enters l ∨ l ∈ owed') :
    Intact holes owed' w where
  valid := h.valid
  level := h.level
  bound := h.bound
  waiting := h.waiting
  rooms := h.rooms
  fits b i d hd := (h.fits b i d hd).mono (fun _ => id) (fun _ => id) (fun hm hj => .hole hj hm) ho
  branches := h.branches
  own := h.own
  entries e he l hl := by
    obtain ⟨hid, hclosed, hknown⟩ := h.entries e he l hl
    exact ⟨hid, hclosed, hknown.elim .inl (ho l)⟩

/-- Branches without a target are noted elsewhere. -/
theorem Intact.noted (h : Intact holes owed w) (holes' : List CodePoint)
    (breaks : List (List CodePoint))
    (hh : ∀ pt, pt ∈ holes' ++ breaks.flatten ↔ pt ∈ holes ++ w.breaks.flatten)
    (ho : ∀ pt ∈ breaks.flatten, pt.buffer = w.buffer) :
    Intact holes' owed { w with breaks } ∧ Keeps 0 w { w with breaks } := by
  have hlands : ∀ l b, w.Lands l b → ({ w with breaks } : Writer).Lands l b := fun l b hb =>
    ⟨hb.points.imp fun _ hp => hp.congr rfl rfl, hb.unnamed⟩
  have henters : ∀ l, w.Enters l → ({ w with breaks } : Writer).Enters l := fun l he =>
    he.congr rfl (Nat.le_refl _)
  refine ⟨⟨h.valid, h.level, h.bound, h.waiting, h.rooms, fun b i d hd => ?_,
    fun pt hpt => h.branches pt ((hh pt).1 hpt), ho, fun e he l hl => ?_⟩, rfl, rfl, hlands, henters,
    fun _ _ _ => rfl, fun _ _ _ _ h => h, fun b hle hlt => absurd hlt (Nat.not_lt.2 hle)⟩
  · exact (h.fits b i d hd).mono (hlands · _) henters (fun hm hj => .hole hj ((hh _).2 hm))
      fun _ => .inr
  · obtain ⟨hid, hclosed, hknown⟩ := h.entries e he l hl
    exact ⟨hid, hclosed, hknown.imp_left (henters l)⟩

/-! ### Expression statements and declarations -/

theorem exprStmt_safe {code : Write Unit} (hc : Safe code) (keep : Bool) :
    Safe (exprStmt code keep) :=
  hc.bind fun _ => Safe.lastType.bind fun _ => .ite (.pure _) <| .ite (.pure _) <|
    (Safe.put rfl rfl).bind fun _ => .pure _

theorem dropped_safe {code : Write Unit} (hc : Safe code) : Safe (dropped code) :=
  hc.bind fun _ => Safe.lastType.bind fun _ => .ite (.put rfl rfl) (.pure _)

theorem initialType_safe (declared : Ty) (usage : Usage) : Safe (initialType declared usage) := by
  refine Safe.lastType.bind fun t => .ite (.pure _) <| .ite (.pure _) ?_
  cases hc : t.conversion? declared with
  | none => exact .throw _
  | some o =>
    exact (Safe.put (isPlain_of_isUnary (Ty.conversion?_unary hc)) rfl).bind fun _ => .pure _

/-- A new variable, and the room for it. -/
theorem Intact.declared {name : String} {k : Bool} {t : Ty} {e : Entity} {c : ScopeChain}
    (h : Intact holes owed w) (hc : w.scopes.declareLocal name k t = (.ok e, c)) :
    Weaves holes owed 0 w (({ w with scopes := c } : Writer).setAt ⟨w.buffer, 0⟩ widen) := by
  have hg := ScopeChain.grows_declareLocal h.level hc
  obtain ⟨hin, hkeeps⟩ := h.scoped (c := c) (by rw [hg.level, hg.functionDepth, h.level]) (by
    obtain ⟨-, he, rfl⟩ := ScopeChain.declareLocal_eq_ok hc
    intro f hf l hl
    rcases List.mem_cons.1 (show f ∈ e :: w.scopes.entities from hf) with rfl | hf
    · rw [he] at hl
      cases hl
    · exact hf)
  obtain ⟨size, hroom⟩ := hin.rooms _ hin.valid
  have hwide : widen ⟨.allocStack, .int (size : Nat)⟩ = ⟨.allocStack, .int ((size + 1 : Nat) : Int)⟩ := rfl
  have hset : Weaves holes owed 0 { w with scopes := c }
      (({ w with scopes := c } : Writer).setAt ⟨w.buffer, 0⟩ widen) := by
    refine hin.setAt hroom ?_ (fun _ => ⟨size + 1, hwide⟩) (fun hj => absurd rfl hj.ne_allocStack)
      (fun _ => .inl) fun _ => .inl
    rw [hwide]
    exact .plain rfl rfl
  exact ⟨hset.intact, hkeeps.trans h.valid hset.keeps, hg.trans hset.scopes, hset.depth⟩

/-- The store of an initial value. -/
theorem store_safe (t : Ty) (i : Int) :
    Safe (do
      applyRule (← findRule t (.loadSlot .own)) (.int i)
      replaceLoad storeFor?
      setType .void false) := by
  refine (Safe.findRule _ _).bind_of fun rule w w' hrule => ?_
  refine Safe.bind (.applyRule (fun o ho => ?_) rfl) fun _ => Safe.storeLast.bind fun _ => .setType _ _
  obtain ⟨-, rfl⟩ := Ty.slotRule?_eq_some.1 (findRule_eq_ok.1 hrule).1
  obtain rfl := Action.emit.inj ho
  rfl

theorem declare_safe {d : Declaration} {initial : Option (Write Unit)}
    (hi : ∀ code ∈ initial, Safe code) : Safe (declare d initial) := by
  intro holes owed w u w' hw h
  cases initial with
  | none =>
    simp only [declare, bind_eq_ok, resolveType_eq_ok, pure_eq_ok, inScopes_eq_ok, reserveSlot_eq_ok,
      Option.isSome_none, Bool.false_eq_true, if_false] at h
    obtain ⟨t, w, ⟨-, rfl⟩, _, w, ⟨rfl, rfl⟩, e, _, ⟨c, hc, rfl⟩, _, w₁, rfl, h⟩ := h
    have hone := hw.declared hc
    exact hone.trans hw.valid (Safe.setType _ _ hone.intact h)
  | some code =>
    simp only [declare, bind_eq_ok, resolveType_eq_ok, inScopes_eq_ok, reserveSlot_eq_ok,
      Option.isSome_some, if_true] at h
    obtain ⟨declared, w, ⟨-, rfl⟩, _, w₁, h₁, t, w₂, h₂, e, _, ⟨c, hc, rfl⟩, _, w₃, rfl, h⟩ := h
    have hvalue := (hi code rfl).value _ hw h₁
    have htype := hvalue.trans hw.valid (initialType_safe _ _ hvalue.intact h₂)
    have hone := htype.trans hw.valid (htype.intact.declared hc)
    rw [(ScopeChain.declareLocal_eq_ok hc).2.1] at h
    exact hone.trans hw.valid (store_safe t _ hone.intact h)

/-! ### Returns and jumps -/

theorem ret_safe {code : Option (Write Unit)} (hc : ∀ c ∈ code, Safe c) : Safe (ret code) := by
  have hend : ∀ {op : Opcode}, isPlain op = true → Safe (do put op .none; setType .void false) :=
    fun hop => (Safe.put hop rfl).bind fun _ => .setType _ _
  refine Safe.get.bind fun w => .ite ?_ ?_
  · cases code with
    | none => exact (Safe.put rfl rfl).bind fun _ => hend rfl
    | some code => exact ((hc code rfl).value _).bind fun _ => hend rfl
  · cases code with
    | none => exact hend rfl
    | some code =>
      exact ((hc code rfl).typedValue _).bind fun _ => Safe.get.bind fun _ =>
        (Safe.joinTypes _ _ _).discard.bind fun _ => hend rfl

theorem brk_safe (level : Nat) : Safe (brk level) := by
  intro holes owed w u w' hw h
  simp only [brk, bind_eq_ok, get_eq_ok] at h
  obtain ⟨_, w, ⟨rfl, rfl⟩, h⟩ := h
  by_cases hlevel : 1 ≤ level ∧ level ≤ w.breaks.length
  · simp only [hlevel, and_self, if_true, bind_eq_ok, emit_eq_ok, modify_eq_ok] at h
    obtain ⟨_, _, ⟨rfl, rfl⟩, rfl⟩ := h
    have hopen := hw.putHole (o := .jump) (.inl rfl)
    have hperm := flatten_modify_perm (l := w.breaks) (k := level - 1) (by omega) ⟨w.buffer, w.size⟩
    obtain ⟨hin, hkeeps⟩ := hopen.intact.noted holes
      (w.breaks.modify (level - 1) (⟨w.buffer, w.size⟩ :: ·))
      (fun pt => by
        rw [List.mem_append, hperm.mem_iff]
        simp only [List.mem_cons, List.cons_append, List.mem_append, Writer.add_breaks]
        tauto)
      (fun pt hpt => by
        rcases List.mem_cons.1 (hperm.mem_iff.1 hpt) with rfl | hpt
        · rfl
        · exact hopen.intact.own pt hpt)
    exact ⟨hin, hopen.keeps.trans hw.valid hkeeps, hopen.scopes, by simp⟩
  · rw [if_neg hlevel] at h
    exact Safe.throw _ hw h

/-! ### Conditions -/

theorem cond_safe {setting : Setting} {test yes : Write Unit} (ht : Safe test) (hy : SafeFor m yes) :
    SafeFor m (Write.cond setting test yes none) := by
  intro holes owed w u w' hw h
  simp only [Write.cond, bind_eq_ok, openLabel_eq_ok, patch_eq_ok] at h
  obtain ⟨_, w₁, h₁, branch, w₂, h₂, _, w₃, h₃, _, _, ⟨rfl, rfl⟩, _, _, rfl, h⟩ := h
  have htest := ht.value _ hw h₁
  obtain ⟨hb, hopen⟩ := Opens.emitBranchIfFalse setting htest.intact h₂
  have hyes := hy hopen.intact h₃
  have hb₃ : branch.buffer = w₃.buffer := by rw [hb, hyes.keeps.buffer, hopen.keeps.buffer]
  have hland := hyes.intact.land hb₃
  have hend := Safe.setType _ _ hland.intact h
  have hall := htest.trans hw.valid (hopen.trans htest.intact.valid (hyes.trans hopen.intact.valid
    (hland.trans hyes.intact.valid hend)))
  simpa only [Nat.zero_add, Nat.add_zero] using hall

theorem condElse_safe {setting : Setting} {test yes no : Write Unit} (ht : Safe test)
    (hy : SafeFor m yes) (hn : SafeFor n no) :
    SafeFor (m + n) (Write.cond setting test yes (some no)) := by
  intro holes owed w u w' hw h
  simp only [Write.cond, bind_eq_ok, emit_eq_ok, openLabel_eq_ok, patch_eq_ok] at h
  obtain ⟨_, w₁, h₁, branch, w₂, h₂, _, w₃, h₃, skip, w₄, ⟨hskip, hw₄⟩, _, _, ⟨rfl, rfl⟩, _, w₅, hw₅, _,
    w₆, h₆, _, _, ⟨rfl, rfl⟩, _, _, rfl, h⟩ := h
  have htest := ht.value _ hw h₁
  obtain ⟨hb, hopen⟩ := Opens.emitBranchIfFalse setting htest.intact h₂
  have hyes := hy hopen.intact h₃
  have hb₃ : branch.buffer = w₃.buffer := by rw [hb, hyes.keeps.buffer, hopen.keeps.buffer]
  have hjump : Weaves (branch :: skip :: holes) owed 0 w₃ w₄ := by
    rw [hskip, hw₄]
    exact (hyes.intact.putHole (.inl rfl)).reorder fun _ => by simp only [List.mem_cons]; tauto
  have hland : Weaves (skip :: holes) owed 0 w₄ w₅ := by
    rw [hw₅]
    exact hjump.intact.land (hb₃.trans hjump.keeps.buffer.symm)
  have hno := hn hland.intact h₆
  have hb₆ : skip.buffer = w₆.buffer := by
    rw [hskip, hno.keeps.buffer, hland.keeps.buffer, hjump.keeps.buffer]
  have hland' := hno.intact.land hb₆
  have hend := Safe.setType _ _ hland'.intact h
  have hall := htest.trans hw.valid (hopen.trans htest.intact.valid (hyes.trans hopen.intact.valid
    (hjump.trans hyes.intact.valid (hland.trans hjump.intact.valid (hno.trans hland.intact.valid
      (hland'.trans hno.intact.valid hend))))))
  simpa only [Nat.zero_add, Nat.add_zero] using hall

/-! ### Loops -/

/-- The jumps out of a loop get their target. -/
theorem patches_weave {jumps : List CodePoint} {l : Label} (h : Intact (jumps ++ holes) owed w)
    (hb : ∀ pt ∈ jumps, pt.buffer = w.buffer) (hl : w.Lands l w.buffer)
    (hp : (jumps.forM fun jump => patch jump l) w = .ok ((), w')) : Weaves holes owed 0 w w' := by
  induction jumps generalizing w with
  | nil =>
    obtain ⟨-, rfl⟩ := pure_eq_ok.1 hp
    exact .refl h
  | cons pt rest ih =>
    simp only [List.forM_eq_forM, List.forM_cons, bind_eq_ok, patch_eq_ok] at hp
    obtain ⟨_, w₁, hw₁, hp⟩ := hp
    have hone : Weaves (rest ++ holes) owed 0 w w₁ := hw₁ ▸ h.patch (hb pt List.mem_cons_self) hl
    have hbuffer := hone.keeps.buffer
    exact hone.trans h.valid (ih hone.intact
      (fun pt hpt => (hb pt (List.mem_cons_of_mem _ hpt)).trans hbuffer.symm)
      (hbuffer ▸ hone.keeps.lands l _ hl) hp)

theorem step_safe {step : Option (Write Unit)} (hs : ∀ code ∈ step, Safe code) :
    Safe (step.elim (pure ()) dropped) := by
  cases step with
  | none => exact .pure ()
  | some code => exact dropped_safe (hs code rfl)

theorem rounds_safe (setting : Setting) {test body : Write Unit} {step : Option (Write Unit)}
    (ht : Safe test) (hb : SafeFor n body) (hs : ∀ code ∈ step, Safe code) :
    SafeFor n (rounds setting test body step) := by
  intro holes owed w u w' hw h
  simp only [rounds, bind_eq_ok, openLabel_eq_ok, patch_eq_ok, modify_eq_ok, put_eq_ok,
    modifyGet_eq_ok] at h
  obtain ⟨start, w₁, ⟨hstart, hw₁⟩, _, w₂, h₂, exit, w₃, h₃, _, w₄, hw₄, _, w₅, h₅, _, w₆, h₆, _, w₇, hw₇,
    behind, w₈, ⟨hbehind, hw₈⟩, _, w₉, hw₉, jumps, w₁₀, ⟨hjumps, hw₁₀⟩, h⟩ := h
  -- up to the body; the branch at the test is a hole, and the loop has no jumps yet
  have hlabel : Weaves holes owed 0 w w₁ ∧ w₁.Lands start w.buffer := by
    rw [hw₁, hstart]
    exact hw.openedLabel
  have htest := ht.value _ hlabel.1.intact h₂
  obtain ⟨hexit, hopen⟩ := Opens.emitBranchIfFalse setting htest.intact h₃
  have hnote := hopen.intact.noted (exit :: holes) ([] :: w₃.breaks)
    (fun _ => by rw [List.flatten_cons, List.nil_append]) hopen.intact.own
  rw [← hw₄] at hnote
  -- the body, the step and the jump back
  have hbody := hb hnote.1 h₅
  have hstep := step_safe hs hbody.intact h₆
  have hfront : Keeps n w₁ w₆ := by
    have hall := htest.keeps.trans hlabel.1.intact.valid (hopen.keeps.trans htest.intact.valid
      (hnote.2.trans hopen.intact.valid (hbody.keeps.trans hnote.1.valid hstep.keeps)))
    simpa only [Nat.zero_add, Nat.add_zero] using hall
  have hbuffer₆ : w₆.buffer = w.buffer := hfront.buffer.trans hlabel.1.keeps.buffer
  have hback : Weaves (exit :: holes) owed 0 w₆ w₇ := by
    rw [hw₇]
    refine hstep.intact.add (.jump (.inl rfl) ?_) (fun _ h => h) fun _ h => .inl h
    rw [hbuffer₆]
    exact hfront.lands _ _ hlabel.2
  -- behind the loop: its branch and its jumps get their targets
  have hbuffer₇ : w₇.buffer = w.buffer := hback.keeps.buffer.trans hbuffer₆
  have hafter : Weaves (exit :: holes) owed 0 w₇ w₈ ∧ w₈.Lands behind w.buffer := by
    rw [hw₈, hbehind, ← hbuffer₇]
    exact hback.intact.openedLabel
  have hexit₈ : exit.buffer = w₈.buffer := by
    rw [hexit, hafter.1.keeps.buffer, hbuffer₇, htest.keeps.buffer, hlabel.1.keeps.buffer]
  have hbuffer₈ : w₈.buffer = w.buffer := hafter.1.keeps.buffer.trans hbuffer₇
  have hland : Weaves holes owed 0 w₈ w₉ := by
    rw [hw₉]
    exact hafter.1.intact.patch hexit₈ (hbuffer₈ ▸ hafter.2)
  have hbuffer₉ : w₉.buffer = w.buffer := hland.keeps.buffer.trans hbuffer₈
  have hdepth₉ : w₉.breaks.length = w.breaks.length + 1 := by
    rw [hland.depth, hafter.1.depth, hback.depth, hstep.depth, hbody.depth, hw₄]
    show w₃.breaks.length + 1 = _
    rw [hopen.depth, htest.depth, hlabel.1.depth]
  obtain ⟨top, outer, hbreaks⟩ := List.exists_cons_of_length_eq_add_one hdepth₉
  have hown := hland.intact.own
  rw [hbreaks, List.flatten_cons] at hown
  have hpop := hland.intact.noted (jumps ++ holes) outer
    (fun pt => by
      rw [hjumps, hbreaks]
      simp only [List.headD_cons, List.flatten_cons, List.mem_append]
      tauto)
    (fun pt hpt => hown pt (List.mem_append_right _ hpt))
  have hw₁₀' : w₁₀ = { w₉ with breaks := outer } := by rw [hw₁₀, hbreaks]; rfl
  rw [← hw₁₀'] at hpop
  have hpatches := patches_weave hpop.1
    (fun pt hpt => by
      rw [hjumps, hbreaks] at hpt
      rw [hw₁₀']
      exact hown pt (List.mem_append_left _ hpt))
    (by
      rw [hpop.2.buffer, hbuffer₉]
      exact hpop.2.lands _ _ (hland.keeps.lands _ _ hafter.2)) h
  -- all in all
  have hkeeps := hlabel.1.keeps.trans hw.valid (hfront.trans hlabel.1.intact.valid (hback.keeps.trans
    hstep.intact.valid (hafter.1.keeps.trans hback.intact.valid (hland.keeps.trans hafter.1.intact.valid
      (hpop.2.trans hland.intact.valid hpatches.keeps)))))
  simp only [Nat.zero_add, Nat.add_zero] at hkeeps
  have hgrows₄ : ScopeChain.Grows w₄.scopes w'.scopes := by
    refine hbody.scopes.trans (hstep.scopes.trans (hback.scopes.trans (hafter.1.scopes.trans
      (hland.scopes.trans ?_))))
    have := hpatches.scopes
    rwa [hw₁₀'] at this
  refine ⟨hpatches.intact, hkeeps, ?_, ?_⟩
  · refine hlabel.1.scopes.trans (htest.scopes.trans (hopen.scopes.trans ?_))
    rwa [hw₄] at hgrows₄
  · rw [hpatches.depth, hw₁₀']
    show outer.length = _
    have := hdepth₉
    rw [hbreaks, List.length_cons] at this
    omega

/-- A block that is opened and closed. -/
theorem Weaves.block (hw : w.buffer < w.buffers.size)
    (hbegin : Keeps 0 w { w with scopes := w.scopes.beginScope })
    (h : Weaves holes owed n { w with scopes := w.scopes.beginScope } w₁)
    (hlevel : w.scopes.inner.frame = w.scopes.functionDepth) :
    Weaves holes owed n w { w₁ with scopes := w₁.scopes.endScope } := by
  have hend := ScopeChain.endScope_of_grows h.scopes
  obtain ⟨hin, hkeeps⟩ := h.intact.scoped (c := w₁.scopes.endScope)
    (by rw [hend]; exact hlevel)
    (fun e he l _ => by
      rw [hend] at he
      exact h.scopes.mem_entities (List.mem_append_right _ he))
  have hall := hbegin.trans hw (h.keeps.trans hw hkeeps)
  simp only [Nat.zero_add, Nat.add_zero] at hall
  exact ⟨hin, hall, ScopeChain.grows_endScope h.scopes, h.depth⟩

theorem Intact.beginScope (h : Intact holes owed w) :
    Intact holes owed { w with scopes := w.scopes.beginScope } ∧
      Keeps 0 w { w with scopes := w.scopes.beginScope } := by
  refine h.scoped rfl fun e he _ _ => ?_
  simpa [ScopeChain.beginScope, ScopeChain.entities, ScopeChain.scopes] using he

theorem loop_safe {setting : Setting} {initial test body step : Option (Write Unit)}
    (hi : ∀ code ∈ initial, SafeFor m code) (hn : initial = none → m = 0)
    (ht : ∀ code ∈ test, Safe code) (hb : ∀ code ∈ body, SafeFor n code)
    (hs : ∀ code ∈ step, Safe code) : SafeFor (m + n) (loop setting initial test body step) := by
  cases test with
  | none =>
    intro holes owed w u w' hw h
    simp [loop, orThrow, bind_eq_ok, throw_eq_ok] at h
  | some test =>
    cases body with
    | none =>
      intro holes owed w u w' hw h
      simp [loop, orThrow, bind_eq_ok, throw_eq_ok] at h
    | some body =>
      have hrounds := rounds_safe setting (ht _ rfl) (hb _ rfl) hs
      cases initial with
      | none =>
        rw [loop_none, hn rfl, Nat.zero_add]
        exact hrounds.bind (n := 0) fun _ => Safe.setType _ _
      | some initial =>
        rw [loop_some]
        intro holes owed w u w' hw h
        simp only [bind_eq_ok, beginScope, endScope, modify_eq_ok] at h
        obtain ⟨_, _, rfl, _, w₁, h₁, _, w₂, h₂, _, _, rfl, h⟩ := h
        obtain ⟨hin, hbegin⟩ := hw.beginScope
        have hfirst := hi _ rfl hin h₁
        have hblock := (hfirst.trans hin.valid (hrounds hfirst.intact h₂)).block hw.valid hbegin hw.level
        exact hblock.trans hw.valid (n := 0) (Safe.setType _ _ hblock.intact h)

/-! ### Functions -/

/-- A new function is owed. -/
theorem Intact.entered {name : String} {s : Signature} {e : Entity} {c : ScopeChain}
    (h : Intact holes owed w) (hc : w.scopes.declareFunction name ⟨w.labels.next⟩ s = (.ok e, c)) :
    Weaves holes (⟨w.labels.next⟩ :: owed) 0 w (w.entered c) := by
  obtain ⟨hnew, he, rfl⟩ := ScopeChain.declareFunction_eq_ok hc
  -- the new name is the only one, and its label the only one that is owed a body
  have hmem : ∀ f ∈ (w.scopes.add e).entities, f = e ∨ f ∈ w.scopes.entities := fun f hf =>
    List.mem_cons.1 (show f ∈ e :: w.scopes.entities from hf)
  have hlands : ∀ l b, w.Lands l b → (w.entered (w.scopes.add e)).Lands l b := fun l b hl => by
    obtain ⟨i, hp⟩ := hl.points
    refine ⟨⟨i, Nat.lt_succ_of_lt hp.old, hp.place⟩, fun f hf hfl => ?_⟩
    rcases hmem f hf with rfl | hf
    · rw [he] at hfl
      have hold := hp.old
      rw [← Location.entry.inj hfl] at hold
      exact absurd hold (Nat.lt_irrefl _)
    · exact hl.unnamed f hf hfl
  have henters : ∀ l, w.Enters l → (w.entered (w.scopes.add e)).Enters l := fun l hl =>
    ⟨hl.bound, hl.closed⟩
  refine ⟨⟨h.valid, h.level, fun l pt hl => (h.bound l pt hl).imp_left Nat.lt_succ_of_lt,
    fun l b hl => (h.waiting l b hl).imp_left Nat.lt_succ_of_lt, h.rooms, fun b i d hd => ?_,
    h.branches, h.own, fun f hf l hl => ?_⟩, ⟨rfl, rfl, hlands, henters, fun _ _ _ => rfl,
    fun _ _ _ _ h => h, fun b hle hlt => absurd hlt (Nat.not_lt.2 hle)⟩, ScopeChain.grows_add ?_, rfl⟩
  · exact (h.fits b i d hd).mono (hlands · _) henters (fun hm hj => .hole hj hm) fun l hl =>
      .inr (List.mem_cons_of_mem _ hl)
  · rcases hmem f hf with rfl | hf
    · rw [he] at hl
      obtain rfl := Location.entry.inj hl
      exact ⟨Nat.lt_succ_self _, fun b hb => absurd (h.waiting _ _ hb).1 (Nat.lt_irrefl _),
        .inr List.mem_cons_self⟩
    · obtain ⟨hid, hclosed, hknown⟩ := h.entries f hf l hl
      exact ⟨Nat.lt_succ_of_lt hid, hclosed, hknown.imp (henters l) (List.mem_cons_of_mem _)⟩
  · rw [he]
    exact hnew

section Inside

variable {l : Label} {returns : Ty} {e : Entity}

theorem Writer.inside_entities : (w.inside l returns).scopes.entities = w.scopes.entities := by
  simp [Writer.inside, ScopeChain.beginFunction, ScopeChain.entities, ScopeChain.scopes]

theorem Writer.inside_sizeOf {b : Nat} (hb : b < w.buffers.size) :
    (w.inside l returns).sizeOf b = w.sizeOf b := by
  rw [Writer.sizeOf, Writer.inside_getD hb, Writer.sizeOf]

theorem Intact.new_waiting (h : Intact holes owed w) (m : Label) :
    (m, w.buffers.size) ∉ w.labels.waiting := fun hm => absurd (h.waiting m _ hm).2 (Nat.lt_irrefl _)

/-- The function's label is bound to its first instruction. -/
theorem Intact.inside_enters (h : Intact holes owed w) (hm : e ∈ w.scopes.entities)
    (hl : e.location = .entry l) : (w.inside l returns).Enters l where
  bound := by
    refine ⟨w.buffers.size, Nat.ne_of_gt (Nat.lt_of_le_of_lt (Nat.zero_le _) h.valid), ?_, ?_⟩
    · rw [Writer.inside_count]
      exact Nat.lt_succ_self _
    · rw [Writer.inside_get (h.new_waiting l), if_pos rfl]
  closed b hb := (h.entries e hm l hl).2.1 b (Writer.inside_waiting.1 hb).1

theorem Intact.enters_inside (h : Intact holes owed w) (hm : e ∈ w.scopes.entities)
    (hl : e.location = .entry l) {k : Label} (hk : w.Enters k) : (w.inside l returns).Enters k := by
  by_cases hkl : k = l
  · subst hkl
    exact h.inside_enters hm hl
  · obtain ⟨b, hb, hlt, hget⟩ := hk.bound
    refine ⟨⟨b, hb, ?_, ?_⟩, fun b hb => hk.closed b (Writer.inside_waiting.1 hb).1⟩
    · rw [Writer.inside_count]
      exact Nat.lt_succ_of_lt hlt
    · rw [Writer.inside_get (h.new_waiting k), if_neg hkl, hget]

theorem Intact.lands_inside (h : Intact holes owed w) (hm : e ∈ w.scopes.entities)
    (hl : e.location = .entry l) {k : Label} {b : Nat} (hk : w.Lands k b) :
    (w.inside l returns).Lands k b where
  points := hk.points.imp fun i hp => hp.inside_of_ne
    (by rintro rfl; exact hk.unnamed e hm hl) fun hwait => (h.waiting k b hwait).2
  unnamed f hf hfl := hk.unnamed f (Writer.inside_entities ▸ hf) hfl

/-- All is intact when the body of a function begins.  The jumps out of the loops around are not its
own. -/
theorem Intact.inside (h : Intact holes owed w) (returns : Ty) (hm : e ∈ w.scopes.entities)
    (hl : e.location = .entry l) :
    Intact (holes ++ w.breaks.flatten) owed (w.inside l returns) := by
  have hcases : ∀ b < (w.inside l returns).buffers.size, b < w.buffers.size ∨ b = w.buffers.size :=
    fun b hb => by
      rw [Writer.inside_count] at hb
      exact Nat.lt_succ_iff_lt_or_eq.1 hb
  -- the new buffer holds the room for the variables, and nothing else
  have hnew : ∀ {i d}, (w.inside l returns).at w.buffers.size i = some d →
      d = ⟨.allocStack, .int (0 : Nat)⟩ := fun {i d} hd => by
    rw [Writer.at, Writer.inside_start] at hd
    have hi := (Array.getElem?_eq_some_iff.1 hd).1
    obtain rfl : i = 0 := by simpa using hi
    exact (Option.some.inj hd).symm
  refine ⟨?_, rfl, fun k pt hk => ?_, fun k b hk => ?_, fun b hb => ?_, fun b i d hd => ?_,
    fun pt hpt => ?_, fun _ h => absurd h List.not_mem_nil, fun f hf k hfk => ?_⟩
  · show w.buffers.size < _
    rw [Writer.inside_count]
    exact Nat.lt_succ_self _
  · rw [Writer.inside_get (h.new_waiting k)] at hk
    split at hk
    · next hkl =>
      -- the entry is bound to the start of the new buffer, any other label stays where it is
      obtain rfl := Option.some.inj hk
      subst hkl
      refine ⟨(h.entries e hm k hl).1, ?_⟩
      show 0 < (w.inside k returns).sizeOf w.buffers.size
      rw [Writer.sizeOf, Writer.inside_start]
      exact Nat.one_pos
    · obtain ⟨hid, hlt⟩ := h.bound k pt hk
      refine ⟨hid, ?_⟩
      rwa [Writer.inside_sizeOf (Writer.buffer_lt_of_size (Nat.lt_of_le_of_lt (Nat.zero_le _) hlt))]
  · obtain ⟨hid, hlt⟩ := h.waiting k b (Writer.inside_waiting.1 hk).1
    refine ⟨hid, ?_⟩
    rw [Writer.inside_count]
    exact Nat.lt_succ_of_lt hlt
  · rcases hcases b hb with hb | rfl
    · rw [Writer.inside_at hb]
      exact h.rooms b hb
    · refine ⟨0, ?_⟩
      rw [Writer.at, Writer.inside_start]
      rfl
  · rcases hcases b (Writer.buffer_lt_of_size (Nat.lt_of_le_of_lt (Nat.zero_le _) (Writer.at_lt hd)))
      with hb | rfl
    · rw [Writer.inside_at hb] at hd
      exact (h.fits b i d hd).mono (fun k hk => h.lands_inside hm hl hk)
        (fun k hk => h.enters_inside hm hl hk) (fun hm hj => .hole hj (List.mem_append_left _ hm))
        fun _ => .inr
    · rw [hnew hd]
      exact .plain rfl rfl
  · have hpt' : pt ∈ holes ++ w.breaks.flatten :=
      (List.mem_append.1 hpt).elim id fun h => absurd h List.not_mem_nil
    obtain ⟨d, hd, hj⟩ := h.branches pt hpt'
    refine ⟨d, ?_, hj⟩
    rw [Writer.inside_at (Writer.buffer_lt_of_size (Nat.lt_of_le_of_lt (Nat.zero_le _) (Writer.at_lt hd))), hd]
  · obtain ⟨hid, hclosed, hknown⟩ := h.entries f (Writer.inside_entities ▸ hf) k hfk
    exact ⟨hid, fun b hb => hclosed b (Writer.inside_waiting.1 hb).1,
      hknown.imp_left (h.enters_inside hm hl)⟩

/-- The end of a function's body leads back to the code around it. -/
theorem Weaves.leave (h : Intact holes owed w) (hm : e ∈ w.scopes.entities) (hl : e.location = .entry l)
    (hbody : Weaves (holes ++ w.breaks.flatten) owed n (w.inside l returns) w₁) :
    Weaves holes owed (n + 1) w ((w₁.add ⟨.ret, .none⟩).leave w) ∧
      ((w₁.add ⟨.ret, .none⟩).leave w).Enters l := by
  have hinside := h.inside returns hm hl
  have hret := hbody.trans hinside.valid (hbody.intact.put (o := .ret) (x := .none) rfl rfl)
  rw [Nat.add_zero] at hret
  generalize hw₂ : w₁.add ⟨.ret, .none⟩ = w₂ at hret
  have hbuffer₁ : w₁.buffer = w.buffers.size := hbody.keeps.buffer
  have hbuffer₂ : w₂.buffer = w.buffers.size := hret.keeps.buffer
  have hcount : w₂.buffers.size = w.buffers.size + 1 + n := by
    rw [hret.keeps.count, Writer.inside_count]
  have hscopes : (w₂.leave w).scopes = w.scopes :=
    ScopeChain.endFunction_of_grows (Nat.le_of_eq h.level) hret.scopes
  have hold : ∀ f ∈ w.scopes.entities, f ∈ w₂.scopes.entities := fun f hf =>
    hret.scopes.mem_entities (by rwa [Writer.inside_entities])
  -- the loops of the body are closed at its end
  have hempty : w₂.breaks = [] := List.length_eq_zero_iff.1 hret.depth
  have hlands : ∀ k b, w₂.Lands k b → (w₂.leave w).Lands k b := fun k b hk =>
    ⟨hk.points.imp fun _ hp => hp.congr rfl rfl, fun f hf =>
      hk.unnamed f (hold f (hscopes ▸ hf))⟩
  have henters : ∀ k, w₂.Enters k → (w₂.leave w).Enters k := fun k hk =>
    hk.congr rfl (Nat.le_refl _)
  -- the last instruction of the body is the return, and no label waits behind it
  have hfinished : (w₂.leave w).Finished w.buffers.size := by
    refine ⟨?_, fun k hk => ?_⟩
    · show w₂.at w.buffers.size (w₂.sizeOf w.buffers.size - 1) = _
      rw [← hw₂, ← hbuffer₁, Writer.add_sizeOf _ _ _ hbody.intact.valid, if_pos rfl, Nat.add_sub_cancel,
        Writer.add_at _ _ _ _ hbody.intact.valid, if_pos ⟨rfl, rfl⟩]
    · have hk' : (k, w₁.buffer) ∈ (w₁.add ⟨.ret, .none⟩).labels.waiting := by
        rw [hw₂, hbuffer₁]
        exact hk
      exact ((w₁.labels.close_waiting _ _).1 hk').2 rfl
  -- back in the buffer of before, the jumps of the open loops are still holes
  have hback : Intact holes owed (w₂.leave w) := by
    have hin := hret.intact
    refine ⟨?_, by rw [hscopes]; exact h.level, hin.bound, hin.waiting, hin.rooms, fun b i d hd => ?_,
      fun pt hpt => hin.branches pt (List.mem_append_left _ hpt), h.own, fun f hf k hfk => ?_⟩
    · show w.buffer < w₂.buffers.size
      have := h.valid
      omega
    · refine (hin.fits b i d hd).mono (fun k => hlands k b) henters (fun hm hj => .hole hj ?_)
        fun _ => .inr
      rw [hempty, List.flatten_nil, List.append_nil] at hm
      exact hm
    · obtain ⟨hid, hclosed, hknown⟩ := hin.entries f (hold f (hscopes ▸ hf)) k hfk
      exact ⟨hid, hclosed, hknown.imp_left (henters k)⟩
  refine ⟨⟨hback, ⟨rfl, ?_, fun k b hk => hlands k b (hret.keeps.lands k b (h.lands_inside hm hl hk)),
    fun k hk => henters k (hret.keeps.enters k (h.enters_inside hm hl hk)), fun b hb _ => ?_,
    fun k b hb _ hk => ?_, fun b hle hlt => ?_⟩, hscopes ▸ .refl _, rfl⟩,
    henters l (hret.keeps.enters l (h.inside_enters hm hl))⟩
  · show w₂.buffers.size = _
    omega
  · rw [← @Writer.inside_getD w l returns b hb]
    refine hret.keeps.others b ?_ (Nat.ne_of_lt hb)
    rw [Writer.inside_count]
    omega
  · refine (Writer.inside_waiting.1 (hret.keeps.quiet k b ?_ (Nat.ne_of_lt hb) hk)).1
    rw [Writer.inside_count]
    omega
  · by_cases hb : b = w.buffers.size
    · subst hb
      exact hfinished
    · refine (hret.keeps.finished b ?_ hlt).congr rfl fun _ => id
      rw [Writer.inside_count]
      omega

end Inside

theorem declareParams_safe {count index : Nat} {params : List Param} {types : List Ty} :
    Safe (declareParams count index params types) := by
  induction params generalizing index types with
  | nil => exact Safe.pure ()
  | cons p params ih =>
    cases types with
    | nil => exact Safe.pure ()
    | cons t types =>
      intro holes owed w u w' hw h
      simp only [declareParams, bind_eq_ok, discard_eq_ok, inScopes_eq_ok] at h
      obtain ⟨_, w₁, ⟨e, c, hc, rfl⟩, h⟩ := h
      obtain ⟨hnew, he, rfl⟩ := ScopeChain.declareParam_eq_ok hc
      obtain ⟨hin, hkeeps⟩ := hw.scoped (c := w.scopes.add e) hw.level fun f hf l hl => by
        rcases List.mem_cons.1 (show f ∈ e :: w.scopes.entities from hf) with rfl | hf
        · rw [he] at hl
          cases hl
        · exact hf
      have hone : Weaves holes owed 0 w { w with scopes := w.scopes.add e } :=
        ⟨hin, hkeeps, ScopeChain.grows_add (by rw [he]; exact hnew), rfl⟩
      exact hone.trans hw.valid (ih hone.intact h)

/-- A function is found under its name, or declared now. -/
theorem Intact.found {name : String} {params : List Param} {returns : String} {l : Label} {s : Signature}
    (hw : Intact holes owed w) (h : declaredFunction name params returns w = .ok ((l, s), w')) :
    Weaves holes (l :: owed) 0 w w' ∧ ∃ e ∈ w'.scopes.entities, e.location = .entry l ∧
      ∀ f, w.scopes.findCurrent? name = some f → f = e := by
  obtain ⟨h, e, he, hl, -⟩ := declaredFunction_eq_ok h
  have hm : e ∈ w'.scopes.entities := List.mem_append_left _ (Scope.mem_of_find? he).1
  rcases h with rfl | ⟨hnone, h⟩
  · refine ⟨.refl (hw.settle fun k hk => .inr (List.mem_cons_of_mem _ hk)), e, hm, hl, fun f hf => ?_⟩
    exact Option.some.inj (hf.symm.trans he)
  · obtain ⟨s', e', c, -, hd, rfl⟩ := declareFunction_eq_ok h
    have hnew := hw.entered hd
    obtain ⟨-, he', hc'⟩ := ScopeChain.declareFunction_eq_ok hd
    have hsame : l = ⟨w.labels.next⟩ := by
      have : e = e' := by
        have hfind : c.findCurrent? name = some e' := by
          rw [hc', he']
          simp [ScopeChain.add, ScopeChain.findCurrent?, Scope.find?]
        exact Option.some.inj (he.symm.trans hfind)
      rw [this, he'] at hl
      exact (Location.entry.inj hl).symm
    rw [hsame]
    exact ⟨hnew, e, hm, hsame ▸ hl, fun f hf => by rw [hnone] at hf; cases hf⟩

/-- The function that `name` stands for in the block, if there is one, has a body then. -/
theorem function_weaves {name : String} {params : List Param} {returns : String} {body : Write Unit}
    (hb : SafeFor n body) (hw : Intact holes owed w)
    (h : Write.function name params returns body w = .ok ((), w')) : Weaves holes owed (n + 1) w w' ∧
      ∀ f, w.scopes.findCurrent? name = some f → ∀ l, f.location = .entry l → w'.Enters l := by
  simp only [Write.function, bind_eq_ok, get_eq_ok, modify_eq_ok, put_eq_ok] at h
  obtain ⟨⟨l, s⟩, w₁, h₁, _, w₁, ⟨rfl, rfl⟩, _, _, rfl, _, w₂, rfl, _, w₃, h₃, _, w₄, h₄, _, w₅, rfl, _,
    w₆, rfl, h⟩ := h
  obtain ⟨hfound, e, hm, hl, hsame⟩ := hw.found h₁
  have hparams := declareParams_safe (hfound.intact.inside s.returns hm hl) h₃
  have hbody := hparams.trans (hfound.intact.inside s.returns hm hl).valid (hb hparams.intact h₄)
  rw [Nat.zero_add] at hbody
  obtain ⟨hleave, henters⟩ := hbody.leave hfound.intact hm hl
  have hall := hfound.trans hw.valid (hleave.trans hfound.intact.valid (n := 0)
    (Safe.setType _ _ hleave.intact h))
  have hend := (Safe.setType _ _ hleave.intact h).keeps.enters l henters
  rw [Nat.zero_add, Nat.add_zero] at hall
  refine ⟨⟨hall.intact.settle fun k hk => ?_, hall.keeps, hall.scopes, hall.depth⟩, fun f hf k hk => ?_⟩
  · rcases List.mem_cons.1 hk with rfl | hk
    · exact .inl hend
    · exact .inr hk
  · obtain rfl := hsame f hf
    obtain rfl := Location.entry.inj (hk.symm.trans hl)
    exact hend

/-! ### Statement lists -/

/-- A label by which the block in use knows a function that stands in a list. -/
def Heads (body : List Stmt) (w : Writer) (l : Label) : Prop :=
  ∃ name params returns inner, Stmt.function name params returns inner ∈ body ∧
    ∃ f, w.scopes.findCurrent? name = some f ∧ f.location = .entry l

/-- Code that writes the bodies of the functions that stand in a list. -/
def Pays {α : Type} (body : List Stmt) (code : Write α) : Prop :=
  ∀ ⦃holes owed w a w'⦄, Intact holes owed w → code w = .ok (a, w') → ∀ l, Heads body w l → w'.Enters l

theorem Heads.grows {body : List Stmt} {l : Label} (h : Heads body w l)
    (hg : ScopeChain.Grows w.scopes w'.scopes) : Heads body w' l := by
  obtain ⟨name, params, returns, inner, hm, f, hf, hl⟩ := h
  exact ⟨name, params, returns, inner, hm, f, hg.found _ _ hf, hl⟩

theorem Pays.of_plain {α : Type} {s : Stmt} {code : Write α} (hs : s.isFunction = false) :
    Pays [s] code := by
  rintro holes owed w a w' - - l ⟨name, params, returns, inner, hm, -⟩
  obtain rfl := List.mem_singleton.1 hm
  cases hs

theorem hoist_weaves {body : List Stmt} (hw : Intact holes owed w) (h : hoist body w = .ok ((), w')) :
    ∃ new, Weaves holes (new ++ owed) 0 w w' ∧ ∀ l ∈ new, Heads body w' l := by
  induction body generalizing w owed with
  | nil =>
    obtain ⟨-, rfl⟩ := pure_eq_ok.1 h
    exact ⟨[], .refl hw, nofun⟩
  | cons t rest ih =>
    have hmore : ∀ {l w}, Heads rest w l → Heads (t :: rest) w l :=
      fun ⟨name, params, returns, inner, hm, hf⟩ =>
        ⟨name, params, returns, inner, List.mem_cons_of_mem _ hm, hf⟩
    by_cases ht : t.isFunction = true
    · obtain ⟨name, params, returns, inner, rfl⟩ : ∃ name params returns inner,
          t = .function name params returns inner := by
        cases t <;> first | exact ⟨_, _, _, _, rfl⟩ | cases ht
      simp only [hoist, bind_eq_ok] at h
      obtain ⟨_, w₁, h₁, h⟩ := h
      obtain ⟨s, e, c, -, hc, rfl⟩ := declareFunction_eq_ok h₁
      have hone := hw.entered hc
      obtain ⟨new, hrest, hheads⟩ := ih hone.intact h
      obtain ⟨-, he, rfl⟩ := ScopeChain.declareFunction_eq_ok hc
      have hfound : Scope.find? (w.scopes.add e).inner name = some e := by
        rw [he]
        simp [ScopeChain.add, Scope.find?]
      have hall := hone.trans hw.valid hrest
      -- each hoisted function owes one label more
      refine ⟨new ++ [⟨w.labels.next⟩], ?_, fun l hl => ?_⟩
      · rw [List.append_assoc]
        exact hall
      · rcases List.mem_append.1 hl with hl | hl
        · exact hmore (hheads l hl)
        · obtain rfl := List.mem_singleton.1 hl
          exact ⟨name, params, returns, inner, List.mem_cons_self, e, hrest.scopes.found _ _ hfound,
            by rw [he]⟩
    · have hplain : ∀ name params returns body, t ≠ .function name params returns body := by
        rintro _ _ _ _ rfl
        exact ht rfl
      rw [hoist] at h
      · obtain ⟨new, hrest, hheads⟩ := ih hw h
        exact ⟨new, hrest, fun l hl => hmore (hheads l hl)⟩
      · exact hplain

/-- The functions of a list are declared and then written, so that nothing is owed behind it. -/
theorem listed_safe {α : Type} {body : List Stmt} {code : Write α} (hs : SafeFor n code)
    (hp : Pays body code) : SafeFor n (do hoist body; code) := by
  intro holes owed w a w' hw h
  obtain ⟨_, w₁, h₁, h₂⟩ := bind_eq_ok.1 h
  obtain ⟨new, hhoist, hheads⟩ := hoist_weaves hw h₁
  have hcode := hs hhoist.intact h₂
  have hall := hhoist.trans hw.valid hcode
  rw [Nat.zero_add] at hall
  refine ⟨hall.intact.settle fun l hl => ?_, hall.keeps, hall.scopes, hall.depth⟩
  exact (List.mem_append.1 hl).imp_left fun hl => hp hhoist.intact h₂ l (hheads l hl)

theorem block_safe {body : List Stmt} {code : Write Unit} (hs : SafeFor n code) (hp : Pays body code) :
    SafeFor n (do beginScope; hoist body; code; endScope) := by
  intro holes owed w u w' hw h
  simp only [bind_eq_ok, beginScope, endScope, modify_eq_ok] at h
  obtain ⟨_, _, rfl, _, w₁, h₁, _, w₂, h₂, rfl⟩ := h
  obtain ⟨hin, hbegin⟩ := hw.beginScope
  have hbody := listed_safe hs hp hin (bind_eq_ok.2 ⟨(), w₁, h₁, h₂⟩)
  exact hbody.block hw.valid hbegin hw.level

theorem cons_safe {α : Type} {s : Stmt} {rest : List Stmt} {first : Write Unit} {more : Write α}
    (hf : SafeFor m first) (hfp : Pays [s] first) (hm : SafeFor n more) (hmp : Pays rest more) :
    SafeFor (m + n) (do first; more) ∧ Pays (s :: rest) (do first; more) := by
  refine ⟨hf.bind fun _ => hm, fun holes owed w a w' hw h l hl => ?_⟩
  obtain ⟨_, w₁, h₁, h₂⟩ := bind_eq_ok.1 h
  have hone := hf hw h₁
  obtain ⟨name, params, returns, inner, hmem, hfound⟩ := hl
  rcases List.mem_cons.1 hmem with rfl | hmem
  · exact (hm hone.intact h₂).keeps.enters l
      (hfp hw h₁ l ⟨name, params, returns, inner, List.mem_singleton_self _, hfound⟩)
  · exact hmp hone.intact h₂ l (Heads.grows ⟨name, params, returns, inner, hmem, hfound⟩ hone.scopes)

/-! ### All statements -/

theorem Pays.discard {α : Type} {body : List Stmt} {code : Write α} (h : Pays body code) :
    Pays body (Functor.discard code) := fun _ _ _ _ _ hw hd =>
  let ⟨_, hc⟩ := discard_eq_ok.1 hd
  h hw hc

theorem SafeFor.unvalued {code : Write Unit} (h : SafeFor n code) :
    SafeFor n (do code; return false) := h.bind (n := 0) fun _ => Safe.pure false

theorem expr?_safe (setting : Setting) (e : Option Expr) : ∀ code ∈ expr? setting e, Safe code := by
  cases e with
  | none => nofun
  | some e =>
    rintro _ ⟨⟩
    exact expr_safe setting e

mutual

/-- The code of a statement leaves all intact, and writes the functions that stand in it. -/
theorem stmt_safe (setting : Setting) (keep : Bool) :
    (s : Stmt) → SafeFor s.bodies.length (stmt setting keep s) ∧ Pays [s] (stmt setting keep s)
  | .expr e => by
    rw [stmt]
    exact ⟨exprStmt_safe (expr_safe setting e) keep, .of_plain rfl⟩
  | .declare d => by
    rw [stmt]
    exact ⟨(declare_safe (expr?_safe setting d.initial)).unvalued, .of_plain rfl⟩
  | .function name params returns body => by
    have hbody := listed_safe (stmts_safe setting body).1 (stmts_safe setting body).2
    rw [stmt, Stmt.bodies, List.length_cons]
    refine ⟨SafeFor.unvalued fun _ _ _ _ _ hw h => (function_weaves hbody hw h).1, ?_⟩
    rintro _ _ w a w' hw h l ⟨_, _, _, _, hm, f, hf, hl⟩
    obtain ⟨rfl, -⟩ := Stmt.function.inj (List.mem_singleton.1 hm)
    simp only [bind_eq_ok, pure_eq_ok] at h
    obtain ⟨_, _, h, -, rfl⟩ := h
    exact (function_weaves hbody hw h).2 f hf l hl
  | .block body => by
    have h := block_safe (stmts_safe setting body).1 (stmts_safe setting body).2
    rw [stmt, Stmt.bodies]
    refine ⟨?_, .of_plain rfl⟩
    simpa only [bind_assoc] using h.unvalued
  | .cond test yes none => by
    rw [stmt, Stmt.bodies, stmt?, bodies?, List.append_nil]
    exact ⟨(cond_safe (expr_safe setting test) (stmt_safe setting false yes).1.discard).unvalued,
      .of_plain rfl⟩
  | .cond test yes (some no) => by
    rw [stmt, Stmt.bodies, stmt?, bodies?, List.length_append]
    exact ⟨(condElse_safe (expr_safe setting test) (stmt_safe setting false yes).1.discard
      (stmt_safe setting false no).1.discard).unvalued, .of_plain rfl⟩
  | .loop initial test step body => by
    rw [stmt, Stmt.bodies, List.length_append]
    refine ⟨(loop_safe (stmt?_safe setting initial) ?_ (expr?_safe setting test)
      (stmt?_safe setting body) (expr?_safe setting step)).unvalued, .of_plain rfl⟩
    cases initial with
    | none => exact fun _ => by rw [bodies?, List.length_nil]
    | some initial =>
      rw [stmt?]
      nofun
  | .brk level => by
    rw [stmt]
    exact ⟨(brk_safe level).unvalued, .of_plain rfl⟩
  | .ret e => by
    rw [stmt]
    exact ⟨(ret_safe (expr?_safe setting e)).unvalued, .of_plain rfl⟩
  | .empty => by
    rw [stmt]
    exact ⟨Safe.pure false, .of_plain rfl⟩

theorem stmts_safe (setting : Setting) : (body : List Stmt) →
    SafeFor (bodiesAll body).length (stmts setting body) ∧ Pays body (stmts setting body)
  | [] => by
    rw [stmts, bodiesAll]
    exact ⟨Safe.pure (), by rintro _ _ _ _ _ - - _ ⟨_, _, _, _, hm, -⟩; cases hm⟩
  | s :: rest => by
    obtain ⟨hs, hp⟩ := stmt_safe setting false s
    obtain ⟨hrest, hprest⟩ := stmts_safe setting rest
    rw [stmts, bodiesAll, List.length_append]
    exact cons_safe hs.discard hp.discard hrest hprest

theorem stmt?_safe (setting : Setting) : (s : Option Stmt) →
    ∀ code ∈ stmt? setting s, SafeFor (bodies? s).length code
  | none => by
    rw [stmt?]
    nofun
  | some s => by
    rw [stmt?, bodies?]
    rintro _ ⟨⟩
    exact (stmt_safe setting false s).1.discard

end

theorem topLevel_safe (setting : Setting) : (body : List Stmt) →
    SafeFor (bodiesAll body).length (topLevel setting body) ∧ Pays body (topLevel setting body)
  | [] => by
    rw [topLevel, bodiesAll]
    exact ⟨Safe.pure false, by rintro _ _ _ _ _ - - _ ⟨_, _, _, _, hm, -⟩; cases hm⟩
  | [s] => by
    rw [topLevel, bodiesAll, bodiesAll, List.append_nil]
    exact stmt_safe setting true s
  | s :: t :: rest => by
    obtain ⟨hs, hp⟩ := stmt_safe setting false s
    obtain ⟨hrest, hprest⟩ := topLevel_safe setting (t :: rest)
    rw [topLevel, bodiesAll.eq_def (s :: t :: rest), List.length_append]
    · exact cons_safe hs.discard hp.discard hrest hprest
    · nofun

end StackScript.Assembly
