import StackScript.Proofs.StmtWriting

/-!
# The code that is written for blocks and functions

The functions of a statement list are declared before its statements are written.  A function is
written into a buffer of its own: what is written there has the shape of a function's code, and
what was there before stays as it is.  `stmt_writes` puts all kinds of statements together along the
tree.
-/

namespace StackScript.Assembly

open Typing Bytecode Host Syntax Assembly.Write

variable {K : Link} {functions : List (String × Nat)} {w w₁ w₂ w' : Writer}

/-! ### Declarations of functions -/

theorem mapM_eq_ok {α β : Type} {f : α → Write β} {l : List α} {l' : List β}
    (hf : ∀ a b w w', f a w = .ok (b, w') → w' = w) (h : l.mapM f w = .ok (l', w')) :
    l'.length = l.length ∧ w' = w := by
  induction l generalizing l' w with
  | nil =>
    obtain ⟨rfl, rfl⟩ := pure_eq_ok.1 h
    exact ⟨rfl, rfl⟩
  | cons a l ih =>
    simp only [List.mapM_cons, bind_eq_ok, pure_eq_ok] at h
    obtain ⟨b, w₁, hb, bs, w₂, hbs, rfl, rfl⟩ := h
    obtain rfl := hf _ _ _ _ hb
    obtain ⟨hlen, rfl⟩ := ih hbs
    exact ⟨by simp [hlen], rfl⟩

def Writer.entered (w : Writer) (c : ScopeChain) : Writer :=
  { w with labels := w.labels.reserve.2, scopes := c }

theorem declareFunction_eq_ok {name : String} {params : List Param} {returns : String}
    (h : declareFunction name params returns w = .ok ((), w')) :
    ∃ s e c, s.params.length = params.length ∧
      w.scopes.declareFunction name ⟨w.labels.next⟩ s = (.ok e, c) ∧ w' = w.entered c := by
  simp only [declareFunction, bind_eq_ok, resolveType_eq_ok, modifyGet_eq_ok, discard_eq_ok,
    inScopes_eq_ok] at h
  obtain ⟨types, w₁, htypes, t, _, ⟨-, rfl⟩, l, _, ⟨rfl, rfl⟩, e, c, hc, rfl⟩ := h
  obtain ⟨hlen, rfl⟩ := mapM_eq_ok (fun p t w w' h => (resolveType_eq_ok.1 h).2) htypes
  exact ⟨_, e, c, hlen, hc, rfl⟩

/-- A label that was just made promises what is declared with it. -/
theorem entered_leads {name : String} {s : Signature} {e : Entity} {c : ScopeChain} {n : Nat}
    (hw : Wf K.arity w) (h : w.scopes.declareFunction name ⟨w.labels.next⟩ s = (.ok e, c)) :
    Leads K.arity n w (w.entered c) := by
  have hsound := hw.sound.declareFunction h
  obtain ⟨hnew, he, rfl⟩ := ScopeChain.declareFunction_eq_ok h
  have hpromise : ∀ {l m}, w.Promise K.arity l m → (w.entered (w.scopes.add e)).Promise K.arity l m :=
    fun {l m} hp => by
      refine ⟨Nat.lt_succ_of_lt hp.old, hp.closed, hp.bound, fun f hf hl => ?_⟩
      rcases List.mem_cons.1 (show f ∈ e :: w.scopes.entities from hf) with rfl | hf
      · rw [he] at hl
        have := hp.old
        rw [← Location.entry.inj hl] at this
        exact absurd this (Nat.lt_irrefl _)
      · exact hp.declared f hf hl
  have hself : (w.entered (w.scopes.add e)).Promise K.arity ⟨w.labels.next⟩ s.params.length := by
    refine ⟨Nat.lt_succ_self _, fun b hb => absurd (hw.waiting _ _ hb) (Nat.lt_irrefl _),
      fun pt hpt => absurd (hw.bound _ _ hpt) (Nat.lt_irrefl _), fun f hf hl => ?_⟩
    rcases List.mem_cons.1 (show f ∈ e :: w.scopes.entities from hf) with rfl | hf
    · exact ⟨s, by rw [he], rfl⟩
    · obtain ⟨_, -, hp⟩ := hw.entries f hf _ hl
      exact absurd hp.old (Nat.lt_irrefl _)
  refine ⟨⟨hw.valid, fun l pt hl => Nat.lt_succ_of_lt (hw.bound l pt hl),
    fun l b hl => Nat.lt_succ_of_lt (hw.waiting l b hl), fun f hf l hl => ?_, hsound, hw.main,
    hw.room, hw.top, hw.jumps, hw.distinct⟩, ⟨rfl, Nat.le_refl _, Nat.le_refl _,
    fun _ _ d hd => ⟨d, hd, .same⟩, fun _ _ _ => rfl,
    fun l pt _ hl => ⟨Nat.lt_succ_of_lt hl.old, hl.place⟩, fun _ _ => hpromise⟩⟩
  rcases List.mem_cons.1 (show f ∈ e :: w.scopes.entities from hf) with rfl | hf
  · rw [he] at hl
    obtain rfl := Location.entry.inj hl
    exact ⟨s, by rw [he], hself⟩
  · obtain ⟨t, ht, hp⟩ := hw.entries f hf l hl
    exact ⟨t, ht, hpromise hp⟩

theorem entered_passage {name : String} {s : Signature} {e : Entity} {c : ScopeChain}
    (hw : Wf K.arity w) (h : w.scopes.declareFunction name ⟨w.labels.next⟩ s = (.ok e, c)) :
    Passage K.arity w (w.entered c) := by
  have hl := entered_leads (n := w.size) hw h
  obtain ⟨hnew, he, rfl⟩ := ScopeChain.declareFunction_eq_ok h
  refine ⟨hl, fun _ _ _ => rfl, ScopeChain.grows_add ?_, rfl, fun _ => List.Subset.refl _,
    fun _ h => .inl h⟩
  rw [he]
  exact hnew

/-- What the functions of a statement list are declared as. -/
structure HoistWritten (K : Link) (body : List Stmt) (w w' : Writer) : Prop
    extends Passage K.arity w w' where
  size : w'.size = w.size
  count : w'.buffers.size = w.buffers.size
  code : Hoists w.scopes body w'.scopes
  found : ∀ f ∈ listed body, ∃ e s, w'.scopes.inner.find? f.1 = some e ∧ e.signature = some s ∧
    s.params.length = f.2
  only : ∀ e ∈ w'.scopes.inner.entities, e ∈ w.scopes.inner.entities ∨
    ∃ f ∈ listed body, f.1 = e.name

theorem hoist_written {body : List Stmt} (hw : Wf K.arity w) (h : hoist body w = .ok ((), w')) :
    HoistWritten K body w w' := by
  induction body generalizing w with
  | nil =>
    obtain ⟨-, rfl⟩ := pure_eq_ok.1 h
    exact ⟨.refl hw, rfl, rfl, .nil, nofun, fun _ he => .inl he⟩
  | cons t rest ih =>
    by_cases ht : t.isFunction = true
    · obtain ⟨name, params, returns, body, rfl⟩ : ∃ name params returns body,
          t = .function name params returns body := by
        cases t <;> first | exact ⟨_, _, _, _, rfl⟩ | cases ht
      -- the function is declared, and found under its name in all that follows
      simp only [hoist, bind_eq_ok] at h
      obtain ⟨_, w₁, h₁, h⟩ := h
      obtain ⟨s, e, c, hlen, hc, rfl⟩ := declareFunction_eq_ok h₁
      have hp := entered_passage hw hc
      have hrest := ih hp.wf h
      obtain ⟨hnew, he, rfl⟩ := ScopeChain.declareFunction_eq_ok hc
      have hfound : Scope.find? (w.scopes.add e).inner name = some e := by
        rw [he]
        simp [ScopeChain.add, Scope.find?]
      refine ⟨hp.trans hrest.toPassage, hrest.size, hrest.count, .function hc hrest.code,
        fun f hf => ?_, fun f hf => ?_⟩
      · rcases List.mem_cons.1 (show f ∈ (name, params.length) :: listed rest from hf) with rfl | hf
        · exact ⟨e, s, hrest.scopes.found _ _ hfound, by rw [he], hlen⟩
        · exact hrest.found f hf
      · rcases hrest.only f hf with hf | ⟨g, hg, hn⟩
        · rcases List.mem_cons.1 (show f ∈ e :: w.scopes.inner.entities from hf) with rfl | hf
          · exact .inr ⟨(name, params.length), List.mem_cons_self, by rw [he]⟩
          · exact .inl hf
        · exact .inr ⟨g, List.mem_cons_of_mem _ hg, hn⟩
    · -- what is no function is passed over
      have hplain : ∀ name params returns body, t ≠ .function name params returns body := by
        rintro _ _ _ _ rfl
        exact ht rfl
      have hhoist : hoist (t :: rest) = hoist rest := by
        rw [hoist]
        exact hplain
      have hlisted : listed (t :: rest) = listed rest := by
        rw [listed, List.filter_cons_of_neg ht, listed]
      rw [hhoist] at h
      have hrest := ih hw h
      exact ⟨hrest.toPassage, hrest.size, hrest.count, .other hplain hrest.code,
        fun f hf => hrest.found f (hlisted ▸ hf), fun f hf => by
          rw [hlisted]
          exact hrest.only f hf⟩

/-- The functions of a block agree with each other. -/
theorem HoistWritten.consistent {body : List Stmt} (h : HoistWritten K body w w')
    (hs : SteadyBlock body) : Consistent (ownAll body) := by
  have hsplit : ∀ f ∈ ownAll body, f ∈ listed body ∨ f ∈ deeper body := fun f hf => by
    obtain ⟨t, ht, hf⟩ := List.mem_flatMap.1 hf
    cases hb : t.isFunction with
    | true => exact .inl (List.mem_flatMap.2 ⟨t, List.mem_filter.2 ⟨ht, hb⟩, hf⟩)
    | false => exact .inr (List.mem_flatMap.2 ⟨t, List.mem_filter.2 ⟨ht, by simp [hb]⟩, hf⟩)
  intro f hf g hg hn
  rcases hsplit f hf with hf' | hf'
  · rcases hsplit g hg with hg' | hg'
    · obtain ⟨e, s, he, hs, hlen⟩ := h.found f hf'
      obtain ⟨e', s', he', hs', hlen'⟩ := h.found g hg'
      obtain rfl := Option.some.inj (he.symm.trans (hn ▸ he'))
      obtain rfl := Option.some.inj (hs.symm.trans hs')
      exact hlen.symm.trans hlen'
    · exact (hs g hg' f hf hn.symm).symm
  · exact hs f hf' g hg hn

/-- In a block that declared no function before, all functions have the numbers of parameters that
stand in their declarations. -/
theorem HoistWritten.agreeing {body : List Stmt} (h : HoistWritten K body w w')
    (hs : SteadyBlock body) (hnone : ∀ e ∈ w.scopes.inner.entities, e.signature = none) :
    Agrees w'.scopes (ownAll body) := by
  intro f hf e he s hsig
  obtain ⟨hm, hname⟩ := Scope.mem_of_find? he
  rcases h.only e hm with hold | ⟨g, hg, hn⟩
  · rw [hnone e hold] at hsig
    cases hsig
  · obtain ⟨e', s', he', hs', hlen⟩ := h.found g hg
    rw [hn, hname] at he'
    obtain rfl := Option.some.inj (he.symm.trans he')
    obtain rfl := Option.some.inj (hsig.symm.trans hs')
    have hg' : g ∈ ownAll body := by
      obtain ⟨t, ht, hg⟩ := List.mem_flatMap.1 hg
      exact List.mem_flatMap.2 ⟨t, (List.mem_filter.1 ht).1, hg⟩
    exact hlen.trans (h.consistent hs g hg' f hf (hn.trans hname))

/-! ### Statement lists -/

/-- What is written for the statements of a list. -/
structure StmtsWritten (K : Link) (functions : List (String × Nat)) (body : List Stmt)
    (w w' : Writer) : Prop extends Passage K.arity w w' where
  count : w'.buffers.size = w.buffers.size + (bodiesAll body).length
  names : w'.scopes.context = afterAll body w.scopes.context
  agrees : Agrees w'.scopes functions
  functions : Kept K w'.size w' → Covers K w.buffers.size (functionsAll w.scopes.context body)
  code : ∀ exits, Kept K w'.size w' → Exits K w' exits → StmtsCode K.layout (K.room w.buffer) exits
    w.scopes body w'.scopes (K.base w.buffer + w.size) (K.base w.buffer + w'.size)

/-- What the statements of a list rely on when they are written. -/
structure ReadyAll (K : Link) (functions : List (String × Nat)) (body : List Stmt) (w : Writer) :
    Prop where
  numbered : Numbered K.arity w.buffers.size (bodiesAll body)
  consistent : Consistent functions
  agrees : Agrees w.scopes functions
  own : ownAll body ⊆ functions
  steady : SteadyAll body

/-- The code that `code` writes is that of statements. -/
def WritesStmts (K : Link) (code : Write Unit) (body : List Stmt) : Prop :=
  ∀ ⦃w w' functions⦄, Wf K.arity w → code w = .ok ((), w') → ReadyAll K functions body w →
    StmtsWritten K functions body w w'

theorem ReadyAll.head {s : Stmt} {rest : List Stmt} (h : ReadyAll K functions (s :: rest) w) :
    Ready K functions s w := by
  obtain ⟨hn, hc, ha, ho, hs⟩ := h
  rw [bodiesAll] at hn
  rw [SteadyAll] at hs
  exact ⟨hn.append.1, hc, ha, List.append_subset.1 ho |>.1, hs.1⟩

theorem ReadyAll.tail {s : Stmt} {rest : List Stmt} (h : ReadyAll K functions (s :: rest) w)
    (hw : StmtWritten K functions s w w₁) : ReadyAll K functions rest w₁ := by
  obtain ⟨hn, hc, -, ho, hs⟩ := h
  rw [bodiesAll] at hn
  rw [SteadyAll] at hs
  exact ⟨Numbered.second hn hw.count, hc, hw.agrees, List.append_subset.1 ho |>.2, hs.2⟩

theorem nil_writes : WritesStmts K (pure ()) [] := by
  intro w w' functions hw h hr
  obtain ⟨-, rfl⟩ := pure_eq_ok.1 h
  exact ⟨.refl hw, rfl, rfl, hr.agrees, fun _ => .nil, fun _ _ _ => .nil⟩

theorem cons_writes {first rest : Write Unit} {s : Stmt} {body : List Stmt}
    (hf : WritesStmt K first s) (hr : WritesStmts K rest body) :
    WritesStmts K (do first; rest) (s :: body) := by
  intro w w' functions hw h hready
  simp only [bind_eq_ok] at h
  obtain ⟨_, w₁, h₁, h₂⟩ := h
  have hone := hf hw h₁ hready.head
  have hmore := hr hone.wf h₂ (hready.tail hone)
  have hfront : Kept K w'.size w' → Kept K w₁.size w₁ := fun hk =>
    hk.whole hmore.frame hmore.frame.size
  refine ⟨hone.toPassage.trans hmore.toPassage, ?_, ?_, hmore.agrees, fun hk => ?_,
    fun exits hk hexits => ?_⟩
  · rw [hmore.count, hone.count, bodiesAll, List.length_append, Nat.add_assoc]
  · rw [hmore.names, hone.names]
    rfl
  · have hsecond := hmore.functions hk
    rw [hone.names] at hsecond
    exact (hone.functions (hfront hk)).append hsecond (by rw [hone.count, Stmt.functions_length])
  · have hcode := hmore.code exits hk hexits
    rw [hone.buffer] at hcode
    exact .cons (hone.code exits (hfront hk) (hexits.back hmore.toPassage)) hcode

theorem block_writes {body : List Stmt} {code : Write Unit} (hc : WritesStmts K code body) :
    WritesStmt K (do beginScope; hoist body; code; endScope) (.block body) := by
  intro w w' functions hw h hr
  simp only [bind_eq_ok, beginScope, endScope, modify_eq_ok] at h
  obtain ⟨_, _, rfl, _, w₁, h₁, _, w₂, h₂, rfl⟩ := h
  have hsteady := hr.steady
  have hnumbered := hr.numbered
  rw [Stmt.Steady] at hsteady
  rw [Stmt.bodies] at hnumbered
  have hbegin := beginScope_leads (n := w.size) hw
  have hhoist := hoist_written hbegin.wf h₁
  have hcount₁ : w₁.buffers.size = w.buffers.size := hhoist.count
  have hagrees := hhoist.agreeing hsteady.1 fun _ he => absurd he List.not_mem_nil
  have hbody := hc hhoist.wf h₂ ⟨by rwa [hcount₁], hhoist.consistent hsteady.1, hagrees,
    List.Subset.refl _, hsteady.2⟩
  obtain ⟨hp, hend⟩ := (hhoist.toPassage.trans hbody.toPassage).block hw
  have hgrows : ScopeChain.Grows w.scopes.beginScope w₂.scopes :=
    (hhoist.toPassage.trans hbody.toPassage).scopes
  have hnames : w₁.scopes.context = w.scopes.context.openBlock.hoist body := hhoist.code.names
  refine ⟨hp, ?_, ?_, hr.agrees.endScope hgrows, fun hk => ?_, fun exits hk hexits => ?_⟩
  · show w₂.buffers.size = _
    rw [hbody.count, hcount₁, Stmt.bodies]
  · show w₂.scopes.endScope.context = _
    rw [ScopeChain.context_endScope, hbody.names, hnames]
    rfl
  · have hfunctions := hbody.functions (hk.whole hend.frame (Nat.le_refl _))
    rwa [hcount₁, hnames] at hfunctions
  · have hcode := hbody.code exits (hk.whole hend.frame (Nat.le_refl _)) hexits
    have hbuffer₁ : w₁.buffer = w.buffer := hhoist.buffer
    have hsize₁ : w₁.size = w.size := hhoist.size
    rw [hbuffer₁, hsize₁] at hcode
    exact .block hhoist.code hcode

/-! ### Functions -/

/-- The label of a function stands for no instruction but a first one. -/
theorem Writer.Points.not_promise {l : Label} {pt : CodePoint} {n : Nat} (h : w.Points l pt)
    (hp : 0 < pt.position) : ¬ w.Promise K.arity l n := fun hl => by
  rcases h.place with ⟨hb, -⟩ | ⟨-, hm, -⟩
  · have := (hl.bound pt hb).1
    omega
  · exact hl.closed _ hm

/-- The label and the signature of a function that is about to be written. -/
structure FunctionFound (K : Link) (functions : List (String × Nat)) (name : String) (n : Nat)
    (l : Label) (s : Signature) (w w' : Writer) : Prop extends Passage K.arity w w' where
  size : w'.size = w.size
  count : w'.buffers.size = w.buffers.size
  agrees : Agrees w'.scopes functions
  declared : w'.scopes = w.scopes ∧ w.scopes.inner.declares name = true ∨
    ∃ l s e, w.scopes.declareFunction name l s = (.ok e, w'.scopes)
  entry : ∃ e ∈ w'.scopes.entities, e.location = .entry l ∧ e.signature = some s
  arity : s.params.length = n

theorem FunctionFound.names {name : String} {n : Nat} {l : Label} {s : Signature}
    (h : FunctionFound K functions name n l s w w') :
    w'.scopes.context = w.scopes.context.declareFunction name := by
  unfold Context.declareFunction
  rw [ScopeChain.isSome_lookup_inner]
  rcases h.declared with ⟨hsame, hdeclared⟩ | ⟨l, s, e, hd⟩
  · rw [if_pos hdeclared, hsame]
  · rw [if_neg (by rw [(ScopeChain.declareFunction_eq_ok hd).1]; exact Bool.false_ne_true),
      ScopeChain.context_declareFunction hd]

theorem findCurrent_eq_ok {name : String} {o : Option Entity} :
    findCurrent name w = .ok (o, w') ↔ o = w.scopes.findCurrent? name ∧ w' = w := by
  simp only [findCurrent, bind_eq_ok, get_eq_ok, pure_eq_ok]
  grind

/-- The innermost block has a function under this name once it is written. -/
theorem entryOf_eq_ok {name : String} {found : Option Entity} {l : Label} {s : Signature}
    (h : entryOf name found w = .ok ((l, s), w')) :
    w' = w ∧ ∃ e, found = some e ∧ e.location = .entry l ∧ e.signature = some s := by
  cases found with
  | none => exact (throw_eq_ok.1 h).elim
  | some e =>
    obtain ⟨n, t, k, loc, f, c, sig⟩ := e
    cases loc <;> cases sig <;> simp only [entryOf, throw_eq_ok, pure_eq_ok] at h
    obtain ⟨hls, rfl⟩ := h
    obtain ⟨rfl, rfl⟩ := Prod.mk.inj hls
    exact ⟨rfl, _, rfl, rfl, rfl⟩

theorem declaredFunction_eq_ok {name : String} {params : List Param} {returns : String}
    {l : Label} {s : Signature} (h : declaredFunction name params returns w = .ok ((l, s), w')) :
    (w' = w ∨ w.scopes.findCurrent? name = none ∧
      declareFunction name params returns w = .ok ((), w')) ∧
      ∃ e, w'.scopes.findCurrent? name = some e ∧ e.location = .entry l ∧ e.signature = some s := by
  simp only [declaredFunction, bind_eq_ok, findCurrent_eq_ok] at h
  obtain ⟨_, w, ⟨rfl, rfl⟩, h⟩ := h
  split at h
  · next hnone =>
    simp only [bind_eq_ok, findCurrent_eq_ok] at h
    obtain ⟨_, w₁, h₁, _, w₁, ⟨rfl, rfl⟩, h⟩ := h
    obtain ⟨rfl, he⟩ := entryOf_eq_ok h
    exact ⟨.inr ⟨by simpa using hnone, h₁⟩, he⟩
  · simp only [bind_eq_ok, findCurrent_eq_ok] at h
    obtain ⟨_, w, ⟨rfl, rfl⟩, h⟩ := h
    obtain ⟨rfl, he⟩ := entryOf_eq_ok h
    exact ⟨.inl rfl, he⟩

theorem declaredFunction_written {name : String} {params : List Param} {returns : String}
    {l : Label} {s : Signature} (hw : Wf K.arity w) (hc : Consistent functions)
    (ha : Agrees w.scopes functions) (hf : (name, params.length) ∈ functions)
    (h : declaredFunction name params returns w = .ok ((l, s), w')) :
    FunctionFound K functions name params.length l s w w' := by
  obtain ⟨h, e, he, hl, hs⟩ := declaredFunction_eq_ok h
  have hmem : e ∈ w'.scopes.entities := List.mem_append_left _ (Scope.mem_of_find? he).1
  rcases h with rfl | ⟨hnone, h⟩
  · -- the name has been hoisted: nothing changes
    have hdeclared : w'.scopes.inner.declares name = true := Option.isSome_of_mem he
    exact ⟨.refl hw, rfl, rfl, ha, .inl ⟨rfl, hdeclared⟩, ⟨e, hmem, hl, hs⟩, ha _ hf _ he _ hs⟩
  · -- the name is new, and only what is found under it changes
    obtain ⟨s', e', c, hlen, hd, rfl⟩ := declareFunction_eq_ok h
    have hp := entered_passage hw hd
    obtain ⟨-, he', hc'⟩ := ScopeChain.declareFunction_eq_ok hd
    have hname : ∀ other, c.inner.find? other = if other = name then some e' else
        w.scopes.inner.find? other := fun other => by
      rw [hc', he']
      by_cases hn : other = name
      · simp [ScopeChain.add, Scope.find?, hn]
      · simp [ScopeChain.add, Scope.find?, hn, Ne.symm hn]
    have hagrees : Agrees c functions := by
      intro f hf' g hg s hs
      rw [hname] at hg
      split at hg
      · next hn =>
        obtain rfl := Option.some.inj hg
        rw [he'] at hs
        obtain rfl := Option.some.inj hs
        exact hlen.trans (hc _ hf _ hf' hn.symm)
      · exact ha f hf' g hg s hs
    exact ⟨hp, rfl, rfl, hagrees, .inr ⟨_, _, _, hd⟩, ⟨e, hmem, hl, hs⟩, hagrees _ hf _ he _ hs⟩

/-- The writer at the start of a function, behind the room for its variables. -/
def Writer.inside (w : Writer) (l : Label) (returns : Ty) : Writer :=
  ({ w with
    buffers := w.buffers.push #[]
    buffer := w.buffers.size
    breaks := []
    returns
    labels := w.labels.openReserved l w.buffers.size
    scopes := w.scopes.beginFunction } : Writer).add ⟨.allocStack, .int (0 : Nat)⟩

section Inside

variable {l : Label} {returns : Ty}

theorem Writer.inside_count : (w.inside l returns).buffers.size = w.buffers.size + 1 := by
  simp [Writer.inside]

theorem Writer.inside_getD {b : Nat} (hb : b < w.buffers.size) :
    (w.inside l returns).buffers.getD b #[] = w.buffers.getD b #[] := by
  show ((w.buffers.push #[]).modify w.buffers.size _).getD b #[] = _
  rw [Writer.getD_modify _ _ _ _ (by simp), if_neg (by omega)]
  simp only [Array.getD_eq_getD_getElem?, Array.getElem?_push, if_neg (Nat.ne_of_lt hb)]

theorem Writer.inside_at {b i : Nat} (hb : b < w.buffers.size) :
    (w.inside l returns).at b i = w.at b i := by
  rw [Writer.at, Writer.inside_getD hb, Writer.at]

theorem Writer.inside_start :
    (w.inside l returns).buffers.getD w.buffers.size #[] = #[⟨.allocStack, .int (0 : Nat)⟩] := by
  show ((w.buffers.push #[]).modify w.buffers.size _).getD w.buffers.size #[] = _
  rw [Writer.getD_modify _ _ _ _ (by simp), if_pos rfl]
  simp

theorem Writer.inside_waiting {m : Label} {b : Nat} :
    (m, b) ∈ (w.inside l returns).labels.waiting ↔ (m, b) ∈ w.labels.waiting ∧ b ≠ w.buffers.size := by
  refine (LabelTable.close_waiting _ _ _).trans ?_
  rw [LabelTable.openReserved_waiting]
  constructor
  · rintro ⟨h | h, hb⟩
    · exact ⟨h, hb⟩
    · exact absurd (Prod.mk.inj h).2 hb
  · exact fun ⟨h, hb⟩ => ⟨.inl h, hb⟩

/-- The first instruction of the function gets its label. -/
theorem Writer.inside_get {m : Label} (hm : (m, w.buffers.size) ∉ w.labels.waiting) :
    (w.inside l returns).labels.get? m =
      if m = l then some ⟨w.buffers.size, 0⟩ else w.labels.get? m := by
  refine (LabelTable.close_get _ _ _).trans ?_
  have hwait := w.labels.openReserved_waiting l w.buffers.size (m, w.buffers.size)
  by_cases h : m = l
  · subst h
    rw [if_pos (hwait.2 (.inr rfl)), if_pos rfl]
    show some (⟨w.buffers.size, ((w.buffers.push #[]).getD w.buffers.size #[]).size⟩ : CodePoint) = _
    simp
  · rw [if_neg h, if_neg]
    · rfl
    · exact fun hc => (hwait.1 hc).elim hm fun hc => h (Prod.mk.inj hc).1

/-- A promise is kept when the function's body begins. -/
theorem Writer.Promise.inside {e : Entity} {s : Signature} (hw : Wf K.arity w)
    (hm : e ∈ w.scopes.entities) (hl : e.location = .entry l) (hs : e.signature = some s)
    (hn : K.arity w.buffers.size = s.params.length) {m : Label} {k : Nat}
    (hp : w.Promise K.arity m k) : (w.inside l returns).Promise K.arity m k := by
  have he : (w.inside l returns).scopes.entities = w.scopes.entities := by
    simp [Writer.inside, ScopeChain.beginFunction, ScopeChain.entities, ScopeChain.scopes]
  refine ⟨hp.old, fun b hb => hp.closed b (Writer.inside_waiting.1 hb).1, fun pt hpt => ?_,
    fun f hf => hp.declared f (he ▸ hf)⟩
  rw [Writer.inside_get (hp.closed _)] at hpt
  rw [Writer.inside_count]
  split at hpt
  · next hml =>
    subst hml
    obtain rfl := Option.some.inj hpt
    obtain ⟨s₂, hs₂, hk⟩ := hp.declared e hm hl
    obtain rfl := Option.some.inj (hs.symm.trans hs₂)
    exact ⟨rfl, Nat.ne_of_gt (Nat.lt_of_le_of_lt (Nat.zero_le _) hw.valid), Nat.lt_succ_self _,
      hn.trans hk⟩
  · obtain ⟨h0, h1, h2, h3⟩ := hp.bound pt hpt
    exact ⟨h0, h1, Nat.lt_succ_of_lt h2, h3⟩

/-- What another label stands for does not change when a function's body begins. -/
theorem Writer.Points.inside_of_ne {m : Label} {pt : CodePoint} (hml : m ≠ l)
    (hlt : (m, pt.buffer) ∈ w.labels.waiting → pt.buffer < w.buffers.size) (h : w.Points m pt) :
    (w.inside l returns).Points m pt := by
  refine ⟨h.old, ?_⟩
  rcases h.place with ⟨hb, hnot⟩ | ⟨hb, hwait, honly, hpos⟩
  · left
    refine ⟨?_, fun b hb => hnot b (Writer.inside_waiting.1 hb).1⟩
    rw [Writer.inside_get (hnot _), if_neg hml, hb]
  · right
    have hlt := hlt hwait
    have hnew : (m, w.buffers.size) ∉ w.labels.waiting := fun hm =>
      absurd (honly _ hm) (Nat.ne_of_gt hlt)
    refine ⟨?_, Writer.inside_waiting.2 ⟨hwait, Nat.ne_of_lt hlt⟩,
      fun b hb => honly b (Writer.inside_waiting.1 hb).1, ?_⟩
    · rw [Writer.inside_get hnew, if_neg hml, hb]
    · rw [hpos, Writer.sizeOf, Writer.sizeOf, Writer.inside_getD hlt]

/-- So is what a label of the code around stands for. -/
theorem Writer.Points.inside {n : Nat} (hentry : w.Promise K.arity l n) {m : Label} {pt : CodePoint}
    (hp : 0 < pt.position) (h : w.Points m pt) : (w.inside l returns).Points m pt := by
  refine h.inside_of_ne ?_ fun hwait => ?_
  · rintro rfl
    exact h.not_promise hp hentry
  · rcases h.place with ⟨-, hnot⟩ | ⟨-, -, -, hpos⟩
    · exact absurd hwait (hnot _)
    · exact Writer.buffer_lt_of_size (hpos ▸ hp)

theorem Wf.inside {e : Entity} {s : Signature} (hw : Wf K.arity w)
    (hm : e ∈ w.scopes.entities) (hl : e.location = .entry l) (hs : e.signature = some s)
    (hn : K.arity w.buffers.size = s.params.length) : Wf K.arity (w.inside l returns) := by
  obtain ⟨s', hs', hentry⟩ := hw.entries e hm l hl
  have hbuffer : (w.inside l returns).buffer = w.buffers.size := rfl
  have he : (w.inside l returns).scopes.entities = w.scopes.entities := by
    simp [Writer.inside, ScopeChain.beginFunction, ScopeChain.entities, ScopeChain.scopes]
  refine ⟨?_, fun m pt hpt => ?_, fun m b hb => ?_, fun f hf m hfm => ?_, ?_, fun h => ?_, ?_, ?_,
    fun _ h => absurd h List.not_mem_nil, List.nodup_nil⟩
  · rw [hbuffer, Writer.inside_count]
    exact Nat.lt_succ_self _
  · -- the entry is the only label that gets bound, and its new point is the start of the buffer
    by_cases hnew : (m, w.buffers.size) ∈ w.labels.waiting
    · exact hw.waiting m _ hnew
    rw [Writer.inside_get hnew] at hpt
    split at hpt
    · next hml => exact hml ▸ hentry.old
    · exact hw.bound m pt hpt
  · exact hw.waiting m b (Writer.inside_waiting.1 hb).1
  · obtain ⟨t, ht, hp⟩ := hw.entries f (he ▸ hf) m hfm
    exact ⟨t, ht, hp.inside hw hm hl hs hn⟩
  · rw [hbuffer]
    exact hw.sound.beginFunction _
  · exact absurd h (Nat.succ_ne_zero _)
  · refine ⟨0, ?_, Nat.le_refl _⟩
    rw [hbuffer, Writer.at, Writer.inside_start]
    rfl
  · obtain ⟨k, hk, hle⟩ := hw.top
    refine ⟨k, ?_, ?_⟩
    · rw [Writer.inside_at (Nat.lt_of_le_of_lt (Nat.zero_le _) hw.valid), hk]
    · show w.scopes.beginFunction.topFrame.size ≤ k
      rwa [ScopeChain.topFrame_beginFunction]

/-- The writer behind a function that was begun in `outside`. -/
def Writer.leave (w outside : Writer) : Writer :=
  { w with
    scopes := w.scopes.endFunction.2
    buffer := outside.buffer
    breaks := outside.breaks
    returns := outside.returns }

theorem Passage.leave_getD (h : Passage K.arity (w.inside l returns) w₁) {b : Nat}
    (hb : b < w.buffers.size) : (w₁.leave w).buffers.getD b #[] = w.buffers.getD b #[] := by
  rw [← @Writer.inside_getD w l returns b hb]
  refine h.frame.others b ?_ (Nat.ne_of_lt hb)
  rw [Writer.inside_count]
  exact Nat.lt_succ_of_lt hb

theorem Passage.leave_size (h : Passage K.arity (w.inside l returns) w₁)
    (hw : w.buffer < w.buffers.size) : (w₁.leave w).size = w.size := by
  show ((w₁.leave w).buffers.getD w.buffer #[]).size = _
  rw [h.leave_getD hw]
  rfl

theorem Passage.leave_scopes (h : Passage K.arity (w.inside l returns) w₁) (hw : Wf K.arity w) :
    (w₁.leave w).scopes = w.scopes :=
  ScopeChain.endFunction_of_grows (Nat.le_of_eq hw.sound.level) h.scopes

/-- A function leaves everything around it as it was. -/
theorem Passage.leave {e : Entity} {s : Signature} (hw : Wf K.arity w)
    (hm : e ∈ w.scopes.entities) (hl : e.location = .entry l) (hs : e.signature = some s)
    (hn : K.arity w.buffers.size = s.params.length) (h : Passage K.arity (w.inside l returns) w₁) :
    Passage K.arity w (w₁.leave w) := by
  obtain ⟨_, -, hentry⟩ := hw.entries e hm l hl
  have hscopes := h.leave_scopes hw
  have hcount : w.buffers.size < w₁.buffers.size := by
    have := h.frame.buffers
    rw [Writer.inside_count] at this
    omega
  -- the buffers that were there before the body are as the body has found them
  have hat : ∀ b < w.buffers.size, ∀ i, (w₁.leave w).at b i = w.at b i := fun b hb i => by
    rw [Writer.at, h.leave_getD hb, Writer.at]
  have hpromise : ∀ m k, w.Promise K.arity m k → (w₁.leave w).Promise K.arity m k := fun m k hp =>
    (h.frame.promise m k (hp.inside hw hm hl hs hn)).congr rfl (Nat.le_refl _) fun f hf _ => by
      refine h.scopes.mem_entities ?_
      rw [hscopes] at hf
      simpa [Writer.inside, ScopeChain.beginFunction, ScopeChain.entities, ScopeChain.scopes] using hf
  have hmain : 0 < w.buffers.size := Nat.lt_of_le_of_lt (Nat.zero_le _) hw.valid
  refine ⟨⟨⟨Nat.lt_trans hw.valid hcount, h.wf.bound, h.wf.waiting, fun f hf m hfm => ?_, ?_, ?_, ?_,
    ?_, fun pt hpt => ?_, hw.distinct⟩, ⟨rfl, Nat.le_of_lt hcount, ?_, fun i _ d hd => ?_,
    fun b hb _ => h.leave_getD hb, fun m pt hp hpt => ?_, hpromise⟩⟩, fun i _ _ => hat _ hw.valid i, ?_, rfl,
    fun _ => List.Subset.refl _, fun _ hpt => .inl hpt⟩
  · obtain ⟨t, ht, hp⟩ := hw.entries f (hscopes ▸ hf) m hfm
    exact ⟨t, ht, hpromise m _ hp⟩
  · rw [hscopes]
    exact hw.sound
  · rw [hscopes]
    exact hw.main
  · obtain ⟨k, hk, hle⟩ := hw.room
    exact ⟨k, (hat _ hw.valid 0).trans hk, by rwa [hscopes]⟩
  · obtain ⟨k, hk, hle⟩ := hw.top
    exact ⟨k, (hat _ hmain 0).trans hk, by rwa [hscopes]⟩
  · obtain ⟨hb, hj⟩ := hw.jumps pt hpt
    exact ⟨hb, (hat _ hw.valid _).trans hj⟩
  · exact Nat.le_of_eq (h.leave_size hw.valid).symm
  · exact ⟨d, (hat _ hw.valid i).trans hd, .same⟩
  · exact (h.frame.points m pt hp (hpt.inside hentry hp)).congr rfl rfl
  · rw [hscopes]
    exact .refl _

/-- What is kept behind a function was kept at its end. -/
theorem Kept.leave {n : Nat} (hw : Wf K.arity w) (h : Passage K.arity (w.inside l returns) w₁)
    (hk : Kept K n (w₁.leave w)) (hn : (w₁.leave w).size ≤ n) : Kept K w₁.size w₁ := by
  have hscopes := h.leave_scopes hw
  have hbuffer : w₁.buffer = w.buffers.size := h.buffer
  have hlt : w₁.buffer < (w₁.leave w).buffers.size := h.wf.valid
  have hne : w₁.buffer ≠ (w₁.leave w).buffer := by
    rw [hbuffer]
    exact Nat.ne_of_gt hw.valid
  refine ⟨fun i _ d hd => hk.others _ hlt hne i d hd,
    fun d l hd _ => absurd (Writer.at_lt hd) (Nat.lt_irrefl _), fun b hb _ i d hd => ?_,
    fun b hlt hb => hk.closed b (Nat.lt_trans (hbuffer ▸ hw.valid) hlt) hb,
    fun m pt hp hpt => hk.points m pt hp (hpt.congr rfl rfl), fun m k hp => hk.promise m k ?_⟩
  · by_cases hb' : b = (w₁.leave w).buffer
    · subst hb'
      exact hk.code i (Nat.lt_of_lt_of_le (Writer.at_lt hd) hn) d hd
    · exact hk.others b hb hb' i d hd
  · refine hp.congr rfl (Nat.le_refl _) fun f hf _ => h.scopes.mem_entities ?_
    rw [hscopes] at hf
    simpa [Writer.inside, ScopeChain.beginFunction, ScopeChain.entities, ScopeChain.scopes] using hf

/-- The buffer of a function that was left does not grow any more. -/
theorem Kept.leave_size {n : Nat} (hw : Wf K.arity w) (h : Passage K.arity (w.inside l returns) w₁)
    (hk : Kept K n (w₁.leave w)) : K.size w₁.buffer = w₁.size := by
  have hbuffer : w₁.buffer = w.buffers.size := h.buffer
  exact hk.closed _ (show w.buffer < w₁.buffer from hbuffer ▸ hw.valid) h.wf.valid

end Inside

/-- Parameters are declared below the function's frame. -/
theorem declareParams_written {count index : Nat} {params : List Param} {types : List Ty}
    (hw : Wf K.arity w) (hd : w.scopes.functionDepth ≠ 0) (hn : K.arity w.buffer = count)
    (hi : index + params.length ≤ count) (ht : types.length = params.length)
    (h : declareParams count index params types w = .ok ((), w')) :
    Passage K.arity w w' ∧ w'.buffers.size = w.buffers.size ∧ w'.size = w.size ∧
      w'.scopes.context = Context.addParams count index params w.scopes.context ∧
      ((∀ e ∈ w.scopes.inner.entities, e.signature = none) →
        ∀ e ∈ w'.scopes.inner.entities, e.signature = none) := by
  induction params generalizing index types w with
  | nil =>
    rw [declareParams] at h
    · obtain ⟨-, rfl⟩ := pure_eq_ok.1 h
      exact ⟨.refl hw, rfl, rfl, rfl, id⟩
    · nofun
  | cons p params ih =>
    cases types with
    | nil => cases ht
    | cons t types =>
      simp only [declareParams, bind_eq_ok, discard_eq_ok, inScopes_eq_ok] at h
      obtain ⟨_, w₁, ⟨e, c, hc, rfl⟩, h⟩ := h
      rw [List.length_cons] at hi
      -- the parameters that are still to come have the lower offsets
      have hsound : c.Sound (K.arity w.buffer) := by
        have hs := hw.sound
        rw [hn] at hs ⊢
        exact hs.declareParam hd (i := index) (by omega) hc
      have hnames := ScopeChain.context_declareParam hc
      obtain ⟨hnew, he, rfl⟩ := ScopeChain.declareParam_eq_ok hc
      have hl : Leads K.arity w.size w { w with scopes := w.scopes.add e } := by
        refine hw.scoped hsound rfl (Nat.le_refl _) (Nat.le_refl _) fun f hf l hl => ?_
        rcases List.mem_cons.1 (show f ∈ e :: w.scopes.entities from hf) with rfl | hf
        · rw [he] at hl
          cases hl
        · exact hf
      have hp : Passage K.arity w { w with scopes := w.scopes.add e } := by
        refine ⟨hl, fun _ _ _ => rfl, ScopeChain.grows_add ?_, rfl, fun _ => List.Subset.refl _,
          fun _ h => .inl h⟩
        rw [he]
        exact hnew
      obtain ⟨hrest, hcount, hsize, hcontext, hnone⟩ :=
        ih hp.wf hd hn (by omega) (Nat.succ.inj ht) h
      refine ⟨hp.trans hrest, hcount, hsize, ?_, fun hold => hnone fun f hf => ?_⟩
      · rw [hcontext, Context.addParams, ← hnames]
      rcases List.mem_cons.1 (show f ∈ e :: w.scopes.inner.entities from hf) with rfl | hf
      · rw [he]
      · exact hold f hf

theorem function_writes {name : String} {params : List Param} {returns : String} {body : List Stmt}
    {code : Write Unit} (hc : WritesStmts K code body) :
    WritesStmt K (function name params returns (do hoist body; code))
      (.function name params returns body) := by
  intro w w' functions hw h hr
  simp only [Write.function, bind_eq_ok, get_eq_ok, modify_eq_ok, put_eq_ok, setType_eq_ok] at h
  obtain ⟨⟨l, s⟩, w₁, h₁, _, w₁, ⟨rfl, rfl⟩, _, _, rfl, _, w₂, rfl, _, w₃, h₃, _, w₅, ⟨_, w₄, h₄, h₅⟩, _,
    w₆, rfl, _, w₇, rfl, rfl⟩ := h
  have hsteady := hr.steady
  have hnumbered := hr.numbered
  have hown := hr.own
  rw [Stmt.Steady] at hsteady
  rw [Stmt.bodies] at hnumbered
  rw [Stmt.own] at hown
  have hfound := declaredFunction_written hw hr.consistent hr.agrees (hown List.mem_cons_self) h₁
  obtain ⟨e, hm, hl, hs⟩ := hfound.entry
  have hlen := hfound.arity
  have hn : K.arity w₁.buffers.size = params.length := hfound.count ▸ hnumbered.cons.1
  -- the body starts in a buffer of its own, behind the entry
  have hinside : Wf K.arity (w₁.inside l s.returns) := hfound.wf.inside hm hl hs (hn.trans hlen.symm)
  obtain ⟨hparams, hcount₃, hsize₃, hcontext, hnone⟩ := declareParams_written hinside
    (Nat.succ_ne_zero _) (show K.arity w₁.buffers.size = params.length from hn)
    (Nat.le_of_eq (Nat.zero_add _)) hlen h₃
  have hhoist := hoist_written hparams.wf h₄
  have hcount₄ : w₄.buffers.size = w.buffers.size + 1 := by
    rw [hhoist.count, hcount₃, ← hfound.count]
    exact Writer.inside_count
  have hagrees := hhoist.agreeing hsteady.1 (hnone fun _ he => absurd he List.not_mem_nil)
  have hbody := hc hhoist.wf h₅ ⟨hcount₄ ▸ hnumbered.cons.2, hhoist.consistent hsteady.1, hagrees,
    List.Subset.refl _, hsteady.2⟩
  -- behind the body there is a return, and the writer goes back to where it was
  have hret := (Stretch.refl hbody.wf).add ⟨.ret, .none⟩
  have hin := hparams.trans (hhoist.toPassage.trans (hbody.toPassage.trans hret.passage))
  have hout := hin.leave hfound.wf hm hl hs (hn.trans hlen.symm)
  have hlast := (Writer.typed_alike ((w₅.add ⟨.ret, .none⟩).leave w₁) .void false).leads
    (n := ((w₅.add ⟨.ret, .none⟩).leave w₁).size) hout.wf
  have hbuffer₅ : w₅.buffer = w.buffers.size := by
    rw [hbody.buffer, hhoist.buffer, hparams.buffer, ← hfound.count]
    rfl
  have hcount₅ : w₅.buffers.size = w.buffers.size + ((params.length, body) :: bodiesAll body).length := by
    rw [hbody.count, hcount₄, List.length_cons]
    omega
  -- the names that the body sees
  let inside := (w.scopes.context.declareFunction name).openFunction params
  have hnames₃ : w₃.scopes.context = inside := by
    rw [hcontext]
    show Context.addParams _ _ _ w₁.scopes.beginFunction.context = _
    rw [ScopeChain.context_beginFunction, hfound.names]
    rfl
  have hnames₄ : w₄.scopes.context = inside.hoist body := by rw [hhoist.code.names, hnames₃]
  refine ⟨hfound.toPassage.trans (hout.trans ((Stretch.refl hout.wf).typed _ _).passage), ?_, ?_, ?_,
    fun hk => ?_, fun exits hk hexits => ?_⟩
  · rw [Stmt.bodies, ← hcount₅]
    exact Writer.add_buffers_size _ _
  · show ((w₅.add ⟨.ret, .none⟩).leave w₁).scopes.context = _
    rw [hin.leave_scopes hfound.wf, hfound.names]
    rfl
  · show Agrees ((w₅.add ⟨.ret, .none⟩).leave w₁).scopes functions
    rw [hin.leave_scopes hfound.wf]
    exact hfound.agrees
  · -- the code of the body, once the whole program is linked
    have hk₆ := (hk.whole hlast.frame (Nat.le_refl _)).leave hfound.wf hin (Nat.le_refl _)
    have hk₅ := hk₆.whole hret.frame hret.frame.size
    have hrest := hbody.functions hk₅
    rw [hcount₄, hnames₄] at hrest
    refine .cons (f := ⟨inside, params, body⟩) ?_ hrest
    have hk₄ := hk₅.whole hbody.frame hbody.frame.size
    have hk₂ := (hk₄.whole hhoist.frame hhoist.frame.size).whole hparams.frame hparams.frame.size
    rw [← hfound.count] at hbuffer₅ ⊢
    have hstart : (w₁.inside l s.returns).at w₁.buffers.size 0 =
        some ⟨.allocStack, .int (0 : Nat)⟩ := by
      rw [Writer.at, Writer.inside_start]
      rfl
    obtain ⟨d, hd⟩ := hk₂.code 0 hinside.size_pos _ hstart
    obtain ⟨-, rfl⟩ := Kept.settled_room hd
    have hsize₄ : w₄.size = 1 := by
      rw [hhoist.size, hsize₃]
      show ((w₁.inside l s.returns).buffers.getD w₁.buffers.size #[]).size = 1
      rw [Writer.inside_start]
      rfl
    -- the loops around the function are not open in its body
    have hexits : Exits K w₅ [] := fun k pt hpt => by
      have hdepth : w₅.breaks.length = 0 :=
        hbody.depth.trans (hhoist.depth.trans hparams.depth)
      rw [List.length_eq_zero_iff.1 hdepth] at hpt
      exact absurd hpt List.not_mem_nil
    have hcode := hbody.code [] hk₅ hexits
    have hleave := add_has (d := ⟨.ret, .none⟩) hbody.wf rfl (by rintro _ ⟨⟩) (Stretch.refl hret.wf).passage hk₆
    rw [← hbody.buffer, hbuffer₅, hsize₄, Link.room, hn] at hcode
    rw [hbuffer₅] at hleave
    have hsize := Kept.leave_size hfound.wf hin (hk.whole hlast.frame (Nat.le_refl _))
    rw [Writer.add_buffer, hbuffer₅, hbody.wf.add_size] at hsize
    refine .function hnames₃ hd.has hhoist.code hcode hleave ?_ fun a hle hge => ?_
    · show K.base w₁.buffers.size + K.size w₁.buffers.size = _
      rw [hsize]
      rfl
    replace hle : K.base w₁.buffers.size ≤ a := hle
    have howned := hk₆.owned (Nat.le_refl _) (i := a - K.base w₁.buffers.size) (by
      rw [hbody.wf.add_size]
      omega)
    rw [Writer.add_buffer, hbuffer₅, show K.base w₁.buffers.size + (a - K.base w₁.buffers.size) = a by
      omega, Link.room, hn] at howned
    exact howned
  · show StmtCode _ _ _ _ _ ((w₅.add ⟨.ret, .none⟩).leave w₁).scopes _
      (K.base w.buffer + ((w₅.add ⟨.ret, .none⟩).leave w₁).size)
    rw [hin.leave_scopes hfound.wf, hin.leave_size hfound.wf.valid, hfound.size]
    exact .function hfound.declared

/-! ### All statements -/

theorem discard_return {code : Write Unit} : discard (do code; return false) = code := by
  funext w
  rcases h : code w with e | p <;>
    simp [discard, Functor.discard, map_const, h]

theorem expr?_writes {setting : Setting} (hK : K.environment = setting.environment) :
    (e : Option Expr) → Option.Rel (Writes K) (expr? setting e) e
  | none => .none
  | some e => .some (expr_writes hK e)

mutual

/-- What is written for a statement has the shape of its code. -/
theorem stmt_writes {setting : Setting} (hK : K.environment = setting.environment) :
    (s : Stmt) → WritesStmt K (discard (stmt setting false s)) s
  | .expr e => by
    rw [stmt]
    exact exprStmt_writes (expr_writes hK e)
  | .declare d => by
    rw [stmt, discard_return]
    exact declare_writes (expr?_writes hK d.initial)
  | .function name params returns body => by
    rw [stmt, discard_return]
    exact function_writes (stmts_write hK body)
  | .block body => by
    have h := block_writes (stmts_write hK body)
    rw [← @discard_return (do beginScope; hoist body; stmts setting body; endScope)] at h
    rw [stmt]
    simpa only [bind_assoc] using h
  | .cond test yes none => by
    rw [stmt, discard_return, stmt?]
    exact cond_writes (expr_writes hK test) (stmt_writes hK yes)
  | .cond test yes (some no) => by
    rw [stmt, discard_return, stmt?]
    exact condElse_writes (expr_writes hK test) (stmt_writes hK yes) (stmt_writes hK no)
  | .loop initial test step body => by
    rw [stmt, discard_return]
    exact loop_writes (stmt?_writes hK initial) (expr?_writes hK test) (stmt?_writes hK body)
      (expr?_writes hK step)
  | .brk level => by
    rw [stmt, discard_return]
    exact brk_writes level
  | .ret e => by
    rw [stmt, discard_return]
    exact ret_writes (expr?_writes hK e)
  | .empty => by
    rw [stmt]
    exact empty_writes

theorem stmts_write {setting : Setting} (hK : K.environment = setting.environment) :
    (body : List Stmt) → WritesStmts K (stmts setting body) body
  | [] => by
    rw [stmts]
    exact nil_writes
  | s :: rest => by
    rw [stmts]
    exact cons_writes (stmt_writes hK s) (stmts_write hK rest)

theorem stmt?_writes {setting : Setting} (hK : K.environment = setting.environment) :
    (s : Option Stmt) → Option.Rel (WritesStmt K) (stmt? setting s) s
  | none => by
    rw [stmt?]
    exact .none
  | some s => by
    rw [stmt?]
    exact .some (stmt_writes hK s)

end

end StackScript.Assembly
