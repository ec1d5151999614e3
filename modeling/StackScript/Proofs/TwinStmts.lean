import StackScript.Proofs.TwinExprs
import StackScript.Proofs.StmtWriting

/-!
# Statements written twice

One lemma for each kind of statement, from twins to twins.  A function is written into new buffers on
both sides, and leaves all that was there before as it was (`Detached`), but for where its label leads.
-/

namespace StackScript.Assembly

open Typing Bytecode Host Syntax Assembly.Write

/-! ### Declarations of names -/

namespace ChainTwin

variable {T : Pairing} {c c' : ScopeChain}

/-- A variable is declared in the same slot on both sides. -/
theorem declareLocal (h : ChainTwin T c c') (name : String) (k : Bool) (t : Ty) :
    (∃ e d d', c.declareLocal name k t = (.ok e, d) ∧ c'.declareLocal name k t = (.ok e, d') ∧
      ChainTwin T d d') ∨
    ∃ x, (c.declareLocal name k t).1 = .error x ∧ (c'.declareLocal name k t).1 = .error x := by
  unfold ScopeChain.declareLocal
  rw [h.isTaken, h.frame, h.functionDepth]
  split
  · exact .inr ⟨_, rfl, rfl⟩
  · have hframe : ChainTwin T { c with frame := c.frame.push name } { c' with frame := c.frame.push name } :=
      ⟨h.inner, h.outer, rfl, h.frames⟩
    exact .inl ⟨_, _, _, rfl, rfl, hframe.add ⟨rfl, .slot _⟩⟩

theorem declareParam (h : ChainTwin T c c') (name : String) (index count : Nat) (t : Ty) :
    (∃ e d d', c.declareParam name index count t = (.ok e, d) ∧ c'.declareParam name index count t = (.ok e, d') ∧
      ChainTwin T d d') ∨
    ∃ x, (c.declareParam name index count t).1 = .error x ∧ (c'.declareParam name index count t).1 = .error x := by
  unfold ScopeChain.declareParam
  rw [h.inner.declares, h.functionDepth]
  split
  · exact .inr ⟨_, rfl, rfl⟩
  · exact .inl ⟨_, _, _, rfl, rfl, h.add ⟨rfl, .slot _⟩⟩

theorem declareFunction {l l' : Label} (h : ChainTwin T c c') (hl : T.labels l l') (name : String) (s : Signature) :
    (∃ e e', c.declareFunction name l s = (.ok e, c.add e) ∧ c'.declareFunction name l' s = (.ok e', c'.add e') ∧
      EntityTwin T e e') ∨
    ∃ x, (c.declareFunction name l s).1 = .error x ∧ (c'.declareFunction name l' s).1 = .error x := by
  unfold ScopeChain.declareFunction
  rw [h.inner.declares, h.functionDepth]
  split
  · exact .inr ⟨_, rfl, rfl⟩
  · exact .inl ⟨_, _, rfl, rfl, rfl, .entry hl⟩

end ChainTwin

namespace Together

variable {α β : Type} {split : Bool} {T : Pairing} {w₁ w₂ : Writer}
  {R : Pairing → Writer → Writer → α → β → Prop}

/-- Behind code that is no expression, nothing is asked of what is noted. -/
theorem finish {x y : Write Unit} (hxy : Together split T w₁ w₂ Any x y) (t : Ty) (a : Bool) :
    Together split T w₁ w₂ Any (do x; Write.setType t a) (do y; Write.setType t a) :=
  hxy.bind fun _ _ _ _ _ hp _ => (noted hp.twin t a).any

theorem plain (h : Twin split T w₁ w₂) {op : Opcode} (hop : isPlain op = true) {x : Operand} (hx : isClosed x = true) :
    Together split T w₁ w₂ Any (Write.put op x) (Write.put op x) :=
  (put h (by rintro r rfl; cases hop) (.same hx)).any

theorem resolveType (h : Twin split T w₁ w₂) (name : String) :
    Together split T w₁ w₂ Equal (Write.resolveType name) (Write.resolveType name) :=
  (orThrow h).mono fun _ _ _ _ _ _ hR => hR.1.1

theorem initialType (h : Twin split T w₁ w₂) (hk : Known w₁ w₂) (declared : Ty) (usage : Usage) :
    Together split T w₁ w₂ Equal (Write.initialType declared usage) (Write.initialType declared usage) := by
  refine (lastType h hk).bind fun _ _ _ _ found hp ⟨hfound, _⟩ => ?_
  subst hfound
  refine .ite (fun _ => .pure hp.twin rfl) fun _ => .ite (fun _ => .pure hp.twin rfl) fun _ => ?_
  cases hc : found.conversion? declared with
  | none => exact .throw
  | some o =>
    have ho := isPlain_of_isUnary (Ty.conversion?_unary hc)
    exact (plain hp.twin ho rfl).bind fun _ _ _ _ _ hp' _ => .pure hp'.twin rfl

/-- A step that changes the scopes, on both sides. -/
theorem inScopes {f : ScopeChain → Except CompileError α × ScopeChain}
    {g : ScopeChain → Except CompileError β × ScopeChain}
    (h : (∃ a b c c', f w₁.scopes = (.ok a, c) ∧ g w₂.scopes = (.ok b, c') ∧
        Passes split T T w₁ w₂ { w₁ with scopes := c } { w₂ with scopes := c' } ∧
        R T { w₁ with scopes := c } { w₂ with scopes := c' } a b) ∨
      ∃ e, (f w₁.scopes).1 = .error e ∧ (g w₂.scopes).1 = .error e) :
    Together split T w₁ w₂ R (Write.inScopes f) (Write.inScopes g) := by
  rcases h with ⟨a, b, c, c', hf, hg, hp, hR⟩ | ⟨e, hf, hg⟩
  · exact .ok (inScopes_eq_ok.2 ⟨c, hf, rfl⟩) (inScopes_eq_ok.2 ⟨c', hg, rfl⟩) hp hR
  · refine .of_ok (fun _ _ hx => ?_) fun _ _ hy => ?_
    · obtain ⟨_, hx, -⟩ := inScopes_eq_ok.1 hx
      rw [hx] at hf
      cases hf
    · obtain ⟨_, hy, -⟩ := inScopes_eq_ok.1 hy
      rw [hy] at hg
      cases hg

theorem declareLocal (h : Twin split T w₁ w₂) (name : String) (k : Bool) (t : Ty) :
    Together split T w₁ w₂ (fun _ _ _ e e' => e' = e ∧ ∃ i, e.location = .slot i)
      (Write.inScopes fun c => c.declareLocal name k t) (Write.inScopes fun c => c.declareLocal name k t) := by
  rcases h.scopes.declareLocal name k t with ⟨e, d, d', hd, hd', htwin⟩ | ⟨x, hx, hx'⟩
  · have hlevel := h.level
    have hlevel' : w₂.scopes.inner.frame = w₂.scopes.functionDepth := by
      rw [h.scopes.inner.frame, h.scopes.functionDepth, hlevel]
    have hg := ScopeChain.grows_declareLocal hlevel hd
    have hg' := ScopeChain.grows_declareLocal hlevel' hd'
    have hnames : ∀ {w : Writer} {d}, w.scopes.declareLocal name k t = (.ok e, d) →
        ∀ l, ({ w with scopes := d } : Writer).Names l → w.Names l := by
      rintro w d hd l ⟨f, hf, hl⟩
      obtain ⟨-, he, rfl⟩ := ScopeChain.declareLocal_eq_ok hd
      rcases List.mem_cons.1 (show f ∈ e :: w.scopes.inner.entities from hf) with rfl | hf
      · rw [he] at hl
        cases hl
      · exact ⟨f, hf, hl⟩
    refine .inScopes (.inl ⟨e, e, d, d', hd, hd', .still (h.withScopes htwin ?_)
      (.declared hg (hnames hd)) (.declared hg' (hnames hd')) rfl rfl, rfl, ?_⟩)
    · rw [hg.level, hg.functionDepth, hlevel]
    · rw [(ScopeChain.declareLocal_eq_ok hd).2.1]
      exact ⟨_, rfl⟩
  · exact .inScopes (.inr ⟨x, hx, hx'⟩)

theorem widened (h : Twin split T w₁ w₂) : Together split T w₁ w₂ Any Write.reserveSlot Write.reserveSlot :=
  .ok (a := ()) (b := ()) (reserveSlot_eq_ok.2 rfl) (reserveSlot_eq_ok.2 rfl)
    (.still h.widened (.setAt rfl _) (.setAt rfl _) (Writer.setAt_buffers_size ..)
      (Writer.setAt_buffers_size ..)) trivial

theorem declareParams (h : Twin split T w₁ w₂) (count index : Nat) (params : List Param) (types : List Ty) :
    Together split T w₁ w₂ Any (Write.declareParams count index params types)
      (Write.declareParams count index params types) := by
  induction params generalizing T w₁ w₂ index types with
  | nil => exact .pure h trivial
  | cons p params ih =>
    cases types with
    | nil => exact .pure h trivial
    | cons t types =>
      have hone : Together split T w₁ w₂ Any (Write.inScopes fun c => c.declareParam p.name index count t)
          (Write.inScopes fun c => c.declareParam p.name index count t) := by
        rcases h.scopes.declareParam p.name index count t with ⟨e, d, d', hd, hd', htwin⟩ | ⟨x, hx, hx'⟩
        · have hkin : ∀ {w : Writer} {d}, w.scopes.declareParam p.name index count t = (.ok e, d) →
              Kin w { w with scopes := d } := by
            intro w d hd
            obtain ⟨hnew, he, rfl⟩ := ScopeChain.declareParam_eq_ok hd
            refine .declared (ScopeChain.grows_add (by rw [he]; exact hnew)) fun l ⟨f, hf, hl⟩ => ?_
            rcases List.mem_cons.1 (show f ∈ e :: w.scopes.inner.entities from hf) with rfl | hf
            · rw [he] at hl
              cases hl
            · exact ⟨f, hf, hl⟩
          have hlevel : d.inner.frame = d.functionDepth := by
            obtain ⟨-, -, rfl⟩ := ScopeChain.declareParam_eq_ok hd
            exact h.level
          exact .inScopes (.inl ⟨e, e, d, d', hd, hd', .still (h.withScopes htwin hlevel) (hkin hd)
            (hkin hd') rfl rfl, trivial⟩)
        · exact .inScopes (.inr ⟨x, hx, hx'⟩)
      exact hone.discard.bind fun _ _ _ _ _ hp _ => ih hp.twin _ _

/-! ### Declarations of functions -/

theorem mapM {γ δ : Type} {xs : List γ} {ys : List δ} {f : γ → Write α} {g : δ → Write α}
    (hxy : List.Forall₂ (fun x y => Parallel split Equal (f x) (g y)) xs ys) (h : Twin split T w₁ w₂) :
    Together split T w₁ w₂ Equal (xs.mapM f) (ys.mapM g) := by
  induction hxy generalizing T w₁ w₂ with
  | nil => exact .pure h rfl
  | cons hone _ ih =>
    rw [List.mapM_cons, List.mapM_cons]
    refine (hone h).bind fun _ _ _ a _ hp ha => (ih hp.twin).bind fun _ _ _ as _ hp' has => ?_
    subst ha has
    exact .pure hp'.twin rfl

/-- A function gets a label, and is declared. -/
theorem enter (h : Twin split T w₁ w₂) (name : String) (s : Signature) :
    Together split T w₁ w₂ Any
      (do
        let entry ← modifyGet fun w => let (l, labels) := w.labels.reserve; (l, { w with labels })
        Functor.discard <| Write.inScopes fun c => c.declareFunction name entry s)
      (do
        let entry ← modifyGet fun w => let (l, labels) := w.labels.reserve; (l, { w with labels })
        Functor.discard <| Write.inScopes fun c => c.declareFunction name entry s) := by
  have hrun : ∀ {w v : Writer}, (do
      let entry ← modifyGet fun w => let (l, labels) := w.labels.reserve; (l, { w with labels })
      Functor.discard <| Write.inScopes fun c => c.declareFunction name entry s : Write Unit) w = .ok ((), v) ↔
      ∃ e c, w.scopes.declareFunction name ⟨w.labels.next⟩ s = (.ok e, c) ∧ v = w.entered c := by
    intro w v
    simp only [bind_eq_ok, modifyGet_eq_ok, discard_eq_ok, inScopes_eq_ok]
    constructor
    · rintro ⟨_, _, ⟨rfl, rfl⟩, e, c, hc, rfl⟩
      exact ⟨e, c, hc, rfl⟩
    · rintro ⟨e, c, hc, rfl⟩
      exact ⟨_, _, ⟨rfl, rfl⟩, e, c, hc, rfl⟩
  have hT := T.grows_withLabel ⟨w₁.labels.next⟩ ⟨w₂.labels.next⟩
  rcases (h.scopes.mono hT).declareFunction (.inr ⟨rfl, rfl⟩) name s with ⟨e, e', hc, hc', he⟩ | ⟨x, hx, hx'⟩
  · refine .ok (hrun.2 ⟨e, _, hc, rfl⟩) (hrun.2 ⟨e', _, hc', rfl⟩) ⟨hT, rfl, h.entered he, .entered hc, .entered hc',
      fun l l' hl => ?_, fun _ _ => .inl, fun _ hle hlt => absurd hlt (Nat.not_lt.2 hle),
      fun _ hle hlt => absurd hlt (Nat.not_lt.2 hle)⟩ trivial
    rcases hl with hl | ⟨rfl, rfl⟩
    · exact .inl hl
    · exact .inr ⟨Nat.le_refl _, Nat.le_refl _⟩
  · refine .of_ok (fun _ _ hr => ?_) fun _ _ hr => ?_
    · obtain ⟨_, _, hr, -⟩ := hrun.1 hr
      rw [hr] at hx
      cases hx
    · obtain ⟨_, _, hr, -⟩ := hrun.1 hr
      rw [hr] at hx'
      cases hx'

theorem declareFunction (h : Twin split T w₁ w₂) (name : String) (params : List Param) (returns : String) :
    Together split T w₁ w₂ Any (Write.declareFunction name params returns)
      (Write.declareFunction name params returns) := by
  have htypes : Together split T w₁ w₂ Equal (params.mapM fun p => Write.resolveType p.typeName)
      (params.mapM fun p => Write.resolveType p.typeName) :=
    mapM (List.forall₂_same.2 fun p _ _ _ _ h => resolveType h p.typeName) h
  refine htypes.bind fun _ _ _ types _ hp htypes => (resolveType hp.twin returns).bind fun _ _ _ t _ hp' ht => ?_
  subst htypes ht
  exact enter hp'.twin name _

theorem hoist (h : Twin split T w₁ w₂) (body : List Stmt) :
    Together split T w₁ w₂ Any (Write.hoist body) (Write.hoist body) := by
  induction body generalizing T w₁ w₂ with
  | nil => exact .pure h trivial
  | cons s rest ih =>
    cases s with
    | function name params returns body =>
      exact (declareFunction h name params returns).bind fun _ _ _ _ _ hp _ => ih hp.twin
    | _ => exact ih h

/-- A function is found under its name, or declared now. -/
theorem declaredFunction (h : Twin split T w₁ w₂) (name : String) (params : List Param) (returns : String) :
    Together split T w₁ w₂
      (fun T' v₁ v₂ p q => T'.labels p.1 q.1 ∧ q.2 = p.2 ∧ v₁.Names p.1 ∧ v₂.Names q.1)
      (Write.declaredFunction name params returns) (Write.declaredFunction name params returns) := by
  have hentry : ∀ {T w₁ w₂}, Twin split T w₁ w₂ → Together split T w₁ w₂
      (fun T' v₁ v₂ p q => T'.labels p.1 q.1 ∧ q.2 = p.2 ∧ v₁.Names p.1 ∧ v₂.Names q.1)
      (do entryOf name (← findCurrent name)) (do entryOf name (← findCurrent name)) := by
    intro T w₁ w₂ h
    refine .get ?_
    show Together split T w₁ w₂ _ (entryOf name (w₁.scopes.inner.find? name))
      (entryOf name (w₂.scopes.inner.find? name))
    have hfound := h.scopes.inner.found name
    have hmem : ∀ {s : Scope} {e}, s.find? name = some e → e ∈ s.entities := fun hf => (Scope.mem_of_find? hf).1
    cases hx : w₁.scopes.inner.find? name with
    | none =>
      rw [hx] at hfound
      generalize w₂.scopes.inner.find? name = y at hfound
      cases hfound
      exact .throw
    | some e =>
      rw [hx] at hfound
      generalize hy : w₂.scopes.inner.find? name = y at hfound
      cases hfound with
      | @some _ e' he =>
        have hm := hmem hx
        have hm' := hmem hy
        obtain ⟨n, t, k, location, frame, constant, signature⟩ := e
        obtain ⟨n', t', k', location', frame', constant', signature'⟩ := e'
        obtain ⟨hsame, hlocation⟩ := he
        cases hsame
        cases hlocation with
        | external => exact .throw
        | slot i => exact .throw
        | entry hl =>
          cases signature with
          | none => exact .throw
          | some s => exact .pure h ⟨hl, rfl, ⟨_, hm, rfl⟩, ⟨_, hm', rfl⟩⟩
  have hnone : (w₂.scopes.findCurrent? name).isNone = (w₁.scopes.findCurrent? name).isNone := by
    have hfound := h.scopes.inner.found name
    show (w₂.scopes.inner.find? name).isNone = (w₁.scopes.inner.find? name).isNone
    generalize w₁.scopes.inner.find? name = x, w₂.scopes.inner.find? name = y at hfound
    cases hfound <;> rfl
  refine .get ?_
  show Together split T w₁ w₂ _
    (if (w₁.scopes.findCurrent? name).isNone then do
      Write.declareFunction name params returns
      entryOf name (← findCurrent name)
    else do entryOf name (← findCurrent name))
    (if (w₂.scopes.findCurrent? name).isNone then do
      Write.declareFunction name params returns
      entryOf name (← findCurrent name)
    else do entryOf name (← findCurrent name))
  rw [hnone]
  exact .ite (fun _ => (declareFunction h name params returns).bind fun _ _ _ _ _ hp _ => hentry hp.twin)
    fun _ => hentry h

end Together

/-! ### Bodies of functions -/

/-- Both sides leave a function again. -/
theorem Passes.leave {split : Bool} {T T' : Pairing} {w₁ w₂ v₁ v₂ : Writer} {l l' : Label} {returns : Ty}
    (h : Twin split T w₁ w₂) (hn : w₁.Names l) (hn' : w₂.Names l')
    (hp : Passes split (T.withBuffer w₁.buffers.size w₂.buffers.size) T' (w₁.inside l returns) (w₂.inside l' returns)
      v₁ v₂) :
    Passes split T T' w₁ w₂ ((v₁.add ⟨.ret, .none⟩).leave w₁) ((v₂.add ⟨.ret, .none⟩).leave w₂) := by
  have hT := (T.grows_withBuffer w₁.buffers.size w₂.buffers.size).trans hp.grows
  have hlevel' : w₂.scopes.inner.frame = w₂.scopes.functionDepth := by
    rw [h.scopes.inner.frame, h.scopes.functionDepth, h.level]
  have hleft : Detached l w₁ _ := .of_body (fun p hp => (h.waiting_lt hp).2) h.level hp.left
  have hright : Detached l' w₂ _ := .of_body (fun p hp => (h.waiting_lt' hp).2) hlevel' hp.right
  have hadd : Twin split T' (v₁.add ⟨.ret, .none⟩) (v₂.add ⟨.ret, .none⟩) := hp.twin.add (.same rfl) nofun
  have hcount : ∀ {w : Writer} {l}, (w.inside l returns).buffers.size = w.buffers.size + 1 := Writer.inside_count
  refine ⟨hT, hp.loose, ?_, hleft.kin hn, hright.kin hn', hp.labels, fun b b' hb => ?_, fun b hle hlt => ?_,
    fun b hle hlt => ?_⟩
  · exact { hadd with
      returns := h.returns
      scopes := by
        rw [hleft.scopes, hright.scopes]
        exact h.scopes.mono hT
      level := by rw [hleft.scopes, h.level]
      breaks := h.breaks.imp fun _ _ => List.Forall₂.imp fun _ _ => hT.holes _ _
      own := h.own, buffer := hT.buffers _ _ h.buffer
      bound := fun m m' hm hloose => optionRel_mono (hadd.bound m m' hm hloose) fun _ _ hp => hp.congr rfl
      code := fun b b' hb => (hadd.code b b' hb).congr rfl rfl
      holes := fun p q hpq => (hadd.holes p q hpq).congr rfl }
  · rcases hp.buffers b b' hb with (hb | ⟨rfl, rfl⟩) | ⟨hle, hle'⟩
    · exact .inl hb
    · exact .inr ⟨Nat.le_refl _, Nat.le_refl _⟩
    · rw [hcount] at hle hle'
      exact .inr ⟨Nat.le_of_succ_le hle, Nat.le_of_succ_le hle'⟩
  · have hlt' : b < v₁.buffers.size := by rwa [← Writer.add_buffers_size v₁ ⟨.ret, .none⟩]
    -- the buffer of the function itself, or one of a function inside of it
    rcases Nat.eq_or_lt_of_le hle with rfl | hgt
    · exact ⟨_, hp.grows.buffers _ _ (.inr ⟨rfl, rfl⟩)⟩
    · exact hp.covered.1 b (hcount ▸ hgt) hlt'
  · have hlt' : b < v₂.buffers.size := by rwa [← Writer.add_buffers_size v₂ ⟨.ret, .none⟩]
    rcases Nat.eq_or_lt_of_le hle with rfl | hgt
    · exact ⟨_, hp.grows.buffers _ _ (.inr ⟨rfl, rfl⟩)⟩
    · exact hp.covered.2 b (hcount ▸ hgt) hlt'

/-- A function whose label and signature are known: its body goes into a new buffer. -/
def functionAt (params : List Param) (l : Label) (s : Signature) (body : Write Unit) : Write Unit := fun w =>
  ((do declareParams params.length 0 params s.params; body : Write Unit) (w.inside l s.returns)).map
    fun p => ((), ((p.2.add ⟨.ret, .none⟩).leave w).typed .void false)

theorem function_run {name : String} {params : List Param} {returns : String} {body : Write Unit} {w v : Writer}
    {l : Label} {s : Signature} (h : declaredFunction name params returns w = .ok ((l, s), v)) :
    function name params returns body w = functionAt params l s body v := by
  unfold function functionAt
  show (declaredFunction name params returns w >>= fun p => _) = _
  rw [h]
  show ((declareParams params.length 0 params s.params (v.inside l s.returns)) >>= fun p => _) = Except.map _
    ((declareParams params.length 0 params s.params (v.inside l s.returns)) >>= fun p => body p.2)
  cases declareParams params.length 0 params s.params (v.inside l s.returns) with
  | error e => rfl
  | ok p =>
    show (body p.2 >>= fun q => _) = Except.map _ (body p.2)
    cases body p.2 with
    | error e => rfl
    | ok q => rfl

theorem function_error {name : String} {params : List Param} {returns : String} {body : Write Unit} {w : Writer}
    {e : CompileError} (h : declaredFunction name params returns w = .error e) :
    function name params returns body w = .error e := by
  unfold function
  show (declaredFunction name params returns w >>= fun p => _) = _
  rw [h]
  rfl

/-- The body of a function, written on both sides under labels that belong together. -/
theorem Twin.body {split : Bool} {T : Pairing} {w₁ w₂ : Writer} {l l' : Label} {x y : Write Unit}
    (h : Twin split T w₁ w₂)
    (hl : T.labels l l') (hn : w₁.Names l) (hn' : w₂.Names l') (params : List Param) (s : Signature)
    (hxy : Parallel split Any x y) :
    Together split T w₁ w₂ (fun _ v₁ v₂ _ _ => Detached l w₁ v₁ ∧ Detached l' w₂ v₂) (functionAt params l s x)
      (functionAt params l' s y) := by
  have hlevel' : w₂.scopes.inner.frame = w₂.scopes.functionDepth := by
    rw [h.scopes.inner.frame, h.scopes.functionDepth, h.level]
  have hcode : Together split (T.withBuffer w₁.buffers.size w₂.buffers.size) (w₁.inside l s.returns)
      (w₂.inside l' s.returns) Any (do declareParams params.length 0 params s.params; x)
      (do declareParams params.length 0 params s.params; y) :=
    (Together.declareParams (h.inside hl s.returns) _ _ _ _).bind fun _ _ _ _ _ hp _ => hxy hp.twin
  unfold Together functionAt at *
  generalize (do declareParams params.length 0 params s.params; x : Write Unit) (w₁.inside l s.returns) = r₁,
    (do declareParams params.length 0 params s.params; y : Write Unit) (w₂.inside l' s.returns) = r₂ at hcode
  cases hcode with
  | error e e' => exact .error e e'
  | @ok T' v₁ v₂ _ _ hp _ =>
    have hleave := Passes.leave h hn hn' hp
    have hend : Passes split T' T' ((v₁.add ⟨.ret, .none⟩).leave w₁) ((v₂.add ⟨.ret, .none⟩).leave w₂) _ _ :=
      .still (hleave.twin.typed .void false) (.of_same rfl rfl rfl rfl) (.of_same rfl rfl rfl rfl) rfl rfl
    exact .ok (hleave.trans hend)
      ⟨(Detached.of_body (fun p hp => (h.waiting_lt hp).2) h.level hp.left).typed .void false,
        (Detached.of_body (fun p hp => (h.waiting_lt' hp).2) hlevel' hp.right).typed .void false⟩

theorem function_parallel {split : Bool} {name : String} {params : List Param} {returns : String} {x y : Write Unit}
    (hxy : Parallel split Any x y) :
    Parallel split Any (function name params returns x) (function name params returns y) := by
  intro T w₁ w₂ h
  have hfound := Together.declaredFunction h name params returns
  unfold Together at hfound ⊢
  generalize hf₁ : declaredFunction name params returns w₁ = r₁, hf₂ : declaredFunction name params returns w₂ = r₂
    at hfound
  cases hfound with
  | error e e' =>
    rw [function_error hf₁, function_error hf₂]
    exact .error e e'
  | @ok T' v₁ v₂ a b hp hR =>
    obtain ⟨l, s⟩ := a
    obtain ⟨l', s'⟩ := b
    obtain ⟨hl, hs, hn, hn'⟩ := hR
    obtain rfl : s' = s := hs
    rw [function_run hf₁, function_run hf₂]
    have hbody := hp.twin.body hl hn hn' params s' hxy
    unfold Together at hbody
    generalize functionAt params l s' x v₁ = r₁, functionAt params l' s' y v₂ = r₂ at hbody
    cases hbody with
    | error e e' => exact .error e e'
    | ok hp' _ => exact .ok (hp.trans hp') trivial

/-! ### Simple statements -/

section Stmts

variable {split : Bool} {s₁ s₂ : Setting} {x y x' y' : Write Unit}

/-- The initial value of a variable goes to its slot. -/
theorem store_together {T : Pairing} {w₁ w₂ : Writer} (h : Twin split T w₁ w₂) (t : Ty) (i : Int) :
    Together split T w₁ w₂ Any
      (do
        applyRule (← findRule t (.loadSlot .own)) (.int i)
        replaceLoad storeFor?
        setType .void false)
      (do
        applyRule (← findRule t (.loadSlot .own)) (.int i)
        replaceLoad storeFor?
        setType .void false) := by
  refine (Together.orThrow h).bind fun _ _ _ rule _ hp ⟨⟨hsame, hrule⟩, _⟩ => ?_
  subst hsame
  refine (Together.applyRule hp.twin (fun o ho => ?_) rfl).bind fun _ _ _ _ _ hp' _ =>
    (Together.storeLast hp'.twin).any.finish _ _
  obtain ⟨-, rfl⟩ := Ty.slotRule?_eq_some.1 hrule
  obtain rfl := Action.emit.inj ho
  rfl

theorem declare_parallel (d : Declaration) {x y : Option (Write Unit)} (hxy : Option.Rel (Parallel split Speaks) x y) :
    Parallel split Any (declare d x) (declare d y) := by
  intro T w₁ w₂ h
  refine (Together.resolveType h d.typeName).bind fun _ _ _ _ declared hp hd => ?_
  subst hd
  cases hxy with
  | none =>
    refine (Together.pure hp.twin (R := Equal) rfl).bind fun _ _ _ _ t hp' ht => ?_
    subst ht
    refine (Together.declareLocal hp'.twin _ _ _).bind fun _ _ _ _ _ hp'' _ => ?_
    exact (Together.widened hp''.twin).bind fun _ _ _ _ _ hp₃ _ => (Together.noted hp₃.twin _ _).any
  | @some x y hone =>
    refine (Together.value (hone hp.twin) _).bind fun _ _ _ _ _ hp₁ hk => ?_
    refine (Together.initialType hp₁.twin hk _ _).bind fun _ _ _ _ t hp₂ ht => ?_
    subst ht
    refine (Together.declareLocal hp₂.twin _ _ _).bind fun _ _ _ _ e hp₃ ⟨he, i, hi⟩ => ?_
    subst he
    refine (Together.widened hp₃.twin).bind fun _ _ _ _ _ hp₄ _ => ?_
    rw [hi]
    exact store_together hp₄.twin t i

theorem exprStmt_parallel (hxy : Parallel split Speaks x y) (keep : Bool) :
    Parallel split Equal (exprStmt x keep) (exprStmt y keep) := by
  intro T w₁ w₂ h
  refine (hxy h).bind fun _ _ _ _ _ hp hk => (Together.lastType hp.twin hk).bind fun _ _ _ _ t hp' ⟨ht, _⟩ => ?_
  subst ht
  refine .ite (fun _ => .pure hp'.twin rfl) fun _ => .ite (fun _ => .pure hp'.twin rfl) fun _ => ?_
  exact (Together.plain hp'.twin rfl rfl).bind fun _ _ _ _ _ hp'' _ => .pure hp''.twin rfl

theorem dropped_parallel (hxy : Parallel split Speaks x y) : Parallel split Any (dropped x) (dropped y) := by
  intro T w₁ w₂ h
  refine (hxy h).bind fun _ _ _ _ _ hp hk => (Together.lastType hp.twin hk).bind fun _ _ _ _ t hp' ⟨ht, _⟩ => ?_
  subst ht
  exact .ite (fun _ => .plain hp'.twin rfl rfl) fun _ => .pure hp'.twin trivial

theorem ret_parallel {x y : Option (Write Unit)} (hxy : Option.Rel (Parallel split Speaks) x y) :
    Parallel split Any (ret x) (ret y) := by
  intro T w₁ w₂ h
  refine .get ?_
  rw [h.scopes.functionDepth]
  refine .ite (fun _ => ?_) fun _ => ?_
  · cases hxy with
    | none =>
      exact (Together.plain h rfl rfl).bind fun _ _ _ _ _ hp _ => (Together.plain hp.twin rfl rfl).finish _ _
    | some hone =>
      exact (Together.value (hone h) _).bind fun _ _ _ _ _ hp _ => (Together.plain hp.twin rfl rfl).finish _ _
  · cases hxy with
    | none => exact (Together.plain h rfl rfl).finish _ _
    | some hone =>
      refine (Together.typedValue (hone h) _).bind fun _ _ _ _ found hp ⟨hfound, _⟩ => .get ?_
      subst hfound
      rw [hp.twin.returns]
      refine (Together.orThrow hp.twin).discard.bind fun _ _ _ _ _ hp' _ => ?_
      exact (Together.plain hp'.twin rfl rfl).finish _ _

/-! ### Choices -/

theorem cond_parallel (hs : Beside split s₁ s₂) {z z' : Option (Write Unit)} (ht : Parallel split Speaks x y)
    (hy : Parallel split Any x' y') (hn : Option.Rel (Parallel split Any) z z') :
    Parallel split Any (cond s₁ x x' z) (cond s₂ y y' z') := by
  intro T w₁ w₂ h
  refine (Together.value (ht h) _).bind fun _ _ _ _ _ hp _ => ?_
  refine (Together.emitBranchIfFalse hs hp.twin).bind fun _ _ _ branch branch' hp₁ hbranch => ?_
  refine (hy hp₁.twin).bind fun _ _ _ _ _ hp₂ _ => ?_
  cases hn with
  | none =>
    refine (Together.openLabel hp₂.twin).bind fun _ _ _ _ _ hp₃ ⟨hl, _⟩ => ?_
    exact (Together.patch hp₃.twin (hbranch.later (hp₂.trans hp₃)) hl).any.finish _ _
  | some hone =>
    refine (Together.emit hp₂.twin (.inl rfl) nofun).bind fun _ _ _ skip skip' hp₃ hskip => ?_
    refine (Together.openLabel hp₃.twin).bind fun _ _ _ _ _ hp₄ ⟨hl, _⟩ => ?_
    refine (Together.patch hp₄.twin (hbranch.later ((hp₂.trans hp₃).trans hp₄)) hl).bind fun _ _ _ _ _ hp₅ _ => ?_
    refine (hone hp₅.twin).bind fun _ _ _ _ _ hp₆ _ => ?_
    refine (Together.openLabel hp₆.twin).bind fun _ _ _ _ _ hp₇ ⟨hl', _⟩ => ?_
    exact (Together.patch hp₇.twin (hskip.later (((hp₄.trans hp₅).trans hp₆).trans hp₇)) hl').any.finish _ _

/-! ### Loops -/

variable {T : Pairing} {w₁ w₂ : Writer}

/-- The jumps out of a loop are noted from here on. -/
theorem enterLoop_together (h : Twin split T w₁ w₂) :
    Together split T w₁ w₂ Any (modify fun w => { w with breaks := [] :: w.breaks } : Write Unit)
      (modify fun w => { w with breaks := [] :: w.breaks } : Write Unit) :=
  .ok rfl rfl (.still (h.leaving (.cons .nil h.breaks) h.own.1 h.own.2) (.of_same rfl rfl rfl rfl)
    (.of_same rfl rfl rfl rfl) rfl rfl) trivial

/-- The jumps out of the innermost loop. -/
theorem leaveLoop_together (h : Twin split T w₁ w₂) :
    Together split T w₁ w₂ (fun T' v₁ v₂ => List.Forall₂ (Opened T' v₁ v₂))
      (modifyGet fun w => (w.breaks.headD [], { w with breaks := w.breaks.tail }))
      (modifyGet fun w => (w.breaks.headD [], { w with breaks := w.breaks.tail })) := by
  have htail : List.Forall₂ (List.Forall₂ T.holes) w₁.breaks.tail w₂.breaks.tail ∧
      List.Forall₂ (Opened T w₁ w₂) (w₁.breaks.headD []) (w₂.breaks.headD []) ∧
      (∀ p ∈ w₁.breaks.tail.flatten, p.buffer = w₁.buffer) ∧ ∀ q ∈ w₂.breaks.tail.flatten, q.buffer = w₂.buffer := by
    obtain ⟨hown, hown'⟩ := h.own
    have hb := h.breaks
    generalize w₁.breaks = bs, w₂.breaks = bs' at hb hown hown'
    cases hb with
    | nil => exact ⟨.nil, .nil, nofun, nofun⟩
    | @cons jumps jumps' _ _ hone hrest =>
      refine ⟨hrest, ?_, fun p hp => hown p (List.mem_append_right _ hp),
        fun q hq => hown' q (List.mem_append_right _ hq)⟩
      refine List.forall₂_iff_get.2 ⟨hone.length_eq, fun i hi hi' => ⟨hone.get hi hi', ?_, ?_⟩⟩
      · exact hown _ (List.mem_append_left _ (List.get_mem _ _))
      · exact hown' _ (List.mem_append_left _ (List.get_mem _ _))
  obtain ⟨hbreaks, hjumps, hown, hown'⟩ := htail
  exact .ok rfl rfl (.still (h.leaving hbreaks hown hown') (.of_same rfl rfl rfl rfl)
    (.of_same rfl rfl rfl rfl) rfl rfl) hjumps

theorem patches_together {jumps jumps' : List CodePoint} (h : Twin split T w₁ w₂)
    (hj : List.Forall₂ (Opened T w₁ w₂) jumps jumps') {l l' : Label} (hl : T.labels l l') :
    Together split T w₁ w₂ Any (jumps.forM fun jump => patch jump l) (jumps'.forM fun jump => patch jump l') := by
  induction jumps generalizing T w₁ w₂ jumps' with
  | nil =>
    cases hj
    exact .pure h trivial
  | cons jump jumps ih =>
    cases hj with
    | cons hone hrest =>
      exact (Together.patch h hone hl).bind fun _ _ _ _ _ hp _ =>
        ih hp.twin (hrest.imp fun _ _ ho => ho.later hp) (hp.grows.labels _ _ hl)

theorem rounds_parallel (hs : Beside split s₁ s₂) {z z' : Option (Write Unit)} (ht : Parallel split Speaks x y)
    (hb : Parallel split Any x' y') (hstep : Option.Rel (Parallel split Speaks) z z') :
    Parallel split Any (rounds s₁ x x' z) (rounds s₂ y y' z') := by
  have hdropped : Parallel split Any (z.elim (pure ()) dropped) (z'.elim (pure ()) dropped) := by
    cases hstep with
    | none => exact fun _ _ _ h => .pure h trivial
    | some hone => exact dropped_parallel hone
  intro T w₁ w₂ h
  refine (Together.openLabel h).bind fun _ _ _ start start' hp ⟨hstart, _⟩ => ?_
  refine (Together.value (ht hp.twin) _).bind fun _ _ _ _ _ hp₁ _ => ?_
  refine (Together.emitBranchIfFalse hs hp₁.twin).bind fun _ _ _ exit exit' hp₂ hexit => ?_
  refine (enterLoop_together hp₂.twin).bind fun _ _ _ _ _ hp₃ _ => ?_
  refine (hb hp₃.twin).bind fun _ _ _ _ _ hp₄ _ => ?_
  refine (hdropped hp₄.twin).bind fun _ _ _ _ _ hp₅ _ => ?_
  have hgrows := (((hp₁.trans hp₂).trans hp₃).trans hp₄).trans hp₅
  refine (Together.put hp₅.twin (show ∀ r, Opcode.jump ≠ .branchInt r from nofun)
    (.label (hgrows.grows.labels _ _ hstart))).bind fun _ _ _ _ _ hp₆ _ => ?_
  refine (Together.openLabel hp₆.twin).bind fun _ _ _ behind behind' hp₇ ⟨hbehind, _⟩ => ?_
  refine (Together.patch hp₇.twin (hexit.later ((((hp₃.trans hp₄).trans hp₅).trans hp₆).trans hp₇)) hbehind).bind
    fun _ _ _ _ _ hp₈ _ => ?_
  refine (leaveLoop_together hp₈.twin).bind fun _ _ _ jumps jumps' hp₉ hjumps => ?_
  exact patches_together hp₉.twin hjumps (hp₉.grows.labels _ _ (hp₈.grows.labels _ _ hbehind))

/-- A block: its names are forgotten behind it. -/
theorem block_parallel (hxy : Parallel split Any x y) :
    Parallel split Any (do beginScope; x; endScope) (do beginScope; y; endScope) := by
  intro T w₁ w₂ h
  have hbegin : Twin split T { w₁ with scopes := w₁.scopes.beginScope } { w₂ with scopes := w₂.scopes.beginScope } :=
    h.withScopes h.scopes.beginScope rfl
  have hinner := hxy hbegin
  unfold Together at hinner ⊢
  show Agree split T w₁ w₂ Any ((x { w₁ with scopes := w₁.scopes.beginScope }) >>= fun p => _)
    ((y { w₂ with scopes := w₂.scopes.beginScope }) >>= fun p => _)
  generalize x { w₁ with scopes := w₁.scopes.beginScope } = r₁, y { w₂ with scopes := w₂.scopes.beginScope } = r₂
    at hinner
  cases hinner with
  | error e e' => exact .error e e'
  | @ok T' v₁ v₂ _ _ hp _ =>
    refine .ok (a := ()) (b := ()) ⟨hp.grows, hp.loose, hp.twin.withScopes hp.twin.scopes.endScope ?_, hp.left.block,
      hp.right.block, hp.labels, hp.buffers, hp.covered⟩ trivial
    rw [ScopeChain.endScope_of_grows hp.left.scopes]
    exact h.level

theorem loop_parallel (hs : Beside split s₁ s₂) {a a' b b' c c' d d' : Option (Write Unit)}
    (ha : Option.Rel (Parallel split Any) a a') (hb : Option.Rel (Parallel split Speaks) b b')
    (hc : Option.Rel (Parallel split Any) c c') (hd : Option.Rel (Parallel split Speaks) d d') :
    Parallel split Any (loop s₁ a b c d) (loop s₂ a' b' c' d') := by
  cases hb with
  | none => exact fun _ _ _ _ => .throw
  | some hb =>
    cases hc with
    | none => exact fun _ _ _ _ => .throw
    | some hc =>
      have hrounds := rounds_parallel hs hb hc hd
      cases ha with
      | none =>
        rw [loop_none, loop_none]
        exact fun _ _ _ h => (hrounds h).finish _ _
      | @some a a' ha =>
        have hinner : Parallel split Any (do beginScope; (do a; rounds s₁ _ _ d); endScope)
            (do beginScope; (do a'; rounds s₂ _ _ d'); endScope) :=
          block_parallel fun _ _ _ h => (ha h).bind fun _ _ _ _ _ hp _ => hrounds hp.twin
        rw [loop_some, loop_some]
        have hloop : Parallel split Any (do (do beginScope; (do a; rounds s₁ _ _ d); endScope); setType .void false)
            (do (do beginScope; (do a'; rounds s₂ _ _ d'); endScope); setType .void false) :=
          fun _ _ _ h => (hinner h).finish .void false
        simpa only [bind_assoc] using hloop

theorem forall₂_modify {α : Type} {R : α → α → Prop} {l l' : List α} {f g : α → α} (h : List.Forall₂ R l l')
    (hfg : ∀ a b, R a b → R (f a) (g b)) (k : Nat) : List.Forall₂ R (l.modify k f) (l'.modify k g) := by
  induction h generalizing k with
  | nil =>
    rw [List.modify_nil, List.modify_nil]
    exact .nil
  | cons hone hrest ih =>
    cases k with
    | zero => exact .cons (hfg _ _ hone) hrest
    | succ k => exact .cons hone (ih k)

theorem mem_flatten_modify {l : List (List CodePoint)} {k : Nat} {p q : CodePoint}
    (h : p ∈ (l.modify k (q :: ·)).flatten) : p = q ∨ p ∈ l.flatten := by
  by_cases hk : k < l.length
  · exact List.mem_cons.1 ((flatten_modify_perm hk q).mem_iff.1 h)
  · rw [List.modify_eq_self (Nat.le_of_not_lt hk)] at h
    exact .inr h

theorem brk_parallel (level : Nat) : Parallel split Any (brk level) (brk level) := by
  intro T w₁ w₂ h
  refine .get ?_
  rw [← h.breaks.length_eq]
  refine .ite (fun hlevel => ?_) fun _ => .throw
  refine (Together.emit h (.inl rfl) nofun).bind fun T' v₁ v₂ jump jump' hp hjump => ?_
  have hbreaks : List.Forall₂ (List.Forall₂ T'.holes) (v₁.breaks.modify (level - 1) (jump :: ·))
      (v₂.breaks.modify (level - 1) (jump' :: ·)) :=
    forall₂_modify hp.twin.breaks (fun _ _ hone => .cons hjump.1 hone) _
  have hown : ∀ {w : Writer} {jump : CodePoint}, (∀ p ∈ w.breaks.flatten, p.buffer = w.buffer) →
      jump.buffer = w.buffer → ∀ p ∈ (w.breaks.modify (level - 1) (jump :: ·)).flatten, p.buffer = w.buffer := by
    intro w jump hw hj p hp
    rcases mem_flatten_modify hp with rfl | hp
    · exact hj
    · exact hw p hp
  exact .ok rfl rfl (.still (hp.twin.leaving hbreaks (hown hp.twin.own.1 hjump.2.1)
    (hown hp.twin.own.2 hjump.2.2)) (.of_same rfl rfl rfl rfl) (.of_same rfl rfl rfl rfl) rfl rfl) trivial

/-! ### Trees -/

theorem expr?_parallel (hs : Beside split s₁ s₂) :
    (e : Option Expr) → Option.Rel (Parallel split Speaks) (expr? s₁ e) (expr? s₂ e)
  | none => .none
  | some e => .some (expr_parallel hs e)

/-- Code that leaves no value. -/
theorem unvalued_parallel (hxy : Parallel split Any x y) :
    Parallel split Equal (do x; return false) (do y; return false) :=
  fun _ _ _ h => (hxy h).bind fun _ _ _ _ _ hp _ => .pure hp.twin rfl

theorem discard_parallel {x y : Write Bool} (hxy : Parallel split Equal x y) :
    Parallel split Any (discard x) (discard y) := fun _ _ _ h => (hxy h).discard.any

/-- The functions of a list are declared, and then its statements are written. -/
theorem listed_parallel (body : List Stmt) (hxy : Parallel split Any x y) :
    Parallel split Any (do hoist body; x) (do hoist body; y) :=
  fun _ _ _ h => (Together.hoist h body).bind fun _ _ _ _ _ hp _ => hxy hp.twin

mutual

/-- The code of a statement, written twice. -/
theorem stmt_parallel (hs : Beside split s₁ s₂) (keep : Bool) :
    (s : Stmt) → Parallel split Equal (stmt s₁ keep s) (stmt s₂ keep s)
  | .expr e => by
    rw [stmt, stmt]
    exact exprStmt_parallel (expr_parallel hs e) keep
  | .declare d => by
    rw [stmt, stmt]
    exact unvalued_parallel (declare_parallel d (expr?_parallel hs d.initial))
  | .function name params returns body => by
    rw [stmt, stmt]
    exact unvalued_parallel (function_parallel (listed_parallel body (stmts_parallel hs body)))
  | .block body => by
    have h := block_parallel (listed_parallel body (stmts_parallel hs body))
    rw [stmt, stmt]
    simpa only [bind_assoc] using unvalued_parallel h
  | .cond test yes no => by
    rw [stmt, stmt]
    exact unvalued_parallel (cond_parallel hs (expr_parallel hs test) (discard_parallel (stmt_parallel hs false yes))
      (stmt?_parallel hs no))
  | .loop initial test step body => by
    rw [stmt, stmt]
    exact unvalued_parallel (loop_parallel hs (stmt?_parallel hs initial) (expr?_parallel hs test)
      (stmt?_parallel hs body) (expr?_parallel hs step))
  | .brk level => by
    rw [stmt, stmt]
    exact unvalued_parallel (brk_parallel level)
  | .ret e => by
    rw [stmt, stmt]
    exact unvalued_parallel (ret_parallel (expr?_parallel hs e))
  | .empty => by
    rw [stmt, stmt]
    exact fun _ _ _ h => .pure h rfl

theorem stmts_parallel (hs : Beside split s₁ s₂) :
    (body : List Stmt) → Parallel split Any (stmts s₁ body) (stmts s₂ body)
  | [] => by
    rw [stmts, stmts]
    exact fun _ _ _ h => .pure h trivial
  | s :: rest => by
    rw [stmts, stmts]
    exact fun _ _ _ h => (discard_parallel (stmt_parallel hs false s) h).bind fun _ _ _ _ _ hp _ =>
      stmts_parallel hs rest hp.twin

theorem stmt?_parallel (hs : Beside split s₁ s₂) :
    (s : Option Stmt) → Option.Rel (Parallel split Any) (stmt? s₁ s) (stmt? s₂ s)
  | none => by
    rw [stmt?, stmt?]
    exact .none
  | some s => by
    rw [stmt?, stmt?]
    exact .some (discard_parallel (stmt_parallel hs false s))

end

theorem topLevel_cons (setting : Setting) (s t : Stmt) (rest : List Stmt) : topLevel setting (s :: t :: rest) =
    (do discard (stmt setting false s); topLevel setting (t :: rest)) := by
  rw [topLevel]
  exact List.cons_ne_nil t rest

theorem topLevel_parallel (hs : Beside split s₁ s₂) :
    (body : List Stmt) → Parallel split Equal (topLevel s₁ body) (topLevel s₂ body)
  | [] => by
    rw [topLevel, topLevel]
    exact fun _ _ _ h => .pure h rfl
  | [s] => by
    rw [topLevel, topLevel]
    exact stmt_parallel hs true s
  | s :: t :: rest => by
    rw [topLevel_cons, topLevel_cons]
    exact fun _ _ _ h => (discard_parallel (stmt_parallel hs false s) h).bind fun _ _ _ _ _ hp _ =>
      topLevel_parallel hs (t :: rest) hp.twin

end Stmts

end StackScript.Assembly
