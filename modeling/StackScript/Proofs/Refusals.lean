import StackScript.Engine
import StackScript.Proofs.Tiling

/-!
# Where reading stops

A reader takes no malformed token: every `advance` stands behind a look at the token it takes.  So a text
that was read to its end is well formed, with the interpolations of its templates at every depth; and a
reader that stops does so at a token, with well-formed ones in front of it.

* `Embedded`: a text and the interpolations in it.
* `Takes`: what a reader does to the tokens, with a result and with an error; `exprs_take` and `stmts_take`
  carry it from each depth to the next one.
* `parse_stops`: what a text that was read is made of, and the line and column of an error.
-/

namespace StackScript.Syntax

open Parse

/-! ### Kinds of tokens -/

def TokenKind.isFlawed : TokenKind → Bool
  | flawed _ => true
  | _ => false

def TokenKind.sources : TokenKind → List String
  | template _ sources => sources
  | _ => []

def TokenKind.isPlain : TokenKind → Bool
  | template _ _ | flawed _ => false
  | _ => true

theorem AssignOp.plain_of_ofKind? {k : TokenKind} {op : AssignOp} (h : AssignOp.ofKind? k = some op) :
    k.isPlain = true := by
  cases k with
  | template => cases h
  | flawed => cases h
  | _ => rfl

theorem BinaryOp.plain_of_ofKind? {k : TokenKind} {op : BinaryOp} {accepts : BinaryOp → Bool}
    (h : (BinaryOp.ofKind? k).filter accepts = some op) : k.isPlain = true := by
  cases k with
  | template => cases h
  | flawed => cases h
  | _ => rfl

theorem UnaryOp.plain_of_beforeOfKind? {k : TokenKind} {op : UnaryOp}
    (h : UnaryOp.beforeOfKind? k = some op) : k.isPlain = true := by
  cases k with
  | template => cases h
  | flawed => cases h
  | _ => rfl

theorem UnaryOp.plain_of_afterOfKind? {k : TokenKind} {op : UnaryOp}
    (h : UnaryOp.afterOfKind? k = some op) : k.isPlain = true := by
  cases k with
  | template => cases h
  | flawed => cases h
  | _ => rfl

theorem Literal.plain_of_ofKind? {k : TokenKind} {v : Literal} (h : Literal.ofKind? k = some v) :
    k.isPlain = true := by
  cases k with
  | template => cases h
  | flawed => cases h
  | _ => rfl

/-- Neither a template nor the end of the input. -/
def TokenKind.isSimple : TokenKind → Bool
  | template _ _ | endOfInput => false
  | _ => true

def TokenKind.isNumeral : TokenKind → Bool
  | int _ | float _ | flawed _ => true
  | _ => false

theorem TokenKind.simple_of_numeral {k : TokenKind} (h : k.isNumeral = true) : k.isSimple = true := by
  cases k <;> first | rfl | cases h

theorem intLiteral_numeral (value : Nat) (text : List Char) : (intLiteral value text).isNumeral = true := by
  unfold intLiteral
  split <;> rfl

theorem withEqual_simple (plain long : Mark) (rest : List Char) :
    (withEqual plain long rest).value.isSimple = true := by
  unfold withEqual
  split <;> rfl

theorem doubled_simple (first second : Char) (long : Mark) (rest : List Char) :
    (doubled first second long rest).value.isSimple = true := by
  unfold doubled
  split <;> rfl

theorem scanString_simple (quote : Char) (rest : List Char) :
    (TokenKind.ofExcept (fun s => .string (String.ofList s)) (scanString quote rest).value).isSimple = true := by
  cases (scanString quote rest).value <;> rfl

/-! ### Lines and columns -/

/-- The place behind some text: one line more for each line break, and the column starts anew at each. -/
def Position.behind (before : List Char) : Position :=
  ⟨1 + before.count '\n', 1 + (before.reverse.takeWhile (· != '\n')).length⟩

theorem Position.behind_concat (before : List Char) (c : Char) :
    behind (before ++ [c]) = (behind before).after c := by
  unfold behind after
  rw [List.count_append, List.reverse_append, List.reverse_singleton, List.singleton_append]
  split
  · next hc =>
    subst hc
    rfl
  · next hc =>
    have hcount : [c].count '\n' = 0 := List.count_eq_zero_of_not_mem (by simpa using Ne.symm hc)
    rw [List.takeWhile_cons_of_pos (by simpa using hc), List.length_cons, hcount, Nat.add_zero,
      ← Nat.add_assoc]

theorem Position.walk_eq (front before after : List Char) :
    walk (behind front) (before ++ after) (byteLength before) = behind (front ++ before) := by
  induction before generalizing front with
  | nil =>
    rw [List.append_nil]
    cases after <;> rfl
  | cons c before ih =>
    rw [List.cons_append, walk, byteLength, if_neg (Nat.ne_of_gt (Nat.add_pos_left c.utf8Size_pos _)),
      Nat.add_sub_cancel_left, ← behind_concat, ih, List.append_assoc]
    rfl

theorem Position.ofOffset_eq (before after : String) :
    ofOffset (before ++ after) before.utf8ByteSize = behind before.toList := by
  rw [ofOffset, String.toList_append, ← String.ofList_toList (s := before), utf8ByteSize_ofList,
    String.toList_ofList]
  exact walk_eq [] before.toList after.toList

/-! ### Runs of readers -/

/-- The second stream is what is left of the first one when some tokens of a kind are taken. -/
structure TokenStream.Reaches (P : Token → Prop) (s s' : TokenStream) : Prop where
  stop : s'.stop = s.stop
  taken : ∃ taken, s.rest = taken ++ s'.rest ∧ ∀ t ∈ taken, P t

namespace TokenStream.Reaches

variable {P Q : Token → Prop} {s s' s'' : TokenStream}

theorem refl : s.Reaches P s := ⟨rfl, [], rfl, nofun⟩

theorem trans (h : s.Reaches P s') (h' : s'.Reaches P s'') : s.Reaches P s'' := by
  obtain ⟨hstop, taken, hrest, htaken⟩ := h
  obtain ⟨hstop', taken', hrest', htaken'⟩ := h'
  refine ⟨hstop'.trans hstop, taken ++ taken', by rw [hrest, hrest', List.append_assoc], fun t ht => ?_⟩
  rcases List.mem_append.1 ht with ht | ht
  · exact htaken t ht
  · exact htaken' t ht

theorem mono (hPQ : ∀ t, P t → Q t) (h : s.Reaches P s') : s.Reaches Q s' := by
  obtain ⟨hstop, taken, hrest, htaken⟩ := h
  exact ⟨hstop, taken, hrest, fun t ht => hPQ t (htaken t ht)⟩

theorem advance (h : P s.current) : s.Reaches P s.advance := by
  obtain ⟨rest, stop⟩ := s
  cases rest with
  | nil => exact refl
  | cons t rest => exact ⟨rfl, [t], rfl, fun u hu => List.mem_singleton.1 hu ▸ h⟩

end TokenStream.Reaches

theorem run_bind {α β : Type} (p : Parse α) (f : α → Parse β) (s : TokenStream) :
    (p >>= f).run s = match p.run s with
      | .ok a s' => (f a).run s'
      | .error e s' => .error e s' := by
  show EStateM.bind p f s = match p s with
    | .ok a s' => f a s'
    | .error e s' => .error e s'
  rw [EStateM.bind]
  cases p s <;> rfl

/-- A refusal is an error at the token in front. -/
theorem refuse_run {α : Type} (wanted : Wanted) (s : TokenStream) :
    ∃ fault, (Parse.refuse (α := α) wanted).run s = .error ⟨fault, s.current.span.start⟩ s := by
  unfold Parse.refuse
  rw [run_bind, show Parse.kind.run s = .ok s.current.kind s from rfl]
  dsimp only
  split <;> exact ⟨_, rfl⟩

/-- The place of a token that a reader can stop at: those in front of it are not malformed. -/
def TokenStream.StopsAt (s : TokenStream) (offset : Nat) : Prop :=
  ∃ s', s.Reaches (fun t => t.kind.isFlawed = false) s' ∧ offset = s'.current.span.start

theorem TokenStream.StopsAt.here {s : TokenStream} : s.StopsAt s.current.span.start := ⟨s, .refl, rfl⟩

variable [Text.IdentifierChars]

/-! ### Well-formed texts -/

/-- A text, or the source of an interpolation in one of its templates, at any depth. -/
inductive Embedded : String → String → Prop
  | refl (source : String) : Embedded source source
  | inside {outer source inner : String} {t : Token} (ht : t ∈ tokens outer)
    (hsource : source ∈ t.kind.sources) (h : Embedded source inner) : Embedded outer inner

/-- No token is malformed, here and in the interpolations. -/
def WellFormed (source : String) : Prop :=
  ∀ inner, Embedded source inner → ∀ t ∈ tokens inner, t.kind.isFlawed = false

/-- A well-formed token with well-formed interpolations. -/
structure Token.Whole (t : Token) : Prop where
  formed : t.kind.isFlawed = false
  inner : ∀ source ∈ t.kind.sources, WellFormed source

theorem wellFormed_of_whole {source : String} (h : ∀ t ∈ tokens source, t.Whole) : WellFormed source := by
  intro inner hinner
  cases hinner with
  | refl => exact fun t ht => (h t ht).formed
  | inside ht hsource hembedded => exact (h _ ht).inner _ hsource inner hembedded

theorem Token.Whole.of_plain {t : Token} (h : t.kind.isPlain = true) : t.Whole := by
  obtain ⟨kind, span⟩ := t
  cases kind with
  | template => cases h
  | flawed => cases h
  | _ => exact ⟨rfl, fun _ hsource => nomatch hsource⟩

/-! ### What a reader takes -/

theorem TokenStream.StopsAt.behind {s s' : TokenStream} {offset : Nat} (h : s.Reaches Token.Whole s')
    (hstop : s'.StopsAt offset) : s.StopsAt offset := by
  obtain ⟨s'', hreach, hoffset⟩ := hstop
  exact ⟨s'', (h.mono fun _ => Token.Whole.formed).trans hreach, hoffset⟩

/-- A reader with a result has taken whole tokens, and one with an error stands at a token. -/
structure Takes {α : Type} (s : TokenStream) (p : Parse α) : Prop where
  result : ∀ a s', p.run s = .ok a s' → s.Reaches Token.Whole s'
  error : ∀ e s', p.run s = .error e s' → s.StopsAt e.offset

/-- The same, and with a result nothing is left. -/
structure Finishes {α : Type} (s : TokenStream) (p : Parse α) : Prop extends Takes s p where
  finished : ∀ a s', p.run s = .ok a s' → s'.current.kind = .endOfInput

namespace Takes

variable {α β : Type} {s : TokenStream} {p q : Parse α} {m : Mark}

/-- What a reader takes depends on what it does here only. -/
theorem congr (hq : Takes s q) (h : p.run s = q.run s) : Takes s p :=
  ⟨fun a s' hrun => hq.result a s' (h ▸ hrun), fun e s' hrun => hq.error e s' (h ▸ hrun)⟩

/-- An error at the token in front. -/
theorem of_error {fault : SyntaxFault} {s' : TokenStream}
    (h : p.run s = .error ⟨fault, s.current.span.start⟩ s') : Takes s p where
  result _ _ hrun := by cases h.symm.trans hrun
  error e s' hrun := by
    cases h.symm.trans hrun
    exact .here

theorem pure {a : α} : Takes s (pure a) where
  result := by
    rintro _ _ ⟨⟩
    exact .refl
  error := by rintro _ _ ⟨⟩

theorem fail (fault : SyntaxFault) : Takes s (Parse.fail (α := α) fault) := of_error rfl

theorem refuse (wanted : Wanted) : Takes s (Parse.refuse (α := α) wanted) := by
  obtain ⟨fault, hrun⟩ := refuse_run (α := α) wanted s
  exact of_error hrun

theorem bind {f : α → Parse β} (hp : Takes s p) (hf : ∀ a s', Takes s' (f a)) : Takes s (p >>= f) where
  result b s'' hrun := by
    rw [run_bind] at hrun
    split at hrun
    · next a s' hp' => exact (hp.result a s' hp').trans ((hf a s').result b s'' hrun)
    · cases hrun
  error e s'' hrun := by
    rw [run_bind] at hrun
    split at hrun
    · next a s' hp' => exact .behind (hp.result a s' hp') ((hf a s').error e s'' hrun)
    · next hp' =>
      cases hrun
      exact hp.error e s'' hp'

theorem map {f : α → β} (hp : Takes s p) : Takes s (f <$> p) := by
  rw [map_eq_pure_bind]
  exact hp.bind fun _ _ => pure

theorem kind {f : TokenKind → Parse β} (h : Takes s (f s.current.kind)) : Takes s (Parse.kind >>= f) :=
  h.congr rfl

theorem get {f : TokenStream → Parse β} (h : Takes s (f s)) : Takes s (get >>= f) := h.congr rfl

theorem sees {f : Bool → Parse β} (h : Takes s (f (s.current.kind == .mark m))) :
    Takes s (Parse.sees m >>= f) := h.congr rfl

theorem atEnd {f : Bool → Parse β} (h : Takes s (f (s.current.kind == .endOfInput))) :
    Takes s (Parse.atEnd >>= f) := h.congr rfl

theorem advance (hplain : s.current.kind.isPlain = true) : Takes s Parse.advance where
  result := by
    rintro _ _ ⟨⟩
    exact .advance (.of_plain hplain)
  error := by rintro _ _ ⟨⟩

/-- A token is taken behind a look at it. -/
theorem taking {k : TokenKind} {f : Unit → Parse β} (hkind : s.current.kind = k) (hplain : k.isPlain = true)
    (h : Takes s.advance (f ())) : Takes s (Parse.advance >>= f) := by
  have htoken : s.Reaches Token.Whole s.advance := .advance (.of_plain (hkind ▸ hplain))
  exact ⟨fun b s' hrun => htoken.trans (h.result b s' hrun), fun e s' hrun => .behind htoken (h.error e s' hrun)⟩

theorem expect : Takes s (Parse.expect m) := by
  unfold Parse.expect
  refine sees ?_
  split
  · next hk => exact advance (by rw [eq_of_beq hk]; rfl)
  · exact refuse _

theorem accept : Takes s (Parse.accept m) := by
  unfold Parse.accept
  refine sees ?_
  split
  · next hk => exact taking (eq_of_beq hk) rfl pure
  · exact pure

theorem identifier : Takes s Parse.identifier := by
  unfold Parse.identifier
  refine kind ?_
  split
  · next hk => exact taking hk rfl pure
  · exact refuse _

end Takes

namespace Finishes

variable {α β : Type} {s : TokenStream} {p : Parse α}

theorem bind {f : α → Parse β} (hp : Takes s p) (hf : ∀ a s', Finishes s' (f a)) : Finishes s (p >>= f) where
  toTakes := hp.bind fun a s' => (hf a s').toTakes
  finished b s'' hrun := by
    rw [run_bind] at hrun
    split at hrun
    · next a s' hp' => exact (hf a s').finished b s'' hrun
    · cases hrun

theorem map (f : α → β) (hp : Finishes s p) : Finishes s (f <$> p) where
  toTakes := hp.toTakes.map
  finished b s' hrun := by
    rw [map_eq_pure_bind, run_bind] at hrun
    split at hrun
    · next a s'' hp' =>
      cases hrun
      exact hp.finished a s' hp'
    · cases hrun

theorem refuse (wanted : Wanted) : Finishes s (Parse.refuse (α := α) wanted) where
  toTakes := .refuse wanted
  finished a s' hrun := by
    obtain ⟨fault, herror⟩ := refuse_run (α := α) wanted s
    cases herror.symm.trans hrun

/-- Behind the last token there is a result, and otherwise something else to do. -/
theorem atEnd {a : α} (h : s.current.kind ≠ .endOfInput → Finishes s p) :
    Finishes s (do if ← Parse.atEnd then return a else p) := by
  have hrun : (do if ← Parse.atEnd then return a else p : Parse α).run s =
      if s.current.kind == .endOfInput then .ok a s else p.run s := by
    show (if (s.current.kind == .endOfInput) = true then Pure.pure a else p : Parse α).run s = _
    split <;> rfl
  by_cases hend : s.current.kind = .endOfInput
  · rw [hend] at hrun
    exact { result := fun _ _ h => by cases hrun.symm.trans h; exact .refl
            error := fun _ _ h => by cases hrun.symm.trans h
            finished := fun _ _ h => by cases hrun.symm.trans h; exact hend }
  · rw [if_neg (by simpa using hend)] at hrun
    have hp := h hend
    exact { toTakes := hp.toTakes.congr hrun
            finished := fun b s' h => hp.finished b s' (hrun ▸ h) }

end Finishes

/-! ### No token is the end of the input -/

theorem scanNumber_numeral (first : Char) (rest : List Char) :
    (scanNumber first rest).value.isNumeral = true := by
  have hhex (cs : List Char) : (scanHex cs).value.isNumeral = true := by
    unfold scanHex
    dsimp only
    split
    · rfl
    · exact intLiteral_numeral _ _
  unfold scanNumber
  split
  · exact hhex _
  · exact hhex _
  · unfold scanDecimal
    dsimp only
    split
    · exact intLiteral_numeral _ _
    · rfl

/-- What starts with no back quote is no template. -/
theorem scan_simple {c : Char} (hc : c ≠ '\x60') (rest : List Char) : (scan c rest).value.isSimple = true := by
  unfold scan
  split
  case h_11 =>
    unfold scanDot
    split <;> rfl
  case h_12 | h_13 =>
    split
    · rfl
    · exact withEqual_simple _ _ _
  case h_14 =>
    split
    · exact withEqual_simple _ _ _
    · exact withEqual_simple _ _ _
  case h_15 | h_16 | h_17 | h_18 | h_19 | h_20 => exact withEqual_simple _ _ _
  case h_21 | h_22 | h_23 => exact doubled_simple _ _ _ _
  case h_24 | h_25 => exact scanString_simple _ _
  case h_26 => exact absurd rfl hc
  case h_27 =>
    split
    · exact TokenKind.simple_of_numeral (scanNumber_numeral _ _)
    · split
      · unfold scanName
        dsimp only
        split <;> rfl
      · rfl
  all_goals rfl

/-- What starts with a back quote is a template. -/
theorem scan_template (rest : List Char) : scan '\x60' rest =
    ((scanTemplate rest).map (.ofExcept TemplateParts.toKind)).behind 1 := rfl

theorem scan_kind (c : Char) (rest : List Char) : (scan c rest).value ≠ .endOfInput := by
  by_cases hc : c = '\x60'
  · subst hc
    rw [scan_template]
    show TokenKind.ofExcept TemplateParts.toKind (scanTemplate rest).value ≠ .endOfInput
    cases (scanTemplate rest).value <;> nofun
  · intro hkind
    have hsimple := scan_simple hc rest
    rw [hkind] at hsimple
    cases hsimple

theorem tokensFrom_kind (count start : Nat) (cs : List Char) :
    ∀ t ∈ tokensFrom count start cs, t.kind ≠ .endOfInput := by
  induction count generalizing start cs with
  | zero => nofun
  | succ count ih =>
    intro t ht
    unfold tokensFrom at ht
    dsimp only at ht
    split at ht
    · obtain rfl := List.mem_singleton.1 ht
      nofun
    · cases ht
    · rcases List.mem_cons.1 ht with rfl | ht
      · exact scan_kind _ _
      · exact ih _ _ t ht

/-- A reader that finishes on a text leaves no token. -/
theorem Finishes.rest_eq_nil {α : Type} {source : String} {p : Parse α} (h : Finishes (.ofSource source) p) {a : α}
    {s' : TokenStream} (hrun : p.run (.ofSource source) = .ok a s') : s'.rest = [] := by
  obtain ⟨-, taken, hrest, -⟩ := h.result a s' hrun
  have hend := h.finished a s' hrun
  cases hleft : s'.rest with
  | nil => rfl
  | cons t rest =>
    rw [TokenStream.current, hleft] at hend
    have ht : t ∈ tokens source := by
      rw [show tokens source = taken ++ s'.rest from hrest, hleft]
      exact List.mem_append_right _ List.mem_cons_self
    exact absurd hend (tokensFrom_kind _ _ _ t ht)

/-- So it has taken all of them. -/
theorem Finishes.whole {α : Type} {source : String} {p : Parse α} (h : Finishes (.ofSource source) p) {a : α}
    {s' : TokenStream} (hrun : p.run (.ofSource source) = .ok a s') : ∀ t ∈ tokens source, t.Whole := by
  obtain ⟨-, taken, hrest, htaken⟩ := h.result a s' hrun
  rw [h.rest_eq_nil hrun, List.append_nil] at hrest
  rwa [show tokens source = taken from hrest]

/-! ### Expressions -/

/-- What the reader of the interpolations behind a template does to the tokens: nothing.  An error stands at
the template, or at the token behind it. -/
structure Interpolates (start : Nat) (sources : List String) (s : TokenStream) (p : Parse (List Expr)) : Prop where
  result : ∀ a s', p.run s = .ok a s' → s' = s ∧ ∀ source ∈ sources, WellFormed source
  error : ∀ e s', p.run s = .error e s' → e.offset = start ∨ e.offset = s.current.span.start

theorem Interpolates.refuse {start : Nat} {sources : List String} {s : TokenStream} (wanted : Wanted) :
    Interpolates start sources s (Parse.refuse wanted) := by
  obtain ⟨fault, hrun⟩ := refuse_run (α := List Expr) wanted s
  refine ⟨fun a s' h => (by cases hrun.symm.trans h), fun e s' h => ?_⟩
  cases hrun.symm.trans h
  exact .inr rfl

/-- A template is taken before its interpolations are read: with a result, they are well formed. -/
theorem Takes.template {s : TokenStream} {chunks sources : List String} {p : Parse (List Expr)}
    (hkind : s.current.kind = .template chunks sources)
    (hp : Interpolates s.current.span.start sources s.advance p) :
    Takes s (do Parse.advance; let parts ← p; return Expr.template chunks parts) := by
  have hformed : s.current.kind.isFlawed = false := by rw [hkind]; rfl
  have hrun : (do Parse.advance; let parts ← p; return Expr.template chunks parts : Parse Expr).run s =
      match p.run s.advance with
      | .ok parts s' => .ok (.template chunks parts) s'
      | .error e s' => .error e s' := by
    rw [run_bind, show Parse.advance.run s = .ok () s.advance from rfl]
    dsimp only
    rw [run_bind]
    cases p.run s.advance <;> rfl
  constructor
  · intro a s' h
    rw [hrun] at h
    split at h
    · next parts s'' hparts =>
      cases h
      obtain ⟨rfl, hsources⟩ := hp.result parts s' hparts
      exact .advance ⟨hformed, by rwa [hkind]⟩
    · cases h
  · intro e s' h
    rw [hrun] at h
    split at h
    · cases h
    · next e' s'' herror =>
      cases h
      -- the error points at the template, or at what stands behind it
      rcases hp.error e s' herror with hoffset | hoffset
      · exact ⟨s, .refl, hoffset⟩
      · exact ⟨s.advance, .advance hformed, hoffset⟩

/-- The readers of expressions take no malformed token. -/
structure ExprsTake (depth : Nat) : Prop where
  expression (s : TokenStream) : Takes s (expression depth)
  conditional (s : TokenStream) : Takes s (conditional depth)
  binaryFrom (level : Nat) (s : TokenStream) : Takes s (binaryFrom depth level)
  binaryBehind (level : Nat) (left : Expr) (s : TokenStream) : Takes s (binaryBehind depth level left)
  unaryBefore (s : TokenStream) : Takes s (unaryBefore depth)
  power (s : TokenStream) : Takes s (power depth)
  unaryAfter (s : TokenStream) : Takes s (unaryAfter depth)
  accessBehind (operand : Expr) (s : TokenStream) : Takes s (accessBehind depth operand)
  listUntil (close : Mark) (s : TokenStream) : Takes s (listUntil depth close)
  fieldsUntil (s : TokenStream) : Takes s (fieldsUntil depth)
  primary (s : TokenStream) : Takes s (primary depth)
  interpolations (start : Nat) (sources : List String) (s : TokenStream) :
    Interpolates start sources s (interpolations depth start sources)
  standalone (s : TokenStream) : Finishes s (standalone depth)

namespace ExprsTake

variable {depth : Nat} (h : ExprsTake depth)
include h

theorem expression_succ (s : TokenStream) : Takes s (Parse.expression (depth + 1)) := by
  rw [Parse.expression]
  refine (h.conditional s).bind fun target s => .kind ?_
  split
  · exact .pure
  · next hop => exact .taking rfl (AssignOp.plain_of_ofKind? hop) ((h.expression _).bind fun _ _ => .pure)

theorem conditional_succ (s : TokenStream) : Takes s (Parse.conditional (depth + 1)) := by
  rw [Parse.conditional]
  refine (h.binaryFrom 0 s).bind fun test s => Takes.accept.bind fun taken s => ?_
  split
  · refine (h.expression s).bind fun yes s => Takes.expect.bind fun _ s => ?_
    exact (h.expression s).bind fun _ _ => .pure
  · exact .pure

theorem binaryFrom_succ (level : Nat) (s : TokenStream) : Takes s (Parse.binaryFrom (depth + 1) level) := by
  rw [Parse.binaryFrom]
  split
  · exact (h.binaryFrom _ s).bind fun left s => h.binaryBehind level left s
  · exact h.unaryBefore s

theorem binaryBehind_succ (level : Nat) (left : Expr) (s : TokenStream) :
    Takes s (Parse.binaryBehind (depth + 1) level left) := by
  rw [Parse.binaryBehind]
  refine .kind ?_
  split
  · exact .pure
  · next hop =>
    refine .taking rfl (BinaryOp.plain_of_ofKind? hop) ?_
    exact (h.binaryFrom _ _).bind fun right s => h.binaryBehind level _ s

theorem unaryBefore_succ (s : TokenStream) : Takes s (Parse.unaryBefore (depth + 1)) := by
  rw [Parse.unaryBefore]
  refine .kind ?_
  split
  · next hop =>
    exact .taking rfl (UnaryOp.plain_of_beforeOfKind? hop) ((h.unaryBefore _).bind fun _ _ => .pure)
  · exact h.power s

theorem power_succ (s : TokenStream) : Takes s (Parse.power (depth + 1)) := by
  rw [Parse.power]
  refine (h.unaryAfter s).bind fun base s => Takes.accept.bind fun taken s => ?_
  split
  · exact (h.unaryBefore s).bind fun _ _ => .pure
  · exact .pure

theorem unaryAfter_succ (s : TokenStream) : Takes s (Parse.unaryAfter (depth + 1)) := by
  rw [Parse.unaryAfter]
  refine (h.primary s).bind fun first s => (h.accessBehind first s).bind fun operand s => .kind ?_
  split
  · next hop => exact .taking rfl (UnaryOp.plain_of_afterOfKind? hop) .pure
  · exact .pure

theorem accessBehind_succ (operand : Expr) (s : TokenStream) : Takes s (Parse.accessBehind (depth + 1) operand) := by
  rw [Parse.accessBehind]
  refine .kind ?_
  split
  · next hk => exact .taking hk rfl ((h.listUntil _ _).bind fun _ s => h.accessBehind _ s)
  · next hk => exact .taking hk rfl (Takes.identifier.bind fun _ s => h.accessBehind _ s)
  · next hk =>
    refine .taking hk rfl ((h.listUntil _ _).bind fun indices s => ?_)
    split
    · exact .fail _
    · exact h.accessBehind _ s
  · exact .pure

theorem listUntil_succ (close : Mark) (s : TokenStream) : Takes s (Parse.listUntil (depth + 1) close) := by
  have hrest (item : Expr) (s : TokenStream) :
      Takes s (do return item :: (← Parse.listUntil depth close)) :=
    (h.listUntil close s).bind fun _ _ => .pure
  rw [Parse.listUntil]
  refine .sees (.atEnd ?_)
  split
  · exact Takes.expect.bind fun _ _ => .pure
  · refine (h.expression s).bind fun item s => .sees ?_
    split
    · exact Takes.expect.bind fun _ s => hrest item s
    · exact hrest item s

theorem fieldsUntil_succ (s : TokenStream) : Takes s (Parse.fieldsUntil (depth + 1)) := by
  have hrest (key : String) (value : Expr) (s : TokenStream) :
      Takes s (do return (key, value) :: (← Parse.fieldsUntil depth)) :=
    (h.fieldsUntil s).bind fun _ _ => .pure
  have hfield (key : String) (s : TokenStream) (hplain : s.current.kind.isPlain = true) : Takes s (do
      Parse.advance
      Parse.expect .colon
      let value ← Parse.expression depth
      if !(← Parse.sees .rightBrace) then Parse.expect .comma
      let rest ← Parse.fieldsUntil depth
      return (key, value) :: rest) := by
    refine .taking rfl hplain (Takes.expect.bind fun _ s => (h.expression s).bind fun value s => .sees ?_)
    split
    · exact Takes.expect.bind fun _ s => hrest key value s
    · exact hrest key value s
  rw [Parse.fieldsUntil]
  refine .sees (.atEnd ?_)
  split
  · exact Takes.expect.bind fun _ _ => .pure
  · refine .kind ?_
    split
    · next name hk => exact (hfield name s (by rw [hk]; rfl)).congr rfl
    · next text hk => exact (hfield text s (by rw [hk]; rfl)).congr rfl
    · obtain ⟨fault, hrun⟩ := refuse_run (α := String) .propertyName s
      exact .of_error (by rw [run_bind, hrun])

theorem primary_succ (s : TokenStream) : Takes s (Parse.primary (depth + 1)) := by
  rw [Parse.primary]
  refine .get ?_
  dsimp only
  split
  · next hk => exact .taking hk rfl .pure
  · next hk => exact .template hk (h.interpolations _ _ _)
  · next hk =>
    exact .taking hk rfl ((h.expression _).bind fun _ _ => Takes.expect.bind fun _ _ => .pure)
  · next hk => exact .taking hk rfl ((h.listUntil _ _).bind fun _ _ => .pure)
  · next hk => exact .taking hk rfl ((h.listUntil _ _).bind fun _ _ => .pure)
  · next hk => exact .taking hk rfl ((h.fieldsUntil _).bind fun _ _ => .pure)
  · split
    · next hv => exact .taking rfl (Literal.plain_of_ofKind? hv) .pure
    · exact .refuse _

theorem interpolations_succ (start : Nat) (sources : List String) (s : TokenStream) :
    Interpolates start sources s (Parse.interpolations (depth + 1) start sources) := by
  cases sources with
  | nil =>
    refine ⟨fun a s' hrun => ?_, fun e s' hrun => (by cases hrun)⟩
    cases hrun
    exact ⟨rfl, nofun⟩
  | cons source sources =>
    have hsource := h.standalone (.ofSource source)
    have hsources := h.interpolations start sources s
    rw [Parse.interpolations]
    split
    · next part left hrun =>
      -- the source is read to its end, so it is well-formed; the others are by induction
      have hinner := wellFormed_of_whole (hsource.whole hrun)
      constructor
      · intro parts s' hparts
        rw [run_bind] at hparts
        split at hparts
        · next rest s'' hrest =>
          cases hparts
          obtain ⟨rfl, hothers⟩ := hsources.result rest s' hrest
          exact ⟨rfl, List.forall_mem_cons.2 ⟨hinner, hothers⟩⟩
        · cases hparts
      · intro e s' hparts
        rw [run_bind] at hparts
        split at hparts
        · cases hparts
        · next herror =>
          cases hparts
          exact hsources.error e s' herror
    · refine ⟨fun a s' hrun => (by cases hrun), fun e s' hrun => ?_⟩
      cases hrun
      exact .inl rfl

theorem standalone_succ (s : TokenStream) : Finishes s (Parse.standalone (depth + 1)) := by
  rw [Parse.standalone]
  refine .bind (h.expression s) fun value s => .atEnd fun _ => .refuse _

end ExprsTake

theorem exprs_take : ∀ depth, ExprsTake depth
  | 0 =>
    { expression := fun _ => .refuse _
      conditional := fun _ => .refuse _
      binaryFrom := fun _ _ => .refuse _
      binaryBehind := fun _ _ _ => .refuse _
      unaryBefore := fun _ => .refuse _
      power := fun _ => .refuse _
      unaryAfter := fun _ => .refuse _
      accessBehind := fun _ _ => .refuse _
      listUntil := fun _ _ => .refuse _
      fieldsUntil := fun _ => .refuse _
      primary := fun _ => .refuse _
      interpolations := fun _ _ _ => .refuse _
      standalone := fun _ => .refuse _ }
  | depth + 1 =>
    have h := exprs_take depth
    ⟨h.expression_succ, h.conditional_succ, h.binaryFrom_succ, h.binaryBehind_succ, h.unaryBefore_succ,
      h.power_succ, h.unaryAfter_succ, h.accessBehind_succ, h.listUntil_succ, h.fieldsUntil_succ, h.primary_succ,
      h.interpolations_succ, h.standalone_succ⟩

/-! ### Parts of statements -/

section Parts

variable {s : TokenStream} {depth : Nat}

theorem annotation_takes : Takes s annotation := by
  unfold annotation
  refine Takes.accept.bind fun taken s => ?_
  split
  · refine .kind ?_
    split
    · next hk => exact .taking hk rfl .pure
    · next hk => exact .taking hk rfl .pure
    · exact .refuse _
  · exact .pure

theorem paramsBehind_takes (count : Nat) : Takes s (paramsBehind count) := by
  induction count generalizing s with
  | zero => exact .pure
  | succ count ih =>
    rw [paramsBehind]
    refine Takes.accept.bind fun taken s => ?_
    split
    · refine Takes.identifier.bind fun name s => annotation_takes.bind fun typeName s => ?_
      exact ih.bind fun _ _ => .pure
    · exact .pure

theorem params_takes : Takes s Parse.params := by
  unfold Parse.params
  refine .sees ?_
  split
  · exact .pure
  · refine Takes.identifier.bind fun name s => annotation_takes.bind fun typeName s => .get ?_
    exact (paramsBehind_takes _).bind fun _ _ => .pure

theorem declaration_takes {k : Keyword} (hkind : s.current.kind = .keyword k) : Takes s (declaration depth) := by
  unfold declaration
  refine .kind (.taking hkind rfl ?_)
  refine Takes.identifier.bind fun name s => annotation_takes.bind fun typeName s => ?_
  have hend (initial : Option Expr) (s : TokenStream) (constant : Bool) : Takes s (do
      Parse.expect .semicolon
      return { name, initial, constant, typeName : Declaration }) := Takes.expect.bind fun _ _ => .pure
  refine Takes.accept.bind fun taken s => ?_
  split
  · exact ((exprs_take depth).expression s).map.bind fun initial s => hend initial s _
  · split
    · exact (Takes.fail _).bind fun initial s => hend initial s _
    · exact Takes.pure.bind fun initial s => hend initial s _

theorem breakLevel_takes : Takes s breakLevel := by
  unfold breakLevel
  refine .kind ?_
  split
  · next hk =>
    split
    · exact .taking hk rfl .pure
    · exact .fail _
  · exact .pure

theorem expressionUnless_takes (m : Mark) : Takes s (expressionUnless depth m) := by
  unfold expressionUnless
  refine .sees ?_
  split
  · exact .pure
  · exact ((exprs_take depth).expression s).map

theorem expressionStatement_takes : Takes s (expressionStatement depth) := by
  unfold expressionStatement
  exact ((exprs_take depth).expression s).bind fun _ _ => Takes.expect.bind fun _ _ => .pure

theorem loopInitial_takes : Takes s (loopInitial depth) := by
  unfold loopInitial
  refine .kind ?_
  split
  · next hk => exact .taking hk rfl .pure
  · next hk => exact (declaration_takes hk).bind fun _ _ => .pure
  · next hk => exact (declaration_takes hk).bind fun _ _ => .pure
  · next hk => exact (declaration_takes hk).bind fun _ _ => .pure
  · exact expressionStatement_takes.map

end Parts

/-! ### Statements -/

/-- The readers of statements take no malformed token. -/
structure StmtsTake (depth : Nat) : Prop where
  statement (s : TokenStream) : Takes s (statement depth)
  statementsUntilBrace (s : TokenStream) : Takes s (statementsUntilBrace depth)

theorem stmts_take : ∀ depth, StmtsTake depth
  | 0 =>
    { statement := fun _ => .refuse _
      statementsUntilBrace := fun _ => .refuse _ }
  | depth + 1 =>
    have h := stmts_take depth
    have hexpression := (exprs_take depth).expression
    { statement := fun s => by
        rw [Parse.statement]
        refine .kind ?_
        split
        · next hk => exact (declaration_takes hk).bind fun _ _ => .pure
        · next hk => exact (declaration_takes hk).bind fun _ _ => .pure
        · next hk => exact (declaration_takes hk).bind fun _ _ => .pure
        · next hk =>
          refine .taking hk rfl (Takes.identifier.bind fun name s => Takes.expect.bind fun _ s => ?_)
          refine params_takes.bind fun params s => Takes.expect.bind fun _ s => ?_
          refine annotation_takes.bind fun returns s => Takes.expect.bind fun _ s => ?_
          exact (h.statementsUntilBrace s).bind fun _ _ => .pure
        · next hk =>
          refine .taking hk rfl (Takes.expect.bind fun _ s => (hexpression s).bind fun test s => ?_)
          refine Takes.expect.bind fun _ s => (h.statement s).bind fun yes s => .kind ?_
          split
          · next helse => exact .taking (eq_of_beq helse) rfl ((h.statement _).bind fun _ _ => .pure)
          · exact .pure
        · next hk =>
          refine .taking hk rfl (Takes.expect.bind fun _ s => (hexpression s).bind fun test s => ?_)
          exact Takes.expect.bind fun _ s => (h.statement s).bind fun _ _ => .pure
        · next hk =>
          refine .taking hk rfl (Takes.expect.bind fun _ s => loopInitial_takes.bind fun initial s => ?_)
          refine (expressionUnless_takes _).bind fun test s => Takes.expect.bind fun _ s => ?_
          refine (expressionUnless_takes _).bind fun step s => Takes.expect.bind fun _ s => ?_
          exact (h.statement s).bind fun _ _ => .pure
        · next hk =>
          refine .taking hk rfl ((expressionUnless_takes _).bind fun value s => ?_)
          exact Takes.expect.bind fun _ _ => .pure
        · next hk =>
          exact .taking hk rfl (breakLevel_takes.bind fun level s => Takes.expect.bind fun _ _ => .pure)
        · next hk => exact .taking hk rfl ((h.statementsUntilBrace _).bind fun _ _ => .pure)
        · next hk => exact .taking hk rfl .pure
        · exact expressionStatement_takes
      statementsUntilBrace := fun s => by
        rw [Parse.statementsUntilBrace]
        refine .sees (.atEnd ?_)
        split
        · exact Takes.expect.bind fun _ _ => .pure
        · refine (h.statement s).bind fun first s => (h.statementsUntilBrace s).bind fun _ _ => .pure }

theorem statementsToEnd_finishes (depth : Nat) (s : TokenStream) : Finishes s (statementsToEnd depth) := by
  induction depth generalizing s with
  | zero => exact .refuse _
  | succ depth ih =>
    rw [statementsToEnd]
    refine .atEnd fun _ => .bind ((stmts_take depth).statement s) fun first s => ?_
    exact (ih s).map _

/-! ### Texts -/

/-- A reader that answers on a whole text has run on its tokens. -/
theorem run_of_runOn {α : Type} {p : Nat → Parse α} {source : String} {a : α} (h : runOn p source = .ok a) :
    ∃ s, (p (depthBound source)).run (.ofSource source) = .ok a s := by
  unfold runOn at h
  split at h
  · next s hrun =>
    cases h
    exact ⟨s, hrun⟩
  · cases h

/-- The tokens of a program are not malformed. -/
theorem program_formed {source : String} {body : List Stmt} (h : parseProgram source = .ok body) :
    ∀ t ∈ tokens source, t.kind.isFlawed = false := by
  obtain ⟨s, hrun⟩ := run_of_runOn h
  exact fun t ht => ((statementsToEnd_finishes _ _).whole hrun t ht).formed

/-- Nor are those of an expression. -/
theorem expression_formed {source : String} {e : Expr} (h : parseExpression source = .ok e) :
    ∀ t ∈ tokens source, t.kind.isFlawed = false := by
  obtain ⟨s, hrun⟩ := run_of_runOn h
  exact fun t ht => (((exprs_take _).standalone _).whole hrun t ht).formed

/-- A text that is read to its end has no malformed token, and no interpolation in it has one at any depth.
A text that is not is refused at a token, or at its end: no token in front of that place is malformed, and the
line and the column are those of that place. -/
theorem parse_stops (source : String) :
    (∀ body, parse source = .ok body → WellFormed source) ∧
    (∀ failure, parse source = .error failure → ∃ fault before after taken rest,
      failure = .malformed fault (.behind before.toList) ∧ source = before ++ after ∧
        tokens source = taken ++ rest ∧ (∀ t ∈ taken, t.kind.isFlawed = false) ∧
        before.utf8ByteSize = (rest.head?.map (·.span.start)).getD source.utf8ByteSize) := by
  have hread := statementsToEnd_finishes (depthBound source) (.ofSource source)
  unfold parse parseProgram runOn
  cases hrun : (statementsToEnd (depthBound source)).run (.ofSource source) with
  | ok body s' =>
    refine ⟨fun body' h => wellFormed_of_whole (hread.whole hrun), fun failure h => ?_⟩
    cases h
  | error e s' =>
    refine ⟨fun body h => (by cases h), fun failure h => ?_⟩
    obtain rfl : Failure.ofSyntax source e = failure := Except.error.inj h
    obtain ⟨⟨rest, stop⟩, ⟨hstop, taken, htokens, htaken⟩, hoffset⟩ := hread.error e s' hrun
    obtain rfl : stop = source.utf8ByteSize := hstop
    have htokens : tokens source = taken ++ rest := htokens
    -- the error points at the first token that was not taken, or at the end of the source
    cases rest with
    | nil =>
      have hplace := Position.ofOffset_eq source ""
      rw [String.append_empty] at hplace
      refine ⟨e.fault, source, "", taken, [], ?_, String.append_empty.symm, htokens, htaken, rfl⟩
      rw [Failure.ofSyntax, show e.offset = source.utf8ByteSize from hoffset, hplace]
    | cons t rest =>
      obtain ⟨before, text, after, hsource, hspan, -⟩ :=
        token_placed (t := t) (htokens ▸ List.mem_append_right _ List.mem_cons_self)
      have hplace := Position.ofOffset_eq before (text ++ after)
      rw [← String.append_assoc, ← hsource] at hplace
      have hstart : t.span.start = before.utf8ByteSize := by rw [hspan]
      refine ⟨e.fault, before, text ++ after, taken, t :: rest, ?_, ?_, htokens, htaken, hstart.symm⟩
      · rw [Failure.ofSyntax, show e.offset = t.span.start from hoffset, hstart, hplace]
      · rw [hsource, String.append_assoc]

end StackScript.Syntax
