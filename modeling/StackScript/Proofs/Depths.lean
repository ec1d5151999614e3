import StackScript.Proofs.Refusals

/-!
# The depth of reading

The readers are given a depth, and refuse whatever is in front at depth nought.  They do not get there: a
call takes a token or goes down one of the levels of an expression, and the interpolations of a template are
shorter than the template.  So two depths come to the same wherever both of them cover what there is to read.

* `TokenStream.weight`: how much there is to read, no more than a text has characters and one.
* `ReadAlike`: two readers do the same, and take so much at least.
* `exprs_readAlike`, `stmts_readAlike`: a reader does the same at two depths that cover what there is to read.
* `program_depth`, `expression_depth`: a text is read as with any greater depth.
-/

namespace StackScript.Syntax

open Parse

/-! ### How much there is to read -/

/-- How much there is to read in interpolations, each with its opening and its closing brace. -/
def sourcesWeight (sources : List String) : Nat := (sources.map fun source => source.length + 2).sum

/-- How much there is to read in a token: the token, and what it has in its interpolations. -/
def TokenKind.weight (k : TokenKind) : Nat := sourcesWeight k.sources + 1

/-- How much there is to read. -/
def TokenStream.weight (s : TokenStream) : Nat := (s.rest.map fun t => t.kind.weight).sum

/-- How much there is to read in the interpolations of a template. -/
def TemplateParts.weight (p : TemplateParts) : Nat := (p.sources.map fun source => source.length + 2).sum

theorem TemplateParts.weight_toKind (p : TemplateParts) : p.toKind.weight = p.weight + 1 := by
  unfold TokenKind.weight sourcesWeight weight toKind TokenKind.sources
  dsimp only
  rw [List.map_map]
  simp [Function.comp_def]

theorem TemplateParts.weight_closeSource (p : TemplateParts) : p.closeSource.weight = p.weight + 2 := by
  simp [weight, closeSource, Nat.add_comm]

theorem TemplateParts.weight_consSource {p : TemplateParts} (c : Char) (h : p.sources ≠ []) :
    (p.consSource c).sources ≠ [] ∧ (p.consSource c).weight = p.weight + 1 := by
  obtain ⟨source, rest, hsources⟩ := List.exists_cons_of_ne_nil h
  simp [weight, consSource, consHead, hsources]
  omega

/-- A reader of templates takes more characters than there is to read in the interpolations it has found. -/
def Roomy (r : Reading (Except Flaw TemplateParts)) : Prop :=
  ∀ p, r.value = .ok p → p.weight < r.length

/-- The same inside of an interpolation, where the closing quote is not counted. -/
def RoomyInside (r : Reading (Except Flaw TemplateParts)) : Prop :=
  ∀ p, r.value = .ok p → p.sources ≠ [] ∧ p.weight ≤ r.length

section Roomy

variable {r : Reading (Except Flaw TemplateParts)} {f : TemplateParts → TemplateParts} {n : Nat}

theorem Roomy.of_error {flaw : Flaw} (h : r.value = .error flaw) : Roomy r := by
  intro p hp
  rw [h] at hp
  cases hp

theorem RoomyInside.of_error {flaw : Flaw} (h : r.value = .error flaw) : RoomyInside r := by
  intro p hp
  rw [h] at hp
  cases hp

theorem Roomy.behind (h : Roomy r) (hf : ∀ p, (f p).weight = p.weight) :
    Roomy ((r.map (Except.map f)).behind n) := by
  intro p hp
  obtain ⟨q, hq, rfl⟩ := value_behind hp
  rw [hf]
  exact Nat.lt_add_right n (h q hq)

theorem Roomy.closeSource (h : Roomy r) : RoomyInside ((r.map (Except.map .closeSource)).behind 1) := by
  intro p hp
  obtain ⟨q, hq, rfl⟩ := value_behind hp
  refine ⟨List.cons_ne_nil _ _, ?_⟩
  rw [TemplateParts.weight_closeSource]
  exact Nat.succ_le_succ (h q hq)

theorem RoomyInside.openSource (h : RoomyInside r) : Roomy ((r.map (Except.map .openSource)).behind 2) := by
  intro p hp
  obtain ⟨q, hq, rfl⟩ := value_behind hp
  exact Nat.lt_succ_of_le (Nat.le_succ_of_le (h q hq).2)

theorem RoomyInside.consSource (c : Char) (h : RoomyInside r) :
    RoomyInside ((r.map (Except.map (.consSource c))).behind 1) := by
  intro p hp
  obtain ⟨q, hq, rfl⟩ := value_behind hp
  obtain ⟨hsources, hweight⟩ := h q hq
  obtain ⟨hsources', hweight'⟩ := TemplateParts.weight_consSource c hsources
  refine ⟨hsources', ?_⟩
  rw [hweight']
  exact Nat.succ_le_succ hweight

end Roomy

theorem scanTemplate_roomy (cs : List Char) : Roomy (scanTemplate cs) := by
  induction cs using scanTemplate.induct
    (motive_2 := fun depth cs => RoomyInside (scanInterpolation depth cs))
    (motive_3 := fun quote depth cs => RoomyInside (scanQuoted quote depth cs))
  case case1 => exact .of_error rfl
  -- what stands in an interpolation has its braces and quotes around it
  case case2 rest ih =>
    rw [scanTemplate]
    exact ih.openSource
  case case3 => exact .of_error rfl
  case case4 letter rest c hc ih =>
    rw [scanTemplate, hc]
    exact ih.behind fun _ => rfl
  case case5 letter rest hc =>
    rw [scanTemplate, hc]
    exact .of_error rfl
  case case6 rest hopen hend hescape =>
    rw [scanTemplate_cons (by decide) (by simp), if_pos rfl]
    rintro p ⟨⟩
    exact Nat.zero_lt_one
  case case7 c rest hopen hend hescape hquote ih =>
    rw [scanTemplate, if_neg hquote]
    · exact ih.behind fun _ => rfl
    · exact hopen
    · exact hend
    · exact hescape
  case case8 => exact .of_error rfl
  case case9 depth c rest hclose ih =>
    rw [scanInterpolation, if_pos hclose]
    exact ih.closeSource
  case case10 depth c rest hopen ihopen ihclose ihquoted ih =>
    rw [scanInterpolation, if_neg hopen]
    refine .consSource c ?_
    split
    · exact ihopen
    · split
      · exact ihclose
      · split
        · exact ihquoted
        · exact ih
  case case11 => exact .of_error rfl
  case case12 => exact .of_error rfl
  case case13 quote depth letter rest ih =>
    rw [scanQuoted]
    -- two characters of the text are two characters of the source
    intro p hp
    obtain ⟨q, hq, rfl⟩ := value_behind hp
    obtain ⟨hsources, hweight⟩ := ih q hq
    obtain ⟨hsources, hletter⟩ := TemplateParts.weight_consSource letter hsources
    obtain ⟨hsources, hescape⟩ := TemplateParts.weight_consSource '\\' hsources
    refine ⟨hsources, ?_⟩
    rw [hescape, hletter]
    exact Nat.add_le_add_right hweight 2
  case case14 quote depth c rest hend hescape ih ihquoted =>
    rw [scanQuoted]
    · refine .consSource c ?_
      split
      · exact ih
      · exact ihquoted
    · exact hend
    · exact hescape

theorem TokenKind.weight_of_simple {k : TokenKind} (h : k.isSimple = true) : k.weight = 1 := by
  cases k with
  | template => cases h
  | _ => rfl

/-- A token has at least as many characters as there is to read in it. -/
theorem scan_weight [Text.IdentifierChars] (c : Char) (rest : List Char) :
    (scan c rest).value.weight ≤ (scan c rest).length := by
  obtain ⟨n, hlength, -⟩ := scan_anchored c rest
  by_cases hc : c = '\x60'
  · subst hc
    have hroomy := scanTemplate_roomy rest
    rw [scan_template] at hlength ⊢
    show (TokenKind.ofExcept TemplateParts.toKind (scanTemplate rest).value).weight ≤
      (scanTemplate rest).length + 1
    cases hparts : (scanTemplate rest).value with
    | ok p =>
      show p.toKind.weight ≤ _
      rw [TemplateParts.weight_toKind]
      exact Nat.succ_le_succ (Nat.le_of_lt (hroomy p hparts))
    | error e => exact Nat.succ_le_succ (Nat.zero_le _)
  · rw [TokenKind.weight_of_simple (scan_simple hc rest), hlength]
    exact Nat.succ_le_succ (Nat.zero_le n)

/-- There is no more to read than a text has characters, and one for a comment without an end. -/
theorem tokensFrom_weight [Text.IdentifierChars] (count start : Nat) (cs : List Char) :
    ((tokensFrom count start cs).map fun t => t.kind.weight).sum ≤ cs.length + 1 := by
  induction count generalizing start cs with
  | zero => exact Nat.zero_le _
  | succ count ih =>
    rw [tokensFrom]
    dsimp only
    split
    · exact Nat.succ_le_succ (Nat.zero_le _)
    · exact Nat.zero_le _
    · next c rest _ hrest =>
      obtain ⟨n, hlength, hn, -⟩ := scan_anchored c rest
      have hle : (c :: rest).length ≤ cs.length := by
        rw [← hrest, List.length_drop]
        exact Nat.sub_le _ _
      have hmore := ih (start + byteLength (cs.take (blanks cs).length) +
        byteLength ((c :: rest).take (scan c rest).length)) ((c :: rest).drop (scan c rest).length)
      have hweight := scan_weight c rest
      rw [List.map_cons, List.sum_cons]
      rw [List.length_drop] at hmore
      rw [List.length_cons] at hmore hle
      dsimp only
      omega

theorem weight_ofSource [Text.IdentifierChars] (source : String) :
    (TokenStream.ofSource source).weight ≤ source.length + 1 := by
  have h := tokensFrom_weight (source.length + 1) 0 source.toList
  rwa [String.length_toList] at h

/-! ### Readers that do the same -/

/-- Taking a token leaves less to read. -/
theorem TokenStream.weight_advance {s : TokenStream} (h : s.current.kind ≠ .endOfInput) :
    s.advance.weight + s.current.kind.weight = s.weight := by
  obtain ⟨rest, stop⟩ := s
  cases rest with
  | nil => exact absurd rfl h
  | cons t rest => exact Nat.add_comm _ _

theorem TokenStream.Reaches.weight_le {P : Token → Prop} {s s' : TokenStream} (h : s.Reaches P s') :
    s'.weight ≤ s.weight := by
  obtain ⟨-, taken, hrest, -⟩ := h
  rw [weight, weight, hrest, List.map_append, List.sum_append]
  exact Nat.le_add_left _ _

/-- Two readers do the same, and with a result they have taken so much at least. -/
structure ReadAlike {α : Type} (count : Nat) (s : TokenStream) (p q : Parse α) : Prop where
  same : p.run s = q.run s
  taken : ∀ a s', p.run s = .ok a s' → s'.weight + count ≤ s.weight

/-- What stands for an operator or for a value is not the end of the input. -/
theorem TokenKind.ne_end {α : Type} {f : TokenKind → Option α} {k : TokenKind} {a : α} (h : f k = some a)
    (hend : f .endOfInput = none) : k ≠ .endOfInput := by
  rintro rfl
  cases hend.symm.trans h

namespace ReadAlike

variable {α β : Type} {count : Nat} {s : TokenStream} {p q : Parse α} {m : Mark}

/-- What readers take depends on what they do here only. -/
theorem congr {p' q' : Parse α} (h : ReadAlike count s p' q') (hp : p.run s = p'.run s) (hq : q.run s = q'.run s) :
    ReadAlike count s p q :=
  ⟨hp.trans (h.same.trans hq.symm), fun a s' hrun => h.taken a s' (hp ▸ hrun)⟩

theorem of_takes [Text.IdentifierChars] (h : Takes s p) : ReadAlike 0 s p p :=
  ⟨rfl, fun a s' hrun => (h.result a s' hrun).weight_le⟩

theorem anyway (h : ReadAlike count s p q) : ReadAlike 0 s p q :=
  ⟨h.same, fun a s' hrun => Nat.le_trans (Nat.le_add_right _ count) (h.taken a s' hrun)⟩

theorem pure {a : α} : ReadAlike 0 s (pure a) (pure a) := ⟨rfl, by rintro _ _ ⟨⟩; exact Nat.le_refl _⟩

theorem of_error {e : SyntaxError} {s' : TokenStream} (hp : p.run s = .error e s') (hq : q.run s = .error e s') :
    ReadAlike count s p q :=
  ⟨hp.trans hq.symm, fun a s'' hrun => by cases hp.symm.trans hrun⟩

theorem refuse (wanted : Wanted) : ReadAlike count s (Parse.refuse (α := α) wanted) (Parse.refuse wanted) := by
  obtain ⟨fault, hrun⟩ := refuse_run (α := α) wanted s
  exact .of_error hrun hrun

theorem bind {f g : α → Parse β} (hp : ReadAlike count s p q)
    (hf : ∀ a s', s'.weight + count ≤ s.weight → ReadAlike 0 s' (f a) (g a)) :
    ReadAlike count s (p >>= f) (q >>= g) where
  same := by
    rw [run_bind, run_bind, ← hp.same]
    cases hrun : p.run s with
    | ok a s' => exact (hf a s' (hp.taken a s' hrun)).same
    | error e s' => rfl
  taken b s'' hrun := by
    rw [run_bind] at hrun
    split at hrun
    · next a s' hp' =>
      have hfirst := hp.taken a s' hp'
      have hrest := (hf a s' hfirst).taken b s'' hrun
      omega
    · cases hrun

theorem next {f g : α → Parse β} (hp : ReadAlike count s p q)
    (hf : ∀ a s', s'.weight + count ≤ s.weight → ReadAlike 0 s' (f a) (g a)) :
    ReadAlike 0 s (p >>= f) (q >>= g) := (hp.bind hf).anyway

theorem map {f : α → β} (hp : ReadAlike count s p q) : ReadAlike count s (f <$> p) (f <$> q) := by
  rw [map_eq_pure_bind, map_eq_pure_bind]
  exact hp.bind fun _ _ _ => pure

theorem kind {f g : TokenKind → Parse β} (h : ReadAlike count s (f s.current.kind) (g s.current.kind)) :
    ReadAlike count s (Parse.kind >>= f) (Parse.kind >>= g) := h.congr rfl rfl

theorem get {f g : TokenStream → Parse β} (h : ReadAlike count s (f s) (g s)) :
    ReadAlike count s (get >>= f) (get >>= g) := h.congr rfl rfl

theorem sees {f g : Bool → Parse β}
    (h : ReadAlike count s (f (s.current.kind == .mark m)) (g (s.current.kind == .mark m))) :
    ReadAlike count s (Parse.sees m >>= f) (Parse.sees m >>= g) := h.congr rfl rfl

theorem atEnd {f g : Bool → Parse β}
    (h : ReadAlike count s (f (s.current.kind == .endOfInput)) (g (s.current.kind == .endOfInput))) :
    ReadAlike count s (Parse.atEnd >>= f) (Parse.atEnd >>= g) := h.congr rfl rfl

/-- A token is taken behind a look at it. -/
theorem taking {k : TokenKind} {f g : Unit → Parse β} (hkind : s.current.kind = k) (hend : k ≠ .endOfInput)
    (h : s.advance.weight + sourcesWeight k.sources + 1 = s.weight → ReadAlike 0 s.advance (f ()) (g ())) :
    ReadAlike 1 s (Parse.advance >>= f) (Parse.advance >>= g) := by
  have hweight : s.advance.weight + sourcesWeight k.sources + 1 = s.weight := by
    rw [← hkind]
    exact TokenStream.weight_advance (hkind ▸ hend)
  have hrest := h hweight
  refine ⟨hrest.same, fun b s' hrun => ?_⟩
  have hle := hrest.taken b s' hrun
  omega

theorem accept [Text.IdentifierChars] : ReadAlike 0 s (Parse.accept m) (Parse.accept m) := .of_takes .accept

theorem expect [Text.IdentifierChars] : ReadAlike 0 s (Parse.expect m) (Parse.expect m) := .of_takes .expect

end ReadAlike

/-! ### Expressions -/

variable [Text.IdentifierChars]

/-- The readers of expressions come to the same at two depths, where the smaller one covers what there is to
read: every level of an expression has its place below the levels that call it. -/
structure ExprsReadAlike (depth deeper : Nat) : Prop where
  standalone (s : TokenStream) (h : 20 * s.weight + 14 ≤ depth) :
    ReadAlike 1 s (standalone depth) (standalone deeper)
  expression (s : TokenStream) (h : 20 * s.weight + 13 ≤ depth) :
    ReadAlike 1 s (expression depth) (expression deeper)
  conditional (s : TokenStream) (h : 20 * s.weight + 12 ≤ depth) :
    ReadAlike 1 s (conditional depth) (conditional deeper)
  binaryFrom (level : Nat) (s : TokenStream) (h : 20 * s.weight + 5 + (6 - level) ≤ depth) :
    ReadAlike 1 s (binaryFrom depth level) (binaryFrom deeper level)
  binaryBehind (level : Nat) (left : Expr) (s : TokenStream) (h : 20 * s.weight + 1 ≤ depth) :
    ReadAlike 0 s (binaryBehind depth level left) (binaryBehind deeper level left)
  unaryBefore (s : TokenStream) (h : 20 * s.weight + 4 ≤ depth) :
    ReadAlike 1 s (unaryBefore depth) (unaryBefore deeper)
  power (s : TokenStream) (h : 20 * s.weight + 3 ≤ depth) : ReadAlike 1 s (power depth) (power deeper)
  unaryAfter (s : TokenStream) (h : 20 * s.weight + 2 ≤ depth) :
    ReadAlike 1 s (unaryAfter depth) (unaryAfter deeper)
  accessBehind (operand : Expr) (s : TokenStream) (h : 20 * s.weight + 1 ≤ depth) :
    ReadAlike 0 s (accessBehind depth operand) (accessBehind deeper operand)
  listUntil (close : Mark) (s : TokenStream) (h : 20 * s.weight + 14 ≤ depth) :
    ReadAlike 0 s (listUntil depth close) (listUntil deeper close)
  fieldsUntil (s : TokenStream) (h : 20 * s.weight + 14 ≤ depth) :
    ReadAlike 0 s (fieldsUntil depth) (fieldsUntil deeper)
  primary (s : TokenStream) (h : 20 * s.weight + 1 ≤ depth) : ReadAlike 1 s (primary depth) (primary deeper)
  interpolations (start : Nat) (sources : List String) (s : TokenStream)
    (h : 20 * sourcesWeight sources + 1 ≤ depth) :
    ReadAlike 0 s (interpolations depth start sources) (interpolations deeper start sources)

namespace ExprsReadAlike

variable {depth deeper : Nat} (ih : ExprsReadAlike depth deeper)
include ih

theorem standalone_succ (s : TokenStream) (h : 20 * s.weight + 14 ≤ depth + 1) :
    ReadAlike 1 s (Parse.standalone (depth + 1)) (Parse.standalone (deeper + 1)) := by
  rw [Parse.standalone, Parse.standalone]
  refine (ih.expression s (by omega)).bind fun value s _ => .atEnd ?_
  split
  · exact .pure
  · exact .refuse _

theorem expression_succ (s : TokenStream) (h : 20 * s.weight + 13 ≤ depth + 1) :
    ReadAlike 1 s (Parse.expression (depth + 1)) (Parse.expression (deeper + 1)) := by
  rw [Parse.expression, Parse.expression]
  refine (ih.conditional s (by omega)).bind fun target s hs => .kind ?_
  split
  · exact .pure
  · next hop =>
    refine (ReadAlike.taking rfl (TokenKind.ne_end hop rfl) fun hs' => ?_).anyway
    exact (ih.expression _ (by omega)).next fun _ _ _ => .pure

theorem conditional_succ (s : TokenStream) (h : 20 * s.weight + 12 ≤ depth + 1) :
    ReadAlike 1 s (Parse.conditional (depth + 1)) (Parse.conditional (deeper + 1)) := by
  rw [Parse.conditional, Parse.conditional]
  refine (ih.binaryFrom 0 s (by omega)).bind fun test s hs => ?_
  refine ReadAlike.accept.next fun taken s hs' => ?_
  split
  · refine (ih.expression s (by omega)).next fun yes s hs => ReadAlike.expect.next fun _ s hs' => ?_
    exact (ih.expression s (by omega)).next fun _ _ _ => .pure
  · exact .pure

theorem binaryFrom_succ (level : Nat) (s : TokenStream) (h : 20 * s.weight + 5 + (6 - level) ≤ depth + 1) :
    ReadAlike 1 s (Parse.binaryFrom (depth + 1) level) (Parse.binaryFrom (deeper + 1) level) := by
  rw [Parse.binaryFrom, Parse.binaryFrom]
  split
  · next hlevel =>
    have hpow : level < 6 := hlevel
    exact (ih.binaryFrom (level + 1) s (by omega)).bind fun left s hs =>
      ih.binaryBehind level left s (by omega)
  · exact ih.unaryBefore s (by omega)

theorem binaryBehind_succ (level : Nat) (left : Expr) (s : TokenStream) (h : 20 * s.weight + 1 ≤ depth + 1) :
    ReadAlike 0 s (Parse.binaryBehind (depth + 1) level left) (Parse.binaryBehind (deeper + 1) level left) := by
  rw [Parse.binaryBehind, Parse.binaryBehind]
  refine .kind ?_
  split
  · exact .pure
  · next op hop =>
    refine (ReadAlike.taking rfl (by rintro hk; rw [hk] at hop; cases hop) fun hs => ?_).anyway
    refine (ih.binaryFrom (level + 1) _ (by omega)).next fun right s hs' => ?_
    exact ih.binaryBehind level _ s (by omega)

theorem unaryBefore_succ (s : TokenStream) (h : 20 * s.weight + 4 ≤ depth + 1) :
    ReadAlike 1 s (Parse.unaryBefore (depth + 1)) (Parse.unaryBefore (deeper + 1)) := by
  rw [Parse.unaryBefore, Parse.unaryBefore]
  refine .kind ?_
  split
  · next hop =>
    refine .taking rfl (TokenKind.ne_end hop rfl) fun hs => ?_
    exact (ih.unaryBefore _ (by omega)).next fun _ _ _ => .pure
  · exact ih.power s (by omega)

theorem power_succ (s : TokenStream) (h : 20 * s.weight + 3 ≤ depth + 1) :
    ReadAlike 1 s (Parse.power (depth + 1)) (Parse.power (deeper + 1)) := by
  rw [Parse.power, Parse.power]
  refine (ih.unaryAfter s (by omega)).bind fun base s hs => ReadAlike.accept.next fun taken s hs' => ?_
  split
  · exact (ih.unaryBefore s (by omega)).next fun _ _ _ => .pure
  · exact .pure

theorem unaryAfter_succ (s : TokenStream) (h : 20 * s.weight + 2 ≤ depth + 1) :
    ReadAlike 1 s (Parse.unaryAfter (depth + 1)) (Parse.unaryAfter (deeper + 1)) := by
  rw [Parse.unaryAfter, Parse.unaryAfter]
  refine (ih.primary s (by omega)).bind fun first s hs => ?_
  refine (ih.accessBehind first s (by omega)).next fun operand s hs' => .kind ?_
  split
  · next hop =>
    exact ReadAlike.anyway (.taking rfl (TokenKind.ne_end hop rfl) fun _ => .pure)
  · exact .pure

theorem accessBehind_succ (operand : Expr) (s : TokenStream) (h : 20 * s.weight + 1 ≤ depth + 1) :
    ReadAlike 0 s (Parse.accessBehind (depth + 1) operand) (Parse.accessBehind (deeper + 1) operand) := by
  rw [Parse.accessBehind, Parse.accessBehind]
  refine .kind ?_
  split
  · next hk =>
    refine (ReadAlike.taking hk (by simp) fun hs => ?_).anyway
    refine (ih.listUntil _ _ (by omega)).next fun arguments s hs' => ?_
    exact ih.accessBehind _ s (by omega)
  · next hk =>
    refine (ReadAlike.taking hk (by simp) fun hs => ?_).anyway
    refine (ReadAlike.of_takes .identifier).next fun field s hs' => ?_
    exact ih.accessBehind _ s (by omega)
  · next hk =>
    refine (ReadAlike.taking hk (by simp) fun hs => ?_).anyway
    refine (ih.listUntil _ _ (by omega)).next fun indices s hs' => ?_
    split
    · exact .of_takes (.fail _)
    · exact ih.accessBehind _ s (by omega)
  · exact .pure

theorem listUntil_succ (close : Mark) (s : TokenStream) (h : 20 * s.weight + 14 ≤ depth + 1) :
    ReadAlike 0 s (Parse.listUntil (depth + 1) close) (Parse.listUntil (deeper + 1) close) := by
  have hrest (item : Expr) (s : TokenStream) (h : 20 * s.weight + 14 ≤ depth) :
      ReadAlike 0 s (do return item :: (← Parse.listUntil depth close))
        (do return item :: (← Parse.listUntil deeper close)) :=
    (ih.listUntil close s h).next fun _ _ _ => .pure
  rw [Parse.listUntil, Parse.listUntil]
  refine .sees (.atEnd ?_)
  split
  · exact ReadAlike.expect.next fun _ _ _ => .pure
  · refine (ih.expression s (by omega)).next fun item s hs => .sees ?_
    split
    · exact ReadAlike.expect.next fun _ s hs' => hrest item s (by omega)
    · exact hrest item s (by omega)

theorem fieldsUntil_succ (s : TokenStream) (h : 20 * s.weight + 14 ≤ depth + 1) :
    ReadAlike 0 s (Parse.fieldsUntil (depth + 1)) (Parse.fieldsUntil (deeper + 1)) := by
  have hrest (key : String) (value : Expr) (s : TokenStream) (h : 20 * s.weight + 14 ≤ depth) :
      ReadAlike 0 s (do return (key, value) :: (← Parse.fieldsUntil depth))
        (do return (key, value) :: (← Parse.fieldsUntil deeper)) :=
    (ih.fieldsUntil s h).next fun _ _ _ => .pure
  have hfield (key : String) (s : TokenStream) (h : 20 * s.weight + 14 ≤ depth + 1)
      (hend : s.current.kind ≠ .endOfInput) : ReadAlike 1 s
        (do
          Parse.advance
          Parse.expect .colon
          let value ← Parse.expression depth
          if !(← Parse.sees .rightBrace) then Parse.expect .comma
          let rest ← Parse.fieldsUntil depth
          return (key, value) :: rest)
        (do
          Parse.advance
          Parse.expect .colon
          let value ← Parse.expression deeper
          if !(← Parse.sees .rightBrace) then Parse.expect .comma
          let rest ← Parse.fieldsUntil deeper
          return (key, value) :: rest) := by
    refine .taking rfl hend fun hs => ReadAlike.expect.next fun _ s hs' => ?_
    refine (ih.expression s (by omega)).next fun value s hs => .sees ?_
    split
    · exact ReadAlike.expect.next fun _ s hs' => hrest key value s (by omega)
    · exact hrest key value s (by omega)
  rw [Parse.fieldsUntil, Parse.fieldsUntil]
  refine .sees (.atEnd ?_)
  split
  · exact ReadAlike.expect.next fun _ _ _ => .pure
  · refine .kind ?_
    split
    · next name hk => exact ((hfield name s h (by simp [hk])).congr rfl rfl).anyway
    · next text hk => exact ((hfield text s h (by simp [hk])).congr rfl rfl).anyway
    · obtain ⟨fault, hrun⟩ := refuse_run (α := String) .propertyName s
      exact .of_error (by rw [run_bind, hrun]) (by rw [run_bind, hrun])

theorem primary_succ (s : TokenStream) (h : 20 * s.weight + 1 ≤ depth + 1) :
    ReadAlike 1 s (Parse.primary (depth + 1)) (Parse.primary (deeper + 1)) := by
  rw [Parse.primary, Parse.primary]
  refine .get ?_
  dsimp only
  split
  · next hk => exact .taking hk (by simp) fun _ => .pure
  · next chunks sources hk =>
    refine .taking hk (by simp) fun hs => ?_
    have hsources : sourcesWeight (TokenKind.template chunks sources).sources = sourcesWeight sources := rfl
    exact (ih.interpolations _ sources _ (by omega)).next fun _ _ _ => .pure
  · next hk =>
    refine .taking hk (by simp) fun hs => (ih.expression _ (by omega)).next fun _ _ _ => ?_
    exact ReadAlike.expect.next fun _ _ _ => .pure
  · next hk => exact .taking hk (by simp) fun hs => (ih.listUntil _ _ (by omega)).next fun _ _ _ => .pure
  · next hk => exact .taking hk (by simp) fun hs => (ih.listUntil _ _ (by omega)).next fun _ _ _ => .pure
  · next hk => exact .taking hk (by simp) fun hs => (ih.fieldsUntil _ (by omega)).next fun _ _ _ => .pure
  · split
    · next hv => exact .taking rfl (TokenKind.ne_end hv rfl) fun _ => .pure
    · exact .refuse _

theorem interpolations_succ (start : Nat) (sources : List String) (s : TokenStream)
    (h : 20 * sourcesWeight sources + 1 ≤ depth + 1) :
    ReadAlike 0 s (Parse.interpolations (depth + 1) start sources)
      (Parse.interpolations (deeper + 1) start sources) := by
  cases sources with
  | nil => exact ⟨rfl, fun a s' hrun => by cases hrun; exact Nat.le_refl _⟩
  | cons source sources =>
    have hweight : sourcesWeight (source :: sources) = source.length + 2 + sourcesWeight sources := rfl
    have hsource := weight_ofSource source
    rw [Parse.interpolations, Parse.interpolations,
      (ih.standalone (.ofSource source) (by omega)).same]
    split
    · exact (ih.interpolations start sources s (by omega)).next fun _ _ _ => .pure
    · exact .of_error rfl rfl

end ExprsReadAlike

theorem exprs_readAlike : ∀ {depth deeper}, depth ≤ deeper → ExprsReadAlike depth deeper
  | 0, _, _ =>
    { standalone := fun _ h => absurd h (by omega)
      expression := fun _ h => absurd h (by omega)
      conditional := fun _ h => absurd h (by omega)
      binaryFrom := fun _ _ h => absurd h (by omega)
      binaryBehind := fun _ _ _ h => absurd h (by omega)
      unaryBefore := fun _ h => absurd h (by omega)
      power := fun _ h => absurd h (by omega)
      unaryAfter := fun _ h => absurd h (by omega)
      accessBehind := fun _ _ h => absurd h (by omega)
      listUntil := fun _ _ h => absurd h (by omega)
      fieldsUntil := fun _ h => absurd h (by omega)
      primary := fun _ h => absurd h (by omega)
      interpolations := fun _ _ _ h => absurd h (by omega) }
  | depth + 1, 0, hle => absurd hle (by omega)
  | depth + 1, deeper + 1, hle =>
    have ih := exprs_readAlike (Nat.le_of_succ_le_succ hle)
    ⟨ih.standalone_succ, ih.expression_succ, ih.conditional_succ, ih.binaryFrom_succ, ih.binaryBehind_succ,
      ih.unaryBefore_succ, ih.power_succ, ih.unaryAfter_succ, ih.accessBehind_succ, ih.listUntil_succ,
      ih.fieldsUntil_succ, ih.primary_succ, ih.interpolations_succ⟩

/-! ### Parts of statements -/

section Parts

variable {s : TokenStream} {depth deeper : Nat} (hle : depth ≤ deeper)
include hle

theorem declaration_readAlike {k : Keyword} (hkind : s.current.kind = .keyword k)
    (h : 20 * s.weight + 13 ≤ depth) : ReadAlike 1 s (declaration depth) (declaration deeper) := by
  have hend (name typeName : String) (initial : Option Expr) (constant : Bool) (s : TokenStream) : ReadAlike 0 s
      (do Parse.expect .semicolon; return { name, initial, constant, typeName : Declaration })
      (do Parse.expect .semicolon; return { name, initial, constant, typeName : Declaration }) :=
    ReadAlike.expect.next fun _ _ _ => .pure
  unfold declaration
  refine .kind (.taking hkind (by simp) fun hs => ?_)
  refine (ReadAlike.of_takes .identifier).next fun name s hs' => ?_
  refine (ReadAlike.of_takes annotation_takes).next fun typeName s hs => ReadAlike.accept.next fun taken s hs' => ?_
  split
  · have hvalue := (exprs_readAlike hle).expression s (by omega)
    exact hvalue.map.next fun initial s _ => hend name typeName initial _ s
  · split
    · exact (ReadAlike.of_takes (.fail _)).next fun initial s _ => hend name typeName initial _ s
    · exact ReadAlike.pure.next fun initial s _ => hend name typeName initial _ s

theorem expressionUnless_readAlike (m : Mark) (h : 20 * s.weight + 13 ≤ depth) :
    ReadAlike 0 s (expressionUnless depth m) (expressionUnless deeper m) := by
  unfold expressionUnless
  refine .sees ?_
  split
  · exact .pure
  · exact ((exprs_readAlike hle).expression s h).map.anyway

theorem expressionStatement_readAlike (h : 20 * s.weight + 13 ≤ depth) :
    ReadAlike 1 s (expressionStatement depth) (expressionStatement deeper) := by
  unfold expressionStatement
  exact ((exprs_readAlike hle).expression s h).bind fun _ _ _ => ReadAlike.expect.next fun _ _ _ => .pure

theorem loopInitial_readAlike (h : 20 * s.weight + 13 ≤ depth) :
    ReadAlike 1 s (loopInitial depth) (loopInitial deeper) := by
  unfold loopInitial
  refine .kind ?_
  split
  · next hk => exact .taking hk (by simp) fun _ => .pure
  · next hk => exact (declaration_readAlike hle hk h).bind fun _ _ _ => .pure
  · next hk => exact (declaration_readAlike hle hk h).bind fun _ _ _ => .pure
  · next hk => exact (declaration_readAlike hle hk h).bind fun _ _ _ => .pure
  · exact (expressionStatement_readAlike hle h).map

end Parts

/-! ### Statements -/

/-- The readers of statements come to the same at two depths. -/
structure StmtsReadAlike (depth deeper : Nat) : Prop where
  statement (s : TokenStream) (h : 20 * s.weight + 15 ≤ depth) :
    ReadAlike 1 s (statement depth) (statement deeper)
  statementsUntilBrace (s : TokenStream) (h : 20 * s.weight + 16 ≤ depth) :
    ReadAlike 0 s (statementsUntilBrace depth) (statementsUntilBrace deeper)

theorem stmts_readAlike : ∀ {depth deeper}, depth ≤ deeper → StmtsReadAlike depth deeper
  | 0, _, _ =>
    { statement := fun _ h => absurd h (by omega)
      statementsUntilBrace := fun _ h => absurd h (by omega) }
  | depth + 1, 0, hle => absurd hle (by omega)
  | depth + 1, deeper + 1, hle =>
    have hle := Nat.le_of_succ_le_succ hle
    have ih := stmts_readAlike hle
    have hexpression := (exprs_readAlike hle).expression
    { statement := fun s h => by
        rw [Parse.statement, Parse.statement]
        refine .kind ?_
        -- by the word that the statement begins with; each word read leaves less of the weight
        split
        · next hk => exact (declaration_readAlike hle hk (by omega)).bind fun _ _ _ => .pure
        · next hk => exact (declaration_readAlike hle hk (by omega)).bind fun _ _ _ => .pure
        · next hk => exact (declaration_readAlike hle hk (by omega)).bind fun _ _ _ => .pure
        · next hk =>
          refine .taking hk (by simp) fun hs => (ReadAlike.of_takes .identifier).next fun name s hs' => ?_
          refine ReadAlike.expect.next fun _ s hs => (ReadAlike.of_takes params_takes).next fun params s hs' => ?_
          refine ReadAlike.expect.next fun _ s hs => ?_
          refine (ReadAlike.of_takes annotation_takes).next fun returns s hs' => ReadAlike.expect.next fun _ s hs => ?_
          exact (ih.statementsUntilBrace s (by omega)).next fun _ _ _ => .pure
        · next hk =>
          refine .taking hk (by simp) fun hs => ReadAlike.expect.next fun _ s hs' => ?_
          refine (hexpression s (by omega)).next fun test s hs => ReadAlike.expect.next fun _ s hs' => ?_
          refine (ih.statement s (by omega)).next fun yes s hs => .kind ?_
          split
          · next helse =>
            refine ReadAlike.anyway (.taking (eq_of_beq helse) (by simp) fun hs' => ?_)
            exact (ih.statement _ (by omega)).next fun _ _ _ => .pure
          · exact .pure
        · next hk =>
          refine .taking hk (by simp) fun hs => ReadAlike.expect.next fun _ s hs' => ?_
          refine (hexpression s (by omega)).next fun test s hs => ReadAlike.expect.next fun _ s hs' => ?_
          exact (ih.statement s (by omega)).next fun _ _ _ => .pure
        · next hk =>
          refine .taking hk (by simp) fun hs => ReadAlike.expect.next fun _ s hs' => ?_
          refine (loopInitial_readAlike hle (by omega)).next fun initial s hs => ?_
          refine (expressionUnless_readAlike hle _ (by omega)).next fun test s hs' => ?_
          refine ReadAlike.expect.next fun _ s hs => ?_
          refine (expressionUnless_readAlike hle _ (by omega)).next fun step s hs' => ?_
          refine ReadAlike.expect.next fun _ s hs => ?_
          exact (ih.statement s (by omega)).next fun _ _ _ => .pure
        · next hk =>
          refine .taking hk (by simp) fun hs => ?_
          refine (expressionUnless_readAlike hle _ (by omega)).next fun value s hs' => ?_
          exact ReadAlike.expect.next fun _ _ _ => .pure
        · next hk =>
          refine .taking hk (by simp) fun hs => (ReadAlike.of_takes breakLevel_takes).next fun level s hs' => ?_
          exact ReadAlike.expect.next fun _ _ _ => .pure
        · next hk =>
          exact .taking hk (by simp) fun hs => (ih.statementsUntilBrace _ (by omega)).next fun _ _ _ => .pure
        · next hk => exact .taking hk (by simp) fun _ => .pure
        · exact expressionStatement_readAlike hle (by omega)
      statementsUntilBrace := fun s h => by
        rw [Parse.statementsUntilBrace, Parse.statementsUntilBrace]
        refine .sees (.atEnd ?_)
        split
        · exact ReadAlike.expect.next fun _ _ _ => .pure
        · refine (ih.statement s (by omega)).next fun first s hs => ?_
          exact (ih.statementsUntilBrace s (by omega)).next fun _ _ _ => .pure }

theorem statementsToEnd_readAlike {depth deeper : Nat} (hle : depth ≤ deeper) (s : TokenStream)
    (h : 20 * s.weight + 17 ≤ depth) : ReadAlike 0 s (statementsToEnd depth) (statementsToEnd deeper) := by
  induction depth generalizing deeper s with
  | zero => omega
  | succ depth ih =>
    obtain ⟨deeper, rfl⟩ := Nat.exists_eq_add_of_le' (Nat.le_trans (Nat.succ_pos depth) hle)
    have hle := Nat.le_of_succ_le_succ hle
    rw [statementsToEnd, statementsToEnd]
    refine .atEnd ?_
    split
    · exact .pure
    · refine ((stmts_readAlike hle).statement s (by omega)).next fun first s hs => ?_
      exact (ih hle s (by omega)).next fun _ _ _ => .pure

/-! ### Texts -/

/-- The depth for a text covers all there is to read in it. -/
theorem weight_le_depthBound (source : String) :
    20 * (TokenStream.ofSource source).weight + 17 ≤ depthBound source := by
  have hweight := weight_ofSource source
  have hbytes : source.length ≤ source.utf8ByteSize := by
    have h := length_le_byteLength source.toList
    rwa [String.length_toList, ← utf8ByteSize_ofList, String.ofList_toList] at h
  unfold depthBound
  omega

/-- **A program is read to its end, or refused for what is there**, and never for the depth: any greater depth
comes to the same. -/
theorem program_depth (source : String) {depth : Nat} (h : depthBound source ≤ depth) :
    (statementsToEnd depth).run (.ofSource source) =
      (statementsToEnd (depthBound source)).run (.ofSource source) :=
  (statementsToEnd_readAlike h _ (weight_le_depthBound source)).same.symm

/-- So is an expression. -/
theorem expression_depth (source : String) {depth : Nat} (h : depthBound source ≤ depth) :
    (standalone depth).run (.ofSource source) = (standalone (depthBound source)).run (.ofSource source) := by
  have hcovers := weight_le_depthBound source
  exact ((exprs_readAlike h).standalone _ (by omega)).same.symm

end StackScript.Syntax
