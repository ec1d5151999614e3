import StackScript.Proofs.Brackets
import StackScript.Proofs.Depths
import StackScript.Proofs.Lexemes
import StackScript.Proofs.Rereading

/-!
# Expressions in templates

The search for the brace that closes an interpolation counts braces and skips what stands in quotes.  It passes
an expression from its start to its end, unless a comment holds a brace or a quote, or an interpolation of the
expression a back quote.

* `Passes`: what the search does with a text.
* `lexed_passes`: it counts the braces that the tokens of a text leave open.
* `template_placed`: a template is read when its interpolations are.
* `interpolation_parses`: an expression is read in a template as it is read alone.
-/

namespace StackScript.Syntax

open Parse

/-! ### The search for the end -/

/-- The characters that the search looks at. -/
def guards : List Char := ['\x7b', '\x7d', '"', '\'', '\x60']

/-- Puts a text in front of the first source. -/
def TemplateParts.consAll (text : List Char) (p : TemplateParts) : TemplateParts := text.foldr consSource p

/-- The search takes the text, and is so many braces deep behind it. -/
def Passes (depth : Nat) (text : List Char) (inner : Nat) : Prop :=
  ∀ rest, scanInterpolation depth (text ++ rest) =
    ((scanInterpolation inner rest).map (Except.map (.consAll text))).behind text.length

theorem map_behind_map_behind (f g : TemplateParts → TemplateParts) (m n : Nat)
    (r : Reading (Except Flaw TemplateParts)) :
    (((r.map (Except.map f)).behind m).map (Except.map g)).behind n =
      (r.map (Except.map (g ∘ f))).behind (m + n) := by
  obtain ⟨value, length⟩ := r
  cases value <;> simp [Reading.map, Reading.behind, Except.map, Nat.add_assoc]

namespace Passes

variable {depth between inner : Nat} {text more : List Char} {c quote : Char}

theorem nil : Passes depth [] depth := by
  intro rest
  rw [List.nil_append]
  generalize scanInterpolation depth rest = r
  obtain ⟨value, length⟩ := r
  cases value <;> rfl

theorem append (h : Passes depth text between) (h' : Passes between more inner) :
    Passes depth (text ++ more) inner := by
  intro rest
  have hall : TemplateParts.consAll text ∘ .consAll more = .consAll (text ++ more) :=
    funext fun p => (List.foldr_append (f := TemplateParts.consSource)).symm
  rw [List.append_assoc, h, h', map_behind_map_behind, hall, List.length_append, Nat.add_comm]

theorem plain (hc : c ∉ guards) : Passes depth [c] depth := by
  intro rest
  simp only [guards, List.mem_cons, List.not_mem_nil, or_false, not_or] at hc
  rw [List.singleton_append, scanInterpolation, if_neg (by simp [hc])]
  simp only [hc, if_false, false_or]
  rfl

theorem plains (h : ∀ c ∈ text, c ∉ guards) : Passes depth text depth := by
  induction text with
  | nil => exact nil
  | cons c text ih =>
    exact (plain (h c List.mem_cons_self)).append (ih fun d hd => h d (List.mem_cons_of_mem _ hd))

theorem opened : Passes depth ['\x7b'] (depth + 1) := by
  intro rest
  rw [List.singleton_append, scanInterpolation, if_neg (by simp)]
  rfl

theorem closed : Passes (depth + 1) ['\x7d'] depth := by
  intro rest
  rw [List.singleton_append, scanInterpolation, if_neg (by simp)]
  rfl

/-- In quotes, the search goes on to the quote that closes them. -/
theorem behindQuote (hquote : quote ≠ '\\') (h : Quoted quote text) (rest : List Char) :
    scanQuoted quote depth (text ++ quote :: rest) =
      ((scanInterpolation depth rest).map (Except.map (.consAll (text ++ [quote])))).behind (text.length + 1) := by
  induction h with
  | nil =>
    rw [List.nil_append, scanQuoted_cons hquote, if_pos rfl]
    rfl
  | escape c more ih =>
    rw [List.cons_append, List.cons_append, scanQuoted, ih, map_behind_map_behind]
    rfl
  | plain hc hescape more ih =>
    rw [List.cons_append, scanQuoted_cons hescape, if_neg hc, ih, map_behind_map_behind]
    rfl

theorem quoted (hquote : quote = '"' ∨ quote = '\'' ∨ quote = '\x60') (h : Quoted quote text) :
    Passes depth (quote :: (text ++ [quote])) depth := by
  intro rest
  have hescape : quote ≠ '\\' := by rcases hquote with rfl | rfl | rfl <;> decide
  have hopen : scanInterpolation depth (quote :: (text ++ quote :: rest)) =
      ((scanQuoted quote depth (text ++ quote :: rest)).map (Except.map (.consSource quote))).behind 1 := by
    rcases hquote with rfl | rfl | rfl <;> rfl
  rw [List.cons_append, List.append_assoc, List.singleton_append, hopen, behindQuote hescape h,
    map_behind_map_behind, List.length_cons, List.length_append]
  rfl

end Passes

/-! ### The text of an expression -/

/-- Nothing that the search looks at stands in the text. -/
def Unguarded (cs : List Char) : Prop := ∀ c ∈ cs, c ∉ guards

theorem guards_subset : guards ⊆ signals := by
  intro c hc
  simp only [guards, List.mem_cons, List.not_mem_nil, or_false] at hc
  rcases hc with rfl | rfl | rfl | rfl | rfl <;> decide

theorem Calm.unguarded {cs : List Char} (h : Calm cs) : Unguarded cs :=
  fun c hc hguard => h c hc (guards_subset hguard)

/-- The number of braces among the brackets that are open. -/
def braces (outer : List Mark) : Nat := outer.count .rightBrace

@[simp] theorem braces_rightBrace (outer : List Mark) : braces (.rightBrace :: outer) = braces outer + 1 :=
  List.count_cons_self

theorem braces_other {m : Mark} (h : m ≠ .rightBrace) (outer : List Mark) : braces (m :: outer) = braces outer :=
  List.count_cons_of_ne h

/-- Is the mark a brace, or does it end with one? -/
def Mark.isBrace : Mark → Bool
  | leftBrace | rightBrace | hashBrace => true
  | _ => false

theorem mark_unguarded {m : Mark} (h : m.isBrace = false) : Unguarded m.text.toList := by
  have hall : (m.text.toList.all fun c => !guards.contains c) = true := by
    cases m <;> first | rfl | cases h
  intro c hc hguard
  have hc := List.all_eq_true.1 hall c hc
  rw [List.contains_iff_mem.2 hguard] at hc
  cases hc

/-- Only braces change the number of open ones. -/
theorem braces_nest {m : Mark} (hm : m.isBrace = false) {outer inner : List Mark}
    (h : (TokenKind.mark m).nest outer = some inner) : braces outer = braces inner := by
  cases m
  case leftParen | leftBracket =>
    cases h
    exact (braces_other (by decide) outer).symm
  case rightParen | rightBracket =>
    cases outer with
    | nil => cases h
    | cons close outer =>
      obtain ⟨rfl, h⟩ := Option.ite_none_right_eq_some.1 h
      cases h
      exact braces_other (by decide) _
  case leftBrace | rightBrace | hashBrace => cases hm
  all_goals
    cases h
    rfl

theorem mark_passes {m : Mark} {outer inner : List Mark} (h : (TokenKind.mark m).nest outer = some inner) :
    Passes (braces outer) m.text.toList (braces inner) := by
  cases hm : m.isBrace with
  | false =>
    rw [braces_nest hm h]
    exact .plains (mark_unguarded hm)
  | true =>
    cases m
    case leftBrace =>
      cases h
      rw [braces_rightBrace]
      exact .opened
    case hashBrace =>
      cases h
      rw [braces_rightBrace]
      have hhash : Passes (braces outer) ['#'] (braces outer) := .plain (by decide)
      exact hhash.append .opened
    case rightBrace =>
      cases outer with
      | nil => cases h
      | cons close outer =>
        obtain ⟨rfl, h⟩ := Option.ite_none_right_eq_some.1 h
        cases h
        rw [braces_rightBrace]
        exact .closed
    all_goals cases hm

theorem lexeme_passes {text : List Char} {k : TokenKind} {outer inner : List Mark} (h : Lexeme text k)
    (hshallow : k.Shallow) (hnest : k.nest outer = some inner) : Passes (braces outer) text (braces inner) := by
  cases h with
  | mark m => exact mark_passes hnest
  | word hk hcalm =>
    have hflat : k.nest outer = some outer := by
      cases k with
      | mark => cases hk
      | _ => rfl
    obtain rfl := Option.some.inj (hflat.symm.trans hnest)
    exact .plains hcalm.unguarded
  | string hquote hbody s =>
    cases hnest
    exact .quoted (hquote.elim .inl fun h => .inr (.inl h)) hbody
  | template htext =>
    cases hnest
    obtain ⟨body, rfl, hbody⟩ := htext.quoted hshallow
    exact .quoted (.inr (.inr rfl)) hbody

/-- The search counts the braces that the tokens of a text leave open. -/
theorem lexed_passes {cs : List Char} {ks : List TokenKind} (h : Lexed Unguarded cs ks)
    (hshallow : ∀ k ∈ ks, k.Shallow) {outer inner : List Mark} (hnest : nest ks outer = some inner) :
    Passes (braces outer) cs (braces inner) := by
  induction h generalizing outer with
  | done hcs hgap =>
    cases hnest
    exact .plains hgap
  | comment hcs hline hgap =>
    cases hnest
    exact .plains hgap
  | token hcs hgap htext hslash hmore ih =>
    obtain ⟨between, hk, hks⟩ := Option.bind_eq_some_iff.1 hnest
    refine (Passes.plains hgap).append (.append (lexeme_passes htext (hshallow _ List.mem_cons_self) hk) ?_)
    exact ih (fun k hk => hshallow k (List.mem_cons_of_mem _ hk)) hks

/-! ### Templates -/

theorem consAll_closed (text : List Char) :
    TemplateParts.consAll text (.closeSource .last) = ⟨[[]], [text]⟩ := by
  induction text with
  | nil => rfl
  | cons c text ih =>
    show TemplateParts.consSource c (.consAll text (.closeSource .last)) = _
    rw [ih]
    rfl

theorem depthBound_interpolation (source : String) :
    depthBound ("\x60$\x7b" ++ source ++ "\x7d\x60") = depthBound source + 100 := by
  simp only [depthBound, String.utf8ByteSize_append]
  show 20 * (3 + source.utf8ByteSize + 2 + 2) = _
  omega

/-- What the search passes is read as an interpolation. -/
theorem scanTemplate_interpolation {text : List Char} (h : Passes 0 text 0) :
    scanTemplate ('$' :: '\x7b' :: (text ++ ['\x7d', '\x60'])) =
      ⟨.ok ⟨[[], []], [text]⟩, text.length + 4⟩ := by
  have hclose : scanInterpolation 0 ['\x7d', '\x60'] = ⟨.ok (.closeSource .last), 2⟩ := by
    rw [scanInterpolation, if_pos ⟨rfl, rfl⟩]
    rfl
  rw [scanTemplate, h, hclose]
  show (⟨.ok (TemplateParts.openSource (.consAll text (.closeSource .last))), 2 + text.length + 2⟩ :
    Reading (Except Flaw TemplateParts)) = _
  rw [consAll_closed, Nat.add_comm 2]
  rfl

section Reading

variable [Text.IdentifierChars]

/-- An interpolation on its own is read up to the end of its template. -/
theorem tokens_interpolation {source : String} (h : Passes 0 source.toList 0) :
    (tokens ("\x60$\x7b" ++ source ++ "\x7d\x60")).map (·.kind) = [.template ["", ""] [source]] := by
  have hsource : "\x60$\x7b" ++ source ++ "\x7d\x60" =
      String.ofList ('\x60' :: '$' :: '\x7b' :: (source.toList ++ ['\x7d', '\x60'])) := by
    rw [← String.toList_inj]
    simp
  have hscan : scan '\x60' ('$' :: '\x7b' :: (source.toList ++ ['\x7d', '\x60'])) =
      ⟨.template ["", ""] [source], source.toList.length + 5⟩ := by
    rw [scan_template, scanTemplate_interpolation h]
    show (⟨.template _ [String.ofList source.toList], _⟩ : Reading TokenKind) = _
    rw [String.ofList_toList]
    rfl
  rw [hsource, tokens_alone (blanks_stop (by decide) (by decide) _) (by rw [hscan]; simp), hscan]
  rfl

/-- An expression in the tokens of a text, and nothing behind it. -/
theorem parseExpression_of_placed {source : String} {ts : List TokenKind} {e : Expr} {n : Nat}
    (hts : (tokens source).map (·.kind) = ts) (h : Placed n ts e 0) (hn : n + 14 ≤ depthBound source) :
    parseExpression source = .ok e := by
  have hstops : Stops 0 [] := fun m l hm => by cases hm
  have hreads : ReadsFrom (n + 14) standalone ts e [] := by
    refine .of_succ (Nat.succ_pos _) fun depth hdepth => ?_
    rw [standalone]
    exact .bind_last (h [] hstops depth (by omega)) (.atEnd (.refl _))
  obtain ⟨s, hrun, -⟩ := hreads _ hn (.ofSource source) (by rw [List.append_nil]; exact hts)
  rw [parseExpression, runOn, hrun]
  rfl

/-- The interpolations of a template are read as they are read alone. -/
theorem interpolations_read {sources : List String} {parts : List Expr}
    (h : List.Forall₂ (fun source part => parseExpression source = .ok part) sources parts) {n : Nat}
    (hn : ∀ source ∈ sources, depthBound source ≤ n) (start : Nat) (rest : List TokenKind) :
    ReadsFrom (n + sources.length + 1) (fun depth => interpolations depth start sources) [] parts rest := by
  induction h with
  | nil =>
    refine .of_succ (Nat.succ_pos _) fun depth hdepth => ?_
    show Reads (interpolations (depth + 1) start []) _ _ _
    rw [interpolations]
    exact .refl _
  | @cons source part sources parts hsource hsources ih =>
    refine .of_succ (Nat.succ_pos _) fun depth hdepth => ?_
    show Reads (interpolations (depth + 1) start (source :: sources)) _ _ _
    rw [List.length_cons] at hdepth
    obtain ⟨s, hrun⟩ := run_of_runOn hsource
    have hdeep : depthBound source ≤ depth := by
      have := hn source List.mem_cons_self
      omega
    rw [interpolations, expression_depth source hdeep, hrun]
    have hmore := ih (fun source hsource => hn source (List.mem_cons_of_mem _ hsource)) depth (by omega)
    exact .bind_last hmore (.refl _)

theorem template_placed {sources : List String} {parts : List Expr}
    (h : List.Forall₂ (fun source part => parseExpression source = .ok part) sources parts) {n : Nat}
    (hn : ∀ source ∈ sources, depthBound source ≤ n) (chunks : List String) :
    Placed (n + sources.length + 2) [.template chunks sources] (.template chunks parts) 12 := by
  intro rest
  refine .of_succ (by omega) fun depth hdepth => ?_
  rw [primary]
  refine .get fun s hs => ?_
  dsimp only
  rw [s.kind_current, hs]
  exact .advance (.bind_last (interpolations_read h hn _ rest depth (by omega)) (.refl _))

/-- **An expression is read in a template as it is read alone**, if there is no brace and no quote in its comments
and no back quote in its interpolations.  The search knows no comments, and it takes the first back quote for the
end of a template. -/
theorem interpolation_parses {source : String} {e : Expr} (h : parseExpression source = .ok e)
    (hgaps : ∀ gap ∈ gaps source, Unguarded gap) (hshallow : ∀ t ∈ tokens source, t.kind.Shallow) :
    parseExpression ("\x60$\x7b" ++ source ++ "\x7d\x60") = .ok (.template ["", ""] [e]) := by
  have hlexed := tokens_lexed (expression_formed h) hgaps
  have hkinds : ∀ k ∈ (tokens source).map (·.kind), k.Shallow := by
    intro k hk
    obtain ⟨t, ht, rfl⟩ := List.mem_map.1 hk
    exact hshallow t ht
  have hpasses : Passes 0 source.toList 0 := lexed_passes hlexed hkinds (expression_nests h)
  have hplaced := template_placed (.cons h .nil) (n := depthBound source) (by simp) ["", ""]
  refine parseExpression_of_placed (tokens_interpolation hpasses) (hplaced.lower (Nat.zero_le _) (Nat.le_refl _)) ?_
  rw [depthBound_interpolation, List.length_singleton]
  omega

end Reading

/-- A brace in a comment ends the interpolation. -/
example : (parseExpression "1 /* \x7d */").toBool = true ∧
    (parseExpression "\x60$\x7b1 /* \x7d */\x7d\x60").toBool = false := by decide +kernel

end StackScript.Syntax
