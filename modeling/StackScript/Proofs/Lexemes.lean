import Mathlib.Data.List.TakeWhile
import StackScript.Proofs.Brackets

/-!
# The texts of tokens

What well-formed tokens look like in a text, as far as quotes, brackets and comments go.

* `Calm`: a text with none of them.
* `Lexeme`: the text of a well-formed token.  Quotes and brackets stand in strings, templates and marks only.
* `gaps`: the white space and the comments between the tokens of a text.
* `Lexed`: a text of well-formed tokens and what stands between them (`tokens_lexed`).
-/

namespace StackScript.Syntax

/-! ### Calm characters -/

/-- Quotes, brackets, and the slash that comments start with. -/
def signals : List Char := ['"', '\'', '\x60', '(', ')', '[', ']', '\x7b', '\x7d', '/']

/-- None of these characters stands in the text. -/
def Calm (cs : List Char) : Prop := ∀ c ∈ cs, c ∉ signals

theorem Calm.append {cs ds : List Char} (hcs : Calm cs) (hds : Calm ds) : Calm (cs ++ ds) := by
  intro c hc
  rcases List.mem_append.1 hc with hc | hc
  · exact hcs c hc
  · exact hds c hc

theorem Calm.cons {c : Char} {cs : List Char} (hc : c ∉ signals) (hcs : Calm cs) : Calm (c :: cs) := by
  intro d hd
  rcases List.mem_cons.1 hd with rfl | hd
  · exact hc
  · exact hcs d hd

theorem Calm.nil : Calm [] := fun _ hc => absurd hc List.not_mem_nil

/-- The text of a reading that takes the front of a text and then goes on. -/
theorem Calm.take_add {cs : List Char} {m n : Nat} (hfront : Calm (cs.take m)) (hrest : Calm ((cs.drop m).take n)) :
    Calm (cs.take (m + n)) := by
  rw [List.take_add]
  exact hfront.append hrest

/-- A kind of characters that no signal is of. -/
def Quieting (p : Char → Bool) : Prop := (signals.all fun c => !p c) = true

instance (p : Char → Bool) : Decidable (Quieting p) := inferInstanceAs (Decidable (_ = true))

theorem Quieting.not_signal {p : Char → Bool} (hp : Quieting p) {c : Char} (h : p c = true) : c ∉ signals := by
  intro hc
  have hnot := List.all_eq_true.1 hp c hc
  rw [h] at hnot
  cases hnot

theorem Quieting.takeWhile {p : Char → Bool} (hp : Quieting p) (cs : List Char) : Calm (cs.takeWhile p) :=
  fun _ hc => hp.not_signal (List.mem_takeWhile_imp hc)

theorem quieting_blank : Quieting Text.isBlank := by decide

/-! ### Names and numbers -/

theorem scanName_calm [Text.IdentifierChars] {first : Char} (hfirst : isNameStart first = true) (rest : List Char) :
    Calm ((first :: rest).take (scanName first rest).length) := by
  have hstart : Quieting isNameStart := rfl
  have hcontinue : Quieting isNameContinue := rfl
  show Calm ((first :: rest).take ((rest.takeWhile isNameContinue).length + 1))
  rw [List.take_succ_cons, ← List.prefix_iff_eq_take.1 (List.takeWhile_prefix _)]
  exact .cons (hstart.not_signal hfirst) (hcontinue.takeWhile rest)

theorem digits_calm {isDigit : Char → Bool} (h : Quieting fun c => isDigit c || c == '_') (cs : List Char) :
    Calm (cs.take (digits isDigit cs).length) := by
  show Calm (cs.take (cs.takeWhile _).length)
  rw [← List.prefix_iff_eq_take.1 (List.takeWhile_prefix _)]
  exact h.takeWhile cs

theorem decimals_calm (cs : List Char) : Calm (cs.take (digits Char.isDigit cs).length) :=
  digits_calm (by decide) cs

theorem sign_calm (cs : List Char) : Calm (cs.take (sign cs).length) := by
  unfold sign
  split
  · exact .cons (by decide) .nil
  · exact .cons (by decide) .nil
  · exact .nil

theorem exponent?_calm (cs : List Char) : Calm (cs.take (taken (exponent? cs))) := by
  cases cs with
  | nil => exact .nil
  | cons c rest =>
    rw [exponent?]
    dsimp only
    split
    · next hmark =>
      have hletter : Quieting fun c => c == 'e' || c == 'E' := by decide
      show Calm ((c :: rest).take (_ + (sign rest).length + 1))
      rw [List.take_succ_cons, Nat.add_comm]
      exact .cons (hletter.not_signal (Bool.and_eq_true_iff.1 hmark).1) (.take_add (sign_calm rest) (decimals_calm _))
    · exact .nil

theorem fraction?_calm [Text.IdentifierChars] (cs : List Char) : Calm (cs.take (taken (fraction? cs))) := by
  unfold fraction?
  split
  · next rest =>
    split
    · exact .nil
    · exact .cons (by decide) (decimals_calm rest)
  · exact .nil

theorem scanDecimal_calm [Text.IdentifierChars] (cs : List Char) : Calm (cs.take (scanDecimal cs).length) :=
  .take_add (.take_add (decimals_calm cs) (fraction?_calm _)) (exponent?_calm _)

theorem scanNumber_calm [Text.IdentifierChars] (first : Char) (rest : List Char) :
    Calm ((first :: rest).take (scanNumber first rest).length) := by
  have hhex (cs : List Char) : Calm (cs.take (scanHex cs).length) := digits_calm (by decide) cs
  unfold scanNumber
  split
  · exact .cons (by decide) (.cons (by decide) (hhex _))
  · exact .cons (by decide) (.cons (by decide) (hhex _))
  · exact scanDecimal_calm _

/-! ### Strings -/

/-- What stands between two such quotes: one of them stands in it behind a backslash only. -/
inductive Quoted (quote : Char) : List Char → Prop
  | nil : Quoted quote []
  | escape (c : Char) {cs : List Char} (more : Quoted quote cs) : Quoted quote ('\\' :: c :: cs)
  | plain {c : Char} {cs : List Char} (hquote : c ≠ quote) (hescape : c ≠ '\\') (more : Quoted quote cs) :
    Quoted quote (c :: cs)

theorem scanString_quoted {quote : Char} (cs : List Char) :
    ∀ s, (scanString quote cs).value = .ok s →
      ∃ body, Quoted quote body ∧ cs.take (scanString quote cs).length = body ++ [quote] := by
  induction cs using scanString.induct quote with
  | case1 => intro s h; cases h
  | case2 => intro s h; cases h
  | case3 letter rest c hc ih =>
    rw [scanString, hc]
    intro s hs
    -- a backslash takes the character behind it along
    obtain ⟨t, ht, -⟩ := value_behind hs
    obtain ⟨body, hbody, htake⟩ := ih t ht
    exact ⟨'\\' :: letter :: body, .escape letter hbody, congrArg (fun cs => '\\' :: letter :: cs) htake⟩
  | case4 letter rest hc =>
    rw [scanString, hc]
    intro s h
    cases h
  | case5 rest =>
    rw [scanString_cons (by decide), if_pos rfl]
    intro s h
    cases h
  | case6 rest hend hescape hline =>
    rw [scanString_cons (no_backslash hend hescape), if_neg hline, if_pos rfl]
    exact fun _ _ => ⟨[], .nil, rfl⟩
  | case7 c rest hend hescape hline hquote ih =>
    have hc := no_backslash hend hescape
    rw [scanString_cons hc, if_neg hline, if_neg hquote]
    intro s hs
    obtain ⟨t, ht, -⟩ := value_behind hs
    obtain ⟨body, hbody, htake⟩ := ih t ht
    exact ⟨c :: body, .plain hquote hc hbody, congrArg (c :: ·) htake⟩

/-! ### Templates -/

/-- Text without such quotes may stand in front, when a character stands behind it that is none and no escape:
a backslash at the end of the text is taken together with that character. -/
theorem Quoted.behind {quote c : Char} {cs : List Char} (hc : c ≠ quote) (hescape : c ≠ '\\')
    (h : Quoted quote cs) : (front : List Char) → quote ∉ front → Quoted quote (front ++ c :: cs)
  | [], _ => .plain hc hescape h
  | [d], hfront => by
    by_cases hd : d = '\\'
    · subst hd
      exact .escape c h
    · exact .plain (fun heq => hfront (heq ▸ List.mem_cons_self)) hd (.plain hc hescape h)
  | d :: e :: front, hfront => by
    have hrest : quote ∉ e :: front := fun hmem => hfront (List.mem_cons_of_mem _ hmem)
    by_cases hd : d = '\\'
    · subst hd
      exact .escape e (behind hc hescape h front fun hmem => hrest (List.mem_cons_of_mem _ hmem))
    · exact .plain (fun heq => hfront (heq ▸ List.mem_cons_self)) hd (behind hc hescape h (e :: front) hrest)

/-- The text of a template with these interpolations, behind its opening quote.  While no interpolation holds a
back quote, neither does the text, but behind a backslash. -/
def TemplateText (cs : List Char) (sources : List (List Char)) : Prop :=
  ∃ body, cs = body ++ ['\x60'] ∧ ((∀ source ∈ sources, '\x60' ∉ source) → Quoted '\x60' body)

/-- The same inside of an interpolation, the rest of which is the first of the sources. -/
def InterpolationText (cs : List Char) (sources : List (List Char)) : Prop :=
  ∃ source more text, sources = source :: more ∧ cs = source ++ '\x7d' :: text ∧ TemplateText text more

/-- No interpolation in the token holds a back quote, so none holds a template. -/
def TokenKind.Shallow (k : TokenKind) : Prop := ∀ source ∈ k.sources, '\x60' ∉ source.toList

theorem TemplateText.quoted {cs : List Char} {chunks : List String} {sources : List (List Char)}
    (h : TemplateText cs sources) (hshallow : (TokenKind.template chunks (sources.map String.ofList)).Shallow) :
    ∃ body, cs = body ++ ['\x60'] ∧ Quoted '\x60' body := by
  obtain ⟨body, rfl, hbody⟩ := h
  refine ⟨body, rfl, hbody fun source hsource => ?_⟩
  have h := hshallow (String.ofList source) (List.mem_map_of_mem hsource)
  rwa [String.toList_ofList] at h

/-- A reading of a template answers with the interpolations of its text. -/
def ReadsTemplate (cs : List Char) (r : Reading (Except Flaw TemplateParts)) : Prop :=
  ∀ p, r.value = .ok p → TemplateText (cs.take r.length) p.sources

/-- The same inside of an interpolation. -/
def ReadsInterpolation (cs : List Char) (r : Reading (Except Flaw TemplateParts)) : Prop :=
  ∀ p, r.value = .ok p → InterpolationText (cs.take r.length) p.sources

section Templates

variable {c : Char} {cs : List Char} {r : Reading (Except Flaw TemplateParts)}

theorem ReadsTemplate.of_error {flaw : Flaw} (h : r.value = .error flaw) : ReadsTemplate cs r := by
  intro p hp
  cases h.symm.trans hp

theorem ReadsInterpolation.of_error {flaw : Flaw} (h : r.value = .error flaw) : ReadsInterpolation cs r := by
  intro p hp
  cases h.symm.trans hp

theorem ReadsTemplate.plain (hquote : c ≠ '\x60') (hescape : c ≠ '\\') (h : ReadsTemplate cs r) :
    ReadsTemplate (c :: cs) ((r.map (Except.map (.consChunk c))).behind 1) := by
  intro p hp
  obtain ⟨q, hq, rfl⟩ := value_behind hp
  obtain ⟨body, htake, hbody⟩ := h q hq
  exact ⟨c :: body, congrArg (c :: ·) htake, fun hsources => .plain hquote hescape (hbody hsources)⟩

theorem ReadsTemplate.escape (letter : Char) (h : ReadsTemplate cs r) :
    ReadsTemplate ('\\' :: letter :: cs) ((r.map (Except.map (.consChunk c))).behind 2) := by
  intro p hp
  obtain ⟨q, hq, rfl⟩ := value_behind hp
  obtain ⟨body, htake, hbody⟩ := h q hq
  exact ⟨'\\' :: letter :: body, congrArg (fun cs => '\\' :: letter :: cs) htake,
    fun hsources => .escape letter (hbody hsources)⟩

theorem ReadsTemplate.closeSource (h : ReadsTemplate cs r) :
    ReadsInterpolation ('\x7d' :: cs) ((r.map (Except.map .closeSource)).behind 1) := by
  intro p hp
  obtain ⟨q, hq, rfl⟩ := value_behind hp
  exact ⟨[], q.sources, _, rfl, rfl, h q hq⟩

theorem ReadsInterpolation.openSource (h : ReadsInterpolation cs r) :
    ReadsTemplate ('$' :: '\x7b' :: cs) ((r.map (Except.map .openSource)).behind 2) := by
  intro p hp
  obtain ⟨q, hq, rfl⟩ := value_behind hp
  obtain ⟨source, more, text, hsources, htake, body, rfl, hbody⟩ := h q hq
  refine ⟨'$' :: '\x7b' :: (source ++ '\x7d' :: body), ?_, fun hall => ?_⟩
  · show '$' :: '\x7b' :: cs.take r.length = _
    rw [htake]
    simp
  · rw [show q.openSource.sources = source :: more from hsources] at hall
    have hmore := hbody fun inner hinner => hall inner (List.mem_cons_of_mem _ hinner)
    have hinside : Quoted '\x60' (source ++ '\x7d' :: body) :=
      hmore.behind (by decide) (by decide) source (hall source List.mem_cons_self)
    exact .plain (by decide) (by decide) (.plain (by decide) (by decide) hinside)

theorem ReadsInterpolation.consSource (c : Char) (h : ReadsInterpolation cs r) :
    ReadsInterpolation (c :: cs) ((r.map (Except.map (.consSource c))).behind 1) := by
  intro p hp
  obtain ⟨q, hq, rfl⟩ := value_behind hp
  obtain ⟨source, more, text, hsources, htake, htext⟩ := h q hq
  refine ⟨c :: source, more, text, ?_, congrArg (c :: ·) htake, htext⟩
  rw [TemplateParts.consSource, hsources]
  rfl

end Templates

theorem scanTemplate_reads (cs : List Char) : ReadsTemplate cs (scanTemplate cs) := by
  induction cs using scanTemplate.induct
    (motive_2 := fun depth cs => ReadsInterpolation cs (scanInterpolation depth cs))
    (motive_3 := fun quote depth cs => ReadsInterpolation cs (scanQuoted quote depth cs))
  case case1 => exact .of_error rfl
  case case2 rest ih =>
    rw [scanTemplate]
    exact ih.openSource
  case case3 => exact .of_error rfl
  case case4 letter rest c hc ih =>
    rw [scanTemplate, hc]
    exact ih.escape letter
  case case5 letter rest hc =>
    rw [scanTemplate, hc]
    exact .of_error rfl
  case case6 rest hopen hend hescape =>
    rw [scanTemplate_cons (by decide) (by simp), if_pos rfl]
    rintro p ⟨⟩
    exact ⟨[], rfl, fun _ => .nil⟩
  case case7 c rest hopen hend hescape hquote ih =>
    rw [scanTemplate, if_neg hquote]
    · exact ih.plain hquote (no_backslash hend hescape)
    · exact hopen
    · exact hend
    · exact hescape
  case case8 => exact .of_error rfl
  case case9 depth c rest hclose ih =>
    rw [scanInterpolation, if_pos hclose, hclose.1]
    exact ih.closeSource
  case case10 depth c rest hopen ihopen ihclose ihquoted ih =>
    -- a brace, a quote or any other character: the search goes on behind it
    rw [scanInterpolation, if_neg hopen]
    refine .consSource c ?_
    split
    · exact ihopen
    · split
      · exact ihclose
      · split
        · exact ihquoted
        · exact ih
  case case11 => exact .of_error rfl
  case case12 => exact .of_error rfl
  case case13 quote depth letter rest ih =>
    rw [scanQuoted]
    intro p hp
    obtain ⟨q, hq, rfl⟩ := value_behind hp
    exact (ih.consSource letter).consSource '\\' _ (by simp [Reading.behind, Reading.map, hq, Except.map])
  case case14 quote depth c rest hend hescape ih ihquoted =>
    rw [scanQuoted_cons (no_backslash hend hescape)]
    refine .consSource c ?_
    split
    · exact ih
    · exact ihquoted

/-! ### Tokens -/

/-- Is the token a number, a name or a keyword? -/
def TokenKind.isWord : TokenKind → Bool
  | int _ | float _ | name _ | keyword _ => true
  | _ => false

/-- The text of a well-formed token. -/
inductive Lexeme : List Char → TokenKind → Prop
  | mark (m : Mark) : Lexeme m.text.toList (.mark m)
  | word {text : List Char} {k : TokenKind} (hk : k.isWord = true) (hcalm : Calm text) : Lexeme text k
  | string {quote : Char} {body : List Char} (hquote : quote = '"' ∨ quote = '\'') (hbody : Quoted quote body)
    (s : String) : Lexeme (quote :: (body ++ [quote])) (.string s)
  | template {text : List Char} {chunks : List String} {sources : List (List Char)}
    (htext : TemplateText text sources) : Lexeme ('\x60' :: text) (.template chunks (sources.map String.ofList))

/-- What a reading answers with has its own text, unless it is malformed. -/
def ReadsLexeme (cs : List Char) (r : Reading TokenKind) : Prop :=
  r.value.isFlawed = false → Lexeme (cs.take r.length) r.value

namespace ReadsLexeme

theorem mark (m : Mark) (rest : List Char) :
    ReadsLexeme (m.text.toList ++ rest) ⟨.mark m, m.text.toList.length⟩ := by
  intro _
  rw [List.take_left]
  exact .mark m

theorem flawed {cs : List Char} {flaw : Flaw} {n : Nat} : ReadsLexeme cs ⟨.flawed flaw, n⟩ := by
  intro h
  cases h

theorem withEqual {c : Char} {plain long : Mark} (hplain : plain.text.toList = [c])
    (hlong : long.text.toList = [c, '=']) (rest : List Char) :
    ReadsLexeme (c :: rest) (Syntax.withEqual plain long rest) := by
  unfold Syntax.withEqual
  split
  · next tail =>
    have h := mark long tail
    rwa [hlong] at h
  · have h := mark plain rest
    rwa [hplain] at h

theorem doubled {first second : Char} {m : Mark} (hm : m.text.toList = [first, second]) (rest : List Char) :
    ReadsLexeme (first :: rest) (doubled first second m rest) := by
  unfold Syntax.doubled
  split
  · next hhead =>
    obtain ⟨tail, rfl⟩ := List.head?_eq_some_iff.1 hhead
    have h := mark m tail
    rwa [hm] at h
  · exact .flawed

theorem power (rest : List Char) :
    ReadsLexeme ('*' :: '*' :: rest) ((Syntax.withEqual .power .powerAssign rest).behind 1) := by
  unfold Syntax.withEqual
  split
  · next tail => exact mark .powerAssign tail
  · exact mark .power rest

theorem dot (rest : List Char) : ReadsLexeme ('.' :: rest) (scanDot rest) := by
  unfold scanDot
  split
  · intro _
    refine .word rfl ?_
    show Calm (('.' :: rest).take (_ + taken (exponent? _) + 1))
    exact .cons (by decide) (.take_add (decimals_calm rest) (exponent?_calm _))
  · exact mark .dot rest

theorem number [Text.IdentifierChars] (first : Char) (rest : List Char) :
    ReadsLexeme (first :: rest) (scanNumber first rest) := by
  intro hformed
  refine .word ?_ (scanNumber_calm first rest)
  have hnumeral := scanNumber_numeral first rest
  generalize (scanNumber first rest).value = k at hformed hnumeral
  cases k with
  | int | float => rfl
  | flawed => cases hformed
  | _ => cases hnumeral

theorem word [Text.IdentifierChars] {first : Char} (hfirst : isNameStart first = true) (rest : List Char) :
    ReadsLexeme (first :: rest) (scanName first rest) := by
  intro _
  refine .word ?_ (scanName_calm hfirst rest)
  unfold scanName
  dsimp only
  split <;> rfl

theorem string {quote : Char} (hquote : quote = '"' ∨ quote = '\'') (rest : List Char) :
    ReadsLexeme (quote :: rest)
      (((scanString quote rest).map (.ofExcept fun s => .string (String.ofList s))).behind 1) := by
  show (TokenKind.ofExcept (fun s => .string (String.ofList s)) (scanString quote rest).value).isFlawed = false →
    Lexeme (quote :: rest.take (scanString quote rest).length)
      (.ofExcept (fun s => .string (String.ofList s)) (scanString quote rest).value)
  intro hformed
  cases hvalue : (scanString quote rest).value with
  | error flaw =>
    rw [hvalue] at hformed
    cases hformed
  | ok text =>
    obtain ⟨body, hbody, htake⟩ := scanString_quoted rest text hvalue
    rw [htake]
    exact .string hquote hbody _

theorem template (rest : List Char) : ReadsLexeme ('\x60' :: rest)
    (((scanTemplate rest).map (.ofExcept TemplateParts.toKind)).behind 1) := by
  show (TokenKind.ofExcept TemplateParts.toKind (scanTemplate rest).value).isFlawed = false →
    Lexeme ('\x60' :: rest.take (scanTemplate rest).length)
      (.ofExcept TemplateParts.toKind (scanTemplate rest).value)
  intro hformed
  cases hvalue : (scanTemplate rest).value with
  | error flaw =>
    rw [hvalue] at hformed
    cases hformed
  | ok p => exact .template (scanTemplate_reads rest p hvalue)

end ReadsLexeme

/-- Every token has its own text, unless it is malformed. -/
theorem scan_reads [Text.IdentifierChars] (c : Char) (rest : List Char) : ReadsLexeme (c :: rest) (scan c rest) := by
  unfold scan
  split
  case h_1 => exact .mark .leftBrace rest
  case h_2 => exact .mark .rightBrace rest
  case h_3 => exact .mark .leftParen rest
  case h_4 => exact .mark .rightParen rest
  case h_5 => exact .mark .leftBracket rest
  case h_6 => exact .mark .rightBracket rest
  case h_7 => exact .mark .semicolon rest
  case h_8 => exact .mark .comma rest
  case h_9 => exact .mark .colon rest
  case h_10 => exact .mark .question rest
  case h_11 => exact .dot rest
  case h_12 | h_13 =>
    split
    · next hhead =>
      obtain ⟨tail, rfl⟩ := List.head?_eq_some_iff.1 hhead
      first | exact .mark .increment tail | exact .mark .decrement tail
    · exact .withEqual rfl rfl rest
  case h_14 =>
    split
    · next tail => exact .power tail
    · exact .withEqual rfl rfl rest
  case h_15 | h_16 | h_17 | h_18 | h_19 | h_20 => exact .withEqual rfl rfl rest
  case h_21 | h_22 | h_23 => exact .doubled rfl rest
  case h_24 => exact .string (.inl rfl) rest
  case h_25 => exact .string (.inr rfl) rest
  case h_26 => exact .template rest
  case h_27 =>
    split
    · exact .number c rest
    · split
      · next hstart => exact .word hstart rest
      · exact .flawed

/-! ### Texts -/

/-- A text of well-formed tokens, with such white space and comments between them.  Division is not written in
front of a slash, with which it would start a comment. -/
inductive Lexed (gap : List Char → Prop) : List Char → List TokenKind → Prop
  | done {cs : List Char} (hcs : Blank cs) (hgap : gap cs) : Lexed gap cs []
  | comment {cs body : List Char} (hcs : Blank cs) (hline : '\n' ∉ body) (hgap : gap (cs ++ '/' :: '/' :: body)) :
    Lexed gap (cs ++ '/' :: '/' :: body) []
  | token {cs text rest : List Char} {k : TokenKind} {ks : List TokenKind} (hcs : Blank cs) (hgap : gap cs)
    (htext : Lexeme text k) (hslash : k = .mark .slash → rest.head? ≠ some '/') (hmore : Lexed gap rest ks) :
    Lexed gap (cs ++ (text ++ rest)) (k :: ks)

theorem Lexeme.eq_of_mark {text : List Char} {m : Mark} (h : Lexeme text (.mark m)) : text = m.text.toList := by
  cases h with
  | mark => rfl
  | word hk => cases hk

/-- Where no comment starts, a slash that is a token of its own has no slash behind it. -/
theorem slash_behind {c : Char} {rest : List Char} {n : Nat}
    (hblanks : ∀ left, left <+: c :: rest → blanks left = ⟨none, 0⟩) (hslash : c :: rest.take n = ['/']) :
    (rest.drop n).head? ≠ some '/' := by
  intro hhead
  obtain ⟨rfl, htake⟩ := List.cons.inj hslash
  rcases List.take_eq_nil_iff.1 htake with rfl | rfl
  · obtain ⟨tail, rfl⟩ := List.head?_eq_some_iff.1 hhead
    have hread := hblanks _ (List.prefix_refl _)
    rw [blanks] at hread
    exact absurd (congrArg Reading.length hread) (Nat.succ_ne_zero _)
  · rw [List.drop_nil] at hhead
    cases hhead

/-- White space only. -/
def Spaced (cs : List Char) : Prop := ∀ c ∈ cs, Text.isBlank c = true

theorem Spaced.slash_free {cs : List Char} (h : Spaced cs) : '/' ∉ cs :=
  fun hc => quieting_blank.not_signal (h _ hc) (by decide)

theorem Lexed.spaced {cs : List Char} (h : Lexed Spaced cs []) : Spaced cs := by
  cases h with
  | done hcs hgap => exact hgap
  | comment hcs hline hgap => exact hgap

/-- Behind the last token stands white space, if there are no comments. -/
theorem Lexed.last {cs : List Char} {ks : List TokenKind} {k : TokenKind} (h : Lexed Spaced cs (ks ++ [k])) :
    ∃ front text gap, cs = front ++ text ++ gap ∧ Lexeme text k ∧ Spaced gap := by
  induction ks generalizing cs with
  | nil =>
    cases h with
    | @token cs text rest k ks hcs hgap htext hslash hmore =>
      exact ⟨cs, text, rest, (List.append_assoc ..).symm, htext, hmore.spaced⟩
  | cons l ks ih =>
    cases h with
    | @token cs own rest k ks hcs hgap hown hslash hmore =>
      obtain ⟨front, text, gap, rfl, htext, hspaced⟩ := ih hmore
      exact ⟨cs ++ own ++ front, text, gap, by simp, htext, hspaced⟩

variable [Text.IdentifierChars]

/-- The white space and the comments of a text: what stands in front of each token, and what stands behind the
last one.  `count` bounds the number of tokens. -/
def gapsFrom : Nat → List Char → List (List Char)
  | 0, _ => []
  | count + 1, cs =>
    let skipped := blanks cs
    match cs.drop skipped.length with
    | [] => [cs]
    | c :: rest => cs.take skipped.length :: gapsFrom count ((c :: rest).drop (scan c rest).length)

def gaps (source : String) : List (List Char) := gapsFrom (source.length + 1) source.toList

theorem gapsFrom_last {cs : List Char} (h : (blanks cs).length = cs.length) (count : Nat) :
    gapsFrom (count + 1) cs = [cs] := by
  rw [gapsFrom, h, List.drop_length]

theorem gapsFrom_cons {front : List Char} {c : Char} {rest : List Char} {n : Nat}
    (hblanks : blanks (front ++ c :: rest) = ⟨none, front.length⟩) (hlength : (scan c rest).length = n + 1)
    (count : Nat) : gapsFrom (count + 1) (front ++ c :: rest) = front :: gapsFrom count (rest.drop n) := by
  rw [gapsFrom, hblanks]
  dsimp only
  rw [List.take_left, List.drop_left]
  dsimp only
  rw [hlength, List.drop_succ_cons]

theorem tokensFrom_lexed {gap : List Char → Prop} {count start : Nat} {cs : List Char} (hcount : cs.length < count)
    (hformed : ∀ t ∈ tokensFrom count start cs, t.kind.isFlawed = false)
    (hgaps : ∀ front ∈ gapsFrom count cs, gap front) :
    Lexed gap cs ((tokensFrom count start cs).map (·.kind)) := by
  induction count generalizing start cs with
  | zero => exact absurd hcount (Nat.not_lt_zero _)
  | succ count ih =>
    have hskipped := blanks_skipped cs
    generalize hblanks : blanks cs = r at hskipped
    cases hskipped with
    | @stops front rest hfront hrest =>
      cases rest with
      | nil =>
        rw [gapsFrom_last (by rw [hblanks]; simp)] at hgaps
        rw [tokensFrom, hblanks]
        dsimp only
        rw [List.drop_left, List.append_nil] at *
        exact .done hfront (hgaps _ (List.mem_singleton_self _))
      | cons c rest =>
        obtain ⟨n, hlength, hn, -⟩ := scan_anchored c rest
        rw [gapsFrom_cons hblanks hlength] at hgaps
        rw [tokensFrom_cons hblanks hlength] at hformed ⊢
        have htext := scan_reads c rest (hformed _ List.mem_cons_self)
        have hcs : front ++ c :: rest = front ++ (c :: rest.take n ++ rest.drop n) := by
          rw [List.cons_append, List.take_append_drop]
        rw [hlength, List.take_succ_cons] at htext
        rw [hcs]
        refine .token hfront (hgaps _ List.mem_cons_self) htext ?_ (ih ?_ ?_ ?_)
        · -- a slash that begins a token is none that begins a comment
          intro hk
          rw [show (scan c rest).value = .mark .slash from hk] at htext
          exact slash_behind hrest htext.eq_of_mark
        · rw [List.length_append, List.length_cons] at hcount
          rw [List.length_drop]
          omega
        · exact fun t ht => hformed t (List.mem_cons_of_mem _ ht)
        · exact fun inner hinner => hgaps inner (List.mem_cons_of_mem _ hinner)
    | @comment front body hfront hline =>
      rw [gapsFrom_last (by rw [hblanks])] at hgaps
      rw [tokensFrom, hblanks]
      dsimp only
      rw [List.drop_length]
      exact .comment hfront hline (hgaps _ (List.mem_singleton_self _))
    | @unterminated front body hfront hbody =>
      rw [tokensFrom, hblanks] at hformed
      cases hformed _ (List.mem_singleton_self _)

/-- A text of well-formed tokens is made of their texts, and of the white space and the comments between them. -/
theorem tokens_lexed {gap : List Char → Prop} {source : String}
    (hformed : ∀ t ∈ tokens source, t.kind.isFlawed = false) (hgaps : ∀ front ∈ gaps source, gap front) :
    Lexed gap source.toList ((tokens source).map (·.kind)) :=
  tokensFrom_lexed (Nat.lt_succ_self _) hformed hgaps

end StackScript.Syntax
