import StackScript.Proofs.Lexemes
import StackScript.Shell.Entry

/-!
# Complete entries

A program is a complete entry.  The search for open brackets passes the texts of tokens and leaves behind the
brackets that the tokens themselves leave open.  It knows line comments but no block comments, and takes a
template for a string, so it can go astray in a block comment or behind a back quote in an interpolation.

* `lexed_isBalanced`: a text of tokens is balanced when its brackets are nested.
* `program_isBalanced`, `program_isComplete`: so is a program, and nothing more is asked for at its end.
-/

namespace StackScript.Shell

open Syntax

/-! ### What the search passes -/

def blockStart : List Char := ['/', '*']

section Passes

variable {closers : List Char} {c : Char} {cs : List Char} (rest : List Char)

theorem balanced_comment (hline : '\n' ∉ cs) :
    isBalancedFrom .comment closers (cs ++ '\n' :: rest) = isBalancedFrom .code closers rest := by
  induction cs with
  | nil => rfl
  | cons c cs ih =>
    have hc : c ≠ '\n' := fun h => hline (h ▸ List.mem_cons_self)
    rw [List.cons_append, isBalancedFrom, if_neg (by simpa using hc)]
    exact ih fun h => hline (List.mem_cons_of_mem _ h)

theorem balanced_lastComment (hline : '\n' ∉ cs) : isBalancedFrom .comment closers cs = closers.isEmpty := by
  induction cs with
  | nil => rfl
  | cons c cs ih =>
    have hc : c ≠ '\n' := fun h => hline (h ▸ List.mem_cons_self)
    rw [isBalancedFrom, if_neg (by simpa using hc)]
    exact ih fun h => hline (List.mem_cons_of_mem _ h)

theorem balanced_quoted {quote : Char} (hquote : quote ≠ '\\') (h : Quoted quote cs) :
    isBalancedFrom (.quoted quote) closers (cs ++ quote :: rest) = isBalancedFrom .code closers rest := by
  induction h with
  | nil => rw [List.nil_append, isBalancedFrom, if_neg (by simpa using hquote), if_pos (beq_self_eq_true quote)]
  | escape c more ih => exact ih
  | plain hc hescape more ih =>
    rw [List.cons_append, isBalancedFrom, if_neg (by simpa using hescape), if_neg (by simpa using hc)]
    exact ih

theorem balanced_plain (hc : c ∉ signals) :
    isBalancedFrom .code closers (c :: rest) = isBalancedFrom .code closers rest := by
  simp only [signals, List.mem_cons, List.not_mem_nil, or_false, not_or] at hc
  have hcloser : closer? c = none := by
    unfold closer?
    split <;> simp_all
  rw [isBalancedFrom.eq_def]
  simp [isQuote, isCloser, hc, hcloser]

theorem balanced_calm (h : Calm cs) :
    isBalancedFrom .code closers (cs ++ rest) = isBalancedFrom .code closers rest := by
  induction cs with
  | nil => rfl
  | cons c cs ih =>
    rw [List.cons_append, balanced_plain _ (h c List.mem_cons_self)]
    exact ih fun d hd => h d (List.mem_cons_of_mem _ hd)

theorem balanced_slash (hrest : rest.head? ≠ some '/') :
    isBalancedFrom .code closers ('/' :: rest) = isBalancedFrom .code closers rest := by
  rw [isBalancedFrom.eq_def]
  simp [isQuote, isCloser, closer?, hrest]

theorem balanced_blank (h : Blank cs) (hblock : ¬blockStart <:+: cs) :
    isBalancedFrom .code closers (cs ++ rest) = isBalancedFrom .code closers rest := by
  induction h with
  | nil => rfl
  | space hblank more ih =>
    rw [List.cons_append, balanced_plain _ (quieting_blank.not_signal hblank)]
    exact ih fun h => hblock (h.trans (List.suffix_cons _ _).isInfix)
  | @line body left hline more ih =>
    have hleft : ¬blockStart <:+: left := fun h => hblock (h.trans ⟨'/' :: '/' :: (body ++ ['\n']), [], by simp⟩)
    rw [← ih hleft, ← balanced_comment (left ++ rest) hline]
    simp only [List.cons_append, List.append_assoc]
    rfl
  | block hbody more ih => exact absurd ⟨[], _, rfl⟩ hblock

end Passes

/-! ### What the search leaves behind -/

/-- The character that closes what is open. -/
def closing : Mark → Char
  | .rightParen => ')'
  | .rightBracket => ']'
  | _ => '\x7d'

theorem balanced_mark {m : Mark} {outer inner : List Mark} {rest : List Char}
    (hslash : m = .slash → rest.head? ≠ some '/') (hnest : (TokenKind.mark m).nest outer = some inner) :
    isBalancedFrom .code (outer.map closing) (m.text.toList ++ rest) =
      isBalancedFrom .code (inner.map closing) rest := by
  cases m
  case slash =>
    cases hnest
    exact balanced_slash rest (hslash rfl)
  case rightParen | rightBracket | rightBrace =>
    -- what closes a bracket has closed the innermost one
    cases outer with
    | nil => cases hnest
    | cons close outer =>
      obtain ⟨rfl, hnest⟩ := Option.ite_none_right_eq_some.1 hnest
      cases hnest
      rfl
  all_goals
    cases hnest
    rfl

theorem balanced_string {quote : Char} {body : List Char} {closers : List Char} (hisQuote : isQuote quote = true)
    (hquote : quote ≠ '\\') (h : Quoted quote body) (rest : List Char) :
    isBalancedFrom .code closers (quote :: (body ++ [quote]) ++ rest) = isBalancedFrom .code closers rest := by
  rw [List.cons_append, isBalancedFrom.eq_def]
  dsimp only
  rw [if_pos hisQuote, List.append_assoc]
  exact balanced_quoted rest hquote h

/-- The search does with the text of a token what the token does with the open brackets. -/
theorem balanced_lexeme {text rest : List Char} {k : TokenKind} {outer inner : List Mark} (h : Lexeme text k)
    (hshallow : k.Shallow) (hslash : k = .mark .slash → rest.head? ≠ some '/') (hnest : k.nest outer = some inner) :
    isBalancedFrom .code (outer.map closing) (text ++ rest) = isBalancedFrom .code (inner.map closing) rest := by
  cases h with
  | mark m => exact balanced_mark (fun hm => hslash (congrArg _ hm)) hnest
  | word hk hcalm =>
    have hsame : outer = inner := by
      cases k with
      | int | float | name | keyword => exact Option.some.inj hnest
      | _ => cases hk
    rw [hsame]
    exact balanced_calm rest hcalm
  | string hquote hbody s =>
    cases hnest
    rcases hquote with rfl | rfl
    · exact balanced_string rfl (by decide) hbody rest
    · exact balanced_string rfl (by decide) hbody rest
  | template htext =>
    cases hnest
    obtain ⟨body, rfl, hbody⟩ := htext.quoted hshallow
    exact balanced_string rfl (by decide) hbody rest

/-- A text of tokens without block comments is balanced, when its tokens close what is open. -/
theorem lexed_balanced {cs : List Char} {ks : List TokenKind} (h : Lexed (¬blockStart <:+: ·) cs ks)
    (hshallow : ∀ k ∈ ks, k.Shallow) {outer : List Mark} (hnest : nest ks outer = some []) :
    isBalancedFrom .code (outer.map closing) cs = true := by
  induction h generalizing outer with
  | @done cs hcs hgap =>
    cases hnest
    have hpass : isBalancedFrom .code [] (cs ++ []) = true := balanced_blank [] hcs hgap
    rwa [List.append_nil] at hpass
  | @comment cs body hcs hline hgap =>
    cases hnest
    rw [balanced_blank _ hcs fun h => hgap (h.trans (List.prefix_append _ _).isInfix)]
    have hline' : '\n' ∉ '/' :: body := by simpa using hline
    exact balanced_lastComment hline'
  | token hcs hgap htext hslash hmore ih =>
    obtain ⟨inner, hk, hks⟩ := Option.bind_eq_some_iff.1 hnest
    rw [balanced_blank _ hcs hgap, balanced_lexeme htext (hshallow _ List.mem_cons_self) hslash hk]
    exact ih (fun k hk => hshallow k (List.mem_cons_of_mem _ hk)) hks

/-- A program without block comments is balanced, if no interpolation in it holds a back quote. -/
theorem program_isBalanced [Text.IdentifierChars] {source : String} {body : List Stmt}
    (h : parseProgram source = .ok body) (hgaps : ∀ gap ∈ gaps source, ¬blockStart <:+: gap)
    (hshallow : ∀ t ∈ tokens source, t.kind.Shallow) : isBalanced source = true := by
  refine lexed_balanced (tokens_lexed (program_formed h) hgaps) (fun k hk => ?_) (program_nests h)
  obtain ⟨t, ht, rfl⟩ := List.mem_map.1 hk
  exact hshallow t ht

/-! ### The end of an entry -/

theorem trimEnd_spaced {front gap : List Char} {c : Char} (hc : Text.isBlank c = false) (hgap : Spaced gap) :
    (Text.trimEnd (front ++ [c] ++ gap)).reverse = c :: front.reverse := by
  have hblank : ∀ d ∈ gap.reverse, Text.isBlank d = true := fun d hd => hgap d (List.mem_reverse.1 hd)
  rw [Text.trimEnd, List.reverse_reverse, List.reverse_append, List.dropWhile_append_of_pos hblank]
  simp [hc]

/-- Nothing more is asked for where a statement ends. -/
theorem lexed_notDangling {cs : List Char} {ks : List TokenKind} {k : TokenKind}
    (h : Lexed Spaced cs (ks ++ [k])) (hk : k.endsStatement = true) :
    isDangling (Text.trimEnd cs).reverse = false := by
  obtain ⟨front, text, gap, rfl, htext, hgap⟩ := h.last
  have hends : k = .mark .semicolon ∨ k = .mark .rightBrace := by
    cases k with
    | mark m => cases m <;> first | exact .inl rfl | exact .inr rfl | cases hk
    | _ => cases hk
  rcases hends with rfl | rfl <;> rw [htext.eq_of_mark]
  · rw [show (Mark.semicolon.text.toList) = [';'] from rfl, trimEnd_spaced (by decide) hgap]
    rfl
  · rw [show (Mark.rightBrace.text.toList) = ['\x7d'] from rfl, trimEnd_spaced (by decide) hgap]
    rfl

/-- A program without comments is a complete entry, if no interpolation in it holds a back quote. -/
theorem program_isComplete [Text.IdentifierChars] {source : String} {body : List Stmt}
    (h : parseProgram source = .ok body) (hgaps : ∀ gap ∈ gaps source, Spaced gap)
    (hshallow : ∀ t ∈ tokens source, t.kind.Shallow) : isComplete source = true := by
  have hblocks : ∀ gap ∈ gaps source, ¬blockStart <:+: gap :=
    fun gap hgap hblock => (hgaps gap hgap).slash_free (hblock.subset (by decide))
  have hlexed := tokens_lexed (program_formed h) hgaps
  have hend : isDangling (Text.trimEnd source.toList).reverse = false := by
    rcases program_ends h with hnone | ⟨front, t, htokens, ht⟩
    · rw [hnone] at hlexed
      have hnothing : source.toList.reverse.dropWhile Text.isBlank = [] :=
        List.dropWhile_eq_nil_iff.2 fun c hc => hlexed.spaced c (List.mem_reverse.1 hc)
      rw [Text.trimEnd, List.reverse_reverse, hnothing]
      rfl
    · rw [htokens, List.map_append] at hlexed
      exact lexed_notDangling hlexed ht
  unfold isComplete
  rw [program_isBalanced h hblocks hshallow, hend]
  simp

/-- A bracket in a block comment stays open, and an operator at the end of a comment dangles. -/
example : (parseProgram "1; /* ( */").toBool = true ∧ isBalanced "1; /* ( */" = false ∧
    (parseProgram "1; // a +").toBool = true ∧ isBalanced "1; // a +" = true ∧
    isComplete "1; // a +" = false := by decide +kernel

end StackScript.Shell
