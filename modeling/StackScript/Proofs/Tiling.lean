import StackScript.Proofs.Readers

/-!
# The tokens of a text tile it

A text is its tokens and what separates them (`Tiles`).  What separates tokens is white space and
comments (`Blank`), described here by what they look like and not by how they are skipped; a block
comment without an end stands before an empty token at the end of the text.  Each other token is what is
read from its own text alone.

* `blanks_skipped`: what skipping white space and comments takes.
* `tokens_tile`: the tokens of a text tile it; they stand in order, in the text and between characters.
-/

namespace StackScript.Syntax

/-! ### White space and comments -/

def commentEnd : List Char := ['*', '/']

/-- White space and comments, every comment with its end. -/
inductive Blank : List Char → Prop
  | nil : Blank []
  | space {c : Char} {rest : List Char} (hblank : Text.isBlank c = true) (more : Blank rest) :
    Blank (c :: rest)
  | line {body rest : List Char} (hline : '\n' ∉ body) (more : Blank rest) :
    Blank ('/' :: '/' :: (body ++ '\n' :: rest))
  | block {body rest : List Char} (hbody : ¬commentEnd <:+: body) (more : Blank rest) :
    Blank ('/' :: '*' :: (body ++ commentEnd ++ rest))

/-- How white space and comments at the front of a text are skipped. -/
inductive Skipped : List Char → Reading (Option Flaw) → Prop
  /-- Behind them stands a token, or nothing: however much of it there is, nothing is skipped. -/
  | stops {gap rest : List Char} (hgap : Blank gap)
    (hrest : ∀ left, left <+: rest → blanks left = ⟨none, 0⟩) :
    Skipped (gap ++ rest) ⟨none, gap.length⟩
  /-- The text ends in a line comment. -/
  | comment {gap body : List Char} (hgap : Blank gap) (hline : '\n' ∉ body) :
    Skipped (gap ++ '/' :: '/' :: body) ⟨none, (gap ++ '/' :: '/' :: body).length⟩
  /-- The text ends in a block comment that has no end. -/
  | unterminated {gap body : List Char} (hgap : Blank gap) (hbody : ¬commentEnd <:+: body) :
    Skipped (gap ++ '/' :: '*' :: body)
      ⟨some .unterminatedComment, (gap ++ '/' :: '*' :: body).length⟩

/-- More white space or another comment in front. -/
theorem Skipped.behind (front : List Char) {cs : List Char} {r : Reading (Option Flaw)}
    (hfront : ∀ gap, Blank gap → Blank (front ++ gap)) (h : Skipped cs r) :
    Skipped (front ++ cs) (r.behind front.length) := by
  cases h with
  | @stops gap rest hgap hrest =>
    have h := Skipped.stops (hfront gap hgap) hrest
    rwa [List.append_assoc, List.length_append, Nat.add_comm] at h
  | @comment gap body hgap hline =>
    have h := Skipped.comment (hfront gap hgap) hline
    rwa [List.append_assoc, List.length_append, Nat.add_comm] at h
  | @unterminated gap body hgap hbody =>
    have h := Skipped.unterminated (hfront gap hgap) hbody
    rwa [List.append_assoc, List.length_append, Nat.add_comm] at h

/-- No white space and no comment starts here. -/
theorem blanks_cons {c : Char} {rest : List Char}
    (h : c = '/' → rest.head? ≠ some '/' ∧ rest.head? ≠ some '*') :
    blanks (c :: rest) = if Text.isBlank c then (blanks rest).behind 1 else ⟨none, 0⟩ := by
  rw [blanks]
  · rintro tail hc rfl
    exact (h hc).1 rfl
  · rintro tail hc rfl
    exact (h hc).2 rfl

theorem behind_behind {α : Type} (r : Reading α) (m n : Nat) :
    (r.behind m).behind n = r.behind (m + n) := by
  rw [Reading.behind, Reading.behind, Reading.behind, Nat.add_assoc]

theorem star_suffix_concat {body : List Char} {c : Char} : ['*'] <:+ body ++ [c] ↔ c = '*' := by
  constructor
  · rintro ⟨front, h⟩
    exact (List.head_eq_of_cons_eq (List.append_inj' h rfl).2).symm
  · rintro rfl
    exact List.suffix_append _ _

/-- A comment ends where a slash stands behind a star. -/
theorem commentEnd_infix_concat {body : List Char} {c : Char} :
    commentEnd <:+: body ++ [c] ↔ (c = '/' ∧ ['*'] <:+ body) ∨ commentEnd <:+: body := by
  rw [List.infix_concat_iff]
  refine or_congr ⟨?_, ?_⟩ Iff.rfl
  · rintro ⟨front, h⟩
    rw [show front ++ commentEnd = front ++ ['*'] ++ ['/'] by simp [commentEnd]] at h
    obtain ⟨hbody, hc⟩ := List.append_inj' h rfl
    exact ⟨(List.head_eq_of_cons_eq hc).symm, front, hbody⟩
  · rintro ⟨rfl, front, rfl⟩
    exact ⟨front, by simp [commentEnd]⟩

theorem no_comment {c : Char} {rest : List Char} (hline : ∀ tail, c = '/' → rest = '/' :: tail → False)
    (hblock : ∀ tail, c = '/' → rest = '*' :: tail → False) (hc : c = '/') :
    rest.head? ≠ some '/' ∧ rest.head? ≠ some '*' := by
  constructor <;> intro hhead <;> obtain ⟨tail, rfl⟩ := List.head?_eq_some_iff.1 hhead
  · exact hline tail hc rfl
  · exact hblock tail hc rfl

theorem blanks_skipped (cs : List Char) : Skipped cs (blanks cs) := by
  induction cs using blanks.induct
    (motive_2 := fun star rest => ∀ body, ¬commentEnd <:+: body →
      (star = true ↔ ['*'] <:+ body) →
      Skipped ('/' :: '*' :: (body ++ rest)) ((blockComment star rest).behind (body.length + 2)))
    (motive_3 := fun rest => ∀ body, '\n' ∉ body →
      Skipped ('/' :: '/' :: (body ++ rest)) ((lineComment rest).behind (body.length + 2)))
  case case1 => exact .stops .nil fun left hleft => by rw [List.prefix_nil.1 hleft]; rfl
  case case2 rest ih => exact ih [] (by nofun)
  case case3 rest ih => exact ih [] (by decide) (by decide)
  case case4 c rest hline hblock hblank ih =>
    rw [blanks_cons (no_comment hline hblock), if_pos hblank]
    exact ih.behind [c] fun gap hgap => .space hblank hgap
  -- what is scanned next begins no comment, and neither does any beginning of it
  case case5 c rest hline hblock hblank =>
    have hslash := no_comment hline hblock
    rw [blanks_cons hslash, if_neg hblank]
    refine .stops .nil fun left hleft => ?_
    cases left with
    | nil => rfl
    | cons d left =>
      obtain ⟨rfl, htail⟩ := List.cons_prefix_cons.1 hleft
      rw [blanks_cons, if_neg hblank]
      exact fun hc => ⟨head?_of_initial htail (hslash hc).1, head?_of_initial htail (hslash hc).2⟩
  case case6 star body hbody hstar =>
    rw [List.append_nil, blockComment, Reading.behind, Nat.zero_add]
    exact .unterminated .nil hbody
  case case7 star c rest hend ih body hbody hstar =>
    -- the star read last and this slash close the comment
    obtain ⟨rfl, rfl⟩ := hend
    obtain ⟨front, rfl⟩ := hstar.1 rfl
    rw [blockComment, if_pos ⟨rfl, rfl⟩, behind_behind]
    have h := ih.behind ('/' :: '*' :: (front ++ commentEnd)) fun gap hgap =>
      .block (fun hfront => hbody (hfront.trans (List.prefix_append _ _).isInfix)) hgap
    rw [show 1 + ((front ++ ['*']).length + 2) = ('/' :: '*' :: (front ++ commentEnd)).length by
      simp [commentEnd]; omega]
    simpa [commentEnd] using h
  case case8 star c rest hend ih body hbody hstar =>
    rw [blockComment, if_neg hend, behind_behind]
    have h := ih (body ++ [c]) (by
      rw [commentEnd_infix_concat]
      rintro (⟨rfl, hbody'⟩ | hbody')
      · -- an end within `body ++ [c]` is one within the body or one that `c` completes
        exact hend ⟨rfl, hstar.2 hbody'⟩
      · exact hbody hbody') (by rw [star_suffix_concat, beq_iff_eq])
    rw [show 1 + (body.length + 2) = (body ++ [c]).length + 2 by simp; omega]
    rwa [List.append_assoc] at h
  case case9 body hline =>
    rw [List.append_nil, lineComment, Reading.behind, Nat.zero_add]
    exact .comment .nil hline
  case case10 rest ih body hline =>
    rw [lineComment, if_pos rfl, behind_behind]
    have h := ih.behind ('/' :: '/' :: (body ++ ['\n'])) fun gap hgap => by
      rw [List.cons_append, List.cons_append, List.append_assoc]
      exact .line hline hgap
    rw [show 1 + (body.length + 2) = ('/' :: '/' :: (body ++ ['\n'])).length by simp; omega]
    simpa using h
  case case11 c rest hc ih body hline =>
    rw [lineComment, if_neg hc, behind_behind]
    have h := ih (body ++ [c]) (by
      rw [List.mem_append, List.mem_singleton]
      rintro (hmem | rfl)
      · exact hline hmem
      · exact hc rfl)
    rw [show 1 + (body.length + 2) = (body ++ [c]).length + 2 by simp; omega]
    rwa [List.append_assoc] at h

/-! ### Bytes -/

theorem byteLength_append (cs ds : List Char) : byteLength (cs ++ ds) = byteLength cs + byteLength ds := by
  induction cs with
  | nil => exact (Nat.zero_add _).symm
  | cons c cs ih => rw [List.cons_append, byteLength, byteLength, ih, Nat.add_assoc]

theorem utf8ByteSize_ofList (cs : List Char) : (String.ofList cs).utf8ByteSize = byteLength cs := by
  induction cs with
  | nil => rfl
  | cons c cs ih =>
    rw [← List.singleton_append, String.ofList_append, String.utf8ByteSize_append, ih,
      show String.ofList [c] = String.singleton c from rfl, String.utf8ByteSize_singleton]
    rfl

theorem length_le_byteLength (cs : List Char) : cs.length ≤ byteLength cs := by
  induction cs with
  | nil => exact Nat.le_refl _
  | cons c cs ih =>
    have hpos := c.utf8Size_pos
    rw [List.length_cons, byteLength]
    omega

/-! ### Tilings -/

section Tilings

variable [Text.IdentifierChars]

/-- A text that starts at byte `start` is these tokens and what separates them.  A token that takes
anything is read from its own text alone. -/
inductive Tiles : Nat → List Char → List Token → Prop
  | done {start : Nat} {gap : List Char} (hgap : Blank gap) : Tiles start gap []
  | comment {start : Nat} {gap body : List Char} (hgap : Blank gap) (hline : '\n' ∉ body) :
    Tiles start (gap ++ '/' :: '/' :: body) []
  | unterminated {start stop : Nat} {gap body : List Char} (hgap : Blank gap)
    (hbody : ¬commentEnd <:+: body) (hstop : stop = start + byteLength (gap ++ '/' :: '*' :: body)) :
    Tiles start (gap ++ '/' :: '*' :: body) [⟨.flawed .unterminatedComment, ⟨stop, stop⟩⟩]
  | token {start first stop : Nat} {gap text rest : List Char} {kind : TokenKind} {more : List Token}
    (hgap : Blank gap) (htext : text ≠ []) (hfirst : first = start + byteLength gap)
    (hstop : stop = first + byteLength text)
    (halone : tokens (String.ofList text) = [⟨kind, ⟨0, byteLength text⟩⟩])
    (hmore : Tiles stop rest more) : Tiles start (gap ++ (text ++ rest)) (⟨kind, ⟨first, stop⟩⟩ :: more)

theorem tokensFrom_nil (count start : Nat) : tokensFrom count start [] = [] := by
  cases count <;> rfl

theorem tokensFrom_cons {gap : List Char} {c : Char} {rest : List Char} {n : Nat}
    (hblanks : blanks (gap ++ c :: rest) = ⟨none, gap.length⟩) (hlength : (scan c rest).length = n + 1)
    (count start : Nat) :
    tokensFrom (count + 1) start (gap ++ c :: rest) =
      ⟨(scan c rest).value, ⟨start + byteLength gap,
          start + byteLength gap + byteLength (c :: rest.take n)⟩⟩ ::
        tokensFrom count (start + byteLength gap + byteLength (c :: rest.take n)) (rest.drop n) := by
  rw [tokensFrom]
  dsimp only
  rw [hblanks]
  dsimp only
  rw [List.take_left, List.drop_left]
  dsimp only
  rw [hlength, List.take_succ_cons, List.drop_succ_cons]

/-- A token that is read again from its own text, alone. -/
theorem tokens_alone {c : Char} {text : List Char} (hblanks : blanks (c :: text) = ⟨none, 0⟩)
    (hlength : (scan c text).length = text.length + 1) :
    tokens (String.ofList (c :: text)) = [⟨(scan c text).value, ⟨0, byteLength (c :: text)⟩⟩] := by
  have htoken := @tokensFrom_cons _ [] c text _ hblanks hlength (c :: text).length 0
  rw [List.take_length, List.drop_length, tokensFrom_nil] at htoken
  rw [tokens, String.length_ofList, String.toList_ofList]
  simpa [byteLength] using htoken

theorem tokensFrom_tiles {count start : Nat} {cs : List Char} (hcount : cs.length < count) :
    Tiles start cs (tokensFrom count start cs) := by
  induction count generalizing start cs with
  | zero => exact absurd hcount (Nat.not_lt_zero _)
  | succ count ih =>
    have hskipped := blanks_skipped cs
    generalize hblanks : blanks cs = r at hskipped
    cases hskipped with
    | @stops gap rest hgap hrest =>
      cases rest with
      | nil =>
        rw [tokensFrom, hblanks]
        dsimp only
        rw [List.drop_left, List.append_nil]
        exact .done hgap
      | cons c rest =>
        obtain ⟨n, hlength, hn, hread⟩ := scan_anchored c rest
        rw [tokensFrom_cons hblanks hlength]
        -- the token reads no further than its own characters, so it is read alike without the rest
        have halone := tokens_alone (hrest (c :: rest.take n) (by simp [List.take_prefix]))
          (by rw [hread, hlength, List.length_take, Nat.min_eq_left hn])
        have hcs : gap ++ c :: rest = gap ++ (c :: rest.take n ++ rest.drop n) := by
          rw [List.cons_append, List.take_append_drop]
        rw [hcs]
        refine .token hgap (by nofun) rfl rfl (by rwa [hread] at halone) (ih ?_)
        rw [List.length_append, List.length_cons] at hcount
        rw [List.length_drop]
        omega
    | @comment gap body hgap hline =>
      rw [tokensFrom, hblanks]
      dsimp only
      rw [List.drop_length]
      exact .comment hgap hline
    | @unterminated gap body hgap hbody =>
      rw [tokensFrom, hblanks]
      dsimp only
      rw [List.take_length]
      exact .unterminated hgap hbody rfl

/-! ### Where the tokens stand -/

/-- Each token stands in the text, between characters; one that takes nothing is an unterminated comment
at the end, and each other one is read from its own text alone. -/
theorem Tiles.placed {start : Nat} {cs : List Char} {ts : List Token} (h : Tiles start cs ts) :
    ∀ t ∈ ts, ∃ before text after, cs = before ++ text ++ after ∧
      t.span = ⟨start + byteLength before, start + byteLength (before ++ text)⟩ ∧
      (text = [] → after = [] ∧ t.kind = .flawed .unterminatedComment) ∧
      (text ≠ [] → tokens (String.ofList text) = [⟨t.kind, ⟨0, byteLength text⟩⟩]) := by
  induction h with
  | done => nofun
  | comment => nofun
  | @unterminated start stop gap body hgap hbody hstop =>
    intro t ht
    obtain rfl := List.mem_singleton.1 ht
    refine ⟨gap ++ '/' :: '*' :: body, [], [], by simp, ?_, fun _ => ⟨rfl, rfl⟩, fun h => absurd rfl h⟩
    rw [List.append_nil, hstop]
  | @token start first stop gap text rest kind more hgap htext hfirst hstop halone hmore ih =>
    intro t ht
    rcases List.mem_cons.1 ht with rfl | ht
    · refine ⟨gap, text, rest, (List.append_assoc ..).symm, ?_, fun h => absurd h htext, fun _ => halone⟩
      rw [byteLength_append, hstop, hfirst, Nat.add_assoc]
    · obtain ⟨before, own, after, hrest, hspan, hflaw, hown⟩ := ih t ht
      refine ⟨gap ++ text ++ before, own, after, ?_, ?_, hflaw, hown⟩
      · rw [hrest]
        simp only [List.append_assoc]
      · rw [hspan, hstop, hfirst]
        simp only [byteLength_append, Nat.add_assoc]

/-- No token starts before the one in front of it ends. -/
theorem Tiles.ordered {start : Nat} {cs : List Char} {ts : List Token} (h : Tiles start cs ts) :
    ts.Pairwise fun t u => t.span.stop ≤ u.span.start := by
  induction h with
  | done => exact .nil
  | comment => exact .nil
  | unterminated => exact List.pairwise_singleton _ _
  | token hgap htext hfirst hstop halone hmore ih =>
    refine .cons (fun u hu => ?_) ih
    obtain ⟨before, text, after, -, hspan, -⟩ := hmore.placed u hu
    rw [hspan]
    exact Nat.le_add_right _ _

/-- Each token of a text stands in it, between characters; an empty one is an unterminated comment at the end,
and each other one is read from its own text alone. -/
theorem token_placed {source : String} {t : Token} (ht : t ∈ tokens source) :
    ∃ before text after : String, source = before ++ text ++ after ∧
      t.span = ⟨before.utf8ByteSize, (before ++ text).utf8ByteSize⟩ ∧
      (text = "" → after = "" ∧ t.kind = .flawed .unterminatedComment) ∧
      (text ≠ "" → tokens text = [⟨t.kind, ⟨0, text.utf8ByteSize⟩⟩]) := by
  have htiles : Tiles 0 source.toList (tokens source) := tokensFrom_tiles (Nat.lt_succ_self _)
  obtain ⟨before, text, after, hsource, hspan, hflaw, halone⟩ := htiles.placed t ht
  refine ⟨String.ofList before, String.ofList text, String.ofList after, ?_, ?_, ?_, ?_⟩
  · rw [← String.ofList_append, ← String.ofList_append, ← hsource, String.ofList_toList]
  · rw [hspan, ← String.ofList_append, utf8ByteSize_ofList, utf8ByteSize_ofList, Nat.zero_add, Nat.zero_add]
  · intro htext
    obtain ⟨rfl, hkind⟩ := hflaw (String.ofList_injective htext)
    exact ⟨rfl, hkind⟩
  · intro htext
    rw [utf8ByteSize_ofList]
    exact halone fun h => htext (congrArg String.ofList h)

/-- The tokens of a text tile it.  Between them stand white space and comments only; they stand in
order, in the text and between characters; and each is what is read from its own text alone, but for an
empty one that stands for an unterminated comment at the end. -/
theorem tokens_tile (source : String) :
    Tiles 0 source.toList (tokens source) ∧
      (∀ t ∈ tokens source, ∃ before text after : String, source = before ++ text ++ after ∧
        t.span = ⟨before.utf8ByteSize, (before ++ text).utf8ByteSize⟩ ∧
        (text = "" → after = "" ∧ t.kind = .flawed .unterminatedComment) ∧
        (text ≠ "" → tokens text = [⟨t.kind, ⟨0, text.utf8ByteSize⟩⟩])) ∧
      (tokens source).Pairwise fun t u => t.span.stop ≤ u.span.start := by
  have htiles : Tiles 0 source.toList (tokens source) := tokensFrom_tiles (Nat.lt_succ_self _)
  exact ⟨htiles, fun t ht => token_placed ht, htiles.ordered⟩

end Tilings

example : (tokens "1.e5 // \n/*").map (·.span) = [⟨0, 1⟩, ⟨1, 2⟩, ⟨2, 4⟩, ⟨11, 11⟩] := by decide +kernel

end StackScript.Syntax
