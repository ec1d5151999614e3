import StackScript.Proofs.Spelling

/-!
# A token is read from its own text

The readers of tokens look one to three characters ahead of what they take.  Still, a reader that is
given nothing but what it has taken takes it again and finds the same there: it is self-contained
(`SelfContained`).  `scan_selfContained` says so of whole tokens, malformed ones included.
-/

namespace StackScript.Syntax

/-- The reading takes no more than there is, and what it takes alone is read in the same way. -/
def SelfContained {α : Type} (read : List Char → Reading α) (cs : List Char) : Prop :=
  (read cs).length ≤ cs.length ∧ read (cs.take (read cs).length) = read cs

namespace SelfContained

variable {α β : Type} {read : List Char → Reading α} {sub : List Char → Reading β} {cs : List Char}

/-- A reading that takes all there is. -/
theorem of_all (h : (read cs).length = cs.length) : SelfContained read cs :=
  ⟨h.le, by rw [h, List.take_length]⟩

/-- A reading that takes so many characters, whatever stands behind them. -/
theorem of_front (front : List Char) {a : α}
    (h : ∀ left, left <+: cs → read (front ++ left) = ⟨a, front.length⟩) :
    SelfContained read (front ++ cs) := by
  have hfront := h [] List.nil_prefix
  rw [List.append_nil] at hfront
  have hcs := h cs (List.prefix_refl cs)
  refine ⟨?_, ?_⟩
  · rw [hcs, List.length_append]
    exact Nat.le_add_right _ _
  · rw [hcs, List.take_left, hfront]

/-- A reading that goes on behind the first characters. -/
theorem of_behind (front : List Char) {f : β → α} (hsub : SelfContained sub cs)
    (h : ∀ left, left <+: cs → read (front ++ left) = ((sub left).map f).behind front.length) :
    SelfContained read (front ++ cs) := by
  have hcs := h cs (List.prefix_refl cs)
  have hlength : (read (front ++ cs)).length = front.length + (sub cs).length := by
    rw [hcs]
    exact Nat.add_comm _ _
  refine ⟨?_, ?_⟩
  · rw [hlength, List.length_append]
    exact Nat.add_le_add_left hsub.1 _
  · rw [hlength, List.take_length_add_append, h _ (List.take_prefix _ _), hsub.2, hcs]

end SelfContained

/-- A reading that goes on behind the first characters has a result where the rest has one. -/
theorem value_behind {α β : Type} {r : Reading (Except Flaw α)} {f : α → β} {n : Nat} {b : β}
    (h : ((r.map (Except.map f)).behind n).value = .ok b) : ∃ a, r.value = .ok a ∧ f a = b := by
  obtain ⟨value, length⟩ := r
  cases value with
  | ok a => exact ⟨a, rfl, Except.ok.inj h⟩
  | error e => cases h

/-! ### Strings -/

/-- A character that is no escape is no backslash. -/
theorem no_backslash {c : Char} {rest : List Char} (hend : c = '\\' → rest = [] → False)
    (hescape : ∀ letter tail, c = '\\' → rest = letter :: tail → False) : c ≠ '\\' := by
  rintro rfl
  cases rest with
  | nil => exact hend rfl rfl
  | cons letter tail => exact hescape letter tail rfl rfl

theorem scanString_cons {quote c : Char} (hc : c ≠ '\\') (rest : List Char) :
    scanString quote (c :: rest) =
      if c = '\n' then ⟨.error .unterminatedString, 1⟩
      else if c = quote then ⟨.ok [], 1⟩
      else ((scanString quote rest).map (Except.map (c :: ·))).behind 1 := by
  rw [scanString] <;> exact fun h => by simp_all

theorem scanString_selfContained (quote : Char) (cs : List Char) :
    SelfContained (scanString quote) cs := by
  induction cs using scanString.induct quote with
  | case1 => exact .of_all rfl
  | case2 => exact .of_all rfl
  | case3 letter rest c hc ih =>
    refine .of_behind ['\\', letter] (f := Except.map (c :: ·)) ih fun left _ => ?_
    show scanString quote ('\\' :: letter :: left) = _
    rw [scanString, hc]
    rfl
  | case4 letter rest hc =>
    refine .of_front ['\\', letter] (a := .error (.unknownEscape letter)) fun left _ => ?_
    show scanString quote ('\\' :: letter :: left) = _
    rw [scanString, hc]
    rfl
  | case5 rest =>
    refine .of_front ['\n'] (a := .error .unterminatedString) fun left _ => ?_
    exact (scanString_cons (by decide) left).trans (if_pos rfl)
  | case6 rest hend hescape hline =>
    refine .of_front [quote] (a := .ok []) fun left _ => ?_
    exact (scanString_cons (no_backslash hend hescape) left).trans ((if_neg hline).trans (if_pos rfl))
  | case7 c rest hend hescape hline hquote ih =>
    refine .of_behind [c] (f := Except.map (c :: ·)) ih fun left _ => ?_
    exact (scanString_cons (no_backslash hend hescape) left).trans
      ((if_neg hline).trans (if_neg hquote))

/-! ### Templates -/

theorem scanTemplate_cons {c : Char} (hc : c ≠ '\\') {rest : List Char}
    (hopen : c = '$' → rest.head? ≠ some '\x7b') :
    scanTemplate (c :: rest) =
      if c = '\x60' then ⟨.ok .last, 1⟩
      else ((scanTemplate rest).map (Except.map (.consChunk c))).behind 1 := by
  rw [scanTemplate]
  · rintro tail rfl rfl
    exact hopen rfl rfl
  · exact fun h => absurd h hc
  · exact fun _ _ h => absurd h hc

theorem scanQuoted_cons {quote c : Char} {depth : Nat} (hc : c ≠ '\\') (rest : List Char) :
    scanQuoted quote depth (c :: rest) =
      ((if c = quote then scanInterpolation depth rest else scanQuoted quote depth rest).map
        (Except.map (.consSource c))).behind 1 := by
  rw [scanQuoted]
  · exact fun h => absurd h hc
  · exact fun _ _ h => absurd h hc

theorem head?_of_initial {left rest : List Char} {c : Char} (h : left <+: rest)
    (hrest : rest.head? ≠ some c) : left.head? ≠ some c := by
  obtain ⟨more, rfl⟩ := h
  cases left with
  | nil => nofun
  | cons d left => exact hrest

theorem scanTemplate_selfContained (cs : List Char) : SelfContained scanTemplate cs := by
  induction cs using scanTemplate.induct
    (motive_2 := fun depth cs => SelfContained (scanInterpolation depth) cs)
    (motive_3 := fun quote depth cs => SelfContained (scanQuoted quote depth) cs)
  case case1 => exact .of_all rfl
  case case2 rest ih =>
    refine .of_behind ['$', '\x7b'] (f := Except.map .openSource) ih fun left _ => ?_
    show scanTemplate ('$' :: '\x7b' :: left) = _
    rw [scanTemplate]
    rfl
  case case3 => exact .of_all rfl
  case case4 letter rest c hc ih =>
    refine .of_behind ['\\', letter] (f := Except.map (.consChunk c)) ih fun left _ => ?_
    show scanTemplate ('\\' :: letter :: left) = _
    rw [scanTemplate, hc]
    rfl
  case case5 letter rest hc =>
    refine .of_front ['\\', letter] (a := .error (.unknownEscape letter)) fun left _ => ?_
    show scanTemplate ('\\' :: letter :: left) = _
    rw [scanTemplate, hc]
    rfl
  case case6 rest hopen hend hescape =>
    refine .of_front ['\x60'] (a := .ok .last) fun left _ => ?_
    exact (scanTemplate_cons (by decide) (by nofun)).trans (if_pos rfl)
  case case7 c rest hopen hend hescape hquote ih =>
    -- a dollar sign at the end of the text could only open an interpolation with a brace behind it
    have hhead (hc : c = '$') : rest.head? ≠ some '\x7b' := by
      intro hrest
      obtain ⟨tail, rfl⟩ := List.head?_eq_some_iff.1 hrest
      exact hopen tail hc rfl
    refine .of_behind [c] (f := Except.map (.consChunk c)) ih fun left hleft => ?_
    exact (scanTemplate_cons (no_backslash hend hescape)
      fun hc => head?_of_initial hleft (hhead hc)).trans (if_neg hquote)
  case case8 => exact .of_all rfl
  case case9 depth c rest hclose ih =>
    refine .of_behind [c] (f := Except.map .closeSource) ih fun left _ => ?_
    exact if_pos hclose
  case case10 depth c rest hopen ihopen ihclose ihquoted ih =>
    -- which reader goes on depends on the character only
    by_cases hbrace : c = '\x7b'
    · refine .of_behind [c] (f := Except.map (.consSource c)) ihopen fun left _ => ?_
      exact (if_neg hopen).trans (by rw [if_pos hbrace]; rfl)
    · by_cases hback : c = '\x7d'
      · refine .of_behind [c] (f := Except.map (.consSource c)) ihclose fun left _ => ?_
        exact (if_neg hopen).trans (by rw [if_neg hbrace, if_pos hback]; rfl)
      · by_cases hquote : c = '"' ∨ c = '\'' ∨ c = '\x60'
        · refine .of_behind [c] (f := Except.map (.consSource c)) ihquoted fun left _ => ?_
          exact (if_neg hopen).trans (by rw [if_neg hbrace, if_neg hback, if_pos hquote]; rfl)
        · refine .of_behind [c] (f := Except.map (.consSource c)) ih fun left _ => ?_
          exact (if_neg hopen).trans (by rw [if_neg hbrace, if_neg hback, if_neg hquote]; rfl)
  case case11 => exact .of_all rfl
  case case12 => exact .of_all rfl
  case case13 quote depth letter rest ih =>
    refine .of_behind ['\\', letter] (f := Except.map fun p =>
      .consSource '\\' (.consSource letter p)) ih fun left _ => ?_
    show scanQuoted quote depth ('\\' :: letter :: left) = _
    rw [scanQuoted]
    rfl
  case case14 quote depth c rest hend hescape ih ihquoted =>
    have hc := no_backslash hend hescape
    by_cases hquote : c = quote
    · refine .of_behind [c] (f := Except.map (.consSource c)) ih fun left _ => ?_
      exact (scanQuoted_cons hc left).trans (by rw [if_pos hquote]; rfl)
    · refine .of_behind [c] (f := Except.map (.consSource c)) ihquoted fun left _ => ?_
      exact (scanQuoted_cons hc left).trans (by rw [if_neg hquote]; rfl)

/-! ### Runs of characters -/

theorem takeWhile_take {p : Char → Bool} {cs : List Char} {n : Nat}
    (h : (cs.takeWhile p).length ≤ n) : (cs.take n).takeWhile p = cs.takeWhile p := by
  induction cs generalizing n with
  | nil => rw [List.take_nil]
  | cons c cs ih =>
    rw [List.takeWhile_cons] at h ⊢
    split at h
    · next hc =>
      obtain ⟨m, rfl⟩ : ∃ m, n = m + 1 := ⟨n - 1, by rw [List.length_cons] at h; omega⟩
      rw [List.take_succ_cons, List.takeWhile_cons, if_pos hc, if_pos hc, ih (Nat.le_of_succ_le_succ h)]
    · next hc =>
      cases n with
      | zero => rw [List.take_zero, if_neg hc]; rfl
      | succ n => rw [List.take_succ_cons, List.takeWhile_cons, if_neg hc, if_neg hc]

theorem digits_length_le (isDigit : Char → Bool) (cs : List Char) :
    (digits isDigit cs).length ≤ cs.length := (List.takeWhile_prefix _).length_le

/-- Digits do not depend on what stands behind them. -/
theorem digits_take {isDigit : Char → Bool} {cs : List Char} {n : Nat}
    (h : (digits isDigit cs).length ≤ n) : digits isDigit (cs.take n) = digits isDigit cs := by
  unfold digits
  rw [takeWhile_take h]

/-! ### Exponents -/

theorem sign_take {cs : List Char} {n : Nat} (h : (sign cs).length < n) : sign (cs.take n) = sign cs := by
  obtain ⟨m, rfl⟩ : ∃ m, n = m + 1 := ⟨n - 1, by omega⟩
  cases cs with
  | nil => rfl
  | cons c cs =>
    rw [List.take_succ_cons]
    unfold sign
    split <;> split <;> simp_all

theorem head?_take {cs : List Char} {n : Nat} (h : 0 < n) : (cs.take n).head? = cs.head? := by
  rw [List.head?_take, if_neg (by omega)]

theorem digits_length_pos {isDigit : Char → Bool} {cs : List Char} (h : cs.head?.any isDigit = true) :
    0 < (digits isDigit cs).length := by
  cases cs with
  | nil => cases h
  | cons c rest =>
    have hc : isDigit c = true := h
    simp [digits, hc]

/-- An exponent at the front takes no more than there is, and is read again from so much. -/
theorem exponent?_take {cs : List Char} {r : Reading Int} (h : exponent? cs = some r) :
    r.length ≤ cs.length ∧ exponent? (cs.take r.length) = some r := by
  cases cs with
  | nil => cases h
  | cons c rest =>
    rw [exponent?] at h
    dsimp only at h
    split at h
    · next hmark =>
      generalize hsign : (sign rest).length = m at h hmark
      generalize hpower : (digits Char.isDigit (rest.drop m)).length = k at h
      have hk : 0 < k := hpower ▸ digits_length_pos (Bool.and_eq_true_iff.1 hmark).2
      have hle : k ≤ (rest.drop m).length := hpower ▸ digits_length_le _ _
      have hdrop : (rest.take (k + m)).drop m = (rest.drop m).take k := by
        rw [List.drop_take, Nat.add_sub_cancel]
      have htake : sign (rest.take (k + m)) = sign rest := sign_take (by omega)
      obtain rfl := Option.some.inj h
      rw [List.length_drop] at hle
      refine ⟨show k + m + 1 ≤ rest.length + 1 by omega, ?_⟩
      show exponent? ((c :: rest).take (k + m + 1)) = _
      rw [List.take_succ_cons, exponent?]
      dsimp only
      rw [htake, hsign, hdrop, head?_take hk, if_pos hmark, digits_take hpower.le, hpower]
    · cases h

/-- The number of characters that an exponent takes, or nothing. -/
def taken {α : Type} (r : Option (Reading α)) : Nat := (r.map (·.length)).getD 0

theorem exponent?_self (cs : List Char) :
    taken (exponent? cs) ≤ cs.length ∧ exponent? (cs.take (taken (exponent? cs))) = exponent? cs := by
  cases h : exponent? cs with
  | none => exact ⟨Nat.zero_le _, rfl⟩
  | some r => exact exponent?_take h

/-! ### Numbers -/

theorem scanHex_selfContained (cs : List Char) : SelfContained scanHex cs := by
  refine ⟨digits_length_le _ _, ?_⟩
  show scanHex (cs.take (digits isHexDigit cs).length) = _
  unfold scanHex
  rw [digits_take le_rfl]

section Numbers

variable [Text.IdentifierChars]

/-- A fraction at the front is read again from what it takes and more. -/
theorem fraction?_take {cs : List Char} {r : Reading (List Char)} (h : fraction? cs = some r) {n : Nat}
    (hn : r.length ≤ n) : r.length ≤ cs.length ∧ fraction? (cs.take n) = some r := by
  unfold fraction? at h
  split at h
  · next rest =>
    split at h
    · cases h
    · next hname =>
      obtain rfl := Option.some.inj h
      have hn : (digits Char.isDigit rest).length + 1 ≤ n := hn
      obtain ⟨m, rfl⟩ : ∃ m, n = m + 1 := ⟨n - 1, by omega⟩
      refine ⟨Nat.succ_le_succ (digits_length_le _ _), ?_⟩
      rw [List.take_succ_cons, fraction?, digits_take (by omega), if_neg]
      cases m with
      | zero => nofun
      | succ m => rwa [head?_take (Nat.succ_pos m)]
  · cases h

/-- An exponent is no fraction, nor is what it starts with. -/
theorem fraction?_of_exponent {cs : List Char} {r : Reading Int} (h : exponent? cs = some r) (n : Nat) :
    fraction? (cs.take n) = none := by
  cases cs with
  | nil => cases h
  | cons c rest =>
    cases n with
    | zero => rfl
    | succ n =>
      rw [List.take_succ_cons]
      unfold fraction?
      split
      · next heq =>
        obtain rfl := (List.cons.inj heq).1
        cases h
      · rfl

/-- A fraction is read again from what it and the exponent behind it take. -/
theorem fraction?_self {cs : List Char} {m e : Nat} (hm : taken (fraction? cs) = m)
    (he : taken (exponent? (cs.drop m)) = e) :
    m ≤ cs.length ∧ fraction? (cs.take (m + e)) = fraction? cs := by
  cases h : fraction? cs with
  | some r =>
    rw [h] at hm
    obtain rfl : r.length = m := hm
    exact fraction?_take h (Nat.le_add_right _ _)
  | none =>
    rw [h] at hm
    obtain rfl : 0 = m := hm
    refine ⟨Nat.zero_le _, ?_⟩
    rw [List.drop_zero] at he
    cases hexponent : exponent? cs with
    | none =>
      rw [hexponent] at he
      obtain rfl : 0 = e := he
      rfl
    | some r => exact fraction?_of_exponent hexponent _

theorem scanDecimal_selfContained (cs : List Char) : SelfContained scanDecimal cs := by
  obtain ⟨w, hw⟩ : ∃ w, (digits Char.isDigit cs).length = w := ⟨_, rfl⟩
  obtain ⟨m, hm⟩ : ∃ m, taken (fraction? (cs.drop w)) = m := ⟨_, rfl⟩
  obtain ⟨e, he⟩ : ∃ e, taken (exponent? (cs.drop (w + m))) = e := ⟨_, rfl⟩
  have hwhole := digits_length_le Char.isDigit cs
  have hfraction := fraction?_self (e := e) hm (by rw [List.drop_drop]; exact he)
  have hexponent := exponent?_self (cs.drop (w + m))
  rw [List.length_drop] at hfraction hexponent
  have hlength : (scanDecimal cs).length = w + m + e := by
    unfold scanDecimal
    dsimp only
    rw [hw]
    show w + taken (fraction? (cs.drop w)) + taken (exponent? (cs.drop (w + taken (fraction? (cs.drop w))))) = _
    rw [hm, he]
  refine ⟨by omega, ?_⟩
  rw [hlength]
  -- with what is behind it cut off, the number has the same whole part, fraction and exponent
  have hdigits : digits Char.isDigit (cs.take (w + m + e)) = digits Char.isDigit cs :=
    digits_take (by omega)
  have hdrop : (cs.take (w + m + e)).drop w = (cs.drop w).take (m + e) := by
    rw [List.drop_take]
    congr 1
    omega
  have hdrop' : (cs.take (w + m + e)).drop (w + m) = (cs.drop (w + m)).take e := by
    rw [List.drop_take]
    congr 1
    omega
  rw [he] at hexponent
  unfold scanDecimal
  dsimp only
  rw [hdigits, hw, hdrop, hfraction.2]
  show Reading.mk _ _ = Reading.mk _ _
  have hm' : ((fraction? (cs.drop w)).map (·.length)).getD 0 = m := hm
  rw [hm', hdrop', hexponent.2]

end Numbers

/-! ### Tokens -/

/-- Behind its first character, the reading takes no more than there is, and from that alone the same is
read again. -/
def Anchored {α : Type} (read : List Char → Reading α) (rest : List Char) : Prop :=
  ∃ n, (read rest).length = n + 1 ∧ n ≤ rest.length ∧ read (rest.take n) = read rest

namespace Anchored

variable {rest : List Char}

theorem one {α : Type} {read : List Char → Reading α} {a : α} (h : ∀ cs, read cs = ⟨a, 1⟩) :
    Anchored read rest :=
  ⟨0, congrArg Reading.length (h rest), Nat.zero_le _, (h _).trans (h rest).symm⟩

theorem behind {α β : Type} {read : List Char → Reading α} {f : α → β}
    (h : SelfContained read rest) : Anchored (fun cs => ((read cs).map f).behind 1) rest :=
  ⟨(read rest).length, rfl, h.1, by dsimp only; rw [h.2]⟩

theorem withEqual (plain long : Mark) : Anchored (withEqual plain long) rest := by
  cases rest with
  | nil => exact ⟨0, rfl, le_rfl, rfl⟩
  | cons c rest =>
    by_cases hc : c = '='
    · subst hc
      exact ⟨1, rfl, Nat.le_add_left _ _, rfl⟩
    · have h : Syntax.withEqual plain long (c :: rest) = ⟨.mark plain, 1⟩ := by
        unfold Syntax.withEqual
        split
        · next heq => exact absurd (List.cons.inj heq).1 hc
        · rfl
      exact ⟨0, congrArg Reading.length h, Nat.zero_le _, h.symm⟩

/-- Two characters together, or what is read otherwise. -/
theorem orElse {second : Char} {a : TokenKind} {read : List Char → Reading TokenKind}
    (h : Anchored read rest) :
    Anchored (fun cs => if cs.head? = some second then ⟨a, 2⟩ else read cs) rest := by
  by_cases hhead : rest.head? = some second
  · obtain ⟨tail, rfl⟩ := List.head?_eq_some_iff.1 hhead
    exact ⟨1, congrArg Reading.length (if_pos rfl), Nat.le_add_left _ _, by simp⟩
  · obtain ⟨n, hlength, hn, hread⟩ := h
    refine ⟨n, (congrArg Reading.length (if_neg hhead)).trans hlength, hn, ?_⟩
    dsimp only
    rw [if_neg hhead, if_neg (head?_of_initial (List.take_prefix _ _) hhead), hread]

theorem doubled (first second : Char) (m : Mark) : Anchored (doubled first second m) rest :=
  orElse (one fun _ => rfl)

theorem scanDot : Anchored scanDot rest := by
  by_cases hdigit : rest.head?.any Char.isDigit = true
  · obtain ⟨m, hm⟩ : ∃ m, (digits Char.isDigit rest).length = m := ⟨_, rfl⟩
    obtain ⟨e, he⟩ : ∃ e, taken (exponent? (rest.drop m)) = e := ⟨_, rfl⟩
    have hpos := digits_length_pos hdigit
    have hdigits := digits_length_le Char.isDigit rest
    have hexponent := exponent?_self (rest.drop m)
    rw [he, List.length_drop] at hexponent
    have hdrop : (rest.take (m + e)).drop m = (rest.drop m).take e := by
      rw [List.drop_take, Nat.add_sub_cancel_left]
    refine ⟨m + e, ?_, by omega, ?_⟩
    · unfold Syntax.scanDot
      rw [if_pos hdigit]
      dsimp only
      rw [hm]
      show m + taken (exponent? (rest.drop m)) + 1 = _
      rw [he]
    · unfold Syntax.scanDot
      rw [head?_take (by omega), digits_take (by omega), if_pos hdigit, if_pos hdigit]
      dsimp only
      rw [hm, hdrop, hexponent.2]
  · have hdot : Syntax.scanDot rest = ⟨.mark .dot, 1⟩ := if_neg hdigit
    exact ⟨0, congrArg Reading.length hdot, Nat.zero_le _, hdot.symm⟩

variable [Text.IdentifierChars]

/-- Stars are looked at two at a time. -/
theorem stars (rest : List Char) : Anchored (scan '*') rest := by
  by_cases hhead : rest.head? = some '*'
  · obtain ⟨tail, rfl⟩ := List.head?_eq_some_iff.1 hhead
    obtain ⟨n, hlength, hn, hread⟩ : Anchored _ tail := withEqual .power .powerAssign
    refine ⟨n + 1, congrArg (· + 1) hlength, Nat.succ_le_succ hn, ?_⟩
    exact congrArg (Reading.behind 1) hread
  · have hplain (cs : List Char) (hcs : cs.head? ≠ some '*') :
        scan '*' cs = Syntax.withEqual .star .starAssign cs := by
      rw [scan]
      exact fun tail h => hcs (by rw [h]; rfl)
    obtain ⟨n, hlength, hn, hread⟩ : Anchored _ rest := withEqual .star .starAssign
    refine ⟨n, by rw [hplain rest hhead, hlength], hn, ?_⟩
    rw [hplain rest hhead, hplain _ (head?_of_initial (List.take_prefix _ _) hhead), hread]

theorem scanName (first : Char) : Anchored (scanName first) rest := by
  refine ⟨(rest.takeWhile isNameContinue).length, rfl, (List.takeWhile_prefix _).length_le, ?_⟩
  unfold Syntax.scanName
  rw [takeWhile_take le_rfl]

theorem scanNumber_decimal {first : Char}
    (h : first = '0' → rest.head? ≠ some 'x' ∧ rest.head? ≠ some 'X') :
    Syntax.scanNumber first rest = scanDecimal (first :: rest) := by
  unfold Syntax.scanNumber
  split
  · exact absurd rfl (h rfl).1
  · exact absurd rfl (h rfl).2
  · rfl

theorem scanNumber {first : Char} (hfirst : first.isDigit = true) : Anchored (scanNumber first) rest := by
  have hex {mark : Char} (hmark : mark = 'x' ∨ mark = 'X') (tail : List Char) :
      Anchored (Syntax.scanNumber '0') (mark :: tail) := by
    obtain ⟨hlength, hread⟩ := scanHex_selfContained tail
    have hequal (cs : List Char) : Syntax.scanNumber '0' (mark :: cs) = (scanHex cs).behind 2 := by
      rcases hmark with rfl | rfl <;> rfl
    refine ⟨(scanHex tail).length + 1, congrArg Reading.length (hequal tail), Nat.succ_le_succ hlength, ?_⟩
    rw [List.take_succ_cons, hequal, hequal, hread]
  by_cases hdecimal : first = '0' → rest.head? ≠ some 'x' ∧ rest.head? ≠ some 'X'
  · obtain ⟨hlength, hread⟩ := scanDecimal_selfContained (first :: rest)
    have hdigit : (first :: rest).head?.any Char.isDigit = true := hfirst
    have hpos : 0 < (scanDecimal (first :: rest)).length :=
      (digits_length_pos hdigit).trans_le ((Nat.le_add_right _ _).trans (Nat.le_add_right _ _))
    obtain ⟨n, hn⟩ : ∃ n, (scanDecimal (first :: rest)).length = n + 1 :=
      Nat.exists_eq_succ_of_ne_zero hpos.ne'
    rw [hn, List.length_cons] at hlength
    rw [hn, List.take_succ_cons] at hread
    refine ⟨n, by rw [scanNumber_decimal hdecimal, hn], by omega, ?_⟩
    rw [scanNumber_decimal hdecimal, scanNumber_decimal, hread]
    exact fun h => ⟨head?_of_initial (List.take_prefix _ _) (hdecimal h).1,
      head?_of_initial (List.take_prefix _ _) (hdecimal h).2⟩
  · obtain ⟨rfl, hmark⟩ := Classical.not_imp.1 hdecimal
    rw [not_and_or, not_not, not_not] at hmark
    rcases hmark with hmark | hmark <;> obtain ⟨tail, rfl⟩ := List.head?_eq_some_iff.1 hmark
    · exact hex (.inl rfl) tail
    · exact hex (.inr rfl) tail

end Anchored

/-- Every token is read again from its own text. -/
theorem scan_anchored [Text.IdentifierChars] (c : Char) (rest : List Char) : Anchored (scan c) rest := by
  by_cases hstar : c = '*'
  · subst hstar
    exact .stars rest
  unfold scan
  split
  case h_11 => exact .scanDot
  case h_12 | h_13 => exact .orElse (.withEqual _ _)
  case h_14 => exact absurd rfl hstar
  case h_15 | h_16 | h_17 | h_18 | h_19 | h_20 => exact .withEqual _ _
  case h_21 | h_22 | h_23 => exact .doubled _ _ _
  case h_24 | h_25 => exact .behind (scanString_selfContained _ _)
  case h_26 => exact .behind (scanTemplate_selfContained _)
  case h_27 =>
    split
    · next hdigit => exact .scanNumber hdigit
    · split
      · exact .scanName c
      · exact .one fun _ => rfl
  all_goals exact .one fun _ => rfl

end StackScript.Syntax
