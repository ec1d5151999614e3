import StackScript.Proofs.Printing

/-!
# Tokens and their spelling

* `TokenKind.sound`: what every token of a text satisfies (`sound_of_tokens`).  A name has the letters of
  a name, and a number has no sign.
* `TokenKind.legible`: the sound tokens that can be written.
* `tokens_layOut`: the tokens of a text that is laid out are the ones that it was made of.
-/

namespace StackScript.Syntax

open Decimal

/-! ### Words, blanks, digits and strings -/

theorem ofText?_text (k : Keyword) : Keyword.ofText? k.text = some k := by
  cases k <;> decide

theorem blanks_stop {c : Char} (hblank : Text.isBlank c = false) (hslash : c ≠ '/') (rest : List Char) :
    blanks (c :: rest) = ⟨none, 0⟩ := by
  rw [blanks, if_neg (by simp [hblank])]
  · exact fun _ h _ => hslash h
  · exact fun _ h _ => hslash h

theorem blanks_of_digit {c : Char} (h : c.isDigit = true) (rest : List Char) :
    blanks (c :: rest) = ⟨none, 0⟩ := by
  refine blanks_stop (Text.not_isBlank (by decide +kernel) h) ?_ rest
  rintro rfl
  exact absurd h (by decide)

theorem blanks_blank (cs : List Char) : blanks (' ' :: cs) = (blanks cs).behind 1 := by
  rw [blanks, if_pos (by decide)]
  · exact fun _ h _ => absurd h (by decide)
  · exact fun _ h _ => absurd h (by decide)

theorem takeWhile_stop {p : Char → Bool} {cs : List Char} (h : cs.all p = true) {stop : Char}
    (hstop : p stop = false) (rest : List Char) : (cs ++ stop :: rest).takeWhile p = cs := by
  rw [List.takeWhile_append_of_pos fun c hc => List.all_eq_true.1 h c hc,
    List.takeWhile_cons_of_neg (by simp [hstop]), List.append_nil]

theorem digits_stop {cs : List Char} (h : cs.all Char.isDigit = true) {stop : Char}
    (hdigit : stop.isDigit = false) (hmark : stop ≠ '_') (rest : List Char) :
    digits Char.isDigit (cs ++ stop :: rest) = ⟨cs, cs.length⟩ := by
  have hrun : (cs ++ stop :: rest).takeWhile (fun c => c.isDigit || c == '_') = cs :=
    takeWhile_stop (by simp_all [List.all_eq_true]) (by simp [hdigit, hmark]) rest
  have hkeep : cs.filter (· != '_') = cs := by
    refine List.filter_eq_self.2 fun c hc => ?_
    have hc := List.all_eq_true.1 h c hc
    rw [bne_iff_ne]
    rintro rfl
    exact absurd hc (by decide)
  unfold digits
  dsimp only
  rw [hrun, hkeep]

theorem all_isDigit_digitsOf (n : Nat) : (digitsOf n).all Char.isDigit = true :=
  List.all_eq_true.2 fun _ hc => Nat.isDigit_of_mem_toDigits (by decide) (by decide) hc

theorem natOfDigits_digitsOf (n : Nat) : natOfDigits (digitsOf n) = n := Nat.ofDigitChars_ten_toDigits

theorem digitsOf_cons (n : Nat) : ∃ c tail, digitsOf n = c :: tail ∧ c.isDigit = true ∧
    tail.all Char.isDigit = true := by
  have hall := all_isDigit_digitsOf n
  cases h : digitsOf n with
  | nil => exact absurd h Nat.toDigits_ne_nil
  | cons c tail =>
    rw [h, List.all_cons, Bool.and_eq_true] at hall
    exact ⟨c, tail, rfl, hall⟩

theorem scanString_escaped (s cs : List Char) :
    scanString '"' (s.flatMap escaped ++ '"' :: cs) = ⟨.ok s, (s.flatMap escaped).length + 1⟩ := by
  induction s with
  | nil => rfl
  | cons c s ih =>
    rw [List.flatMap_cons, List.append_assoc]
    by_cases hbreak : c = '\n'
    · subst hbreak
      have hescaped : escaped '\n' = ['\\', 'n'] := rfl
      rw [hescaped]
      simp only [List.cons_append, List.nil_append, scanString, unescape?]
      rw [ih]
      simp [Reading.map, Reading.behind, Except.map]
    · by_cases hmark : c = '"' ∨ c = '\\'
      · have hescaped : escaped c = ['\\', c] := by rw [escaped, if_neg hbreak, if_pos hmark]
        have hletter : unescape? c = some c := by rcases hmark with rfl | rfl <;> rfl
        rw [hescaped]
        simp only [List.cons_append, List.nil_append, scanString, hletter]
        rw [ih]
        simp [Reading.map, Reading.behind, Except.map]
      · have hescaped : escaped c = [c] := by rw [escaped, if_neg hbreak, if_neg hmark]
        rw [not_or] at hmark
        rw [hescaped, List.cons_append, List.nil_append, scanString, if_neg hbreak, if_neg hmark.1, ih]
        · simp [Reading.map, Reading.behind, Except.map]
        · exact fun hc _ => hmark.2 hc
        · exact fun _ _ hc _ => hmark.2 hc

/-! ### Tokens that are found and tokens that are written -/

variable [Text.IdentifierChars]

def isName (s : String) : Bool :=
  match s.toList with
  | [] => false
  | c :: tail => !c.isDigit && isNameStart c && tail.all isNameContinue && (Keyword.ofText? s).isNone

def TokenKind.sound : TokenKind → Bool
  | int n => decide (0 ≤ n)
  | float x => isUnsigned x.toModel.unpack
  | name s => isName s
  | _ => true

def TokenKind.legible : TokenKind → Bool
  | int n => decide (0 ≤ n)
  | float x => isUnsigned x.toModel.unpack && x.isFinite
  | name s => isName s
  | string _ | keyword _ | mark _ => true
  | template _ _ | endOfInput | flawed _ => false

/-! ### Every token of a text is sound -/

theorem sound_intLiteral (value : Nat) (text : List Char) : (intLiteral value text).sound = true := by
  unfold intLiteral
  split
  · next h =>
    rw [TokenKind.sound, decide_eq_true_eq, Int32.le_iff_toInt_le, Int32.toInt_ofNat_of_lt h]
    exact Int.natCast_nonneg value
  · rfl

theorem sound_scanHex (cs : List Char) : (scanHex cs).value.sound = true := by
  unfold scanHex
  dsimp only
  split
  · rfl
  · exact sound_intLiteral _ _

theorem sound_scanDecimal (cs : List Char) : (scanDecimal cs).value.sound = true := by
  unfold scanDecimal
  dsimp only
  split
  · exact sound_intLiteral _ _
  · exact unsigned_ofDigits _ _ _

theorem sound_scanNumber (first : Char) (rest : List Char) :
    (scanNumber first rest).value.sound = true := by
  unfold scanNumber
  split
  · exact sound_scanHex _
  · exact sound_scanHex _
  · exact sound_scanDecimal _

theorem sound_scanDot (rest : List Char) : (scanDot rest).value.sound = true := by
  unfold scanDot
  split
  · exact unsigned_ofDigits _ _ _
  · rfl

theorem sound_scanName {first : Char} (hstart : isNameStart first = true)
    (hdigit : first.isDigit = false) (rest : List Char) : (scanName first rest).value.sound = true := by
  unfold scanName
  dsimp only
  cases hk : Keyword.ofText? (String.ofList (first :: rest.takeWhile isNameContinue)) with
  | some k => rfl
  | none =>
    dsimp only [TokenKind.sound, isName]
    rw [String.toList_ofList]
    simp only [hstart, hdigit, hk, List.all_takeWhile, Bool.not_false, Bool.true_and, Option.isNone_none]

theorem sound_withEqual (plain long : Mark) (rest : List Char) :
    (withEqual plain long rest).value.sound = true := by
  unfold withEqual
  split <;> rfl

theorem sound_doubled (first second : Char) (m : Mark) (rest : List Char) :
    (doubled first second m rest).value.sound = true := by
  unfold doubled
  split <;> rfl

theorem sound_ofExcept {α : Type} {f : α → TokenKind} (hf : ∀ a, (f a).sound = true)
    (r : Except Flaw α) : (TokenKind.ofExcept f r).sound = true := by
  cases r with
  | ok a => exact hf a
  | error e => rfl

theorem sound_scan (c : Char) (rest : List Char) : (scan c rest).value.sound = true := by
  unfold scan
  split
  case h_11 => exact sound_scanDot rest
  case h_12 | h_13 =>
    split
    · rfl
    · exact sound_withEqual _ _ _
  case h_14 =>
    split
    · exact sound_withEqual _ _ _
    · exact sound_withEqual _ _ _
  case h_15 | h_16 | h_17 | h_18 | h_19 | h_20 => exact sound_withEqual _ _ _
  case h_21 | h_22 | h_23 => exact sound_doubled _ _ _ _
  case h_24 | h_25 => exact sound_ofExcept (fun _ => rfl) _
  case h_26 => exact sound_ofExcept (fun _ => rfl) _
  case h_27 =>
    split
    · exact sound_scanNumber _ _
    · next hdigit =>
      split
      · next hstart => exact sound_scanName hstart (by simpa using hdigit) rest
      · rfl
  all_goals rfl

/-- Every token of a text is sound. -/
theorem sound_of_tokensFrom {count start : Nat} {cs : List Char} :
    ∀ t ∈ tokensFrom count start cs, t.kind.sound = true := by
  induction count generalizing start cs with
  | zero => exact fun t ht => by cases ht
  | succ count ih =>
    intro t ht
    unfold tokensFrom at ht
    dsimp only at ht
    split at ht
    · obtain rfl := List.mem_singleton.1 ht
      rfl
    · cases ht
    · rcases List.mem_cons.1 ht with rfl | ht
      · exact sound_scan _ _
      · exact ih t ht

theorem sound_of_tokens {source : String} : ∀ t ∈ tokens source, t.kind.sound = true :=
  sound_of_tokensFrom

/-! ### Legible tokens are read back -/

/-- A token that is written, with a blank behind it, is read back. -/
def ReadBack (t : TokenKind) : Prop :=
  ∃ c tail, t.written = c :: tail ∧ ∀ cs, blanks (c :: (tail ++ ' ' :: cs)) = ⟨none, 0⟩ ∧
    scan c (tail ++ ' ' :: cs) = ⟨t, tail.length + 1⟩

theorem mark_readBack (m : Mark) : ReadBack (.mark m) := by
  cases m <;> exact ⟨_, _, rfl, fun cs => ⟨rfl, rfl⟩⟩

/-! #### Names -/

/-- White space starts no name. -/
theorem isBlank_of_start {c : Char} (h : isNameStart c = true) : Text.isBlank c = false := by
  rw [isNameStart, Text.isXidStart, Bool.or_eq_true] at h
  rcases h with hmark | hstart
  · exact Text.not_isBlank (p := fun c => c == '_' || c == '$') (by decide) hmark
  · split at hstart
    · exact Text.not_isBlank (p := Char.isAlpha) (by decide) hstart
    · exact Text.IdentifierChars.not_isBlank hstart

theorem scan_of_start {c : Char} (hstart : isNameStart c = true) (hdigit : c.isDigit = false)
    (rest : List Char) : scan c rest = scanName c rest := by
  unfold scan
  split
  case h_27 => rw [hdigit, if_neg Bool.false_ne_true, if_pos hstart]
  all_goals exact absurd hstart Bool.false_ne_true

theorem scan_of_digit {c : Char} (hdigit : c.isDigit = true) (rest : List Char) :
    scan c rest = scanNumber c rest := by
  unfold scan
  split
  case h_27 => rw [if_pos hdigit]
  all_goals exact absurd hdigit (by decide)

/-- The token of a word. -/
def wordKind (text : String) : TokenKind := ((Keyword.ofText? text).map .keyword).getD (.name text)

/-- A word is read up to the blank. -/
theorem word_readBack {t : TokenKind} {text : String} {c : Char} {tail : List Char}
    (htext : text.toList = c :: tail) (hstart : isNameStart c = true) (hdigit : c.isDigit = false)
    (htail : tail.all isNameContinue = true) (hwritten : t.written = text.toList)
    (hkind : wordKind text = t) : ReadBack t := by
  have hslash : c ≠ '/' := by
    rintro rfl
    exact Bool.false_ne_true hstart
  have hof : String.ofList (c :: tail) = text := by rw [← htext, String.ofList_toList]
  refine ⟨c, tail, hwritten.trans htext, fun cs => ⟨blanks_stop (isBlank_of_start hstart) hslash _, ?_⟩⟩
  rw [scan_of_start hstart hdigit, scanName, takeWhile_stop htail rfl, hof, ← hkind]
  unfold wordKind
  cases Keyword.ofText? text <;> rfl

theorem keyword_readBack (k : Keyword) : ReadBack (.keyword k) := by
  have hkind : wordKind k.text = .keyword k := by rw [wordKind, ofText?_text]; rfl
  cases k <;> exact word_readBack rfl rfl rfl rfl rfl hkind

theorem name_readBack {s : String} (h : isName s = true) : ReadBack (.name s) := by
  unfold isName at h
  cases hs : s.toList with
  | nil =>
    rw [hs] at h
    cases h
  | cons c tail =>
    rw [hs] at h
    simp only [Bool.and_eq_true, Bool.not_eq_true', Option.isNone_iff_eq_none] at h
    obtain ⟨⟨⟨hdigit, hstart⟩, htail⟩, hword⟩ := h
    exact word_readBack hs hstart hdigit htail rfl (by rw [wordKind, hword]; rfl)

/-! #### Numbers -/

/-- A number that starts with decimal digits is read as a decimal. -/
theorem scan_digits {c : Char} {tail : List Char} (hc : c.isDigit = true)
    (htail : tail.all Char.isDigit = true) {stop : Char} (hx : stop ≠ 'x') (hX : stop ≠ 'X')
    (rest : List Char) :
    scan c (tail ++ stop :: rest) = scanDecimal (c :: (tail ++ stop :: rest)) := by
  have hhead : ∀ d ds, tail ++ stop :: rest = d :: ds → d ≠ 'x' ∧ d ≠ 'X' := by
    intro d ds h
    cases tail with
    | nil =>
      obtain rfl := (List.cons.inj h).1
      exact ⟨hx, hX⟩
    | cons d' tail =>
      obtain rfl := (List.cons.inj h).1
      rw [List.all_cons, Bool.and_eq_true] at htail
      constructor <;> rintro rfl <;> exact absurd htail.1 (by decide)
  rw [scan_of_digit hc, scanNumber]
  · exact fun ds _ h => (hhead _ ds h).1 rfl
  · exact fun ds _ h => (hhead _ ds h).2 rfl

/-- Digits with a blank behind them are read as an integer. -/
theorem scanDecimal_digits {ds : List Char} (h : ds.all Char.isDigit = true) (cs : List Char) :
    scanDecimal (ds ++ ' ' :: cs) = ⟨intLiteral (natOfDigits ds) ds, ds.length⟩ := by
  have hfraction : fraction? (' ' :: cs) = none := rfl
  have hexponent : exponent? (' ' :: cs) = none := rfl
  unfold scanDecimal
  simp only [digits_stop h (show ' '.isDigit = false by decide) (by decide) cs, List.drop_left,
    hfraction, Option.map_none, Option.getD_none, Nat.add_zero, hexponent, Option.isNone_none]
  rfl

theorem int_readBack {n : Int32} (h : 0 ≤ n) : ReadBack (.int n) := by
  obtain ⟨c, tail, hdigits, hc, htail⟩ := digitsOf_cons n.toInt.toNat
  have hnonneg : 0 ≤ n.toInt := Int32.le_iff_toInt_le.1 h
  have hsmall : n.toInt.toNat < 0x80000000 := by
    have := n.toInt_lt
    omega
  have hvalue : Int32.ofNat n.toInt.toNat = n := by
    rw [← Int32.toInt_inj, Int32.toInt_ofNat_of_lt (by omega)]
    omega
  refine ⟨c, tail, hdigits, fun cs => ⟨blanks_of_digit hc _, ?_⟩⟩
  rw [scan_digits hc htail (by decide) (by decide), ← List.cons_append, ← hdigits,
    scanDecimal_digits (all_isDigit_digitsOf _), natOfDigits_digitsOf, intLiteral, if_pos hsmall, hvalue,
    hdigits]
  rfl

/-- Digits and a negative exponent, with a blank behind them, are read as a float. -/
theorem scanDecimal_exponent {ds es : List Char} (hds : ds.all Char.isDigit = true)
    (hes : es.all Char.isDigit = true) (hne : es ≠ []) (cs : List Char) :
    scanDecimal (ds ++ 'e' :: '-' :: (es ++ ' ' :: cs)) =
      ⟨.float (ofDigits ds [] (-Int.ofNat (natOfDigits es))), ds.length + (es.length + 2)⟩ := by
  have hfraction : fraction? ('e' :: '-' :: (es ++ ' ' :: cs)) = none := rfl
  have hhead : (es ++ ' ' :: cs).head?.any Char.isDigit = true := by
    cases es with
    | nil => exact absurd rfl hne
    | cons e rest =>
      rw [List.all_cons, Bool.and_eq_true] at hes
      exact hes.1
  have hexponent : exponent? ('e' :: '-' :: (es ++ ' ' :: cs)) =
      some ⟨-Int.ofNat (natOfDigits es), es.length + 2⟩ := by
    unfold exponent?
    simp only [sign, List.drop_succ_cons, List.drop_zero, hhead,
      digits_stop hes (show ' '.isDigit = false by decide) (by decide) cs]
    rfl
  unfold scanDecimal
  simp only [digits_stop hds (show 'e'.isDigit = false by decide) (by decide), List.drop_left,
    hfraction, Option.map_none, Option.getD_none, Nat.add_zero, hexponent, Option.isNone_none,
    Option.isNone_some, Option.map_some, Option.getD_some]
  rfl

theorem float_readBack {x : Float} (hsign : isUnsigned x.toModel.unpack = true)
    (hfinite : x.isFinite = true) : ReadBack (.float x) := by
  obtain ⟨c, tail, hdigits, hc, htail⟩ := digitsOf_cons (exactly x).digits
  have hnegative : -Int.ofNat (exactly x).exponent.natAbs = (exactly x).exponent := by
    have hle := exactly_exponent x
    simp only [Int.ofNat_eq_natCast]
    omega
  have hcount : (exactly x).digits < 10 ^ (digitsOf (exactly x).digits).length :=
    (Nat.length_toDigits_le_iff (by decide) Nat.length_toDigits_pos).1 (Nat.le_refl _)
  have hvalue : ofDigits (digitsOf (exactly x).digits) []
      (-Int.ofNat (natOfDigits (digitsOf (exactly x).exponent.natAbs))) = x := by
    unfold ofDigits
    dsimp only
    rw [natOfDigits_digitsOf, hnegative, List.append_nil, natOfDigits_digitsOf]
    simpa using nearest_exactly hfinite hsign hcount
  refine ⟨c, tail ++ 'e' :: '-' :: digitsOf (exactly x).exponent.natAbs, ?_, fun cs =>
    ⟨blanks_of_digit hc _, ?_⟩⟩
  · rw [TokenKind.written, hdigits]
    rfl
  · rw [List.append_assoc, List.cons_append, List.cons_append, scan_digits hc htail (by decide) (by decide),
      ← List.cons_append, ← hdigits, scanDecimal_exponent (all_isDigit_digitsOf _) (all_isDigit_digitsOf _)
        Nat.toDigits_ne_nil, hvalue]
    simp [hdigits]
    omega

/-! #### Strings -/

theorem string_readBack (s : String) : ReadBack (.string s) := by
  refine ⟨'"', s.toList.flatMap escaped ++ ['"'], rfl, fun cs =>
    ⟨blanks_stop (by decide) (by decide) _, ?_⟩⟩
  have hscan : scan '"' (s.toList.flatMap escaped ++ '"' :: ' ' :: cs) =
      ((scanString '"' (s.toList.flatMap escaped ++ '"' :: ' ' :: cs)).map
        (.ofExcept fun s => .string (String.ofList s))).behind 1 := rfl
  rw [List.append_assoc, List.singleton_append, hscan, scanString_escaped]
  simp [Reading.map, Reading.behind, TokenKind.ofExcept]

/-- Every legible token is read back. -/
theorem legible_readBack {t : TokenKind} (h : t.legible = true) : ReadBack t := by
  cases t with
  | int n => exact int_readBack (of_decide_eq_true h)
  | float x =>
    simp only [TokenKind.legible, Bool.and_eq_true] at h
    exact float_readBack h.1 h.2
  | string s => exact string_readBack s
  | name s => exact name_readBack h
  | keyword k => exact keyword_readBack k
  | mark m => exact mark_readBack m
  | template _ _ | endOfInput | flawed _ => cases h

/-! ### The tokens of a text that is laid out -/

/-- The same from any place on, and behind a blank. -/
theorem tokensFrom_layOut {ts : List TokenKind} (h : ts.all TokenKind.legible = true) {count : Nat}
    (hcount : ts.length < count) (start : Nat) :
    (tokensFrom count start (layOut ts)).map (·.kind) = ts ∧
      (tokensFrom count start (' ' :: layOut ts)).map (·.kind) = ts := by
  induction ts generalizing count start with
  | nil =>
    obtain ⟨count, rfl⟩ : ∃ n, count = n + 1 := ⟨count - 1, by omega⟩
    exact ⟨rfl, rfl⟩
  | cons t ts ih =>
    obtain ⟨count, rfl⟩ : ∃ n, count = n + 1 := ⟨count - 1, by omega⟩
    rw [List.all_cons, Bool.and_eq_true] at h
    rw [List.length_cons] at hcount
    obtain ⟨c, tail, hwritten, hread⟩ := legible_readBack h.1
    obtain ⟨hblanks, hscan⟩ := hread (layOut ts)
    have hlayOut : layOut (t :: ts) = c :: (tail ++ ' ' :: layOut ts) := by
      simp [layOut, hwritten]
    have hrest := fun start => (ih h.2 (show ts.length < count by omega) start).2
    have hdrop : (c :: (tail ++ ' ' :: layOut ts)).drop (tail.length + 1) = ' ' :: layOut ts := by simp
    rw [hlayOut]
    constructor
    · unfold tokensFrom
      simp only [hblanks, List.drop_zero, hscan, hdrop, List.map_cons, hrest]
    · unfold tokensFrom
      simp only [blanks_blank, hblanks, Reading.behind, Nat.zero_add, List.drop_succ_cons, List.drop_zero,
        hscan, hdrop, List.map_cons, hrest]

/-- Each token takes a character at least, and a blank. -/
theorem length_le_layOut {ts : List TokenKind} (h : ts.all TokenKind.legible = true) :
    2 * ts.length ≤ (layOut ts).length := by
  induction ts with
  | nil => exact Nat.le_refl _
  | cons t ts ih =>
    rw [List.all_cons, Bool.and_eq_true] at h
    obtain ⟨c, tail, hwritten, -⟩ := legible_readBack h.1
    have hrest := ih h.2
    have hcons : layOut (t :: ts) = (t.written ++ [' ']) ++ layOut ts := List.flatMap_cons
    rw [hcons, hwritten, List.length_append, List.length_append, List.length_singleton, List.length_cons,
      List.length_cons]
    omega

/-- The tokens of a text that is laid out are the ones that it was made of. -/
theorem tokens_layOut {ts : List TokenKind} (h : ts.all TokenKind.legible = true) :
    (tokens (String.ofList (layOut ts))).map (·.kind) = ts := by
  have hlength := length_le_layOut h
  unfold tokens
  rw [String.toList_ofList]
  exact (tokensFrom_layOut h (by simp; omega) 0).1

end StackScript.Syntax
