import Mathlib.Data.List.DropRight
import StackScript.Proofs.Tiling
import StackScript.Shell.Completion

/-!
# Completions

The word in front of a place is told to start one byte behind the character that stands before it.
It does where that character takes one byte.  Where it takes more, the offset lies inside of it,
nothing is cut there, and the word is lost with everything that is looked up for it.  What is
offered for a word that is found is a word of the list, and every word of the list that goes on
behind it is offered.
-/

namespace StackScript.Shell

open Syntax (byteLength byteLength_append utf8ByteSize_ofList)

/-! ### Cuts -/

theorem splitAtByte?_cons {c : Char} {cs : List Char} {offset : Nat} (hle : c.utf8Size ≤ offset) :
    splitAtByte? (c :: cs) offset =
      (splitAtByte? cs (offset - c.utf8Size)).map fun p => (c :: p.1, p.2) := by
  cases offset with
  | zero => exact absurd c.utf8Size_pos (Nat.not_lt.2 hle)
  | succ offset => rw [splitAtByte?, if_pos hle]

theorem splitAtByte?_inside {c : Char} {cs : List Char} {offset : Nat} (hpos : 0 < offset)
    (hlt : offset < c.utf8Size) : splitAtByte? (c :: cs) offset = none := by
  cases offset with
  | zero => exact absurd hpos (Nat.lt_irrefl 0)
  | succ offset => rw [splitAtByte?, if_neg (Nat.not_le.2 hlt)]

/-- Behind some characters of a text, a cut is a cut of what follows them. -/
theorem splitAtByte?_behind (before cs : List Char) (offset : Nat) :
    splitAtByte? (before ++ cs) (byteLength before + offset) =
      (splitAtByte? cs offset).map fun p => (before ++ p.1, p.2) := by
  induction before with
  | nil => simp [byteLength]
  | cons c before ih =>
    rw [byteLength, Nat.add_assoc, List.cons_append, splitAtByte?_cons (Nat.le_add_right _ _),
      Nat.add_sub_cancel_left, ih, Option.map_map]
    rfl

theorem splitAtByte?_append (before behind : List Char) :
    splitAtByte? (before ++ behind) (byteLength before) = some (before, behind) := by
  simpa [splitAtByte?] using splitAtByte?_behind before behind 0

/-! ### Where a word starts -/

/-- The word that a text ends with: as many characters of words as there are. -/
def lastWord (text : List Char) : List Char := text.rtakeWhile isWordChar

/-- What is in front of the word that a text ends with. -/
def beforeWord (text : List Char) : List Char := text.rdropWhile isWordChar

theorem beforeWord_append_lastWord (text : List Char) : beforeWord text ++ lastWord text = text :=
  List.rdropWhile_append_rtakeWhile ..

theorem isWordChar_of_mem_lastWord {text : List Char} {c : Char} (h : c ∈ lastWord text) :
    isWordChar c :=
  List.mem_rtakeWhile_imp h

theorem not_isWordChar_of_beforeWord {text earlier : List Char} {c : Char}
    (h : beforeWord text = earlier ++ [c]) : ¬isWordChar c := by
  rw [beforeWord] at h
  have hne : text.rdropWhile isWordChar ≠ [] := h ▸ List.concat_ne_nil c earlier
  have hlast := List.rdropWhile_last_not isWordChar text hne
  simpa only [h, List.getLast_append_singleton] using hlast

/-- No characters of words that a text ends with are more than its last word. -/
theorem suffix_lastWord {text word : List Char} (hend : word <:+ text)
    (hword : ∀ c ∈ word, isWordChar c) : word <:+ lastWord text := by
  rw [← beforeWord_append_lastWord text] at hend
  refine (List.suffix_or_suffix_of_suffix hend (List.suffix_append _ _)).elim id ?_
  rintro ⟨more, rfl⟩
  -- What `word` has in front of the last word ends with the character that is in no word.
  cases more using List.reverseRecOn with
  | nil => exact List.suffix_rfl
  | append_singleton more c _ =>
    obtain ⟨earlier, hearlier⟩ := List.suffix_append_self_iff.1 hend
    rw [← List.append_assoc] at hearlier
    exact absurd (hword c (by simp)) (not_isWordChar_of_beforeWord hearlier.symm)

theorem byteLength_reverse (cs : List Char) : byteLength cs.reverse = byteLength cs := by
  induction cs with
  | nil => rfl
  | cons c cs ih =>
    rw [List.reverse_cons, byteLength_append, ih, byteLength, byteLength, byteLength, Nat.add_zero,
      Nat.add_comm]

theorem dropWhile_reverse (text : List Char) :
    text.reverse.dropWhile isWordChar = (beforeWord text).reverse := by
  rw [beforeWord, List.rdropWhile, List.reverse_reverse]

theorem wordStartIn_of_nil {text : List Char} (h : beforeWord text = []) : wordStartIn text = 0 := by
  rw [wordStartIn, dropWhile_reverse, h, List.reverse_nil]

theorem wordStartIn_of_concat {text earlier : List Char} {c : Char}
    (h : beforeWord text = earlier ++ [c]) : wordStartIn text = byteLength earlier + 1 := by
  rw [wordStartIn, dropWhile_reverse, h, List.reverse_concat, ← byteLength_reverse earlier]

/-- Does no character of more than one byte stand in front of the word that a text ends with? -/
def Narrow (text : List Char) : Prop := ∀ c ∈ (beforeWord text).getLast?, c.utf8Size = 1

/-- The place that is told for the start of a word is that start exactly where the character in
front of the word, if there is one, takes one byte. -/
theorem wordStartIn_eq_iff (text : List Char) :
    wordStartIn text = byteLength (beforeWord text) ↔ Narrow text := by
  rw [Narrow]
  rcases List.eq_nil_or_concat' (beforeWord text) with h | ⟨earlier, c, h⟩
  · simp [wordStartIn_of_nil h, h, byteLength]
  · simp [wordStartIn_of_concat h, h, byteLength_append, byteLength, eq_comm]

theorem cut_of_narrow {text : List Char} (h : Narrow text) :
    splitAtByte? text (wordStartIn text) = some (beforeWord text, lastWord text) := by
  rw [(wordStartIn_eq_iff text).2 h]
  nth_rewrite 1 [← beforeWord_append_lastWord text]
  exact splitAtByte?_append ..

theorem cut_of_not_narrow {text : List Char} (h : ¬Narrow text) :
    splitAtByte? text (wordStartIn text) = none := by
  rw [Narrow] at h
  rcases List.eq_nil_or_concat' (beforeWord text) with hnil | ⟨earlier, c, hconcat⟩
  · simp [hnil] at h
  · have hlt : 1 < c.utf8Size := by
      have hne : c.utf8Size ≠ 1 := by simpa [hconcat] using h
      have hpos := c.utf8Size_pos
      omega
    have htext : text = earlier ++ c :: lastWord text := by
      simpa [hconcat] using (beforeWord_append_lastWord text).symm
    rw [wordStartIn_of_concat hconcat, htext, splitAtByte?_behind,
      splitAtByte?_inside Nat.zero_lt_one hlt, Option.map_none]

/-- In a line, the word in front of a place between two characters is the longest one. -/
theorem word?_of_narrow {before : List Char} (h : Narrow before) (behind : List Char) :
    word? (String.ofList (before ++ behind)) (byteLength before) =
      some (String.ofList (lastWord before)) := by
  simp [word?, splitAtByte?_append, cut_of_narrow h]

theorem word?_of_not_narrow {before : List Char} (h : ¬Narrow before) (behind : List Char) :
    word? (String.ofList (before ++ behind)) (byteLength before) = none := by
  simp [word?, splitAtByte?_append, cut_of_not_narrow h]

/-! ### What is offered -/

theorem suffix?_append (word rest : String) :
    suffix? word (word ++ rest) = if rest = "" then none else some rest := by
  have hstart : word.toList.isPrefixOf (word ++ rest).toList := by simp
  have hlength : word.length < (word ++ rest).length ↔ rest ≠ "" := by
    rw [String.length_append, Nat.lt_add_right_iff_pos, Nat.pos_iff_ne_zero, ne_eq,
      String.length_eq_zero_iff]
  have hdrop : String.ofList ((word ++ rest).toList.drop word.length) = rest := by
    rw [String.toList_append, ← String.length_toList, List.drop_left, String.ofList_toList]
  rw [suffix?, hstart, Bool.true_and, hdrop]
  by_cases hrest : rest = ""
  · simp [hrest]
  · simp [hrest]

theorem suffix?_eq_some {word candidate rest : String} :
    suffix? word candidate = some rest ↔ candidate = word ++ rest ∧ rest ≠ "" := by
  constructor
  · intro h
    have hstart : word.toList.isPrefixOf candidate.toList := by
      by_contra hother
      simp [suffix?, hother] at h
    obtain ⟨more, hmore⟩ := List.isPrefixOf_iff_prefix.1 hstart
    obtain rfl : word ++ String.ofList more = candidate := by
      rw [← String.toList_inj, String.toList_append, String.toList_ofList, hmore]
    rw [suffix?_append] at h
    split at h
    · cases h
    · cases h
      exact ⟨rfl, ‹_›⟩
  · rintro ⟨rfl, hrest⟩
    rw [suffix?_append, if_neg hrest]

theorem mem_candidates {words : List String} {word candidate rest : String} :
    (candidate, rest) ∈ candidates words word ↔
      candidate ∈ words ∧ candidate = word ++ rest ∧ rest ≠ "" := by
  simp only [candidates, List.mem_filterMap, Option.map_eq_some_iff, Prod.mk.injEq, suffix?_eq_some]
  constructor
  · rintro ⟨_, hmem, _, hrest, rfl, rfl⟩
    exact ⟨hmem, hrest⟩
  · rintro ⟨hmem, hrest⟩
    exact ⟨candidate, hmem, rest, hrest, rfl, rfl⟩

/-- What is offered at a place between two characters, with what it adds there, is a word of the
list that goes on behind the word there; and every such word is offered. -/
theorem complete?_of_narrow {before : List Char} (h : Narrow before) (words : List String)
    (behind : List Char) :
    ∃ found, complete? words (String.ofList (before ++ behind)) (byteLength before) = some found ∧
      ∀ candidate rest, (candidate, rest) ∈ found ↔ lastWord before ≠ [] ∧ candidate ∈ words ∧
        candidate = String.ofList (lastWord before) ++ rest ∧ rest ≠ "" := by
  rw [complete?, word?_of_narrow h]
  refine ⟨_, rfl, fun candidate rest => ?_⟩
  by_cases hword : lastWord before = []
  · simp [hword]
  · simp [hword, mem_candidates]

/-- Behind a character of more than one byte nothing is offered, and at the end of the line no hint
is given. -/
theorem complete?_of_not_narrow {before : List Char} (h : ¬Narrow before) (words : List String)
    (behind : List Char) :
    complete? words (String.ofList (before ++ behind)) (byteLength before) = none ∧
      hint? words (String.ofList before) (byteLength before) = none := by
  have hend : ¬byteLength before < (String.ofList before).utf8ByteSize := by
    rw [utf8ByteSize_ofList]
    exact Nat.lt_irrefl _
  constructor
  · rw [complete?, word?_of_not_narrow h, Option.map_none]
  · have hword := word?_of_not_narrow h []
    rw [List.append_nil] at hword
    rw [hint?, if_neg hend, hword, Option.map_none]

example : wordStart? "→x" 4 = some 1 ∧ word? "→x" 4 = none := by decide +kernel

end StackScript.Shell
