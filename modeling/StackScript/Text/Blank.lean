import StackScript.Text.CodeRanges

/-!
# White space

The characters with the Unicode property White_Space: 25 code points in ten ranges.
-/

namespace StackScript.Text

def blankRanges : List (Nat × Nat) :=
  [(0x09, 0x0D), (0x20, 0x20), (0x85, 0x85), (0xA0, 0xA0), (0x1680, 0x1680), (0x2000, 0x200A),
   (0x2028, 0x2029), (0x202F, 0x202F), (0x205F, 0x205F), (0x3000, 0x3000)]

def isBlank (c : Char) : Bool := inRanges blankRanges c.toNat

/-- Characters of which there are none among the code points of white space are no white space. -/
theorem not_isBlank {p : Char → Bool} (hp : ∀ n ∈ blankRanges.flatMap points, p (Char.ofNat n) = false)
    {c : Char} (h : p c = true) : isBlank c = false := by
  rw [← Bool.not_eq_true]
  intro hblank
  have hfalse := hp _ (mem_points_of_inRanges hblank)
  rw [Char.ofNat_toNat, h] at hfalse
  cases hfalse

/-- A text without the white space at its start. -/
def trimStart (cs : List Char) : List Char := cs.dropWhile isBlank

/-- A text without the white space at its end. -/
def trimEnd (cs : List Char) : List Char := (cs.reverse.dropWhile isBlank).reverse

def trim (cs : List Char) : List Char := trimEnd (trimStart cs)

end StackScript.Text
