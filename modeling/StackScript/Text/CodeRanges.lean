/-!
# Classes of characters as ranges of code points

A class is a list of closed ranges, ascending and apart.  `inRanges` looks a code point up; the scan
stops at the first range that ends at or above it.
-/

namespace StackScript.Text

/-- Is `n` in one of the closed ranges?  The ranges are ascending. -/
def inRanges : List (Nat × Nat) → Nat → Bool
  | [], _ => false
  | (lo, hi) :: rest, n => if n ≤ hi then decide (lo ≤ n) else inRanges rest n

/-- The code points of a range, one by one. -/
def points (r : Nat × Nat) : List Nat := List.range' r.1 (r.2 + 1 - r.1)

theorem mem_points_of_inRanges {ranges : List (Nat × Nat)} {n : Nat} (h : inRanges ranges n = true) :
    n ∈ ranges.flatMap points := by
  induction ranges with
  | nil => cases h
  | cons r rest ih =>
    rw [inRanges] at h
    rw [List.flatMap_cons, List.mem_append]
    split at h
    · have hlow := of_decide_eq_true h
      exact .inl (List.mem_range'_1.2 (by omega))
    · exact .inr (ih h)

end StackScript.Text
