import StackScript.Decimal.Shortest

/-!
# Floats as text

A float is written with its shortest digits, in one of two layouts.  `Layout.display` is what a
program prints: all digits in place, and no point behind an integral value.  `Layout.exact` is the
form of program listings, which tells a float from an integer: always a point or an exponent.
-/

namespace StackScript.Decimal

/-- The decisions of a layout. -/
structure Layout where
  /-- Powers of ten of the leading digit, from the first up to below the second, that need no
  exponent; without bounds, no value needs one. -/
  positional : Option (Int × Int)
  /-- Is `.0` written behind an integral value? -/
  pointZero : Bool
deriving Repr

def Layout.display : Layout := ⟨none, false⟩

/-- The layout of literals and operands: positional from one ten-thousandth up to below ten to the
sixteenth. -/
def Layout.exact : Layout := ⟨some (-4, 16), true⟩

def digitsOf (n : Nat) : List Char := Nat.toDigits 10 n

namespace Layout

/-- `digits` with the point behind the first `before` of them; zeros fill the gap on either side. -/
def withPoint (l : Layout) (digits : List Char) (before : Int) : List Char :=
  if before ≤ 0 then '0' :: '.' :: List.replicate (-before).toNat '0' ++ digits
  else
    let n := before.toNat
    if digits.length ≤ n then
      digits ++ List.replicate (n - digits.length) '0' ++ (if l.pointZero then ['.', '0'] else [])
    else digits.take n ++ '.' :: digits.drop n

/-- `digits` with the point behind the first of them, and an exponent. -/
def withExponent (digits : List Char) (e : Int) : List Char :=
  let power := 'e' :: (if e < 0 then ['-'] else []) ++ digitsOf e.natAbs
  match digits with
  | [] => power
  | [d] => d :: power
  | d :: rest => d :: '.' :: rest ++ power

def decimal (l : Layout) (d : Scaled) : List Char :=
  let digits := digitsOf d.digits
  let before := Int.ofNat digits.length + d.exponent
  match l.positional with
  | none => l.withPoint digits before
  | some (lo, hi) =>
    if lo ≤ before - 1 ∧ before - 1 < hi then l.withPoint digits before
    else withExponent digits (before - 1)

/-- A float as text.  Zero keeps its sign. -/
def format (l : Layout) (x : Float) : String :=
  match FloatParts.ofFloat? x with
  | some p =>
    let magnitude := if p.mantissa == 0 then (if l.pointZero then ['0', '.', '0'] else ['0'])
      else l.decimal (shortest p)
    String.ofList (if p.negative then '-' :: magnitude else magnitude)
  | none => if x.isNaN then "NaN" else if x < 0 then "-inf" else "inf"

end Layout

end StackScript.Decimal
