import StackScript.Decimal.FloatParts

/-!
# Arithmetic of the language

Integers have 32 bits and wrap around; a quotient of integers drops its fraction, and a remainder
has the sign of the dividend.  A float turns into the integer at or below it, if that fits.
-/

namespace StackScript.Decimal

/-- The float with the value of an integer; every integer has one. -/
def floatOfInt (n : Int32) : Float := Float.ofInt n.toInt

def int32OfInt? (n : Int) : Option Int32 :=
  if -0x80000000 ≤ n ∧ n < 0x80000000 then some (Int32.ofInt n) else none

def int32OfNat? (n : Nat) : Option Int32 :=
  if n < 0x80000000 then some (Int32.ofNat n) else none

/-- The greatest integer at or below a finite float. -/
def floor? (x : Float) : Option Int :=
  (FloatParts.ofFloat? x).map fun p =>
    let mantissa := if p.negative then -Int.ofNat p.mantissa else Int.ofNat p.mantissa
    if 0 ≤ p.exponent then mantissa * Int.ofNat (Nat.pow 2 p.exponent.toNat)
    else mantissa.fdiv (Int.ofNat (Nat.pow 2 (-p.exponent).toNat))

/-- The greatest integer at or below a float, if it fits in 32 bits. -/
def floorToInt? (x : Float) : Option Int32 := (floor? x).bind int32OfInt?

/-- `base` to the power `n`, wrapping around; `n` has at most `bits` bits. -/
def powBits (base : Int32) : Nat → Nat → Int32
  | 0, _ => 1
  | bits + 1, n =>
    let half := powBits base bits (n / 2)
    if n % 2 == 0 then half * half else half * half * base

/-- The power of two integers.  For a negative exponent the fraction is dropped, so only the powers
of one and of minus one are not zero. -/
def intPow (base exponent : Int32) : Int32 :=
  if 0 ≤ exponent then powBits base 32 exponent.toInt.toNat
  else if base == 1 then 1
  else if base == -1 then (if exponent % 2 == 0 then 1 else -1)
  else 0

end StackScript.Decimal
