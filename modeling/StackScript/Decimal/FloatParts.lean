/-!
# The parts of a floating-point number

A finite float is a sign, a mantissa and a power of two.  Here it is taken apart and put together
again, and what core's `Float` does not offer is computed on the parts exactly: the remainder of a
division that truncates.
-/

namespace StackScript.Decimal

/-- The magnitude `mantissa * 2 ^ exponent`, and the sign in front of it. -/
structure FloatParts where
  negative : Bool
  mantissa : Nat
  exponent : Int
deriving DecidableEq, Repr

namespace FloatParts

/-- The exponent of the least positive float. -/
def minExponent : Int := -1074

/-- The first mantissa that fills all 53 bits. -/
def hiddenBit : Nat := 0x10000000000000

def signBit : Nat := 0x8000000000000000

/-- The exponent field of an infinity, and of what is no number. -/
def exponentMask : Nat := 2047

/-- The parts of a finite float.  An infinity or a value that is no number has none. -/
def ofFloat? (x : Float) : Option FloatParts :=
  let bits := x.toBits.toNat
  let negative := decide (signBit ≤ bits)
  let biased := bits / hiddenBit % (exponentMask + 1)
  let fraction := bits % hiddenBit
  if biased == exponentMask then none
  else if biased == 0 then some ⟨negative, fraction, minExponent⟩
  else some ⟨negative, hiddenBit + fraction, Int.ofNat biased - 1075⟩

/-- The float with these parts.  The mantissa is below `2 ^ 53`, and the value is one that a float
can have. -/
def toFloat (p : FloatParts) : Float :=
  let shift := min (52 - p.mantissa.log2) (p.exponent - minExponent).toNat
  let mantissa := p.mantissa * Nat.pow 2 shift
  let exponent := p.exponent - Int.ofNat shift
  let biased := if mantissa < hiddenBit then 0 else (exponent + 1075).toNat
  let magnitude := biased * hiddenBit + mantissa % hiddenBit
  Float.ofBits (UInt64.ofNat ((if p.negative then signBit else 0) + magnitude))

/-- The magnitude counted in units of `2 ^ unit`, for a unit no larger than the exponent. -/
def inUnits (p : FloatParts) (unit : Int) : Nat := p.mantissa * Nat.pow 2 (p.exponent - unit).toNat

end FloatParts

/-- The remainder of `x` by `y` that has the sign of `x`, exact.  It is no number when `x` is
infinite or `y` is zero, and `x` itself when `y` is infinite. -/
def remainder (x y : Float) : Float :=
  match FloatParts.ofFloat? x, FloatParts.ofFloat? y with
  | some p, some d =>
    if d.mantissa == 0 then 0.0 / 0.0
    else
      let unit := min p.exponent d.exponent
      FloatParts.toFloat ⟨p.negative, p.inUnits unit % d.inUnits unit, unit⟩
  | some _, none => if y.isNaN then y else x
  | none, _ => 0.0 / 0.0

end StackScript.Decimal
