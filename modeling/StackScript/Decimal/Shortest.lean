import StackScript.Decimal.FloatParts

/-!
# The shortest decimal of a float

A decimal is read as the float it is nearest to, so the decimals that are read as `x` fill an
interval around `x`. `shortest` finds a decimal in that interval with as few digits as possible; of
two such decimals it takes the one nearer to `x`, and the larger one when `x` lies in the middle.
-/

namespace StackScript.Decimal

/-- The decimal `digits * 10 ^ exponent`. -/
structure Scaled where
  digits : Nat
  exponent : Int
deriving DecidableEq, Repr

/-- A positive float together with the ends of the interval of reals that are read as it, all
counted in units of `2 ^ unit`.  The ends themselves belong to the interval when it is closed. -/
structure ReadingInterval where
  low : Nat
  value : Nat
  high : Nat
  unit : Int
  closed : Bool
deriving Repr

namespace ReadingInterval

/-- The interval of a positive finite float.  Its ends are half way to the neighbours; below a power
of two the neighbour is only half as far away.  A half-way point is read as the float with the even
mantissa. -/
def ofParts (p : FloatParts) : ReadingInterval :=
  let narrow := p.mantissa == FloatParts.hiddenBit && p.exponent != FloatParts.minExponent
  { low := 4 * p.mantissa - (if narrow then 1 else 2)
    value := 4 * p.mantissa
    high := 4 * p.mantissa + 2
    unit := p.exponent - 2
    closed := p.mantissa % 2 == 0 }

/-- `n` units of the interval, as the numerator of a fraction over `denominator` whose unit is
`10 ^ e`. -/
def numerator (v : ReadingInterval) (e : Int) (n : Nat) : Nat :=
  n * Nat.pow 2 v.unit.toNat * Nat.pow 10 (-e).toNat

/-- See `numerator`. -/
def denominator (v : ReadingInterval) (e : Int) : Nat :=
  Nat.pow 2 (-v.unit).toNat * Nat.pow 10 e.toNat

/-- Is the decimal `d * 10 ^ e` read as the float? -/
def holds (v : ReadingInterval) (e : Int) (d : Nat) : Bool :=
  let point := d * v.denominator e
  if v.closed then v.numerator e v.low ≤ point && point ≤ v.numerator e v.high
  else v.numerator e v.low < point && point < v.numerator e v.high

/-- Of the two multiples of `10 ^ e` next to the value, the one that is read as it; of both, the
nearer one, or the larger one when they are equally near.  Grids coarser than the value itself have
none. -/
def onGrid? (v : ReadingInterval) (e : Int) : Option Scaled :=
  let below := v.numerator e v.value / v.denominator e
  if below == 0 then none
  else
    match v.holds e below, v.holds e (below + 1) with
    | true, true =>
      if 2 * v.numerator e v.value < (2 * below + 1) * v.denominator e then some ⟨below, e⟩
      else some ⟨below + 1, e⟩
    | true, false => some ⟨below, e⟩
    | false, true => some ⟨below + 1, e⟩
    | false, false => none

/-- An exponent of ten whose power is above the value, at most two steps too high. -/
def scale (v : ReadingInterval) : Int :=
  (Int.ofNat v.value.log2 + 1 + v.unit) * 30103 / 100000 + 1

def exact (v : ReadingInterval) : Scaled :=
  ⟨v.value * Nat.pow 2 v.unit.toNat * Nat.pow 5 (-v.unit).toNat, -Int.ofNat (-v.unit).toNat⟩

end ReadingInterval

/-- A decimal without zeros at the end of its digits; `steps` bounds how many are removed. -/
def Scaled.strip : Nat → Scaled → Scaled
  | 0, d => d
  | steps + 1, d =>
    if d.digits % 10 == 0 && d.digits != 0 then Scaled.strip steps ⟨d.digits / 10, d.exponent + 1⟩
    else d

/-- The shortest decimal that is read as the positive finite float with these parts.  Seventeen
digits always suffice, so the search over ever finer grids ends within the range. -/
def shortest (p : FloatParts) : Scaled :=
  let v := ReadingInterval.ofParts p
  let found := (List.range 21).findSome? fun i => v.onGrid? (v.scale - Int.ofNat i)
  let d := found.getD v.exact
  d.strip (d.digits.log2 + 1)

end StackScript.Decimal
