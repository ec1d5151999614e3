/-!
# Decimals read as floats

The float nearest to a decimal, and the grammar of the texts that `float` accepts: an optional sign,
then digits with an optional point and exponent, or one of the words `inf`, `infinity` and `nan` in
any case.
-/

namespace StackScript.Decimal

/-- The number that a list of decimal digits stands for. -/
def natOfDigits (ds : List Char) : Nat := ds.foldl (fun n d => 10 * n + (d.toNat - '0'.toNat)) 0

/-- The float nearest to `digits * 10 ^ exponent`, where `digits` has at most `count` digits.
Beyond four hundred places either way the answer is infinite or zero whatever the digits are. -/
def nearest (digits : Nat) (count : Nat) (exponent : Int) : Float :=
  if digits == 0 then 0.0
  else if exponent > 400 then 1.0 / 0.0
  else if exponent + Int.ofNat count < -400 then 0.0
  else Float.ofScientific digits (exponent < 0) exponent.natAbs

/-- The float nearest to the decimal with these digits before and behind the point and this
exponent. -/
def ofDigits (whole fraction : List Char) (exponent : Int) : Float :=
  let digits := whole ++ fraction
  nearest (natOfDigits digits) digits.length (exponent - Int.ofNat fraction.length)

/-- A sign in front of a text, if there is one. -/
def splitSign : List Char → Bool × List Char
  | '-' :: rest => (true, rest)
  | '+' :: rest => (false, rest)
  | rest => (false, rest)

/-- The exponent behind the digits: none, or a mark, a sign and at least one digit. -/
def readExponent? : List Char → Option Int
  | [] => some 0
  | mark :: rest =>
    let (negative, digits) := splitSign rest
    if (mark == 'e' || mark == 'E') && !digits.isEmpty && digits.all Char.isDigit then
      let n := Int.ofNat (natOfDigits digits)
      some (if negative then -n else n)
    else none

/-- Digits with an optional point and exponent; at least one digit stands before or behind the
point. -/
def readMagnitude? (cs : List Char) : Option Float :=
  let whole := cs.takeWhile Char.isDigit
  let afterWhole := cs.dropWhile Char.isDigit
  let (fraction, rest) := match afterWhole with
    | '.' :: tail => (tail.takeWhile Char.isDigit, tail.dropWhile Char.isDigit)
    | _ => ([], afterWhole)
  if whole.isEmpty && fraction.isEmpty then none
  else (readExponent? rest).map (ofDigits whole fraction)

/-- The float that a text stands for, if it is one. -/
def readFloat? (s : String) : Option Float :=
  let (negative, body) := splitSign s.toList
  let magnitude := match String.ofList (body.map Char.toLower) with
    | "inf" | "infinity" => some (1.0 / 0.0)
    | "nan" => some (0.0 / 0.0)
    | _ => readMagnitude? body
  magnitude.map fun x => if negative then -x else x

/-- The integer that a text stands for, if it is digits behind an optional sign. -/
def readInt? (s : String) : Option Int :=
  let (negative, digits) := splitSign s.toList
  if digits.isEmpty || !digits.all Char.isDigit then none
  else
    let n := Int.ofNat (natOfDigits digits)
    some (if negative then -n else n)

end StackScript.Decimal
