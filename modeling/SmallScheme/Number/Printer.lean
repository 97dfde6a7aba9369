import SmallScheme.Number.Basic

/-!
# Writing numbers

An integer is written with its digits. A decimal is written in full, without an exponent, and always
with a point and at least one digit on either side of it, so that it never looks like an integer.
A decimal that would need more than `maxZeros` trailing zeros has no text.
-/

namespace SmallScheme

/-- The decimal digits of an integer under its sign. -/
def integerText : Int → List Char
  | .ofNat n => n.repr.toList
  | .negSucc n => '-' :: (n + 1).repr.toList

namespace Decimal

/-- The most zeros that are written between the digits of a decimal and its point. -/
def maxZeros : Nat := 4294967295

/-- The digits with a point before the last `places` of them, filled up with zeros in front. -/
def pointed (digits : List Char) (places : Nat) : List Char :=
  let filled := List.replicate (places + 1 - digits.length) '0' ++ digits
  let whole := filled.length - places
  filled.take whole ++ '.' :: filled.drop whole

/-- The digits of an integer with zeros behind them; zero needs none. -/
def scaledUp (digits : Int) (zeros : Nat) : List Char :=
  integerText digits ++ if digits = 0 then [] else List.replicate zeros '0'

/-- The text of a decimal, unless its zeros are too many to be written. -/
def text? (d : Decimal) : Option (List Char) :=
  if d.scale ≤ 0 then
    if d.scale.natAbs ≤ maxZeros then some (scaledUp d.digits d.scale.natAbs ++ ['.', '0'])
    else none
  else
    let sign := if d.digits < 0 then ['-'] else []
    some (sign ++ pointed d.digits.natAbs.repr.toList d.scale.natAbs)

end Decimal

namespace Number

/-- The text of a number, unless it is a decimal with too many zeros. -/
def text? : Number → Option (List Char)
  | .integer n => some (integerText n)
  | .decimal d => d.text?

end Number

end SmallScheme
