import SmallScheme.Decimal.Quotient

/-!
# Numbers

A number is an integer of any size or a decimal. Arithmetic on integers stays among the integers;
as soon as one operand is a decimal the result is one, even when its value is whole. Order goes by
value across the two kinds, equality tells them apart: `2` and `2.0` are ordered as equal and are
different numbers.
-/

namespace SmallScheme

/-- An exact integer or a decimal. -/
inductive Number where
  | integer (value : Int)
  | decimal (value : Decimal)
deriving DecidableEq, Repr, Inhabited

namespace Number

/-- The number of a decimal, in normal form. -/
def ofDecimal (d : Decimal) : Number :=
  .decimal d.normalize

def isInteger : Number → Bool
  | .integer _ => true
  | .decimal _ => false

def isZero : Number → Bool
  | .integer n => n == 0
  | .decimal d => d.digits == 0

/-- The value as a decimal; an integer keeps its digits at scale zero. -/
def toDecimal : Number → Decimal
  | .integer n => ⟨n, 0⟩
  | .decimal d => d

/-- The decimals in normal form, and every integer. -/
def IsNormal : Number → Prop
  | .integer _ => True
  | .decimal d => d.IsNormal

instance : DecidablePred IsNormal
  | .integer _ => inferInstanceAs (Decidable True)
  | .decimal d => inferInstanceAs (Decidable d.IsNormal)

/-! ## Arithmetic -/

def negate : Number → Number
  | .integer n => .integer (-n)
  | .decimal d => ofDecimal d.neg

def add : Number → Number → Number
  | .integer a, .integer b => .integer (a + b)
  | a, b => .decimal (a.toDecimal.add b.toDecimal)

def subtract : Number → Number → Number
  | .integer a, .integer b => .integer (a - b)
  | a, b => .decimal (a.toDecimal.sub b.toDecimal)

def multiply : Number → Number → Number
  | .integer a, .integer b => .integer (a * b)
  | a, b => .decimal (a.toDecimal.mul b.toDecimal)

/-- The quotient, unless the divisor is zero. A quotient of integers is cut off toward zero. -/
def divide? (a b : Number) : Option Number :=
  if b.isZero then none
  else
    match a, b with
    | .integer a, .integer b => some (.integer (a.tdiv b))
    | a, b => some (.decimal (a.toDecimal.quotient b.toDecimal))

def order : Number → Number → Ordering
  | .integer a, .integer b => compare a b
  | a, b => a.toDecimal.order b.toDecimal

end Number

end SmallScheme
