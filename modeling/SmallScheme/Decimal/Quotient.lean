import SmallScheme.Decimal.Basic

/-!
# Quotients of decimals

A quotient is worked out by long division of the digits. The dividend first gets zeros until it is
as large as the divisor, which gives the whole part. Then digits are appended one at a time, until
nothing remains or the quotient has `precision` digits. What then remains is rounded, half away from
zero. A whole part that is longer than the precision is kept in full.
-/

namespace SmallScheme.Decimal

/-- The number of significant digits to which a quotient is worked out. -/
def precision : Nat := 100

/-- Multiplies `n` by ten until it reaches `bound`, and counts the steps in the scale. -/
def raise (n bound : Nat) (scale : Int) : Nat × Int :=
  if 0 < n ∧ n < bound then raise (n * 10) bound (scale + 1) else (n, scale)
termination_by bound - n

/-- A quotient under way: the digits found so far, their scale, and what remains. -/
structure Quotient where
  digits : Nat
  remainder : Nat
  scale : Int
deriving DecidableEq, Repr

/-- Appends at most `room` further digits, as long as something remains. -/
def Quotient.extend (divisor : Nat) : Nat → Quotient → Quotient
  | 0, q => q
  | room + 1, q =>
    if q.remainder = 0 then q
    else
      extend divisor room
        ⟨q.digits * 10 + q.remainder * 10 / divisor, q.remainder * 10 % divisor, q.scale + 1⟩

/-- The digits rounded to the nearest, a half upwards. -/
def Quotient.round (divisor : Nat) (q : Quotient) : Nat :=
  if divisor ≤ 2 * q.remainder then q.digits + 1 else q.digits

/-- The quotient of two positive numbers of digits. -/
def Quotient.ofDigits (dividend divisor : Nat) (scale : Int) : Quotient :=
  let (dividend, scale) := raise dividend divisor scale
  let whole : Quotient := ⟨dividend / divisor, dividend % divisor, scale⟩
  whole.extend divisor (precision - digitCount whole.digits)

/-- The long division of the digits of two decimals. -/
def division (a b : Decimal) : Quotient :=
  .ofDigits a.digits.natAbs b.digits.natAbs (a.scale - b.scale)

/-- The quotient of two decimals, the second of which is not zero, before normal form. A zero is
left as it is, and so is what is divided by one. -/
def roundedQuotient (a b : Decimal) : Decimal :=
  if a.digits = 0 ∨ b = ⟨1, 0⟩ then a
  else
    let q := a.division b
    ⟨a.digits.sign * b.digits.sign * q.round b.digits.natAbs, q.scale⟩

def quotient (a b : Decimal) : Decimal :=
  (a.roundedQuotient b).normalize

end SmallScheme.Decimal
