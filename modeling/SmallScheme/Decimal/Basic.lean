/-!
# Decimals

A decimal is an integer of significant digits and a scale, and stands for `digits * 10 ^ (-scale)`.
A value has many such spellings. The normal one keeps no trailing zero in its digits, and spells
zero with scale zero. Sums and products are exact and answer in normal form (`isNormal_normalize`).

The order of two decimals is decided by sign first, by the place of the leading digit second, and by
the aligned digits only when these agree. So the work is bounded by the number of digits, whatever
the scales are.

Scales have no bound here: a sum or a product is exact however many places it has. The scales that
can be stored are those of 64 bits (`IsScale`), and products of decimals that can be stored may be
beyond them. This is checked where numbers are computed with, not here.
-/

namespace SmallScheme

/-- The number `digits * 10 ^ (-scale)`. -/
structure Decimal where
  digits : Int
  scale : Int
deriving DecidableEq, Repr, Inhabited

namespace Decimal

/-- The scales that can be stored: those of 64 bits. -/
def IsScale (scale : Int) : Prop :=
  -9223372036854775808 ≤ scale ∧ scale < 9223372036854775808

instance (scale : Int) : Decidable (IsScale scale) :=
  inferInstanceAs (Decidable (_ ∧ _))

/-! ## Normal form -/

/-- No trailing zero in the digits, and scale zero for zero. -/
def IsNormal (d : Decimal) : Prop :=
  (d.digits = 0 ∧ d.scale = 0) ∨ d.digits % 10 ≠ 0

instance (d : Decimal) : Decidable d.IsNormal :=
  inferInstanceAs (Decidable (_ ∨ _))

/-- Moves every factor ten of the digits into the scale. -/
def strip (digits scale : Int) : Decimal :=
  if digits ≠ 0 ∧ digits % 10 = 0 then strip (digits / 10) (scale - 1) else ⟨digits, scale⟩
termination_by digits.natAbs
decreasing_by omega

/-- The normal spelling of the same number. -/
def normalize (d : Decimal) : Decimal :=
  if d.digits = 0 then ⟨0, 0⟩ else strip d.digits d.scale

theorem strip_digits_mod {digits scale : Int} (h : digits ≠ 0) :
    (strip digits scale).digits % 10 ≠ 0 := by
  fun_induction strip digits scale with
  | case1 digits scale hd ih => exact ih (by omega)
  | case2 digits scale hd => exact fun h10 => hd ⟨h, h10⟩

theorem isNormal_normalize (d : Decimal) : d.normalize.IsNormal := by
  unfold normalize
  split
  · exact .inl ⟨rfl, rfl⟩
  · rename_i h
    exact .inr (strip_digits_mod h)

/-- A normal decimal is its own normal form. -/
theorem normalize_of_isNormal {d : Decimal} (h : d.IsNormal) : d.normalize = d := by
  obtain ⟨digits, scale⟩ := d
  unfold normalize
  rcases h with ⟨h0, hs⟩ | h10
  · simp only at h0 hs
    simp [h0, hs]
  · simp only at h10
    have h0 : digits ≠ 0 := by rintro rfl; simp at h10
    rw [if_neg h0, strip, if_neg fun h => h10 h.2]

/-! ## Sums and products -/

/-- The digits of the same number at a finer scale. -/
def digitsAt (d : Decimal) (scale : Int) : Int :=
  d.digits * (Nat.pow 10 (scale - d.scale).toNat : Nat)

def neg (d : Decimal) : Decimal :=
  ⟨-d.digits, d.scale⟩

/-- The sum at the finer scale, before normal form. A zero is left out. -/
def alignedSum (a b : Decimal) : Decimal :=
  if a.digits = 0 then b
  else if b.digits = 0 then a
  else
    let scale := max a.scale b.scale
    ⟨a.digitsAt scale + b.digitsAt scale, scale⟩

/-- The product before normal form. -/
def plainProduct (a b : Decimal) : Decimal :=
  ⟨a.digits * b.digits, a.scale + b.scale⟩

/-- The exact sum. -/
def add (a b : Decimal) : Decimal :=
  (a.alignedSum b).normalize

def sub (a b : Decimal) : Decimal :=
  a.add b.neg

/-- The exact product, whether its scale can be stored or not. -/
def mul (a b : Decimal) : Decimal :=
  (a.plainProduct b).normalize

/-! ## Order -/

/-- How many digits a natural number is written with. -/
def digitCount (n : Nat) : Nat :=
  (Nat.toDigits 10 n).length

/-- The place of the leading digit, counted upwards from the decimal point. -/
def magnitude (d : Decimal) : Int :=
  digitCount d.digits.natAbs - d.scale

def order (a b : Decimal) : Ordering :=
  if a.digits.sign ≠ b.digits.sign ∨ a.digits = 0 then compare a.digits.sign b.digits.sign
  else
    match compare a.magnitude b.magnitude with
    | .eq =>
      let scale := max a.scale b.scale
      compare (a.digitsAt scale) (b.digitsAt scale)
    | higher => if 0 < a.digits then higher else higher.swap

end Decimal

end SmallScheme
