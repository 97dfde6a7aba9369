import SmallScheme.Number.Basic
import SmallScheme.Proofs.Decimal.Value

/-!
# The rational that a number denotes

An integer denotes itself and a decimal the rational `digits * 10 ^ (-scale)`. Sums, differences and
products are exact whatever kinds of numbers they are made of, and the result is an integer only
where both operands are (`Computes`). Numbers are ordered by what they denote
(`order_eq_compare_value`), and a number in normal form is determined by its kind and by what it
denotes (`eq_iff_value_eq`).
-/

namespace SmallScheme.Number

/-- The rational number that a number denotes. -/
def value : Number → ℚ
  | .integer n => n
  | .decimal d => d.value

@[simp] theorem value_integer (n : ℤ) : (integer n).value = n := rfl

@[simp] theorem value_decimal (d : Decimal) : (decimal d).value = d.value := rfl

@[simp] theorem value_toDecimal (n : Number) : n.toDecimal.value = n.value := by
  cases n with
  | integer n => simp [toDecimal, Decimal.value]
  | decimal d => rfl

/-! ## Operations -/

/-- An operation on two numbers denotes an operation on rationals exactly, has an integer as its
result for two integers only, and answers in normal form. -/
structure Computes (operation : Number → Number → Number) (exact : ℚ → ℚ → ℚ) (a b : Number) :
    Prop where
  value : (operation a b).value = exact a.value b.value
  isInteger : (operation a b).isInteger = true ↔ a.isInteger = true ∧ b.isInteger = true
  isNormal : (operation a b).IsNormal

theorem computes_add (a b : Number) : Computes add (· + ·) a b := by
  rcases a with m | a <;> rcases b with n | b
  · exact ⟨Int.cast_add m n, by simp [add, isInteger], trivial⟩
  all_goals
    exact ⟨by simp [add, Decimal.value_add], by simp [add, isInteger], Decimal.isNormal_add ..⟩

theorem computes_subtract (a b : Number) : Computes subtract (· - ·) a b := by
  rcases a with m | a <;> rcases b with n | b
  · exact ⟨Int.cast_sub m n, by simp [subtract, isInteger], trivial⟩
  all_goals
    exact ⟨by simp [subtract, Decimal.value_sub], by simp [subtract, isInteger],
      Decimal.isNormal_sub ..⟩

theorem computes_multiply (a b : Number) : Computes multiply (· * ·) a b := by
  rcases a with m | a <;> rcases b with n | b
  · exact ⟨Int.cast_mul m n, by simp [multiply, isInteger], trivial⟩
  all_goals
    exact ⟨by simp [multiply, Decimal.value_mul], by simp [multiply, isInteger],
      Decimal.isNormal_mul ..⟩

theorem value_negate (n : Number) : n.negate.value = -n.value := by
  cases n with
  | integer n => exact Int.cast_neg n
  | decimal d => simp [negate, ofDecimal, Decimal.value_neg]

theorem isInteger_negate (n : Number) : n.negate.isInteger = n.isInteger := by
  cases n <;> rfl

theorem isNormal_negate (n : Number) : n.negate.IsNormal := by
  cases n with
  | integer n => trivial
  | decimal d => exact Decimal.isNormal_normalize d.neg

/-! ## Order and equality -/

theorem order_eq_compare_value (a b : Number) : a.order b = compare a.value b.value := by
  rcases a with m | a <;> rcases b with n | b
  · have hmono : StrictMono fun n : ℤ => (n : ℚ) := Int.cast_strictMono
    rw [order, ← cmp_eq_compare, ← cmp_eq_compare]
    exact (hmono.cmp_map_eq m n).symm
  all_goals
    rw [order, Decimal.order_eq_compare_value, value_toDecimal, value_toDecimal]
    simp

/-- Equality of numbers in normal form is equality of kind and of what they denote. -/
theorem eq_iff_value_eq {a b : Number} (ha : a.IsNormal) (hb : b.IsNormal) :
    a = b ↔ a.isInteger = b.isInteger ∧ a.value = b.value := by
  constructor
  · rintro rfl
    exact ⟨rfl, rfl⟩
  · rintro ⟨hkind, hvalue⟩
    rcases a with m | a <;> rcases b with n | b
    · exact congrArg integer (Int.cast_injective hvalue)
    · simp [isInteger] at hkind
    · simp [isInteger] at hkind
    · exact congrArg decimal (Decimal.eq_of_value_eq ha hb hvalue)

/-- **The numeric tower is exact.** On integers and on decimals in normal form, arithmetic denotes
the arithmetic of rationals, leaves the integers only when an operand does, and answers in normal
form; order is the order of rationals; and numbers are equal when they are of one kind and denote
the same rational. -/
theorem tower_exact {a b : Number} (ha : a.IsNormal) (hb : b.IsNormal) :
    (Computes add (· + ·) a b ∧ Computes subtract (· - ·) a b ∧ Computes multiply (· * ·) a b) ∧
    (a.negate.value = -a.value ∧ a.negate.isInteger = a.isInteger ∧ a.negate.IsNormal) ∧
    a.order b = compare a.value b.value ∧
    (a = b ↔ a.isInteger = b.isInteger ∧ a.value = b.value) := by
  refine ⟨⟨?_, ?_, ?_⟩, ⟨?_, ?_, ?_⟩, ?_, ?_⟩
  · exact computes_add a b
  · exact computes_subtract a b
  · exact computes_multiply a b
  · exact value_negate a
  · exact isInteger_negate a
  · exact isNormal_negate a
  · exact order_eq_compare_value a b
  · exact eq_iff_value_eq ha hb

/-- A very large decimal against a very small negative one. -/
theorem tower_exact_far_scales :
    let a : Number := .decimal ⟨1, -4096⟩
    let b : Number := .decimal ⟨-15, 4096⟩
    a.IsNormal ∧ b.IsNormal ∧ a.order b = compare a.value b.value ∧
      (a.add b).value = a.value + b.value := by
  intro a b
  have ha : a.IsNormal := by decide
  have hb : b.IsNormal := by decide
  obtain ⟨⟨hadd, -, -⟩, -, horder, -⟩ := tower_exact ha hb
  exact ⟨ha, hb, horder, hadd.value⟩

end SmallScheme.Number
