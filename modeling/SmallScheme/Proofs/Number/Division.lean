import SmallScheme.Fault
import SmallScheme.Proofs.Number.Computation

/-!
# Division of numbers

Division by a number of value zero fails, whatever kinds of numbers it gets. As soon as one of them
is a decimal, the result is the quotient of rationals to a hundred significant digits, exact where
the quotient has no more of them, and the sign of the dividend goes through
(`divide_correctly_rounded`). This is so if the scales on the way can be stored, and else division
stops. Scales that can be stored are no guarantee for it: one divided by the largest power of ten
has a scale beyond them (`division_overflows`).
-/

namespace SmallScheme.Number

variable {a b : Number}

theorem divide_eq_error_iff {fault : Fault} :
    a.divide b = .error fault ↔
      (b.value = 0 ∧ fault = .divisionByZero) ∨
        (¬(Computation.divide a b).Fits ∧ fault = .scaleOverflow) := by
  rw [divide, Computation.run_eq_error_iff, Computation.result?_divide_eq_none_iff, or_comm]

/-- A normal number is negated as the decimal that it is. -/
theorem toDecimal_negate (ha : a.IsNormal) : a.negate.toDecimal = a.toDecimal.neg := by
  cases a with
  | integer n => rfl
  | decimal d => exact Decimal.normalize_of_isNormal ha.neg

theorem isZero_negate (a : Number) : a.negate.isZero = a.isZero := by
  rw [Bool.eq_iff_iff, isZero_iff, isZero_iff, value_negate, neg_eq_zero]

namespace Computation

/-! ## Quotients -/

theorem result?_divide_of_decimal (hb : b.value ≠ 0)
    (hkind : a.isInteger = false ∨ b.isInteger = false) :
    (divide a b).result? = some (.decimal (a.toDecimal.quotient b.toDecimal)) := by
  obtain ⟨q, hq⟩ := Option.ne_none_iff_exists'.mp
    (mt (result?_divide_eq_none_iff (a := a)).mp hb)
  rcases divide_cases hq with ⟨m, n, rfl, rfl, -⟩ | ⟨-, rfl⟩
  · simp [isInteger] at hkind
  · exact hq

theorem result?_divide_of_integer {m n : ℤ} (hn : n ≠ 0) :
    (divide (.integer m) (.integer n)).result? = some (.integer (m.tdiv n)) := by
  simp [result?, divide?, isZero, hn]

/-! ## Negated dividends -/

section

variable (ha : a.IsNormal) (b : Number)
include ha

theorem result?_divide_negate :
    (divide a.negate b).result? = (divide a b).result?.map Number.negate := by
  by_cases hb : b.value = 0
  · rw [result?_divide_eq_none_iff.mpr hb, result?_divide_eq_none_iff.mpr hb, Option.map_none]
  by_cases hkind : a.isInteger = false ∨ b.isInteger = false
  · rw [result?_divide_of_decimal hb hkind,
      result?_divide_of_decimal hb (by rwa [isInteger_negate]), toDecimal_negate ha,
      Decimal.quotient_neg]
    rfl
  · rcases a with m | a <;> rcases b with n | b <;> simp [isInteger] at hkind
    have hn : n ≠ 0 := by simpa using hb
    rw [Number.negate, result?_divide_of_integer hn, result?_divide_of_integer hn, Int.neg_tdiv]
    rfl

theorem decimals_divide_negate :
    (divide a.negate b).decimals = (divide a b).decimals.map Decimal.neg := by
  unfold decimals
  rw [result?_divide_negate ha]
  cases hq : (divide a b).result? with
  | none => rfl
  | some q =>
    cases q with
    | integer k => rfl
    | decimal d =>
      have hd : d.IsNormal := isNormal_of_result? hq
      have hunreduced : (divide a.negate b).unreduced = (divide a b).unreduced.neg := by
        rw [unreduced, toDecimal_negate ha, Decimal.roundedQuotient_neg]
        rfl
      rw [hunreduced]
      exact congrArg (fun e => [_, e]) (Decimal.normalize_of_isNormal hd.neg)

/-- A negated dividend needs the same scales. -/
theorem fits_divide_negate_iff : (divide a.negate b).Fits ↔ (divide a b).Fits := by
  have hdistance : (divide a.negate b).distance = (divide a b).distance := by
    rw [distance, distance, isZero_negate, toDecimal_negate ha]
    rfl
  simp only [Fits, hdistance, decimals_divide_negate ha, List.forall_mem_map]
  rfl

end

end Computation

theorem divide_negate (ha : a.IsNormal) (b : Number) :
    a.negate.divide b = (a.divide b).map negate := by
  unfold divide Computation.run
  by_cases hfits : (Computation.divide a b).Fits
  · rw [if_pos hfits, if_pos ((Computation.fits_divide_negate_iff ha b).mpr hfits),
      Computation.result?_divide_negate ha]
    cases (Computation.divide a b).result? <;> rfl
  · rw [if_neg hfits, if_neg (mt (Computation.fits_divide_negate_iff ha b).mp hfits)]
    rfl

/-! ## Rounding -/

/-- **Decimal division is correctly rounded as long as its scales can be stored.** Division fails
exactly for divisors of value zero, and where a scale cannot be stored. If one of the numbers is a
decimal, the result is else a normal decimal within half a unit of the hundredth digit of the
quotient, and is the quotient if that has no more than a hundred digits. A negated dividend, in
normal form, negates the result. And the scales can be stored if the places of both operands and a
hundred more can be counted so. -/
theorem divide_correctly_rounded (ha : a.IsNormal) :
    (∀ fault, a.divide b = .error fault ↔
      (b.value = 0 ∧ fault = .divisionByZero) ∨
        (¬(Computation.divide a b).Fits ∧ fault = .scaleOverflow)) ∧
    (b.value ≠ 0 → a.isInteger = false ∨ b.isInteger = false → (Computation.divide a b).Fits →
      ∃ r : Decimal, a.divide b = .ok (.decimal r) ∧ r.IsNormal ∧
        |r.value - a.value / b.value| ≤ 5 * 10 ^ (-100 : ℤ) * |a.value / b.value| ∧
        ∀ m k : ℤ, |m| < 10 ^ 100 → a.value / b.value = m * 10 ^ (-k) →
          r.value = a.value / b.value) ∧
    a.negate.divide b = (a.divide b).map negate ∧
    ∀ m n : ℕ, a.Within m → b.Within n → m + n + 100 < 2 ^ 63 →
      (Computation.divide a b).Fits := by
  refine ⟨fun fault => divide_eq_error_iff, fun hb hkind hfits => ?_, divide_negate ha b,
    fun m n hm hn => Computation.fits_of_operands rfl hm hn⟩
  have hdigits := digits_toDecimal_ne_zero hb
  have hquotient := Computation.run_eq_ok_iff.mpr
    ⟨hfits, Computation.result?_divide_of_decimal hb hkind⟩
  refine ⟨_, hquotient, Decimal.isNormal_quotient .., ?_, fun m k hm h => ?_⟩
  · have hrounded := Decimal.abs_value_quotient_sub_le (a := a.toDecimal) hdigits
    rwa [value_toDecimal, value_toDecimal] at hrounded
  · rw [← value_toDecimal a, ← value_toDecimal b] at h ⊢
    exact Decimal.value_quotient_of_terminating hdigits hm h

/-- The negative of one divided by eight, in three digits. -/
theorem divide_correctly_rounded_eighth :
    let a : Number := .integer (-1)
    let b : Number := .decimal ⟨8, 0⟩
    a.IsNormal ∧ b.value ≠ 0 ∧ b.isInteger = false ∧
      ∃ r : Decimal, a.divide b = .ok (.decimal r) ∧ r.IsNormal ∧
        r.value = -125 * 10 ^ (-3 : ℤ) := by
  intro a b
  have ha : a.IsNormal := trivial
  have hvalue : b.value = 8 := by norm_num [b, Decimal.value]
  have hb : b.value ≠ 0 := by norm_num [hvalue]
  have hquotient : a.value / b.value = ((-125 : ℤ) : ℚ) * 10 ^ (-3 : ℤ) := by
    norm_num [a, hvalue, zpow_neg]
  have hplaces : a.Within 1 := within_integer (by norm_num)
  have hplaces' : b.Within 1 := ⟨by decide, by decide, by norm_num [b, toDecimal, Decimal.value]⟩
  obtain ⟨-, hdecimal, -, hroom⟩ := divide_correctly_rounded (b := b) ha
  have hfits := hroom 1 1 hplaces hplaces' (by norm_num)
  obtain ⟨r, hr, hnormal, -, hexact⟩ := hdecimal hb (.inr rfl) hfits
  refine ⟨ha, hb, rfl, r, hr, hnormal, ?_⟩
  rw [hexact (-125) 3 (by norm_num) hquotient, hquotient]
  norm_num

/-- **Not every quotient of numbers whose scales can be stored has a scale that can be stored.** -/
theorem division_overflows :
    ¬ ∀ a b : Number, a.IsNormal → b.IsNormal → Decimal.IsScale a.toDecimal.scale →
      Decimal.IsScale b.toDecimal.scale → b.value ≠ 0 →
        a.isInteger = false ∨ b.isInteger = false → ∃ r, a.divide b = .ok r := by
  intro hall
  let b : Number := .decimal ⟨1, -9223372036854775808⟩
  have hb : b.value ≠ 0 := by
    rw [Ne, ← isZero_iff]
    decide
  obtain ⟨r, hr⟩ := hall (.integer 1) b trivial (by decide) (by decide) (by decide) hb (.inr rfl)
  have hoverflow : (integer 1).divide b = .error .scaleOverflow := by decide +kernel
  rw [hr] at hoverflow
  cases hoverflow

end SmallScheme.Number
