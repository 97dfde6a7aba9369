import Mathlib.Algebra.Order.Field.Basic
import Mathlib.Tactic.FieldSimp
import Mathlib.Tactic.Linarith
import Mathlib.Tactic.Positivity
import SmallScheme.Decimal.Quotient
import SmallScheme.Proofs.Decimal.Value

/-!
# Quotients of decimals are rounded correctly

Long division keeps one number fixed: what the digits found so far stand for together with what
remains (`Quotient.exact`). It begins as the exact quotient (`Quotient.exact_ofDigits`), and every
digit that is appended keeps it (`Quotient.exact_next`). The division ends with nothing left, and
then its digits are the exact quotient, or with as many digits as the precision asks for
(`Quotient.finished`).

In the second case rounding moves the result by half a unit of its last digit at most, which is a
small part of a number of so many digits (`abs_value_quotient_sub_le`). And then no number of at
most so many digits is the exact quotient, since something remains behind them
(`value_quotient_of_terminating`).
-/

namespace SmallScheme.Decimal

/-! ## The dividend -/

theorem raise_mul_pow (n bound : ℕ) (scale : ℤ) :
    ((raise n bound scale).1 : ℚ) * 10 ^ (-(raise n bound scale).2) = n * 10 ^ (-scale) := by
  fun_induction raise n bound scale with
  | case1 n scale h ih =>
    have hpow : (10 : ℚ) ^ (-scale) = 10 ^ (-(scale + 1)) * 10 := by
      rw [← zpow_add_one₀ (by norm_num)]
      congr 1
      omega
    rw [ih, hpow]
    push_cast
    ring
  | case2 => rfl

theorem le_raise {n : ℕ} (h : 0 < n) (bound : ℕ) (scale : ℤ) : bound ≤ (raise n bound scale).1 := by
  fun_induction raise n bound scale with
  | case1 n scale hn ih => exact ih (by omega)
  | case2 n scale hn => omega

theorem raise_zero (bound : ℕ) (scale : ℤ) : raise 0 bound scale = (0, scale) := by
  rw [raise, if_neg (by omega)]

/-! ## The digits -/

namespace Quotient

/-- The number that the digits found so far and what remains stand for together. -/
def exact (divisor : ℕ) (q : Quotient) : ℚ :=
  (q.digits + q.remainder / divisor) * 10 ^ (-q.scale)

/-- One digit more. -/
def next (divisor : ℕ) (q : Quotient) : Quotient :=
  ⟨q.digits * 10 + q.remainder * 10 / divisor, q.remainder * 10 % divisor, q.scale + 1⟩

variable {dividend divisor room : ℕ} {scale : ℤ} {q : Quotient}

theorem extend_of_remainder_eq_zero (h : q.remainder = 0) (room : ℕ) :
    q.extend divisor room = q := by
  cases room with
  | zero => rfl
  | succ room => rw [extend, if_pos h]

theorem extend_of_remainder_ne_zero (h : q.remainder ≠ 0) (room : ℕ) :
    q.extend divisor (room + 1) = (q.next divisor).extend divisor room := by
  rw [extend, if_neg h, next]

theorem exact_next (hpos : 0 < divisor) (q : Quotient) :
    (q.next divisor).exact divisor = q.exact divisor := by
  have hdivisor : (divisor : ℚ) ≠ 0 := by exact_mod_cast hpos.ne'
  have hsplit : (divisor : ℚ) * (q.remainder * 10 / divisor : ℕ)
      + (q.remainder * 10 % divisor : ℕ) = q.remainder * 10 := by
    exact_mod_cast Nat.div_add_mod (q.remainder * 10) divisor
  have hpow : (10 : ℚ) ^ (-q.scale) = 10 ^ (-(q.scale + 1)) * 10 := by
    rw [← zpow_add_one₀ (by norm_num)]
    congr 1
    omega
  have hdigits : ((q.next divisor).digits : ℚ) + (q.next divisor).remainder / divisor
      = (q.digits + q.remainder / divisor) * 10 := by
    rw [next]
    push_cast
    field_simp
    linarith
  rw [exact, exact, hdigits, hpow]
  simp only [next]
  ring

theorem remainder_next_lt (hpos : 0 < divisor) (q : Quotient) :
    (q.next divisor).remainder < divisor :=
  Nat.mod_lt _ hpos

/-- Appending digits does not change the number that is divided out. -/
theorem exact_extend (hpos : 0 < divisor) (room : ℕ) (q : Quotient) :
    (q.extend divisor room).exact divisor = q.exact divisor := by
  induction room generalizing q with
  | zero => rfl
  | succ room ih =>
    by_cases h : q.remainder = 0
    · rw [extend_of_remainder_eq_zero h]
    · rw [extend_of_remainder_ne_zero h, ih, exact_next hpos]

theorem remainder_extend_lt (hpos : 0 < divisor) (hq : q.remainder < divisor) (room : ℕ) :
    (q.extend divisor room).remainder < divisor := by
  induction room generalizing q with
  | zero => exact hq
  | succ room ih =>
    by_cases h : q.remainder = 0
    · rw [extend_of_remainder_eq_zero h]
      exact hq
    · rw [extend_of_remainder_ne_zero h]
      exact ih (remainder_next_lt hpos q)

/-- Digits are appended until nothing remains or there is no more room. -/
theorem digits_extend (divisor room : ℕ) (q : Quotient) :
    (q.extend divisor room).remainder = 0 ∨
      q.digits * 10 ^ room ≤ (q.extend divisor room).digits := by
  induction room generalizing q with
  | zero => exact .inr (by simp [extend])
  | succ room ih =>
    by_cases h : q.remainder = 0
    · rw [extend_of_remainder_eq_zero h]
      exact .inl h
    · rw [extend_of_remainder_ne_zero h]
      refine (ih (q.next divisor)).imp_right fun hle => ?_
      calc q.digits * 10 ^ (room + 1) = q.digits * 10 * 10 ^ room := by ring
        _ ≤ (q.next divisor).digits * 10 ^ room :=
          Nat.mul_le_mul_right _ (Nat.le_add_right ..)
        _ ≤ _ := hle

/-! ## The whole division -/

theorem ofDigits_of_raise {raised : ℕ} {finer : ℤ}
    (h : raise dividend divisor scale = (raised, finer)) :
    ofDigits dividend divisor scale =
      extend divisor (precision - digitCount (raised / divisor))
        ⟨raised / divisor, raised % divisor, finer⟩ := by
  rw [ofDigits, h]

theorem exact_ofDigits (hpos : 0 < divisor) (dividend : ℕ) (scale : ℤ) :
    (ofDigits dividend divisor scale).exact divisor = dividend / divisor * 10 ^ (-scale) := by
  have hdivisor : (divisor : ℚ) ≠ 0 := by exact_mod_cast hpos.ne'
  have hvalue := raise_mul_pow dividend divisor scale
  rcases hraise : raise dividend divisor scale with ⟨raised, finer⟩
  rw [hraise] at hvalue
  have hsplit : (divisor : ℚ) * (raised / divisor : ℕ) + (raised % divisor : ℕ) = raised := by
    exact_mod_cast Nat.div_add_mod raised divisor
  have hwhole : ((raised / divisor : ℕ) : ℚ) + (raised % divisor : ℕ) / divisor
      = raised / divisor := by
    field_simp
    linarith
  calc exact divisor (ofDigits dividend divisor scale)
      = exact divisor ⟨raised / divisor, raised % divisor, finer⟩ := by
        rw [ofDigits_of_raise hraise, exact_extend hpos]
    _ = raised / divisor * 10 ^ (-finer) := by rw [exact, hwhole]
    _ = raised * 10 ^ (-finer) / divisor := by ring
    _ = dividend * 10 ^ (-scale) / divisor := by rw [hvalue]
    _ = dividend / divisor * 10 ^ (-scale) := by ring

theorem remainder_ofDigits_lt (hpos : 0 < divisor) (dividend : ℕ) (scale : ℤ) :
    (ofDigits dividend divisor scale).remainder < divisor := by
  rw [ofDigits_of_raise rfl]
  exact remainder_extend_lt hpos (Nat.mod_lt _ hpos) _

theorem ofDigits_zero (divisor : ℕ) (scale : ℤ) : ofDigits 0 divisor scale = ⟨0, 0, scale⟩ := by
  rw [ofDigits_of_raise (raise_zero divisor scale), Nat.zero_div, Nat.zero_mod]
  exact extend_of_remainder_eq_zero rfl _

/-- At the end nothing remains, or there are as many digits as the precision asks for. -/
theorem finished (hpos : 0 < divisor) (dividend : ℕ) (scale : ℤ) :
    (ofDigits dividend divisor scale).remainder = 0 ∨
      10 ^ (precision - 1) ≤ (ofDigits dividend divisor scale).digits := by
  rcases Nat.eq_zero_or_pos dividend with rfl | hdividend
  · exact .inl (by rw [ofDigits_zero])
  have hreached := le_raise hdividend divisor scale
  rcases hraise : raise dividend divisor scale with ⟨raised, finer⟩
  rw [hraise] at hreached
  rw [ofDigits_of_raise hraise]
  refine (digits_extend divisor _ _).imp_right fun hle => le_trans ?_ hle
  -- The whole part is not zero, so the room behind it is what it lacks of the precision.
  have hwhole : raised / divisor ≠ 0 := (Nat.div_pos hreached hpos).ne'
  have hcount : 0 < digitCount (raised / divisor) := Nat.length_toDigits_pos
  calc 10 ^ (precision - 1)
      ≤ 10 ^ (digitCount (raised / divisor) - 1 + (precision - digitCount (raised / divisor))) :=
        Nat.pow_le_pow_right (by decide) (by omega)
    _ = 10 ^ (digitCount (raised / divisor) - 1)
          * 10 ^ (precision - digitCount (raised / divisor)) := by rw [pow_add]
    _ ≤ raised / divisor * 10 ^ (precision - digitCount (raised / divisor)) :=
        Nat.mul_le_mul_right _ (pow_digitCount_le hwhole)

/-! ## Rounding -/

theorem round_of_remainder_eq_zero (hpos : 0 < divisor) (h : q.remainder = 0) :
    q.round divisor = q.digits := by
  rw [round, if_neg (by omega)]

/-- Rounding moves the digits by half a unit at most. -/
theorem abs_round_sub_le (hpos : 0 < divisor) (hlt : q.remainder < divisor) :
    |(q.round divisor : ℚ) - (q.digits + q.remainder / divisor)| ≤ 1 / 2 := by
  have hdivisor : (0 : ℚ) < divisor := by exact_mod_cast hpos
  have hbelow : (q.remainder : ℚ) / divisor ≤ 1 := by
    rw [div_le_one hdivisor]
    exact_mod_cast hlt.le
  have hnonneg : (0 : ℚ) ≤ q.remainder / divisor := by positivity
  rw [abs_le, round]
  split
  · next hhalf =>
    have hup : (1 : ℚ) / 2 ≤ q.remainder / divisor := by
      rw [le_div_iff₀ hdivisor]
      have : (divisor : ℚ) ≤ 2 * q.remainder := by exact_mod_cast hhalf
      linarith
    push_cast
    constructor <;> linarith
  · next hhalf =>
    have hdown : (q.remainder : ℚ) / divisor ≤ 1 / 2 := by
      rw [div_le_iff₀ hdivisor]
      have : 2 * (q.remainder : ℚ) ≤ divisor := by exact_mod_cast (not_le.mp hhalf).le
      linarith
    constructor <;> linarith

/-- The number that the rounded digits stand for. -/
def rounded (divisor : ℕ) (q : Quotient) : ℚ :=
  q.round divisor * 10 ^ (-q.scale)

theorem rounded_of_remainder_eq_zero (hpos : 0 < divisor) (h : q.remainder = 0) :
    q.rounded divisor = q.exact divisor := by
  rw [rounded, exact, round_of_remainder_eq_zero hpos h, h]
  simp

theorem exact_nonneg (divisor : ℕ) (q : Quotient) : 0 ≤ q.exact divisor := by
  have hpow := ten_zpow_pos (-q.scale)
  unfold exact
  positivity

theorem pow_mul_le_exact (hdigits : 10 ^ (precision - 1) ≤ q.digits) :
    (10 : ℚ) ^ (precision - 1) * 10 ^ (-q.scale) ≤ q.exact divisor := by
  have hcast : (10 : ℚ) ^ (precision - 1) ≤ q.digits := by exact_mod_cast hdigits
  have hnonneg : (0 : ℚ) ≤ q.remainder / divisor := by positivity
  rw [exact]
  refine mul_le_mul_of_nonneg_right ?_ (ten_zpow_pos _).le
  linarith

/-- The rounded quotient is off by a small part of the exact one at most. -/
theorem abs_rounded_ofDigits_sub_le (hpos : 0 < divisor) (dividend : ℕ) (scale : ℤ) :
    let q := ofDigits dividend divisor scale
    |q.rounded divisor - q.exact divisor| ≤ 5 * 10 ^ (-(precision : ℤ)) * q.exact divisor := by
  intro q
  have hnonneg := exact_nonneg divisor q
  rcases finished hpos dividend scale with hdone | hdigits
  · rw [rounded_of_remainder_eq_zero hpos hdone, sub_self, abs_zero]
    positivity
  have hunit := ten_zpow_pos (-q.scale)
  have hround := abs_round_sub_le hpos (remainder_ofDigits_lt hpos dividend scale)
  have hhalf : (1 : ℚ) / 2 = 5 * 10 ^ (-(precision : ℤ)) * 10 ^ (precision - 1) := by
    norm_num [precision]
  calc |q.rounded divisor - q.exact divisor|
      = |(q.round divisor : ℚ) - (q.digits + q.remainder / divisor)| * 10 ^ (-q.scale) := by
        rw [rounded, exact, ← sub_mul, abs_mul, abs_of_pos hunit]
    _ ≤ 1 / 2 * 10 ^ (-q.scale) := mul_le_mul_of_nonneg_right hround hunit.le
    _ = 5 * 10 ^ (-(precision : ℤ)) * (10 ^ (precision - 1) * 10 ^ (-q.scale)) := by
        rw [hhalf, mul_assoc]
    _ ≤ 5 * 10 ^ (-(precision : ℤ)) * q.exact divisor := by
        exact mul_le_mul_of_nonneg_left (pow_mul_le_exact hdigits) (by positivity)

/-- Digits that make a whole number together with what remains leave nothing. -/
theorem remainder_eq_zero_of_eq_int (hpos : 0 < divisor) (hlt : q.remainder < divisor) {n : ℤ}
    (h : (q.digits : ℚ) + q.remainder / divisor = n) : q.remainder = 0 := by
  have hdivisor : (divisor : ℚ) ≠ 0 := by exact_mod_cast hpos.ne'
  have hmultiple : (q.remainder : ℤ) = (n - q.digits) * divisor := by
    have : (q.remainder : ℚ) = (n - q.digits) * divisor := by
      rw [← h]
      field_simp
      ring
    exact_mod_cast this
  have hmod : (q.remainder : ℤ) % divisor = q.remainder := Int.emod_eq_of_lt (by omega) (by omega)
  rw [hmultiple, Int.mul_emod_left, ← hmultiple] at hmod
  omega

/-- A number of no more digits than the precision asks for is divided out without a remainder. -/
theorem remainder_ofDigits_eq_zero (hpos : 0 < divisor) {m k : ℤ} (hm : |m| < 10 ^ precision)
    (hexact : (ofDigits dividend divisor scale).exact divisor = m * 10 ^ (-k)) :
    (ofDigits dividend divisor scale).remainder = 0 := by
  rcases finished hpos dividend scale with hdone | hdigits
  · exact hdone
  have hlt := remainder_ofDigits_lt hpos dividend scale
  generalize ofDigits dividend divisor scale = q at *
  have hdigitsOf : (q.digits : ℚ) + q.remainder / divisor = m * 10 ^ (q.scale - k) := by
    have hcancel : ((q.digits : ℚ) + q.remainder / divisor) * 10 ^ (-q.scale)
        = m * 10 ^ (q.scale - k) * 10 ^ (-q.scale) := by
      rw [← exact, hexact, mul_assoc, ← zpow_add₀ (by norm_num)]
      congr 2
      omega
    exact mul_right_cancel₀ (ten_zpow_pos _).ne' hcancel
  rcases le_or_gt k q.scale with hle | hlt'
  · obtain ⟨n, hn⟩ := Int.le.dest hle
    have hwhole : (q.digits : ℚ) + q.remainder / divisor = ((m * 10 ^ n : ℤ) : ℚ) := by
      rw [hdigitsOf, ← hn, add_sub_cancel_left, zpow_natCast]
      push_cast
      rfl
    exact remainder_eq_zero_of_eq_int hpos hlt hwhole
  · -- Such a number has its last digit in front of the last digit that was found.
    exfalso
    have hsmall : (m : ℚ) * 10 ^ (q.scale - k) < 10 ^ (precision - 1) := by
      have hm' : (m : ℚ) < 10 ^ precision := by exact_mod_cast lt_of_abs_lt hm
      calc (m : ℚ) * 10 ^ (q.scale - k)
          < 10 ^ precision * 10 ^ (q.scale - k) := mul_lt_mul_of_pos_right hm' (ten_zpow_pos _)
        _ ≤ 10 ^ precision * 10 ^ (-1 : ℤ) :=
          mul_le_mul_of_nonneg_left (zpow_le_zpow_right₀ (by norm_num) (by omega)) (by positivity)
        _ = 10 ^ (precision - 1) := by norm_num [precision]
    have hlarge : (10 : ℚ) ^ (precision - 1) ≤ q.digits := by exact_mod_cast hdigits
    have hnonneg : (0 : ℚ) ≤ q.remainder / divisor := by positivity
    linarith

end Quotient

/-! ## Quotients of signed decimals -/

theorem sign_mul_sign_self {n : ℤ} (h : n ≠ 0) : n.sign * n.sign = 1 := by
  rw [← abs_mul_abs_self, Int.abs_sign_of_ne_zero h, mul_one]

theorem value_eq_sign_mul (d : Decimal) :
    d.value = d.digits.sign * (d.digits.natAbs * 10 ^ (-d.scale)) := by
  have hdigits : (d.digits : ℚ) = d.digits.sign * ((d.digits.natAbs : ℤ) : ℚ) := by
    exact_mod_cast (Int.sign_mul_natAbs d.digits).symm
  rw [value, hdigits, Int.cast_natCast, mul_assoc]

section

variable {a b : Decimal}

/-- The exact quotient is the number that long division keeps, with the sign of the operands. -/
theorem value_div_value (hb : b.digits ≠ 0) :
    a.value / b.value =
      ((a.digits.sign * b.digits.sign : ℤ) : ℚ) * (a.division b).exact b.digits.natAbs := by
  have hpos : 0 < b.digits.natAbs := Int.natAbs_pos.mpr hb
  have hne : (b.digits.natAbs : ℚ) ≠ 0 := by exact_mod_cast hpos.ne'
  have hsign : (b.digits.sign : ℚ) * b.digits.sign = 1 := by exact_mod_cast sign_mul_sign_self hb
  have hsignNe : (b.digits.sign : ℚ) ≠ 0 := left_ne_zero_of_mul_eq_one hsign
  have hunit : (10 : ℚ) ^ (-b.scale) ≠ 0 := (ten_zpow_pos _).ne'
  have hpow : (10 : ℚ) ^ (-(a.scale - b.scale)) = 10 ^ (-a.scale) / 10 ^ (-b.scale) := by
    rw [← zpow_sub₀ (by norm_num)]
    congr 1
    omega
  rw [division, Quotient.exact_ofDigits hpos, hpow, value_eq_sign_mul a, value_eq_sign_mul b]
  calc (a.digits.sign : ℚ) * (a.digits.natAbs * 10 ^ (-a.scale))
        / (b.digits.sign * (b.digits.natAbs * 10 ^ (-b.scale)))
      = b.digits.sign * b.digits.sign * (a.digits.sign * (a.digits.natAbs * 10 ^ (-a.scale))
        / (b.digits.sign * (b.digits.natAbs * 10 ^ (-b.scale)))) := by rw [hsign, one_mul]
    _ = _ := by
      push_cast
      field_simp

theorem rounded_division_one (a : Decimal) :
    (a.division ⟨1, 0⟩).rounded 1 = a.digits.natAbs * 10 ^ (-a.scale) := by
  have hlt : (a.division ⟨1, 0⟩).remainder < 1 := Quotient.remainder_ofDigits_lt Nat.one_pos _ _
  have hexact : (a.division ⟨1, 0⟩).exact 1 = a.digits.natAbs / 1 * 10 ^ (-(a.scale - 0)) :=
    Quotient.exact_ofDigits Nat.one_pos _ _
  rw [Quotient.rounded_of_remainder_eq_zero Nat.one_pos (Nat.lt_one_iff.mp hlt), hexact, div_one,
    sub_zero]

/-- What is left as it is stands for what long division would have made of it. -/
theorem value_quotient (a b : Decimal) :
    (a.quotient b).value =
      ((a.digits.sign * b.digits.sign : ℤ) : ℚ) * (a.division b).rounded b.digits.natAbs := by
  rw [quotient, value_normalize, roundedQuotient]
  split
  · next h =>
    rcases h with ha | rfl
    · rw [(value_eq_zero_iff a).mpr ha, ha, Int.sign_zero, zero_mul, Int.cast_zero, zero_mul]
    · have hone : (a.division ⟨1, 0⟩).rounded (Int.natAbs 1) = a.digits.natAbs * 10 ^ (-a.scale) :=
        rounded_division_one a
      rw [hone, value_eq_sign_mul, Int.sign_one, mul_one]
  · rw [value, Quotient.rounded]
    push_cast
    ring

theorem value_quotient_of_remainder_eq_zero (hb : b.digits ≠ 0)
    (h : (a.division b).remainder = 0) : (a.quotient b).value = a.value / b.value := by
  rw [value_quotient, value_div_value hb,
    Quotient.rounded_of_remainder_eq_zero (Int.natAbs_pos.mpr hb) h]

/-- **A quotient is correct to the precision**: it is off by half a unit of its last digit at
most. -/
theorem abs_value_quotient_sub_le (hb : b.digits ≠ 0) :
    |(a.quotient b).value - a.value / b.value|
      ≤ 5 * 10 ^ (-(precision : ℤ)) * |a.value / b.value| := by
  have hpos : 0 < b.digits.natAbs := Int.natAbs_pos.mpr hb
  have hbound := Quotient.abs_rounded_ofDigits_sub_le hpos a.digits.natAbs (a.scale - b.scale)
  have hnonneg := Quotient.exact_nonneg b.digits.natAbs (a.division b)
  rw [value_quotient, value_div_value hb, ← mul_sub, abs_mul, abs_mul, abs_of_nonneg hnonneg,
    mul_left_comm]
  exact mul_le_mul_of_nonneg_left hbound (abs_nonneg _)

/-- **A quotient of no more digits than the precision asks for is exact.** -/
theorem value_quotient_of_terminating (hb : b.digits ≠ 0) {m k : ℤ} (hm : |m| < 10 ^ precision)
    (h : a.value / b.value = m * 10 ^ (-k)) : (a.quotient b).value = a.value / b.value := by
  refine value_quotient_of_remainder_eq_zero hb ?_
  by_cases ha : a.digits = 0
  · rw [division, ha, Int.natAbs_zero, Quotient.ofDigits_zero]
  have hsigns : (a.digits.sign * b.digits.sign) * (a.digits.sign * b.digits.sign) = 1 := by
    rw [mul_mul_mul_comm, sign_mul_sign_self ha, sign_mul_sign_self hb, mul_one]
  have hm' : |a.digits.sign * b.digits.sign * m| < 10 ^ precision := by
    rwa [abs_mul, abs_mul, Int.abs_sign_of_ne_zero ha, Int.abs_sign_of_ne_zero hb, mul_one,
      one_mul]
  refine Quotient.remainder_ofDigits_eq_zero (Int.natAbs_pos.mpr hb) (k := k) hm' ?_
  rw [value_div_value hb] at h
  generalize a.digits.sign * b.digits.sign = sign at hsigns h ⊢
  calc (a.division b).exact b.digits.natAbs
      = ((sign * sign : ℤ) : ℚ) * (a.division b).exact b.digits.natAbs := by simp [hsigns]
    _ = sign * (sign * (a.division b).exact b.digits.natAbs) := by push_cast; ring
    _ = ((sign * m : ℤ) : ℚ) * 10 ^ (-k) := by rw [h]; push_cast; ring

theorem isNormal_quotient (a b : Decimal) : (a.quotient b).IsNormal :=
  isNormal_normalize _

theorem IsNormal.neg {d : Decimal} (h : d.IsNormal) : d.neg.IsNormal := by
  simp only [IsNormal, Decimal.neg] at *
  omega

theorem roundedQuotient_neg (a b : Decimal) :
    a.neg.roundedQuotient b = (a.roundedQuotient b).neg := by
  have hdivision : a.neg.division b = a.division b := by simp [division, neg]
  by_cases h : a.digits = 0 ∨ b = ⟨1, 0⟩
  · have hneg : a.neg.digits = 0 ∨ b = ⟨1, 0⟩ := h.imp_left fun ha => by simp [neg, ha]
    rw [roundedQuotient, roundedQuotient, if_pos h, if_pos hneg]
  · have hneg : ¬(a.neg.digits = 0 ∨ b = ⟨1, 0⟩) := by simpa [neg] using h
    rw [roundedQuotient, roundedQuotient, if_neg h, if_neg hneg, hdivision]
    simp [neg]

/-- The sign of the dividend is the sign of the quotient. -/
theorem quotient_neg (a b : Decimal) : a.neg.quotient b = (a.quotient b).neg.normalize := by
  refine eq_of_value_eq (isNormal_quotient ..) (isNormal_normalize _) ?_
  rw [quotient, roundedQuotient_neg, quotient]
  simp only [value_normalize, value_neg]

end

end SmallScheme.Decimal
