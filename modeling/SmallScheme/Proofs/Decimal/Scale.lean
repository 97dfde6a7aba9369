import SmallScheme.Proofs.Decimal.Quotient

/-!
# How far digits stand from the point

A decimal is within so many places of the point if none of its digits stands further behind the
point, and its value is smaller than the power of ten with so many zeros (`Decimal.Within`). Then
its scale is at most that far from zero in either direction (`Within.natAbs_scale_le`): the scale
says how far behind the point the last digit stands, or how far in front of it.

Arithmetic works out a decimal that has the right value, and then brings it into normal form. Normal
form moves zeros from the digits to the scale, so the scale only gets smaller, and the value bounds
how small it gets (`Within.normalize`). The scale before normal form is the larger of two scales, or
their sum, or their difference and what long division adds to it
(`natAbs_scale_roundedQuotient_le`).
-/

namespace SmallScheme.Decimal

/-! ## Places -/

/-- All digits are within so many places of the point, and a zero has scale zero. -/
structure Within (places : ℕ) (d : Decimal) : Prop where
  zero : d.digits = 0 → d.scale = 0
  fine : d.scale ≤ places
  small : |d.value| < 10 ^ places

variable {a b d : Decimal} {m n places : ℕ}

theorem neg_lt_scale (hd : d.digits ≠ 0) (h : |d.value| < 10 ^ places) :
    -(places : ℤ) < d.scale := by
  have hone : (1 : ℚ) ≤ d.digits.natAbs := by
    exact_mod_cast Int.natAbs_pos.mpr hd
  have hpow : (10 : ℚ) ^ (-d.scale) < 10 ^ (places : ℤ) :=
    calc (10 : ℚ) ^ (-d.scale) ≤ d.digits.natAbs * 10 ^ (-d.scale) :=
          le_mul_of_one_le_left (ten_zpow_pos _).le hone
      _ = |d.value| := (abs_value d).symm
      _ < 10 ^ (places : ℤ) := by rwa [zpow_natCast]
  have hlt := (zpow_lt_zpow_iff_right₀ (by norm_num)).mp hpow
  omega

theorem Within.natAbs_scale_le (h : d.Within places) : d.scale.natAbs ≤ places := by
  have hfine := h.fine
  by_cases hd : d.digits = 0
  · rw [h.zero hd]
    exact Nat.zero_le _
  · have hcoarse := neg_lt_scale hd h.small
    omega

theorem Within.mono (h : d.Within m) (hle : m ≤ n) : d.Within n where
  zero := h.zero
  fine := h.fine.trans (by exact_mod_cast hle)
  small := h.small.trans_le (pow_le_pow_right₀ (by norm_num) hle)

theorem Within.neg (h : d.Within places) : d.neg.Within places where
  zero hd := h.zero (by simpa [Decimal.neg] using hd)
  fine := h.fine
  small := by
    rw [value_neg, abs_neg]
    exact h.small

/-! ## Normal form -/

theorem scale_strip_le (digits scale : ℤ) : (strip digits scale).scale ≤ scale := by
  fun_induction strip digits scale with
  | case1 digits scale h ih => omega
  | case2 => exact le_rfl

/-- Normal form has the smallest scale. -/
theorem scale_normalize_le (h : d.scale ≤ places) : d.normalize.scale ≤ places := by
  unfold normalize
  split
  · exact Int.natCast_nonneg places
  · exact (scale_strip_le _ _).trans h

theorem natAbs_digits_strip_le (digits scale : ℤ) :
    (strip digits scale).digits.natAbs ≤ digits.natAbs := by
  fun_induction strip digits scale with
  | case1 digits scale h ih => omega
  | case2 => exact le_rfl

/-- Normal form has the fewest digits. -/
theorem natAbs_digits_normalize_le (d : Decimal) :
    d.normalize.digits.natAbs ≤ d.digits.natAbs := by
  unfold normalize
  split
  · exact Nat.zero_le _
  · exact natAbs_digits_strip_le _ _

theorem zero_of_isNormal (h : d.IsNormal) (hd : d.digits = 0) : d.scale = 0 :=
  (h.resolve_right fun hne => hne (by simp [hd])).2

theorem Within.normalize (hscale : d.scale ≤ places) (hsmall : |d.value| < 10 ^ places) :
    d.normalize.Within places where
  zero := zero_of_isNormal (isNormal_normalize d)
  fine := scale_normalize_le hscale
  small := by rwa [value_normalize]

/-! ## Sums and products -/

section

variable (ha : a.Within m) (hb : b.Within n)
include ha hb

theorem natAbs_scale_alignedSum_le : (a.alignedSum b).scale.natAbs ≤ m + n := by
  have hm := ha.natAbs_scale_le
  have hn := hb.natAbs_scale_le
  unfold alignedSum
  split
  · omega
  split
  · omega
  · dsimp only
    omega

theorem natAbs_scale_plainProduct_le : (a.plainProduct b).scale.natAbs ≤ m + n := by
  have hm := ha.natAbs_scale_le
  have hn := hb.natAbs_scale_le
  simp only [plainProduct]
  omega

end

/-! ## Quotients -/

theorem le_scale_raise (n bound : ℕ) (scale : ℤ) : scale ≤ (raise n bound scale).2 := by
  fun_induction raise n bound scale with
  | case1 n scale h ih => omega
  | case2 => exact le_rfl

/-- So many zeros are enough. -/
theorem scale_raise_le (scale : ℤ) {n bound k : ℕ} (h : bound ≤ n * 10 ^ k) :
    (raise n bound scale).2 ≤ scale + k := by
  fun_induction raise n bound scale generalizing k with
  | case1 n scale hn ih =>
    cases k with
    | zero => omega
    | succ k =>
      have hnext := @ih k (by rwa [mul_assoc, ← pow_succ'])
      push_cast
      omega
  | case2 => omega

namespace Quotient

theorem le_scale_extend (divisor room : ℕ) (q : Quotient) :
    q.scale ≤ (q.extend divisor room).scale := by
  induction room generalizing q with
  | zero => exact le_rfl
  | succ room ih =>
    by_cases h : q.remainder = 0
    · rw [extend_of_remainder_eq_zero h]
    · rw [extend_of_remainder_ne_zero h]
      refine le_trans ?_ (ih (q.next divisor))
      simp [next]

theorem scale_extend_le (divisor room : ℕ) (q : Quotient) :
    (q.extend divisor room).scale ≤ q.scale + room := by
  induction room generalizing q with
  | zero => simp [extend]
  | succ room ih =>
    by_cases h : q.remainder = 0
    · rw [extend_of_remainder_eq_zero h]
      omega
    · rw [extend_of_remainder_ne_zero h]
      refine (ih (q.next divisor)).trans ?_
      simp only [next]
      push_cast
      omega

theorem le_scale_ofDigits (dividend divisor : ℕ) (scale : ℤ) :
    scale ≤ (ofDigits dividend divisor scale).scale := by
  rw [ofDigits_of_raise rfl]
  exact (le_scale_raise dividend divisor scale).trans (le_scale_extend ..)

theorem scale_ofDigits_le (scale : ℤ) {dividend divisor k : ℕ} (h : divisor ≤ dividend * 10 ^ k) :
    (ofDigits dividend divisor scale).scale ≤ scale + k + precision := by
  have hraised := scale_raise_le scale h
  rw [ofDigits_of_raise rfl]
  refine (scale_extend_le ..).trans ?_
  dsimp only
  omega

end Quotient

/-- The digits of a decimal reach from the first place to the last. -/
theorem natAbs_digits_le (h : d.Within places) :
    d.digits.natAbs ≤ 10 ^ (places + d.scale).toNat := by
  by_cases hd : d.digits = 0
  · simp [hd]
  have hcoarse := neg_lt_scale hd h.small
  have hcast : (d.digits.natAbs : ℚ) ≤ 10 ^ (places + d.scale).toNat :=
    calc (d.digits.natAbs : ℚ) = |d.value| * 10 ^ d.scale := by
          rw [abs_value, mul_assoc, ← zpow_add₀ (by norm_num), neg_add_cancel, zpow_zero, mul_one]
      _ ≤ 10 ^ (places : ℤ) * 10 ^ d.scale := by
          rw [zpow_natCast]
          exact mul_le_mul_of_nonneg_right h.small.le (ten_zpow_pos _).le
      _ = 10 ^ (places + d.scale).toNat := by
          rw [← zpow_add₀ (by norm_num), ← zpow_natCast, Int.toNat_of_nonneg (by omega)]
  exact_mod_cast hcast

section

variable (ha : a.Within m) (hb : b.Within n)
include ha hb

theorem natAbs_scale_roundedQuotient_le :
    (a.roundedQuotient b).scale.natAbs ≤ m + n + precision := by
  have hm := ha.natAbs_scale_le
  have hn := hb.natAbs_scale_le
  unfold roundedQuotient
  split
  · omega
  · next h =>
    -- The dividend gets no more zeros than the divisor has digits.
    have hpos : 1 ≤ a.digits.natAbs := Int.natAbs_pos.mpr fun h0 => h (.inl h0)
    have hdigits : b.digits.natAbs ≤ a.digits.natAbs * 10 ^ (n + b.scale).toNat :=
      (natAbs_digits_le hb).trans (Nat.le_mul_of_pos_left _ hpos)
    have hlower := Quotient.le_scale_ofDigits a.digits.natAbs b.digits.natAbs (a.scale - b.scale)
    have hupper := Quotient.scale_ofDigits_le (a.scale - b.scale) hdigits
    simp only [division]
    omega

theorem abs_value_div_lt (hne : b.digits ≠ 0) : |a.value / b.value| < 10 ^ (m + n) := by
  have hunit : (10 : ℚ) ^ (-(n : ℤ)) ≤ |b.value| :=
    calc (10 : ℚ) ^ (-(n : ℤ)) ≤ 10 ^ (-b.scale) :=
          zpow_le_zpow_right₀ (by norm_num) (neg_le_neg hb.fine)
      _ ≤ b.digits.natAbs * 10 ^ (-b.scale) := by
          refine le_mul_of_one_le_left (ten_zpow_pos _).le ?_
          exact_mod_cast Int.natAbs_pos.mpr hne
      _ = |b.value| := (abs_value b).symm
  have hpos : 0 < |b.value| := (ten_zpow_pos _).trans_le hunit
  rw [abs_div, div_lt_iff₀ hpos]
  calc |a.value| < 10 ^ m := ha.small
    _ = 10 ^ (m + n) * 10 ^ (-(n : ℤ)) := by
        rw [zpow_neg, zpow_natCast, pow_add, mul_assoc, mul_inv_cancel₀ (by positivity), mul_one]
    _ ≤ 10 ^ (m + n) * |b.value| := mul_le_mul_of_nonneg_left hunit (by positivity)

theorem abs_value_quotient_lt (hne : b.digits ≠ 0) :
    |(a.quotient b).value| < 10 ^ (m + n + 1) := by
  have hexact := abs_value_div_lt ha hb hne
  have hclose := abs_value_quotient_sub_le (a := a) hne
  have hpart : 5 * (10 : ℚ) ^ (-(precision : ℤ)) ≤ 1 := by
    norm_num [precision]
  have hdistance : |(a.quotient b).value - a.value / b.value| ≤ |a.value / b.value| :=
    hclose.trans (mul_le_of_le_one_left (abs_nonneg _) hpart)
  calc |(a.quotient b).value|
      = |(a.quotient b).value - a.value / b.value + a.value / b.value| := by rw [sub_add_cancel]
    _ ≤ |(a.quotient b).value - a.value / b.value| + |a.value / b.value| := abs_add_le _ _
    _ < 10 ^ (m + n) + 10 ^ (m + n) := by linarith
    _ ≤ 10 ^ (m + n + 1) := by
        rw [pow_succ]
        linarith [pow_pos (show (0 : ℚ) < 10 by norm_num) (m + n)]

end

end SmallScheme.Decimal
