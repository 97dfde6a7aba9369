import Mathlib.Algebra.Order.Field.Power
import Mathlib.Data.Rat.Cast.Order
import Mathlib.Tactic.Ring
import SmallScheme.Decimal.Basic

/-!
# The rational that a decimal denotes

`Decimal.value` is the rational number `digits * 10 ^ (-scale)`. Normalization does not change it
(`value_normalize`), and the operations on decimals are the operations on rationals: `value_add`,
`value_sub`, `value_mul`, `value_neg`. A rational has at most one normal spelling
(`eq_of_value_eq`): of two normal decimals of one value, the one with the larger scale would have
digits that end in zero.

The order of decimals is the order of their values (`order_eq_compare_value`). Where the places of
the leading digits differ, they decide alone, because the value lies between two neighbouring powers
of ten (`pow_magnitude_le_abs_value`, `abs_value_lt_pow_magnitude`).
-/

namespace SmallScheme.Decimal

/-- The rational number `digits * 10 ^ (-scale)`. -/
def value (d : Decimal) : ℚ :=
  d.digits * 10 ^ (-d.scale)

theorem ten_zpow_pos (k : ℤ) : (0 : ℚ) < 10 ^ k :=
  zpow_pos (by norm_num) k

@[simp] theorem value_zero (scale : ℤ) : value ⟨0, scale⟩ = 0 := by
  simp [value]

theorem value_pos_iff (d : Decimal) : 0 < d.value ↔ 0 < d.digits := by
  rw [value, mul_pos_iff_of_pos_right (ten_zpow_pos _), Int.cast_pos]

theorem value_neg_iff (d : Decimal) : d.value < 0 ↔ d.digits < 0 := by
  rw [value, Rat.mul_neg_iff_of_pos_right (ten_zpow_pos _), Int.cast_lt_zero]

theorem value_eq_zero_iff (d : Decimal) : d.value = 0 ↔ d.digits = 0 := by
  rw [value, mul_eq_zero_iff_right (ten_zpow_pos _).ne', Int.cast_eq_zero]

/-! ## Spellings of one value -/

theorem value_strip (digits scale : ℤ) : (strip digits scale).value = value ⟨digits, scale⟩ := by
  fun_induction strip digits scale with
  | case1 digits scale h ih =>
      obtain ⟨m, rfl⟩ : (10 : ℤ) ∣ digits := Int.dvd_of_emod_eq_zero h.2
      have hpow : (10 : ℚ) ^ (-(scale - 1)) = 10 ^ (-scale) * 10 := by
        rw [← zpow_add_one₀ (by norm_num)]
        congr 1
        omega
      rw [ih, value, value, Int.mul_ediv_cancel_left _ (by decide), hpow]
      push_cast
      ring
  | case2 => rfl

@[simp] theorem value_normalize (d : Decimal) : d.normalize.value = d.value := by
  unfold normalize
  split
  · next h => rw [value_zero, (value_eq_zero_iff d).mpr h]
  · exact value_strip d.digits d.scale

/-- Digits at a finer scale spell the same value. -/
theorem digitsAt_mul_pow (d : Decimal) {scale : ℤ} (h : d.scale ≤ scale) :
    (d.digitsAt scale : ℚ) * 10 ^ (-scale) = d.value := by
  have hpow : (((10 ^ (scale - d.scale).toNat : ℕ) : ℤ) : ℚ) = 10 ^ (scale - d.scale) := by
    rw [Int.cast_natCast, Nat.cast_pow, ← zpow_natCast, Int.toNat_of_nonneg (by omega)]
    norm_num
  calc (d.digitsAt scale : ℚ) * 10 ^ (-scale)
      = d.digits * 10 ^ (scale - d.scale) * 10 ^ (-scale) := by
        rw [digitsAt, Int.cast_mul]
        exact congrArg (d.digits * · * (10 : ℚ) ^ (-scale)) hpow
    _ = d.digits * 10 ^ (scale - d.scale + -scale) := by
        rw [mul_assoc, ← zpow_add₀ (by norm_num)]
    _ = d.value := by
        rw [value]
        congr 2
        omega

/-! ## Sums and products -/

theorem value_neg (d : Decimal) : d.neg.value = -d.value := by
  simp [value, neg]

theorem value_alignedSum (a b : Decimal) : (a.alignedSum b).value = a.value + b.value := by
  unfold alignedSum
  split
  · next h => rw [(value_eq_zero_iff a).mpr h, zero_add]
  split
  · next h => rw [(value_eq_zero_iff b).mpr h, add_zero]
  · rw [value, Int.cast_add, add_mul, digitsAt_mul_pow a (le_max_left ..),
      digitsAt_mul_pow b (le_max_right ..)]

theorem value_add (a b : Decimal) : (a.add b).value = a.value + b.value := by
  rw [add, value_normalize, value_alignedSum]

theorem value_sub (a b : Decimal) : (a.sub b).value = a.value - b.value := by
  rw [sub, value_add, value_neg, sub_eq_add_neg]

theorem value_plainProduct (a b : Decimal) : (a.plainProduct b).value = a.value * b.value := by
  have hpow : (10 : ℚ) ^ (-(a.scale + b.scale)) = 10 ^ (-a.scale) * 10 ^ (-b.scale) := by
    rw [← zpow_add₀ (by norm_num)]
    congr 1
    omega
  rw [plainProduct, value, value, value, hpow, Int.cast_mul]
  ring

theorem value_mul (a b : Decimal) : (a.mul b).value = a.value * b.value := by
  rw [mul, value_normalize, value_plainProduct]

theorem isNormal_add (a b : Decimal) : (a.add b).IsNormal :=
  isNormal_normalize _

theorem isNormal_sub (a b : Decimal) : (a.sub b).IsNormal :=
  isNormal_add a b.neg

theorem isNormal_mul (a b : Decimal) : (a.mul b).IsNormal :=
  isNormal_normalize _

/-! ## Normal spellings are unique -/

/-- Among normal decimals of one value, none has a smaller scale than another. -/
theorem scale_le_of_value_eq {a b : Decimal} (ha : a.IsNormal) (hb : b.IsNormal)
    (h : a.value = b.value) : b.scale ≤ a.scale := by
  by_contra hlt
  have hdigits : a.digitsAt b.scale = b.digits := by
    have hcancel : (a.digitsAt b.scale : ℚ) * 10 ^ (-b.scale) = b.digits * 10 ^ (-b.scale) := by
      rw [digitsAt_mul_pow a (by omega), h, value]
    exact_mod_cast mul_right_cancel₀ (ten_zpow_pos _).ne' hcancel
  -- The digits of `b` are those of `a` with at least one zero behind them.
  have hten : b.digits % 10 = 0 := by
    obtain ⟨k, hk⟩ : ∃ k, (b.scale - a.scale).toNat = k + 1 :=
      ⟨(b.scale - a.scale).toNat - 1, by omega⟩
    have hdvd : (10 : ℤ) ∣ ((10 ^ (b.scale - a.scale).toNat : ℕ) : ℤ) := by
      rw [hk, pow_succ]
      push_cast
      exact dvd_mul_left ..
    rw [← hdigits]
    exact Int.emod_eq_zero_of_dvd (hdvd.mul_left a.digits)
  obtain ⟨hb0, hbs⟩ := hb.resolve_right fun hne => hne hten
  have ha0 : a.digits = 0 := by
    rw [← value_eq_zero_iff, h, value_eq_zero_iff, hb0]
  have has : a.scale = 0 := (ha.resolve_right fun hne => hne (by simp [ha0])).2
  omega

/-- **A rational has at most one normal spelling.** -/
theorem eq_of_value_eq {a b : Decimal} (ha : a.IsNormal) (hb : b.IsNormal)
    (h : a.value = b.value) : a = b := by
  have hscale : a.scale = b.scale :=
    le_antisymm (scale_le_of_value_eq hb ha h.symm) (scale_le_of_value_eq ha hb h)
  have hdigits : a.digits = b.digits := by
    rw [value, value, hscale] at h
    exact_mod_cast mul_right_cancel₀ (ten_zpow_pos _).ne' h
  cases a
  cases b
  simp_all

/-! ## Order -/

theorem lt_pow_digitCount (n : ℕ) : n < 10 ^ digitCount n :=
  (Nat.length_toDigits_le_iff (by decide) Nat.length_toDigits_pos).mp le_rfl

theorem pow_digitCount_le {n : ℕ} (h : n ≠ 0) : 10 ^ (digitCount n - 1) ≤ n := by
  by_contra hlt
  have hpos : 0 < digitCount n := Nat.length_toDigits_pos
  rcases Nat.eq_zero_or_pos (digitCount n - 1) with h0 | h0
  · rw [h0] at hlt
    omega
  · have hle : digitCount n ≤ digitCount n - 1 :=
      (Nat.length_toDigits_le_iff (by decide) h0).mpr (by omega)
    omega

theorem abs_value (d : Decimal) : |d.value| = d.digits.natAbs * 10 ^ (-d.scale) := by
  rw [value, abs_mul, abs_of_pos (ten_zpow_pos _), Nat.cast_natAbs, Int.cast_abs]

theorem abs_value_lt_pow_magnitude (d : Decimal) : |d.value| < 10 ^ d.magnitude := by
  have hpow : (10 : ℚ) ^ d.magnitude = 10 ^ digitCount d.digits.natAbs * 10 ^ (-d.scale) := by
    rw [magnitude, sub_eq_add_neg, zpow_add₀ (by norm_num), zpow_natCast]
  rw [abs_value, hpow]
  refine mul_lt_mul_of_pos_right ?_ (ten_zpow_pos _)
  exact_mod_cast lt_pow_digitCount d.digits.natAbs

theorem pow_magnitude_le_abs_value {d : Decimal} (h : d.digits ≠ 0) :
    (10 : ℚ) ^ (d.magnitude - 1) ≤ |d.value| := by
  have hpos : 0 < digitCount d.digits.natAbs := Nat.length_toDigits_pos
  have hpow : (10 : ℚ) ^ (d.magnitude - 1)
      = 10 ^ (digitCount d.digits.natAbs - 1) * 10 ^ (-d.scale) := by
    rw [← zpow_natCast, ← zpow_add₀ (by norm_num), magnitude]
    congr 1
    omega
  rw [abs_value, hpow]
  refine mul_le_mul_of_nonneg_right ?_ (ten_zpow_pos _).le
  exact_mod_cast pow_digitCount_le (Int.natAbs_ne_zero.mpr h)

/-- The decimal with the higher leading digit is the larger one in absolute value. -/
theorem abs_value_lt_of_magnitude_lt {a b : Decimal} (hb : b.digits ≠ 0)
    (h : a.magnitude < b.magnitude) : |a.value| < |b.value| :=
  calc |a.value| < 10 ^ a.magnitude := abs_value_lt_pow_magnitude a
    _ ≤ 10 ^ (b.magnitude - 1) := zpow_le_zpow_right₀ (by norm_num) (by omega)
    _ ≤ |b.value| := pow_magnitude_le_abs_value hb

theorem value_lt_of_sign_lt {a b : Decimal} (h : a.digits.sign < b.digits.sign) :
    a.value < b.value := by
  rcases lt_trichotomy a.digits 0 with ha | ha | ha
  · have hb : 0 ≤ b.digits := by
      rw [Int.sign_eq_neg_one_of_neg ha] at h
      exact Int.sign_nonneg_iff.mp (by omega)
    calc a.value < 0 := (value_neg_iff a).mpr ha
      _ ≤ b.value := not_lt.mp fun hneg => absurd ((value_neg_iff b).mp hneg) (by omega)
  · have hb : 0 < b.digits := by
      rw [ha, Int.sign_zero] at h
      exact Int.sign_pos_iff.mp h
    rw [(value_eq_zero_iff a).mpr ha]
    exact (value_pos_iff b).mpr hb
  · rw [Int.sign_eq_one_of_pos ha] at h
    rcases Int.sign_trichotomy b.digits with hb | hb | hb <;> omega

/-- Decimals of different signs, and zeros, compare as their signs do. -/
theorem compare_sign_eq {a b : Decimal} (h : a.digits.sign ≠ b.digits.sign ∨ a.digits = 0) :
    compare a.digits.sign b.digits.sign = compare a.value b.value := by
  rcases lt_trichotomy a.digits.sign b.digits.sign with hlt | heq | hgt
  · rw [compare_lt_iff_lt.mpr hlt, compare_lt_iff_lt.mpr (value_lt_of_sign_lt hlt)]
  · have ha : a.digits = 0 := h.resolve_left fun hne => hne heq
    have hb : b.digits = 0 := by
      rw [ha, Int.sign_zero] at heq
      exact Int.sign_eq_zero_iff_zero.mp heq.symm
    rw [compare_eq_iff_eq.mpr heq, compare_eq_iff_eq.mpr]
    rw [(value_eq_zero_iff a).mpr ha, (value_eq_zero_iff b).mpr hb]
  · rw [compare_gt_iff_gt.mpr hgt, compare_gt_iff_gt.mpr (value_lt_of_sign_lt hgt)]

/-- Decimals of one sign compare as their absolute values do, or the other way round. -/
theorem compare_value_eq_abs {a b : Decimal} (hsign : a.digits.sign = b.digits.sign)
    (ha : a.digits ≠ 0) :
    compare a.value b.value =
      if 0 < a.digits then compare |a.value| |b.value| else (compare |a.value| |b.value|).swap := by
  split
  · next hpos =>
    have hb : 0 < b.digits := by
      rw [Int.sign_eq_one_of_pos hpos] at hsign
      exact Int.sign_eq_one_iff_pos.mp hsign.symm
    rw [abs_of_pos ((value_pos_iff a).mpr hpos), abs_of_pos ((value_pos_iff b).mpr hb)]
  · next hpos =>
    have hneg : a.digits < 0 := by omega
    have hb : b.digits < 0 := by
      rw [Int.sign_eq_neg_one_of_neg hneg] at hsign
      exact Int.sign_eq_neg_one_iff_neg.mp hsign.symm
    rw [abs_of_neg ((value_neg_iff a).mpr hneg), abs_of_neg ((value_neg_iff b).mpr hb),
      ← cmp_eq_compare, ← cmp_eq_compare, cmp_swap]
    exact (StrictAnti.cmp_map_eq (fun _ _ => neg_lt_neg) b.value a.value).symm

/-- Digits at a common scale compare as the values do. -/
theorem compare_digitsAt_eq (a b : Decimal) {scale : ℤ} (ha : a.scale ≤ scale)
    (hb : b.scale ≤ scale) :
    compare (a.digitsAt scale) (b.digitsAt scale) = compare a.value b.value := by
  have hmono : StrictMono fun n : ℤ => (n : ℚ) * 10 ^ (-scale) := by
    intro m n hmn
    exact mul_lt_mul_of_pos_right (by exact_mod_cast hmn) (ten_zpow_pos _)
  rw [← digitsAt_mul_pow a ha, ← digitsAt_mul_pow b hb, ← cmp_eq_compare, ← cmp_eq_compare]
  exact (hmono.cmp_map_eq _ _).symm

/-- **The order of decimals is the order of their values**, whatever their scales are. -/
theorem order_eq_compare_value (a b : Decimal) : a.order b = compare a.value b.value := by
  unfold order
  split
  · next h => exact compare_sign_eq h
  next h =>
  obtain ⟨hsign, ha⟩ := not_or.mp h
  have hsign : a.digits.sign = b.digits.sign := not_not.mp hsign
  have hb : b.digits ≠ 0 := by
    intro hb
    rw [hb, Int.sign_zero] at hsign
    exact ha (Int.sign_eq_zero_iff_zero.mp hsign)
  rcases lt_trichotomy a.magnitude b.magnitude with hlt | heq | hgt
  · rw [compare_value_eq_abs hsign ha, compare_lt_iff_lt.mpr hlt,
      compare_lt_iff_lt.mpr (abs_value_lt_of_magnitude_lt hb hlt)]
  · rw [compare_eq_iff_eq.mpr heq]
    exact compare_digitsAt_eq a b (le_max_left ..) (le_max_right ..)
  · rw [compare_value_eq_abs hsign ha, compare_gt_iff_gt.mpr hgt,
      compare_gt_iff_gt.mpr (abs_value_lt_of_magnitude_lt ha hgt)]

end SmallScheme.Decimal
