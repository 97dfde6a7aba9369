import SmallScheme.Number.Computation
import SmallScheme.Proofs.Decimal.Scale
import SmallScheme.Proofs.Number.Value

/-!
# Computations and their places

If one of the operands of a computation is a decimal, the result is worked out as a decimal and then
brought into normal form (`Computation.eq_normalize`). How far from the point the digits of the
result are is known from the operands: no computation adds more than a hundred places to the places
of its operands taken together, neither before nor after normal form (`Computation.within`). So a
computation fits if its operands have so many places to spare (`Computation.fits_of_within`).
-/

namespace SmallScheme.Number

/-- All digits of the number are within so many places of the point. -/
def Within (places : ℕ) (n : Number) : Prop :=
  n.toDecimal.Within places

theorem Within.small {places : ℕ} {n : Number} (h : n.Within places) : |n.value| < 10 ^ places := by
  rw [← value_toDecimal]
  exact Decimal.Within.small h

theorem Within.natAbs_scale_le {places : ℕ} {n : Number} (h : n.Within places) :
    n.toDecimal.scale.natAbs ≤ places :=
  Decimal.Within.natAbs_scale_le h

theorem Within.mono {m n : ℕ} {a : Number} (h : a.Within m) (hle : m ≤ n) : a.Within n :=
  Decimal.Within.mono h hle

theorem within_integer {k : ℤ} {places : ℕ} (h : |(integer k).value| < 10 ^ places) :
    (integer k).Within places where
  zero _ := rfl
  fine := Int.natCast_nonneg places
  small := by rwa [value_toDecimal]

theorem isZero_iff (n : Number) : n.isZero = true ↔ n.value = 0 := by
  cases n with
  | integer n => simp [isZero]
  | decimal d => simp [isZero, Decimal.value_eq_zero_iff]

theorem digits_toDecimal_ne_zero {n : Number} (h : n.value ≠ 0) : n.toDecimal.digits ≠ 0 := by
  rw [Ne, ← Decimal.value_eq_zero_iff, value_toDecimal]
  exact h

namespace Computation

variable {c : Computation} {n q : Number} {d : Decimal} {a b : Number}

theorem result?_divide_eq_none_iff : (divide a b).result? = none ↔ b.value = 0 := by
  rw [result?_eq_none_iff, ← isZero_iff]
  constructor
  · rintro ⟨a', b', heq, hzero⟩
    cases heq
    exact hzero
  · exact fun hzero => ⟨a, b, rfl, hzero⟩

/-- A quotient is an integer if it is one of integers, and else that of the decimals. -/
theorem divide_cases (h : (divide a b).result? = some q) :
    (∃ m n, a = .integer m ∧ b = .integer n ∧ q = .integer (m.tdiv n)) ∨
      ((a.isInteger && b.isInteger) = false ∧
        q = .decimal (a.toDecimal.quotient b.toDecimal)) := by
  unfold result? divide? at h
  dsimp only at h
  split at h
  · cases h
  · cases a <;> cases b <;> cases h
    · exact .inl ⟨_, _, rfl, rfl, rfl⟩
    all_goals exact .inr ⟨rfl, rfl⟩

/-- A result that is a decimal is the normal form of what is worked out. -/
theorem eq_normalize (h : c.result? = some (.decimal d)) : d = c.unreduced.normalize := by
  cases c with
  | negate a =>
    cases a with
    | integer m => cases h
    | decimal a =>
      cases h
      rfl
  | add a b | subtract a b | multiply a b =>
    rcases a with m | a <;> rcases b with n | b <;> cases h
    all_goals rfl
  | divide a b =>
    rcases divide_cases h with ⟨m, n, -, -, hinteger⟩ | ⟨-, hquotient⟩
    · cases hinteger
    · cases hquotient
      rfl

/-- Results are in normal form. -/
theorem isNormal_of_result? (h : c.result? = some n) : n.IsNormal := by
  cases n with
  | integer k => trivial
  | decimal d =>
    rw [eq_normalize h]
    exact Decimal.isNormal_normalize _

theorem mem_decimals_iff : d ∈ c.decimals ↔
    ∃ e, c.result? = some (.decimal e) ∧ (d = c.unreduced ∨ d = c.unreduced.normalize) := by
  unfold decimals
  split
  · next e he =>
    rw [← eq_normalize he]
    simp [he]
  · next hnone => simpa using fun e he => absurd he (hnone e)

/-! ## Places -/

section

variable {m n : ℕ} (ha : a.Within m) (hb : b.Within n)
include ha hb

theorem abs_value_add_lt : |a.value| + |b.value| < 10 ^ (m + n + 1) := by
  have hm : (10 : ℚ) ^ m ≤ 10 ^ (m + n) := pow_le_pow_right₀ (by norm_num) (Nat.le_add_right m n)
  have hn : (10 : ℚ) ^ n ≤ 10 ^ (m + n) := pow_le_pow_right₀ (by norm_num) (Nat.le_add_left n m)
  have hsmall := ha.small
  have hsmall' := hb.small
  rw [pow_succ]
  linarith [pow_pos (show (0 : ℚ) < 10 by norm_num) (m + n)]

theorem abs_value_mul_lt : |a.value * b.value| < 10 ^ (m + n) := by
  rw [abs_mul, pow_add]
  exact mul_lt_mul'' ha.small hb.small (abs_nonneg _) (abs_nonneg _)

theorem abs_value_divide_lt (h : (divide a b).result? = some q) :
    |q.value| < 10 ^ (m + n + 1) := by
  have hne : b.value ≠ 0 := by
    rw [Ne, ← result?_divide_eq_none_iff (a := a), h]
    exact Option.some_ne_none q
  rcases divide_cases h with ⟨k, l, rfl, rfl, rfl⟩ | ⟨-, rfl⟩
  · have hle : |((k.tdiv l : ℤ) : ℚ)| ≤ |(k : ℚ)| := by
      rw [← Int.cast_abs, ← Int.cast_abs, Int.abs_eq_natAbs, Int.abs_eq_natAbs]
      exact_mod_cast Int.natAbs_tdiv_le_natAbs k l
    calc |(integer (k.tdiv l)).value| ≤ |(integer k).value| := hle
      _ < 10 ^ m := ha.small
      _ ≤ 10 ^ (m + n + 1) := pow_le_pow_right₀ (by norm_num) (by omega)
  · exact Decimal.abs_value_quotient_lt ha hb (digits_toDecimal_ne_zero hne)

end

section

variable {places : Number → ℕ} {bound : ℕ} (hoperands : ∀ a ∈ c.operands, a.Within (places a))
variable (hbound : (c.operands.map (places · + 100)).sum ≤ bound + 100)

theorem places_pair (hoperands : ∀ x ∈ [a, b], x.Within (places x))
    (hbound : ([a, b].map (places · + 100)).sum ≤ bound + 100) :
    a.Within (places a) ∧ b.Within (places b) ∧ places a + places b + 100 ≤ bound := by
  simp only [List.forall_mem_cons, List.map_cons, List.map_nil, List.sum_cons, List.sum_nil]
    at hoperands hbound
  exact ⟨hoperands.1, hoperands.2.1, by omega⟩

theorem places_single (hoperands : ∀ x ∈ [a], x.Within (places x))
    (hbound : ([a].map (places · + 100)).sum ≤ bound + 100) : a.Within bound := by
  simp only [List.forall_mem_singleton, List.map_cons, List.map_nil, List.sum_singleton]
    at hoperands hbound
  exact hoperands.mono (by omega)

include hoperands hbound

theorem natAbs_scale_unreduced_le : c.unreduced.scale.natAbs ≤ bound := by
  cases c with
  | negate a => exact (places_single hoperands hbound).natAbs_scale_le
  | add a b =>
    obtain ⟨ha, hb, hplaces⟩ := places_pair hoperands hbound
    exact (Decimal.natAbs_scale_alignedSum_le ha hb).trans (by omega)
  | subtract a b =>
    obtain ⟨ha, hb, hplaces⟩ := places_pair hoperands hbound
    exact (Decimal.natAbs_scale_alignedSum_le ha (Decimal.Within.neg hb)).trans (by omega)
  | multiply a b =>
    obtain ⟨ha, hb, hplaces⟩ := places_pair hoperands hbound
    exact (Decimal.natAbs_scale_plainProduct_le ha hb).trans (by omega)
  | divide a b =>
    obtain ⟨ha, hb, hplaces⟩ := places_pair hoperands hbound
    exact (Decimal.natAbs_scale_roundedQuotient_le ha hb).trans hplaces

theorem abs_value_lt (h : c.result? = some n) : |n.value| < 10 ^ bound := by
  have hpow : ∀ {k : ℕ}, k ≤ bound → (10 : ℚ) ^ k ≤ 10 ^ bound :=
    fun hk => pow_le_pow_right₀ (by norm_num) hk
  cases c with
  | negate a =>
    cases h
    rw [value_negate, abs_neg]
    exact (places_single hoperands hbound).small
  | add a b =>
    obtain ⟨ha, hb, hplaces⟩ := places_pair hoperands hbound
    cases h
    rw [(computes_add a b).value]
    exact (abs_add_le _ _).trans_lt ((abs_value_add_lt ha hb).trans_le (hpow (by omega)))
  | subtract a b =>
    obtain ⟨ha, hb, hplaces⟩ := places_pair hoperands hbound
    cases h
    rw [(computes_subtract a b).value]
    exact (abs_sub _ _).trans_lt ((abs_value_add_lt ha hb).trans_le (hpow (by omega)))
  | multiply a b =>
    obtain ⟨ha, hb, hplaces⟩ := places_pair hoperands hbound
    cases h
    rw [(computes_multiply a b).value]
    exact (abs_value_mul_lt ha hb).trans_le (hpow (by omega))
  | divide a b =>
    obtain ⟨ha, hb, hplaces⟩ := places_pair hoperands hbound
    exact (abs_value_divide_lt ha hb h).trans_le (hpow (by omega))

/-- **No computation adds more than a hundred places** to those of its operands: the scales of the
decimals that it makes are no larger, and its result is within so many places. -/
theorem within : (∀ d ∈ c.decimals, d.scale.natAbs ≤ bound) ∧
    ∀ n, c.result? = some n → n.Within bound := by
  have hscale := natAbs_scale_unreduced_le hoperands hbound
  have hvalue : ∀ n, c.result? = some n → |n.value| < 10 ^ bound :=
    fun n hn => abs_value_lt hoperands hbound hn
  have hwithin : ∀ n, c.result? = some n → n.Within bound := by
    intro n hn
    cases n with
    | integer k => exact within_integer (hvalue _ hn)
    | decimal d =>
      obtain rfl := eq_normalize hn
      have hsmall : |c.unreduced.value| < 10 ^ bound := by
        rw [← Decimal.value_normalize, ← value_decimal]
        exact hvalue _ hn
      have hnormal : c.unreduced.normalize.Within bound := .normalize (by omega) hsmall
      exact hnormal
  refine ⟨fun d hd => ?_, hwithin⟩
  obtain ⟨e, he, rfl | rfl⟩ := mem_decimals_iff.mp hd
  · exact hscale
  · rw [← eq_normalize he]
    exact (hwithin _ he).natAbs_scale_le

theorem natAbs_distance_le : c.distance.natAbs ≤ bound := by
  cases c with
  | negate a | multiply a b => exact Nat.zero_le _
  | add a b | subtract a b | divide a b =>
    obtain ⟨ha, hb, hplaces⟩ := places_pair hoperands hbound
    have hm := ha.natAbs_scale_le
    have hn := hb.natAbs_scale_le
    simp only [distance]
    split
    · exact Nat.zero_le _
    · omega

/-- **A computation fits if its operands have a hundred places to spare.** -/
theorem fits_of_within (hroom : bound < 2 ^ 63) : c.Fits := by
  have hdistance := natAbs_distance_le hoperands hbound
  obtain ⟨hscales, -⟩ := within hoperands hbound
  refine ⟨by unfold Decimal.IsScale; omega, fun d hd => ?_⟩
  have hscale := hscales d hd
  unfold Decimal.IsScale
  omega

end

/-! ## Computations on two numbers -/

/-- Of two operands each may have places of its own, even if they are one number. -/
theorem exists_places {m n : ℕ} (ha : a.Within m) (hb : b.Within n) :
    ∃ places : Number → ℕ, (∀ x ∈ [a, b], x.Within (places x)) ∧
      ([a, b].map (places · + 100)).sum ≤ m + n + 100 + 100 := by
  by_cases h : a = b
  · subst h
    have hmin : a.Within (min m n) := by
      rcases min_choice m n with hm | hn
      · rwa [hm]
      · rwa [hn]
    refine ⟨fun _ => min m n, by simpa using hmin, ?_⟩
    simp only [List.map_cons, List.map_nil, List.sum_cons, List.sum_nil]
    omega
  · refine ⟨fun x => if x = a then m else n, ?_, ?_⟩
    · simpa [Ne.symm h] using ⟨ha, hb⟩
    · simp only [List.map_cons, List.map_nil, List.sum_cons, List.sum_nil, if_neg (Ne.symm h)]
      simp only [if_true]
      omega

section

variable {m n : ℕ} (hc : c.operands = [a, b]) (ha : a.Within m) (hb : b.Within n)
include hc ha hb

theorem within_of_operands (h : c.result? = some q) : q.Within (m + n + 100) := by
  obtain ⟨places, hplaces, hsum⟩ := exists_places ha hb
  rw [← hc] at hplaces hsum
  exact (within hplaces hsum).2 q h

theorem fits_of_operands (hroom : m + n + 100 < 2 ^ 63) : c.Fits := by
  obtain ⟨places, hplaces, hsum⟩ := exists_places ha hb
  rw [← hc] at hplaces hsum
  exact fits_of_within hplaces hsum hroom

end

end Computation

end SmallScheme.Number
