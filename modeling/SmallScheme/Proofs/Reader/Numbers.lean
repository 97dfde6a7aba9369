import SmallScheme.Proofs.Number.Computation
import SmallScheme.Proofs.Reader.RoundTrip

/-!
# How large the numbers in a text are

The digits of a literal stand in its text, so there are no more of them than the text has
characters. The scale of a decimal that is read is at most 4096 away from zero. So all digits of the
numbers that are read from a text are within 4096 places of the point and as many places more as the
text has characters (`Reader.within_of_readAll`).
-/

namespace SmallScheme

namespace Number

variable {text : List Char} {d : Decimal} {n : Number}

/-! ## Literals -/

theorem toNat_lt_of_isDigit {c : Char} (h : c.isDigit = true) : c.toNat - '0'.toNat < 10 := by
  have hlast : c.toNat ≤ '9'.toNat := (Char.isDigit_iff_toNat.mp h).2
  have hzero : '0'.toNat = 48 := rfl
  have hnine : '9'.toNat = 57 := rfl
  omega

theorem ofDigitChars_lt (h : ∀ c ∈ text, c.isDigit = true) :
    Nat.ofDigitChars 10 text 0 < 10 ^ text.length := by
  induction text with
  | nil => simp
  | cons c rest ih =>
    obtain ⟨hc, hrest⟩ := List.forall_mem_cons.mp h
    have hdigit := toNat_lt_of_isDigit hc
    have hpow := ih hrest
    rw [Nat.ofDigitChars_cons, Nat.ofDigitChars_eq_ofDigitChars_zero, List.length_cons, pow_succ]
    nlinarith

theorem Digits.spelled_lt (h : Digits text) : spelled text < 10 ^ text.length := by
  have hdigits : ∀ c ∈ text.filter (· ≠ '_'), c.isDigit = true := by
    intro c hc
    obtain ⟨hc, hplain⟩ := List.mem_filter.mp hc
    exact (h.all c hc).resolve_right (of_decide_eq_true hplain)
  calc spelled text < 10 ^ (text.filter (· ≠ '_')).length := ofDigitChars_lt hdigits
    _ ≤ 10 ^ text.length := Nat.pow_le_pow_right (by norm_num) (List.length_filter_le ..)

theorem Sign.natAbs_mul {sign : List Char} {s : ℤ} (h : Sign sign s) (n : ℕ) :
    (s * n).natAbs = n := by
  cases h <;> simp

/-- The digits of a literal are among its characters. -/
theorem Literal.natAbs_digits_lt (h : Literal text d) : d.digits.natAbs < 10 ^ text.length := by
  have hpow : ∀ {k : ℕ}, k ≤ text.length → 10 ^ k ≤ 10 ^ text.length :=
    fun hk => Nat.pow_le_pow_right (by norm_num) hk
  cases h with
  | integer h =>
    obtain ⟨hsign, hdigits⟩ := h
    rw [hsign.natAbs_mul]
    exact hdigits.spelled_lt.trans_le (hpow (by simp))
  | decimal hsign hdigits hexponent =>
    rw [hsign.natAbs_mul]
    refine hdigits.spelled_lt.trans_le (hpow ?_)
    simp only [List.length_append, List.length_cons]
    omega
  | pointFirst hsign hne hdigits hexponent =>
    rw [hsign.natAbs_mul]
    refine hdigits.spelled_lt.trans_le (hpow ?_)
    simp only [List.length_append, List.length_cons]
    omega

theorem abs_value_normalize_lt {k m : ℕ} (hdigits : d.digits.natAbs < 10 ^ k)
    (hscale : d.normalize.scale.natAbs ≤ m) : |d.normalize.value| < 10 ^ (k + m) := by
  have hfew : (d.normalize.digits.natAbs : ℚ) < 10 ^ k := by
    exact_mod_cast (Decimal.natAbs_digits_normalize_le d).trans_lt hdigits
  have hzeros : (10 : ℚ) ^ (-d.normalize.scale) ≤ 10 ^ m := by
    rw [← zpow_natCast]
    exact zpow_le_zpow_right₀ (by norm_num) (by omega)
  rw [Decimal.abs_value, pow_add]
  exact mul_lt_mul hfew hzeros (Decimal.ten_zpow_pos _) (by positivity)

theorem digits_taken (text : List Char) (d : Decimal) : (taken text d).digits = d.digits := by
  unfold taken
  split <;> rfl

/-- A literal that is accepted stands for a number within so many places. -/
theorem within_of_ofText? (h : ofText? text = some n) : n.Within (text.length + 4096) := by
  obtain ⟨d, hliteral, rfl, hscales⟩ := ofText?_eq_some_iff.mp h
  have hdigits := hliteral.natAbs_digits_lt
  unfold ofLiteral
  split
  · next hpoint =>
    obtain ⟨-, hscale⟩ := hscales hpoint
    rw [← digits_taken text] at hdigits
    have hnormal : (taken text d).normalize.Within (text.length + 4096) :=
      { zero := Decimal.zero_of_isNormal (Decimal.isNormal_normalize _)
        fine := by
          have hmax : maxScale = 4096 := rfl
          omega
        small := abs_value_normalize_lt hdigits hscale }
    exact hnormal
  · refine within_integer ?_
    calc |(integer d.digits).value| = (d.digits.natAbs : ℚ) := by
          rw [value_integer, Nat.cast_natAbs, Int.cast_abs]
      _ < 10 ^ text.length := by exact_mod_cast hdigits
      _ ≤ 10 ^ (text.length + 4096) := pow_le_pow_right₀ (by norm_num) (Nat.le_add_right ..)

end Number

/-! ## Texts -/

namespace Text

theorem length_trimStart_le (text : List Char) : (trimStart text).length ≤ text.length :=
  List.length_dropWhile_le ..

theorem length_trim_le (text : List Char) : (trim text).length ≤ text.length := by
  have hend : (trimEnd (trimStart text)).length ≤ (trimStart text).length := by
    simpa [trimEnd] using length_trimStart_le (trimStart text).reverse
  exact hend.trans (length_trimStart_le text)

end Text

namespace Reader

variable {config : Config} {text : String} {vs : List Value} {v : Value}

/-- **The numbers that are read from a text are not large for its length.** -/
theorem within_of_readAll (h : readAll config text = .ok vs) :
    ∀ v ∈ vs, v.Numbers (·.Within (text.length + 4096)) := by
  intro v hv n hn
  obtain ⟨literal, hshort, hread⟩ := Grammar.readWithin_of_items (items_of_readAll h) v hv n hn
  have hlength : literal.length ≤ text.length := by
    rw [← String.length_toList]
    exact hshort.trans (Text.length_trim_le text.toList)
  exact (Number.within_of_ofText? hread).mono (Nat.add_le_add_right hlength 4096)

theorem within_of_readOne (h : readOne config text = .ok v) :
    v.Numbers (·.Within (text.length + 4096)) :=
  within_of_readAll (readOne_eq_ok_iff.mp h) v (List.mem_singleton.mpr rfl)

end Reader

end SmallScheme
