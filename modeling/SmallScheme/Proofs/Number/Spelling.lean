import Mathlib.Algebra.Ring.Nat
import SmallScheme.Number.Printer
import SmallScheme.Proofs.Number.Literal

/-!
# Numbers are read back from their texts

The text of a number is a literal of that number (`exists_text?_ofText?`), as long as the number is
in normal form and its scale is one that a literal may have (`IsLiteral`). What the printer writes
is always a literal, whatever the scale (`exists_spells_of_text?`, `literal_integerText`): digits
under a sign, for a decimal with one point among them, which make up the digits of the number with
zeros in front or behind. Normalization takes the zeros behind away again (`strip_mul_pow`).

Conversely a decimal that comes from a literal is in normal form and has a scale that a literal may
have (`isLiteral_of_ofText?`).
-/

namespace SmallScheme

/-! ## Normal form -/

namespace Decimal

/-- Zeros behind digits that do not end in zero are stripped. -/
theorem strip_mul_pow {digits : Int} (h : digits % 10 ≠ 0) (scale : Int) (k : Nat) :
    strip (digits * 10 ^ k) scale = ⟨digits, scale - k⟩ := by
  induction k generalizing scale with
  | zero =>
      rw [strip, if_neg fun h0 => h (by simpa using h0.2)]
      simp
  | succ k ih =>
      have hne : digits ≠ 0 := by rintro rfl; exact h rfl
      have hpow : digits * 10 ^ (k + 1) = digits * 10 ^ k * 10 := by
        rw [Int.pow_succ, Int.mul_assoc]
      have hpos : digits * 10 ^ k ≠ 0 := Int.mul_ne_zero hne (Int.pow_ne_zero (by decide))
      rw [hpow, strip, if_pos ⟨by omega, by omega⟩, Int.mul_ediv_cancel _ (by decide), ih]
      simp only [Decimal.mk.injEq, true_and]
      omega

/-- Zeros behind the digits of a normal decimal do not count. -/
theorem normalize_mul_pow {d : Decimal} (h : d.IsNormal) (k : Nat) :
    normalize ⟨d.digits * 10 ^ k, d.scale + k⟩ = d := by
  obtain ⟨digits, scale⟩ := d
  rcases h with ⟨h0, hs⟩ | h10
  · simp only at h0 hs
    simp [normalize, h0, hs]
  · simp only at h10
    have hne : digits * 10 ^ k ≠ 0 :=
      Int.mul_ne_zero (by rintro rfl; exact h10 rfl) (Int.pow_ne_zero (by decide))
    simp only [normalize, if_neg hne]
    rw [strip_mul_pow h10]
    simp

end Decimal

namespace Number

/-! ## Integers -/

section

variable {ds : List Char} (hds : ∀ c ∈ ds, c.isDigit = true)
include hds

theorem filter_of_isDigit : ds.filter (· ≠ '_') = ds :=
  List.filter_eq_self.mpr fun c hc => by simpa using (ne_of_isDigit (hds c hc)).1

theorem spelled_of_isDigit : spelled ds = Nat.ofDigitChars 10 ds 0 := by
  rw [spelled, filter_of_isDigit hds]

theorem places_of_isDigit : places ds = ds.length := by
  rw [places, filter_of_isDigit hds]

theorem digits_of_isDigit (hne : ds ≠ []) : Digits ds where
  begins := ⟨ds.head hne, List.head?_eq_some_head hne, hds _ (List.head_mem hne)⟩
  all c hc := .inl (hds c hc)

end

theorem isDigit_of_mem_repr {n : Nat} : ∀ c ∈ n.repr.toList, c.isDigit = true := by
  intro c hc
  rw [Nat.toList_repr] at hc
  exact Nat.isDigit_of_mem_toDigits (by decide) (by decide) hc

theorem toList_repr_ne_nil {n : Nat} : n.repr.toList ≠ [] := by
  rw [Nat.toList_repr]
  exact Nat.toDigits_ne_nil

def signText (n : Int) : List Char :=
  if n < 0 then ['-'] else []

theorem integerText_eq (n : Int) : integerText n = signText n ++ n.natAbs.repr.toList := by
  cases n with
  | ofNat n => simp [integerText, signText]
  | negSucc n => simp [integerText, signText, Int.negSucc_lt_zero]

theorem exists_sign_signText (n : ℤ) : ∃ s, Sign (signText n) s ∧ s * n.natAbs = n := by
  unfold signText
  split
  · exact ⟨-1, .minus, by omega⟩
  · exact ⟨1, .none, by omega⟩

/-- A sign with digits behind it spells the digits under the sign. -/
theorem literal_integerText (n : ℤ) : Literal (integerText n) ⟨n, 0⟩ := by
  obtain ⟨s, hsign, hs⟩ := exists_sign_signText n
  have hdigits := isDigit_of_mem_repr (n := n.natAbs)
  have hspelled : spelled n.natAbs.repr.toList = n.natAbs := by
    rw [spelled_of_isDigit hdigits, Nat.toList_repr, Nat.ofDigitChars_ten_toDigits]
  have hsigned := Signed.intro hsign (digits_of_isDigit hdigits toList_repr_ne_nil)
  rw [hspelled, hs, ← integerText_eq] at hsigned
  exact .integer hsigned

/-! ## Decimals -/

/-- A text that spells a decimal: digits under a sign, with one point among them, which make up the
digits of the decimal with some zeros behind. -/
structure Spells (text : List Char) (d : Decimal) (whole fraction : List Char) (zeros : Nat) :
    Prop where
  text_eq : text = signText d.digits ++ whole ++ '.' :: fraction
  whole_ne : whole ≠ []
  digits : ∀ c ∈ whole ++ fraction, c.isDigit = true
  value : Nat.ofDigitChars 10 (whole ++ fraction) 0 = 10 ^ zeros * d.digits.natAbs
  scale : (fraction.length : Int) = d.scale + zeros
  length_le : fraction.length ≤ max 1 d.scale.natAbs

theorem spells_scaledUp (d : Decimal) (h : d.scale ≤ 0) :
    Spells (Decimal.scaledUp d.digits d.scale.natAbs ++ ['.', '0']) d
      (d.digits.natAbs.repr.toList
        ++ if d.digits = 0 then [] else List.replicate d.scale.natAbs '0')
      ['0'] (d.scale.natAbs + 1) where
  text_eq := by simp [Decimal.scaledUp, integerText_eq]
  whole_ne := by simp
  digits := by
    intro c hc
    simp only [List.mem_append, List.mem_singleton] at hc
    rcases hc with (hc | hc) | rfl
    · exact isDigit_of_mem_repr c hc
    · split at hc
      · cases hc
      · obtain rfl := List.eq_of_mem_replicate hc
        decide
    · decide
  value := by
    have hzero : Nat.ofDigitChars 10 ['0'] = fun n => 10 * n := by
      funext n
      simp [Nat.ofDigitChars_cons]
    rw [Nat.ofDigitChars_append, Nat.ofDigitChars_append, Nat.toList_repr,
      Nat.ofDigitChars_ten_toDigits, hzero]
    split
    · rename_i h0
      simp [h0]
    · rw [Nat.ofDigitChars_replicate_zero, Nat.pow_succ]
      simp [Nat.mul_comm, Nat.mul_left_comm]
  scale := by
    simp only [List.length_singleton]
    omega
  length_le := Nat.le_max_left ..

theorem spells_pointed (d : Decimal) (h : 0 < d.scale) :
    ∃ whole fraction, Spells (signText d.digits
      ++ Decimal.pointed d.digits.natAbs.repr.toList d.scale.natAbs) d whole fraction 0 := by
  generalize hdigits : d.digits.natAbs.repr.toList = ds
  generalize hfilled : List.replicate (d.scale.natAbs + 1 - ds.length) '0' ++ ds = filled
  have hlength : d.scale.natAbs < filled.length := by
    simp only [← hfilled, List.length_append, List.length_replicate]
    omega
  refine ⟨filled.take (filled.length - d.scale.natAbs),
    filled.drop (filled.length - d.scale.natAbs), ?_, ?_, ?_, ?_, ?_, ?_⟩
  · simp [Decimal.pointed, hfilled]
  · intro hnil
    have := congrArg List.length hnil
    simp only [List.length_take, List.length_nil] at this
    omega
  · intro c hc
    rw [List.take_append_drop, ← hfilled] at hc
    rcases List.mem_append.mp hc with hc | hc
    · obtain rfl := List.eq_of_mem_replicate hc
      decide
    · exact isDigit_of_mem_repr c (hdigits ▸ hc)
  · rw [List.take_append_drop, ← hfilled, Nat.ofDigitChars_append,
      Nat.ofDigitChars_replicate_zero, ← hdigits, Nat.toList_repr, Nat.mul_zero,
      Nat.ofDigitChars_ten_toDigits]
    simp
  · rw [List.length_drop]
    omega
  · rw [List.length_drop]
    omega

/-- A decimal that has a text is spelled by it. -/
theorem exists_spells_of_text? {text : List Char} {d : Decimal} (h : d.text? = some text) :
    ∃ whole fraction zeros, Spells text d whole fraction zeros := by
  unfold Decimal.text? at h
  split at h
  · rename_i hs
    split at h
    · obtain rfl := Option.some.inj h
      exact ⟨_, _, _, spells_scaledUp d hs⟩
    · cases h
  · rename_i hs
    obtain rfl := Option.some.inj h
    obtain ⟨whole, fraction, hspells⟩ := spells_pointed d (by omega)
    exact ⟨whole, fraction, 0, hspells⟩

variable {text whole fraction : List Char} {d : Decimal} {zeros : Nat}

theorem Spells.literal (h : Spells text d whole fraction zeros) :
    Literal text ⟨d.digits * 10 ^ zeros, d.scale + zeros⟩ := by
  obtain ⟨s, hsign, hs⟩ := exists_sign_signText d.digits
  have hfraction : places fraction = fraction.length :=
    places_of_isDigit fun c hc => h.digits c (List.mem_append_right _ hc)
  have hvalue : s * (spelled (whole ++ fraction) : ℤ) = d.digits * 10 ^ zeros := by
    rw [spelled_of_isDigit h.digits, h.value, Int.natCast_mul, Int.mul_left_comm, hs, Int.mul_comm,
      Int.natCast_pow]
    rfl
  have hlit := Literal.decimal hsign (digits_of_isDigit h.digits (by simp [h.whole_ne])) .none
  rwa [hvalue, hfraction, h.scale, Int.sub_zero, List.append_nil, ← h.text_eq] at hlit

theorem Spells.taken (h : Spells text d whole fraction zeros) (e : Decimal) :
    taken text e = e := by
  obtain ⟨s, hsign, -⟩ := exists_sign_signText d.digits
  refine taken_of_not_misplacesSign ?_
  have hplace := not_misplacesSign hsign (digits_of_isDigit h.digits (by simp [h.whole_ne])) []
  rwa [List.append_nil, ← h.text_eq] at hplace

/-- What spells a normal decimal stands for that decimal. -/
theorem Spells.ofLiteral (h : Spells text d whole fraction zeros) (hd : d.IsNormal) :
    ofLiteral text ⟨d.digits * 10 ^ zeros, d.scale + zeros⟩ = .decimal d := by
  rw [Number.ofLiteral, if_pos (by simp [h.text_eq]), h.taken, Decimal.normalize_mul_pow hd]

theorem Spells.ofText? (h : Spells text d whole fraction zeros) (hd : d.IsNormal)
    (hscale : d.scale.natAbs ≤ maxScale) : ofText? text = some (.decimal d) := by
  have hspelled : Decimal.IsScale (d.scale + zeros) := by
    have := h.scale
    have := h.length_le
    simp only [Decimal.IsScale, maxScale] at hscale ⊢
    omega
  refine ofText?_eq_some_iff.mpr ⟨_, h.literal, (h.ofLiteral hd).symm, fun _ => ?_⟩
  rw [h.taken, Decimal.normalize_mul_pow hd]
  exact ⟨hspelled, hscale⟩

/-! ## All numbers -/

/-- The numbers that literals can be written for: every integer, and the decimals in normal form
whose scales are not too far from zero. -/
def IsLiteral (n : Number) : Prop :=
  n.IsNormal ∧ ∀ d, n = .decimal d → d.scale.natAbs ≤ maxScale

theorem point_notMem_integerText (n : ℤ) : '.' ∉ integerText n := by
  rw [integerText_eq]
  intro hc
  rcases List.mem_append.mp hc with hc | hc
  · unfold signText at hc
    split at hc <;> simp at hc
  · exact (ne_of_isDigit (isDigit_of_mem_repr _ hc)).2.1 rfl

/-- A number for which literals can be written has a text, and the text is read as the number. -/
theorem exists_text?_ofText? {n : Number} (h : n.IsLiteral) :
    ∃ text, n.text? = some text ∧ ofText? text = some n := by
  obtain ⟨hnormal, hscale⟩ := h
  cases n with
  | integer n =>
      have hpoint := point_notMem_integerText n
      exact ⟨_, rfl, ofText?_eq_some_iff.mpr ⟨_, literal_integerText n,
        by rw [ofLiteral, if_neg hpoint], fun h => absurd h hpoint⟩⟩
  | decimal d =>
      have hmax : maxScale ≤ Decimal.maxZeros := by decide
      obtain ⟨text, htext⟩ : ∃ text, d.text? = some text := by
        unfold Decimal.text?
        rw [if_pos (Nat.le_trans (hscale d rfl) hmax)]
        split <;> exact ⟨_, rfl⟩
      obtain ⟨whole, fraction, zeros, hspells⟩ := exists_spells_of_text? htext
      exact ⟨text, htext, hspells.ofText? hnormal (hscale d rfl)⟩

/-- What is written for a number is a literal that stands for it, whether or not it is accepted. -/
theorem exists_literal_of_text? {n : Number} (hn : n.IsNormal) (h : n.text? = some text) :
    ∃ d, Literal text d ∧ ofLiteral text d = n := by
  cases n with
  | integer n =>
      obtain rfl := Option.some.inj h
      exact ⟨_, literal_integerText n, if_neg (point_notMem_integerText n)⟩
  | decimal d =>
      obtain ⟨whole, fraction, zeros, hspells⟩ := exists_spells_of_text? h
      exact ⟨_, hspells.literal, hspells.ofLiteral hn⟩

/-- Different numbers are written differently. -/
theorem eq_of_text?_eq {m n : Number} (hm : m.IsNormal) (hn : n.IsNormal)
    (htext : m.text? = some text) (htext' : n.text? = some text) : m = n := by
  obtain ⟨d, hd, rfl⟩ := exists_literal_of_text? hm htext
  obtain ⟨e, he, rfl⟩ := exists_literal_of_text? hn htext'
  rw [hd.unique he]

theorem isLiteral_of_ofText? {n : Number} (h : ofText? text = some n) : n.IsLiteral := by
  obtain ⟨d, -, rfl, hscales⟩ := ofText?_eq_some_iff.mp h
  unfold ofLiteral
  split
  · rename_i hpoint
    refine ⟨Decimal.isNormal_normalize _, fun d hd => ?_⟩
    obtain rfl := Number.decimal.inj hd
    exact (hscales hpoint).2
  · exact ⟨trivial, fun d hd => by cases hd⟩

/-- The text of a number begins with a digit under a sign. Behind it stand digits and points. -/
theorem exists_digit_of_text? {n : Number} (ht : n.text? = some text) :
    ∃ sign c rest, text = sign ++ c :: rest ∧ (sign = [] ∨ sign = ['-']) ∧ c.isDigit = true
      ∧ ∀ d ∈ rest, d.isDigit = true ∨ d = '.' := by
  have hsign : ∀ n, signText n = [] ∨ signText n = ['-'] := by
    intro n
    unfold signText
    split <;> simp
  cases n with
  | integer n =>
      obtain rfl := Option.some.inj ht
      have hdigits := isDigit_of_mem_repr (n := n.natAbs)
      rw [integerText_eq]
      cases hrepr : n.natAbs.repr.toList with
      | nil => exact absurd hrepr toList_repr_ne_nil
      | cons c rest =>
          rw [hrepr] at hdigits
          exact ⟨_, c, rest, rfl, hsign n, hdigits c (List.mem_cons_self ..),
            fun d hd => .inl (hdigits d (List.mem_cons_of_mem _ hd))⟩
  | decimal d =>
      obtain ⟨whole, fraction, zeros, hspells⟩ := exists_spells_of_text? ht
      cases whole with
      | nil => exact absurd rfl hspells.whole_ne
      | cons c rest =>
          refine ⟨_, c, rest ++ '.' :: fraction, by rw [hspells.text_eq]; simp, hsign d.digits,
            hspells.digits c (by simp), fun e he => ?_⟩
          have hdigit : ∀ e, e ∈ rest ∨ e ∈ fraction → e.isDigit = true := fun e he =>
            hspells.digits e (by rcases he with he | he <;> simp [he])
          simp only [List.mem_append, List.mem_cons] at he
          rcases he with he | rfl | he
          · exact .inl (hdigit e (.inl he))
          · exact .inr rfl
          · exact .inl (hdigit e (.inr he))

end Number

end SmallScheme
