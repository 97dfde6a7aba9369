import Mathlib.Algebra.Ring.Int.Defs
import Mathlib.Data.List.TakeWhile
import Mathlib.Data.Option.Basic
import SmallScheme.Number.Literal

/-!
# The grammar of number literals

`Literal text d` says that a text spells the decimal `d`, digit for digit: zeros at the end of a
fraction count as places, and an exponent moves the point. The grammar is said without a parser, and
`literal_iff_integer?` and `literal_iff_mantissa` are the bridges to the parser's cuts. What the
parser adds is that it normalizes the decimal and that it turns down some scales
(`ofText?_eq_some_iff`).

The digits of a decimal are those on both sides of the point taken together, and only the first of
them must not be a separator: `1._5` is a literal and `._5` is none. A sign stands in front of these
digits, so it may also stand behind a point that comes first. It spells no digit there either, but
the parser counts it as a place (`taken`): it reads `.-5` as `-0.05`.
-/

namespace SmallScheme.Number

/-! ## Phrases -/

/-- Digits and separators, a digit first. -/
structure Digits (text : List Char) : Prop where
  begins : ∃ c, text.head? = some c ∧ c.isDigit = true
  all : ∀ c ∈ text, c.isDigit = true ∨ c = '_'

/-- The number that digits spell, separators left out. -/
def spelled (text : List Char) : ℕ :=
  Nat.ofDigitChars 10 (text.filter (· ≠ '_')) 0

/-- How many digits there are, separators left out. -/
def places (text : List Char) : ℕ :=
  (text.filter (· ≠ '_')).length

inductive Sign : List Char → ℤ → Prop where
  | none : Sign [] 1
  | plus : Sign ['+'] 1
  | minus : Sign ['-'] (-1)

/-- Digits under at most one sign. -/
inductive Signed : List Char → ℤ → Prop where
  | intro {sign digits : List Char} {s : ℤ} (hsign : Sign sign s) (hdigits : Digits digits) :
      Signed (sign ++ digits) (s * spelled digits)

/-- A power of ten, without separators, or nothing. -/
inductive Exponent : List Char → ℤ → Prop where
  | none : Exponent [] 0
  | power {mark : Char} {text : List Char} {e : ℤ} (hmark : mark = 'e' ∨ mark = 'E')
      (htext : Signed text e) (hplain : '_' ∉ text) : Exponent (mark :: text) e

/-- A text spells a decimal. Without a point it spells one of scale zero. -/
inductive Literal : List Char → Decimal → Prop where
  | integer {text : List Char} {n : ℤ} (h : Signed text n) : Literal text ⟨n, 0⟩
  | decimal {sign whole fraction exponent : List Char} {s e : ℤ} (hsign : Sign sign s)
      (hdigits : Digits (whole ++ fraction)) (hexponent : Exponent exponent e) :
      Literal (sign ++ whole ++ '.' :: (fraction ++ exponent))
        ⟨s * spelled (whole ++ fraction), places fraction - e⟩
  | pointFirst {sign fraction exponent : List Char} {s e : ℤ} (hsign : Sign sign s)
      (hne : sign ≠ []) (hdigits : Digits fraction) (hexponent : Exponent exponent e) :
      Literal ('.' :: (sign ++ fraction ++ exponent)) ⟨s * spelled fraction, places fraction - e⟩

/-- A point comes first and a sign behind it. -/
def MisplacesSign (text : List Char) : Prop :=
  ['.', '-'] <+: text ∨ ['.', '+'] <+: text

instance (text : List Char) : Decidable (MisplacesSign text) :=
  inferInstanceAs (Decidable (_ ∨ _))

/-- What the parser takes a text for that spells a decimal: a misplaced sign takes up a place. -/
def taken (text : List Char) (d : Decimal) : Decimal :=
  if MisplacesSign text then ⟨d.digits, d.scale + 1⟩ else d

variable {text whole fraction : List Char}

theorem taken_of_misplacesSign (h : MisplacesSign text) {d : Decimal} :
    taken text d = ⟨d.digits, d.scale + 1⟩ :=
  if_pos h

theorem taken_of_not_misplacesSign (h : ¬MisplacesSign text) {d : Decimal} : taken text d = d :=
  if_neg h

/-! ## Which characters stand in phrases -/

theorem ne_of_isDigit {c : Char} (h : c.isDigit = true) :
    c ≠ '_' ∧ c ≠ '.' ∧ isExponentMark c = false := by
  refine ⟨?_, ?_, Bool.eq_false_iff.mpr fun hmark => ?_⟩
  · rintro rfl
    revert h
    decide
  · rintro rfl
    revert h
    decide
  · simp only [isExponentMark, Bool.or_eq_true, beq_iff_eq] at hmark
    rcases hmark with rfl | rfl <;> revert h <;> decide

/-- What may stand in a mantissa around its point. -/
def IsMantissaChar (c : Char) : Prop :=
  c ≠ '.' ∧ isExponentMark c = false

theorem Digits.isMantissaChar (h : Digits text) : ∀ c ∈ text, IsMantissaChar c := by
  intro c hc
  rcases h.all c hc with hdigit | rfl
  · exact (ne_of_isDigit hdigit).2
  · exact ⟨by decide, by decide⟩

theorem Sign.isMantissaChar {sign : List Char} {s : ℤ} (h : Sign sign s) :
    ∀ c ∈ sign, IsMantissaChar c := by
  intro c hc
  cases h with
  | none => cases hc
  | plus | minus =>
      obtain rfl := List.mem_singleton.mp hc
      exact ⟨by decide, by decide⟩

theorem Signed.isMantissaChar {n : ℤ} (h : Signed text n) : ∀ c ∈ text, IsMantissaChar c := by
  obtain ⟨hsign, hdigits⟩ := h
  intro c hc
  exact (List.mem_append.mp hc).elim (hsign.isMantissaChar c) (hdigits.isMantissaChar c)

theorem Exponent.point_notMem {e : ℤ} (h : Exponent text e) : '.' ∉ text := by
  cases h with
  | none => exact List.not_mem_nil
  | power hmark htext hplain =>
      intro hpoint
      rcases List.mem_cons.mp hpoint with rfl | hpoint
      · simp at hmark
      · exact (htext.isMantissaChar _ hpoint).1 rfl

/-! ## Integers -/

theorem natural?_eq_some_iff {n : ℕ} : natural? text = some n ↔ Digits text ∧ n = spelled text := by
  have hdigits : Digits text ↔
      text.head?.any (· ≠ '_') = true ∧ text.all (fun c => c.isDigit || c == '_') = true := by
    simp only [List.all_eq_true, Bool.or_eq_true, beq_iff_eq]
    constructor
    · rintro ⟨⟨c, hc, hdigit⟩, hall⟩
      exact ⟨by simp [hc, (ne_of_isDigit hdigit).1], hall⟩
    · rintro ⟨hhead, hall⟩
      cases text with
      | nil => simp at hhead
      | cons c text =>
          have hdigit := (hall c (List.mem_cons_self ..)).resolve_right (by simpa using hhead)
          exact ⟨⟨c, rfl, hdigit⟩, hall⟩
  rw [hdigits, natural?]
  split
  · rename_i h
    rw [Option.some.injEq, eq_comm]
    exact ⟨fun hn => ⟨h, hn⟩, fun hn => hn.2⟩
  · rename_i h
    exact ⟨nofun, fun hn => absurd hn.1 h⟩

theorem integer?_eq_some_iff {n : ℤ} : integer? text = some n ↔ Signed text n := by
  have hread : ∀ {digits k} (f : ℕ → ℤ), ((natural? digits).bind fun n => some (f n)) = some k →
      Digits digits ∧ k = f (spelled digits) := by
    intro digits k f h
    obtain ⟨n, hn, hk⟩ := Option.bind_eq_some_iff.mp h
    obtain ⟨hdigits, rfl⟩ := natural?_eq_some_iff.mp hn
    exact ⟨hdigits, (Option.some.inj hk).symm⟩
  constructor
  · intro h
    fun_cases integer? text with
    | case1 rest =>
        obtain ⟨hdigits, rfl⟩ := hread (fun n => -(n : ℤ)) (by simpa [integer?] using h)
        simpa using Signed.intro .minus hdigits
    | case2 rest =>
        obtain ⟨hdigits, rfl⟩ := hread (fun n => (n : ℤ)) (by simpa [integer?] using h)
        simpa using Signed.intro .plus hdigits
    | case3 =>
        rename_i hminus hplus
        rw [integer?.eq_3 _ hminus hplus] at h
        obtain ⟨hdigits, rfl⟩ := hread (fun n => (n : ℤ)) (by simpa using h)
        simpa using Signed.intro .none hdigits
  · rintro @⟨sign, digits, s, hsign, hdigits⟩
    have hnat := natural?_eq_some_iff.mpr ⟨hdigits, rfl⟩
    cases hsign with
    | plus | minus => simp [integer?, hnat]
    | none =>
        obtain ⟨c, hc, hdigit⟩ := hdigits.begins
        have hhead : ∀ sign : Char, sign.isDigit = false →
            ∀ rest, digits = sign :: rest → False := by
          rintro sign hsign rest rfl
          cases hc
          simp [hsign] at hdigit
        rw [List.nil_append, integer?.eq_3 _ (hhead '-' (by decide)) (hhead '+' (by decide)), hnat]
        simp

/-- Without a point a text spells what the parser reads as an integer. -/
theorem literal_iff_integer? {d : Decimal} (h : '.' ∉ text) :
    Literal text d ↔ ∃ n, integer? text = some n ∧ d = ⟨n, 0⟩ := by
  simp only [integer?_eq_some_iff]
  constructor
  · intro hlit
    cases hlit with
    | integer hsigned => exact ⟨_, hsigned, rfl⟩
    | decimal => simp at h
    | pointFirst => simp at h
  · rintro ⟨n, hsigned, rfl⟩
    exact .integer hsigned

/-! ## Decimals -/

theorem isExponentMark_iff {c : Char} : isExponentMark c = true ↔ c = 'e' ∨ c = 'E' := by
  simp [isExponentMark]

theorem exponent?_eq_some_iff {e : ℤ} :
    exponent? text = some e ↔ Signed text e ∧ '_' ∉ text := by
  unfold exponent?
  split
  · rename_i h
    simp [h]
  · rename_i h
    simp [h, integer?_eq_some_iff]

theorem Exponent.isExponentMark_of_head? {exponent : List Char} {e : ℤ} (h : Exponent exponent e) :
    ∀ c, exponent.head? = some c → isExponentMark c = true := by
  cases h with
  | none => simp
  | power hmark => simpa [isExponentMark_iff] using hmark

/-- A text is cut where the first character stands that fails a test. -/
theorem cut_iff {p : Char → Bool} {t a b : List Char} :
    t.takeWhile p = a ∧ t.dropWhile p = b ↔
      t = a ++ b ∧ (∀ c ∈ a, p c = true) ∧ ∀ c, b.head? = some c → p c = false := by
  constructor
  · rintro ⟨rfl, rfl⟩
    refine ⟨List.takeWhile_append_dropWhile.symm, fun c hc => List.mem_takeWhile_imp hc, ?_⟩
    intro c hc
    have hhead := List.head?_dropWhile_not p t
    rwa [hc] at hhead
  · rintro ⟨rfl, hfront, hback⟩
    rw [List.takeWhile_append_of_pos hfront, List.dropWhile_append_of_pos hfront]
    cases b with
    | nil => simp
    | cons c b => simp [hback c rfl]

theorem mantissa_eq_some_iff_exponent {m : Mantissa} :
    Mantissa.ofText? text = some m ↔
      ∃ base exponent, text = base ++ exponent ∧ (∀ c ∈ base, isExponentMark c = false)
        ∧ Exponent exponent m.exponent ∧ m.whole = base.takeWhile (· ≠ '.')
        ∧ m.fraction = (base.dropWhile (· ≠ '.')).drop 1 := by
  constructor
  · intro h
    obtain ⟨htext, hbase, htail⟩ := (cut_iff (t := text) (p := (!isExponentMark ·))).mp ⟨rfl, rfl⟩
    unfold Mantissa.ofText? at h
    refine ⟨_, _, htext, by simpa using hbase, ?_⟩
    split at h
    · rename_i htail'
      obtain rfl := Option.some.inj h
      rw [htail']
      exact ⟨.none, rfl, rfl⟩
    · rename_i mark exponent htail'
      obtain ⟨e, he, rfl⟩ := Option.map_eq_some_iff.mp h
      obtain ⟨hsigned, hplain⟩ := exponent?_eq_some_iff.mp he
      rw [htail'] at htail ⊢
      have hmark : isExponentMark mark = true := by simpa using htail mark rfl
      exact ⟨.power (isExponentMark_iff.mp hmark) hsigned hplain, rfl, rfl⟩
  · obtain ⟨whole, fraction, e⟩ := m
    rintro ⟨base, exponent, rfl, hbase, hexponent, rfl, rfl⟩
    obtain ⟨htake, hdrop⟩ := (cut_iff (p := (!isExponentMark ·)) (a := base) (b := exponent)).mpr
      ⟨rfl, by simpa using hbase, by simpa using hexponent.isExponentMark_of_head?⟩
    simp only [Mantissa.ofText?, htake, hdrop]
    generalize hm : e = e' at hexponent
    cases hexponent with
    | none => subst hm; rfl
    | power hmark hsigned hplain =>
        subst hm
        simp [exponent?_eq_some_iff.mpr ⟨hsigned, hplain⟩]

/-- The parser cuts a text with a point at its first point and before its exponent. -/
theorem mantissa_eq_some_iff (h : '.' ∈ text) {m : Mantissa} :
    Mantissa.ofText? text = some m ↔
      ∃ exponent, text = m.whole ++ '.' :: (m.fraction ++ exponent) ∧ Exponent exponent m.exponent
        ∧ (∀ c ∈ m.whole, IsMantissaChar c) ∧ ∀ c ∈ m.fraction, isExponentMark c = false := by
  rw [mantissa_eq_some_iff_exponent]
  constructor
  · rintro ⟨base, exponent, rfl, hbase, hexponent, hwhole, hfraction⟩
    have hpoint : '.' ∈ base :=
      (List.mem_append.mp h).resolve_right hexponent.point_notMem
    obtain ⟨hcut, hfront, hback⟩ := (cut_iff (t := base) (p := (· ≠ '.'))).mp ⟨rfl, rfl⟩
    rw [← hwhole] at hcut hfront
    cases hrest : base.dropWhile (· ≠ '.') with
    | nil =>
        rw [hrest, List.append_nil] at hcut
        simpa using hfront '.' (hcut ▸ hpoint)
    | cons c rest =>
        rw [hrest] at hcut hback
        rw [hrest, List.drop_one, List.tail_cons] at hfraction
        obtain rfl : c = '.' := by simpa using hback c rfl
        subst hfraction
        subst hcut
        refine ⟨exponent, by simp, hexponent, fun c hc => ⟨by simpa using hfront c hc, ?_⟩, ?_⟩
        · exact hbase c (List.mem_append_left _ hc)
        · exact fun c hc => hbase c (List.mem_append_right _ (List.mem_cons_of_mem _ hc))
  · rintro ⟨exponent, rfl, hexponent, hwhole, hfraction⟩
    have hpoint : isExponentMark '.' = false := by decide
    obtain ⟨htake, hdrop⟩ := (cut_iff (p := (· ≠ '.')) (a := m.whole) (b := '.' :: m.fraction)).mpr
      ⟨rfl, fun c hc => by simpa using (hwhole c hc).1, by simp⟩
    refine ⟨m.whole ++ '.' :: m.fraction, exponent, by simp, fun c hc => ?_, hexponent,
      htake.symm, by rw [hdrop]; rfl⟩
    rcases List.mem_append.mp hc with hc | hc
    · exact (hwhole c hc).2
    · exact (List.mem_cons.mp hc).elim (fun h => h ▸ hpoint) (hfraction c)

theorem Mantissa.scale_eq (m : Mantissa) : m.scale = places m.fraction - m.exponent := rfl

theorem Sign.places_eq {sign : List Char} {s : ℤ} (h : Sign sign s) (hne : sign ≠ []) :
    (places (sign ++ text) : ℤ) = places text + 1 := by
  cases h with
  | none => exact absurd rfl hne
  | plus | minus => simp [places]

theorem Sign.front_eq_nil {front back : List Char} {c : Char} {s : ℤ}
    (h : Sign (front ++ c :: back) s) : front = [] := by
  generalize hsign : front ++ c :: back = sign at h
  cases h with
  | none => simp at hsign
  | plus | minus => exact (List.append_eq_singleton_iff.mp hsign).elim (·.1) (by simp)

/-- A point that comes first with a sign behind it has no digits on either side. -/
theorem not_misplacesSign {sign : List Char} {s : ℤ} (hsign : Sign sign s)
    (hdigits : Digits (whole ++ fraction)) (exponent : List Char) :
    ¬MisplacesSign (sign ++ whole ++ '.' :: (fraction ++ exponent)) := by
  obtain ⟨c, hc, hdigit⟩ := hdigits.begins
  have hpoint : c ≠ '.' := (ne_of_isDigit hdigit).2.1
  have hminus : c ≠ '-' := by rintro rfl; revert hdigit; decide
  have hplus : c ≠ '+' := by rintro rfl; revert hdigit; decide
  unfold MisplacesSign
  cases hsign with
  | plus | minus => simp
  | none =>
      cases whole with
      | cons d whole =>
          obtain rfl : d = c := by simpa using hc
          simp [hpoint.symm]
      | nil =>
          cases fraction with
          | nil => simp at hc
          | cons d fraction =>
              obtain rfl : d = c := by simpa using hc
              simp [hminus.symm, hplus.symm]

theorem Sign.misplacesSign {sign : List Char} {s : ℤ} (h : Sign sign s) (hne : sign ≠ [])
    (behind : List Char) : MisplacesSign ('.' :: (sign ++ behind)) := by
  cases h with
  | none => exact absurd rfl hne
  | plus => exact .inr ⟨behind, rfl⟩
  | minus => exact .inl ⟨behind, rfl⟩

theorem taken_injective (text : List Char) : Function.Injective (taken text) := by
  rintro ⟨digits, scale⟩ ⟨digits', scale'⟩ h
  unfold taken at h
  split at h
  · simp only [Decimal.mk.injEq] at h ⊢
    omega
  · exact h

theorem exists_taken (text : List Char) (d : Decimal) : ∃ e, taken text e = d := by
  unfold taken
  split
  · exact ⟨⟨d.digits, d.scale - 1⟩, by simp⟩
  · exact ⟨d, rfl⟩

/-- With a point a text spells what the parser takes it for, which is what it reads around the
point. -/
theorem literal_iff_mantissa {d : Decimal} (h : '.' ∈ text) :
    Literal text d ↔ ∃ m n, Mantissa.ofText? text = some m ∧
      integer? (m.whole ++ m.fraction) = some n ∧ taken text d = ⟨n, m.scale⟩ := by
  simp only [integer?_eq_some_iff, mantissa_eq_some_iff h]
  constructor
  · intro hlit
    cases hlit with
    | integer hsigned => exact absurd rfl (hsigned.isMantissaChar _ h).1
    | @decimal sign whole fraction exponent s e hsign hdigits hexponent =>
        refine ⟨⟨sign ++ whole, fraction, e⟩, _, ⟨exponent, rfl, hexponent, fun c hc => ?_, ?_⟩,
          ?_, taken_of_not_misplacesSign (not_misplacesSign hsign hdigits exponent)⟩
        · rcases List.mem_append.mp hc with hc | hc
          · exact hsign.isMantissaChar c hc
          · exact hdigits.isMantissaChar c (List.mem_append_left _ hc)
        · exact fun c hc => (hdigits.isMantissaChar c (List.mem_append_right _ hc)).2
        · rw [List.append_assoc]
          exact .intro hsign hdigits
    | @pointFirst sign fraction exponent s e hsign hne hdigits hexponent =>
        refine ⟨⟨[], sign ++ fraction, e⟩, _, ⟨exponent, rfl, hexponent, by simp, fun c hc => ?_⟩,
          (Signed.intro hsign hdigits :), ?_⟩
        · rcases List.mem_append.mp hc with hc | hc
          · exact (hsign.isMantissaChar c hc).2
          · exact (hdigits.isMantissaChar c hc).2
        · rw [List.append_assoc, taken_of_misplacesSign (hsign.misplacesSign hne _),
            Mantissa.scale_eq, hsign.places_eq hne, sub_add_eq_add_sub]
  · rintro ⟨⟨whole, fraction, e⟩, n, ⟨exponent, rfl, hexponent, -, -⟩, hsigned, htaken⟩
    suffices hlit : ∃ d, Literal _ d ∧ taken _ d = ⟨n, Mantissa.scale ⟨whole, fraction, e⟩⟩ by
      obtain ⟨d', hlit, htaken'⟩ := hlit
      rwa [taken_injective _ (htaken.trans htaken'.symm)]
    generalize hall : whole ++ fraction = all at hsigned
    obtain @⟨sign, digits, s, hsign, hdigits⟩ := hsigned
    -- The sign is in front of the point, or the point is in front of everything.
    obtain ⟨whole', rfl, rfl⟩ | ⟨rest, rfl, rfl⟩ := List.append_eq_append_iff.mp hall.symm
    · have hplace := not_misplacesSign hsign hdigits exponent
      exact ⟨_, .decimal hsign hdigits hexponent, taken_of_not_misplacesSign hplace⟩
    · cases rest with
      | nil =>
          rw [List.append_nil] at hsign
          have hdigits : Digits ([] ++ digits) := hdigits
          have hlit := Literal.decimal hsign hdigits hexponent
          have hplace := not_misplacesSign hsign hdigits exponent
          rw [List.append_nil] at hlit hplace
          exact ⟨_, hlit, taken_of_not_misplacesSign hplace⟩
      | cons c rest =>
          obtain rfl : whole = [] := hsign.front_eq_nil
          rw [List.nil_append] at hsign
          have hlit := Literal.pointFirst hsign (by simp) hdigits hexponent
          have hplace := hsign.misplacesSign (by simp) (digits ++ exponent)
          rw [← List.append_assoc] at hplace
          refine ⟨_, hlit, (taken_of_misplacesSign hplace).trans ?_⟩
          rw [Mantissa.scale_eq, hsign.places_eq (by simp), sub_add_eq_add_sub]

/-- A text spells at most one decimal. -/
theorem Literal.unique {d e : Decimal} (hd : Literal text d) (he : Literal text e) : d = e := by
  by_cases h : '.' ∈ text
  · obtain ⟨m, n, hm, hn, htaken⟩ := (literal_iff_mantissa h).mp hd
    obtain ⟨m', n', hm', hn', htaken'⟩ := (literal_iff_mantissa h).mp he
    obtain rfl := Option.some.inj (hm.symm.trans hm')
    obtain rfl := Option.some.inj (hn.symm.trans hn')
    exact taken_injective text (htaken.trans htaken'.symm)
  · obtain ⟨n, hn, rfl⟩ := (literal_iff_integer? h).mp hd
    obtain ⟨n', hn', rfl⟩ := (literal_iff_integer? h).mp he
    obtain rfl := Option.some.inj (hn.symm.trans hn')
    rfl

/-! ## What is accepted -/

/-- All that a decimal literal has to meet. -/
theorem decimal?_eq_some_iff (h : '.' ∈ text) {d : Decimal} :
    decimal? text = some d ↔ ∃ e, Literal text e ∧ Decimal.IsScale (taken text e).scale
      ∧ d = (taken text e).normalize ∧ d.scale.natAbs ≤ maxScale := by
  simp only [decimal?, Option.bind_eq_bind, Option.bind_eq_some_iff, Option.guard_eq_some',
    Option.pure_def, Option.some.injEq]
  constructor
  · rintro ⟨m, hm, n, hn, -, hspelled, -, hscale, rfl⟩
    obtain ⟨e, he⟩ := exists_taken text ⟨n, m.scale⟩
    refine ⟨e, (literal_iff_mantissa h).mpr ⟨m, n, hm, hn, he⟩, ?_⟩
    rw [he]
    exact ⟨hspelled, rfl, hscale⟩
  · rintro ⟨e, hlit, hspelled, rfl, hscale⟩
    obtain ⟨m, n, hm, hn, he⟩ := (literal_iff_mantissa h).mp hlit
    rw [he] at hspelled hscale ⊢
    exact ⟨m, hm, n, hn, (), hspelled, (), hscale, rfl⟩

/-- The number that a text of a literal is read as, where it is accepted. -/
def ofLiteral (text : List Char) (d : Decimal) : Number :=
  if '.' ∈ text then .decimal (taken text d).normalize else .integer d.digits

theorem ofText?_eq_some_iff {n : Number} :
    ofText? text = some n ↔ ∃ d, Literal text d ∧ n = ofLiteral text d
      ∧ ('.' ∈ text → Decimal.IsScale (taken text d).scale ∧
        (taken text d).normalize.scale.natAbs ≤ maxScale) := by
  unfold ofText? ofLiteral
  split
  · rename_i h
    simp only [Option.map_eq_some_iff, decimal?_eq_some_iff h]
    constructor
    · rintro ⟨_, ⟨d, hd, hspelled, rfl, hscale⟩, rfl⟩
      exact ⟨d, hd, rfl, fun _ => ⟨hspelled, hscale⟩⟩
    · rintro ⟨d, hd, rfl, hscales⟩
      exact ⟨_, ⟨d, hd, (hscales h).1, rfl, (hscales h).2⟩, rfl⟩
  · rename_i h
    simp only [Option.map_eq_some_iff, literal_iff_integer? h]
    constructor
    · rintro ⟨n, hn, rfl⟩
      exact ⟨_, ⟨n, hn, rfl⟩, rfl, fun hpoint => absurd hpoint h⟩
    · rintro ⟨_, ⟨n, hn, rfl⟩, rfl, -⟩
      exact ⟨n, hn, rfl⟩

end SmallScheme.Number
