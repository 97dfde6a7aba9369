import Mathlib.Tactic.Linarith
import Mathlib.Tactic.NormNum
import SmallScheme.Proofs.Number.Spelling
import SmallScheme.Proofs.Number.Value

/-!
# Literals are read exactly

An accepted text spells one decimal (`Literal`), and the number read from it denotes the same
rational, unless its sign is misplaced: behind a leading point the sign takes up a place, and the
number denotes a tenth of what the text spells (`readValue`). Whether the text has a point makes the
kind of the number, and the number is in normal form. So of the many texts that are read as one
rational, all that agree about the point are read as one number (`Reads.eq_iff`), and the printer
picks one among them (`Reads.shown`).
-/

namespace SmallScheme.Number

/-- The rational that a text is read as which spells a decimal: what it spells, or a tenth of that
if the sign stands behind a leading point. -/
def readValue (text : List Char) (d : Decimal) : ℚ :=
  if MisplacesSign text then d.value / 10 else d.value

/-- The number read from a text that spells a decimal. The decimal is the only one that the text
spells, and the number has a text of its own that is read as it. -/
structure Reads (text : List Char) (d : Decimal) (n : Number) : Prop where
  literal : Literal text d
  unique : ∀ e, Literal text e → e = d
  value : n.value = readValue text d
  exact : n.value = d.value ↔ ¬MisplacesSign text ∨ d.digits = 0
  kind : n.isInteger = true ↔ '.' ∉ text
  normal : n.IsNormal
  scale : ∀ e, n = .decimal e → e.scale.natAbs ≤ 4096
  shown : ∃ shown, n.text? = some shown ∧ ofText? shown = some n

variable {t u : List Char} {d e : Decimal} {m n : Number}

/-- One place more makes a tenth. -/
theorem value_taken (t : List Char) (d : Decimal) : (taken t d).value = readValue t d := by
  unfold taken readValue
  split
  · have hpow : (10 : ℚ) ^ (-(d.scale + 1)) = 10 ^ (-d.scale) / 10 := by
      rw [neg_add, zpow_add₀ (by norm_num), zpow_neg_one, div_eq_mul_inv]
    rw [Decimal.value, Decimal.value, hpow, mul_div_assoc]
  · rfl

/-- A tenth of what is spelled is something else, unless that is zero. -/
theorem readValue_eq_value_iff :
    readValue t d = d.value ↔ ¬MisplacesSign t ∨ d.digits = 0 := by
  rw [← Decimal.value_eq_zero_iff]
  unfold readValue
  split
  · next hplace =>
    rw [or_iff_right (not_not_intro hplace)]
    constructor <;> intro h <;> linarith
  · next hplace => exact iff_of_true rfl (.inl hplace)

theorem point_mem_of_misplacesSign (h : MisplacesSign t) : '.' ∈ t := by
  rcases h with h | h <;> exact h.subset (List.mem_cons_self ..)

theorem value_ofLiteral (h : Literal t d) : (ofLiteral t d).value = readValue t d := by
  unfold ofLiteral
  split
  · rw [value_decimal, Decimal.value_normalize, value_taken]
  · next hpoint =>
    obtain ⟨n, -, rfl⟩ := (literal_iff_integer? hpoint).mp h
    rw [readValue, if_neg fun hplace => hpoint (point_mem_of_misplacesSign hplace)]
    simp [Decimal.value]

theorem isInteger_ofLiteral : (ofLiteral t d).isInteger = true ↔ '.' ∉ t := by
  unfold ofLiteral
  split <;> simp [isInteger, *]

theorem exists_reads (h : ofText? t = some n) : ∃ d, Reads t d n := by
  obtain ⟨d, hliteral, hn, -⟩ := ofText?_eq_some_iff.mp h
  have hwritten := isLiteral_of_ofText? h
  have hvalue : n.value = readValue t d := by rw [hn, value_ofLiteral hliteral]
  refine ⟨d, hliteral, fun e he => he.unique hliteral, hvalue, ?_, ?_, hwritten.1, hwritten.2,
    exists_text?_ofText? hwritten⟩
  · rw [hvalue, readValue_eq_value_iff]
  · rw [hn, isInteger_ofLiteral]

/-- Texts that are read as one rational and agree about the point are read alike, and no others
are. -/
theorem Reads.eq_iff (hm : Reads t d m) (hn : Reads u e n) :
    m = n ↔ readValue t d = readValue u e ∧ ('.' ∈ t ↔ '.' ∈ u) := by
  rw [eq_iff_value_eq hm.normal hn.normal, hm.value, hn.value, Bool.eq_iff_iff, hm.kind, hn.kind,
    not_iff_not, and_comm]

theorem Reads.text?_eq_iff (hm : Reads t d m) (hn : Reads u e n) : m.text? = n.text? ↔ m = n := by
  refine ⟨fun htext => ?_, congrArg text?⟩
  obtain ⟨shown, hshown, hread⟩ := hm.shown
  obtain ⟨shown', hshown', hread'⟩ := hn.shown
  obtain rfl : shown = shown' := Option.some.inj (by rw [← hshown, ← hshown', htext])
  exact Option.some.inj (hread.symm.trans hread')

theorem accepted_iff : (∃ n, ofText? t = some n) ↔ ∃ d, Literal t d ∧
    ('.' ∈ t → Decimal.IsScale (taken t d).scale ∧
      (taken t d).normalize.scale.natAbs ≤ 4096) := by
  constructor
  · rintro ⟨n, hn⟩
    obtain ⟨d, hliteral, -, hscales⟩ := ofText?_eq_some_iff.mp hn
    exact ⟨d, hliteral, hscales⟩
  · rintro ⟨d, hliteral, hscales⟩
    exact ⟨ofLiteral t d, ofText?_eq_some_iff.mpr ⟨d, hliteral, rfl, hscales⟩⟩

/-- **Literals are read canonically, and exactly unless their sign is misplaced.** A text is
accepted if it spells a decimal, unless it has a point and the scale is too far from zero. It spells
one decimal only, and is read as a number of the same value, or as one of a tenth of that value if
the sign stands behind a leading point, which makes a difference unless the value is zero. The
number is an integer where the text has no point, and else a decimal in normal form whose scale is
at most 4096 away from zero. It is read back from what is shown for it. Two accepted texts are read
as one number, and are shown alike, if and only if they are read as the same rational and agree on
having a point. -/
theorem literals_read_exactly (t u : List Char) :
    ((∃ n, ofText? t = some n) ↔ ∃ d, Literal t d ∧
      ('.' ∈ t → Decimal.IsScale (taken t d).scale ∧
        (taken t d).normalize.scale.natAbs ≤ 4096)) ∧
    ∀ m n : Number, ofText? t = some m → ofText? u = some n →
      ∃ d e, Reads t d m ∧ Reads u e n ∧
        (m = n ↔ readValue t d = readValue u e ∧ ('.' ∈ t ↔ '.' ∈ u)) ∧
        (m.text? = n.text? ↔ readValue t d = readValue u e ∧ ('.' ∈ t ↔ '.' ∈ u)) := by
  refine ⟨accepted_iff, fun m n hm hn => ?_⟩
  obtain ⟨d, hd⟩ := exists_reads hm
  obtain ⟨e, he⟩ := exists_reads hn
  have heq := hd.eq_iff he
  exact ⟨d, e, hd, he, heq, (hd.text?_eq_iff he).trans heq⟩

/-- Two spellings of minus three halves. -/
theorem literals_read_exactly_halves :
    let t := "-1_5.00e-1".toList
    let u := "-.15E+1".toList
    let n : Number := .decimal ⟨-15, 1⟩
    ofText? t = some n ∧ ofText? u = some n ∧ ¬MisplacesSign t ∧ ¬MisplacesSign u ∧
      ∃ d e, Reads t d n ∧ Reads u e n ∧ d.value = e.value := by
  intro t u n
  have ht : ofText? t = some n := by decide +kernel
  have hu : ofText? u = some n := by decide +kernel
  have htplace : ¬MisplacesSign t := by decide
  have huplace : ¬MisplacesSign u := by decide
  obtain ⟨d, e, hd, he, heq, -⟩ := (literals_read_exactly t u).2 n n ht hu
  have hvalue := (heq.mp rfl).1
  rw [readValue, if_neg htplace, readValue, if_neg huplace] at hvalue
  exact ⟨ht, hu, htplace, huplace, d, e, hd, he, hvalue⟩

/-- **Not every literal is read exactly**: minus five tenths are read as minus five hundredths if
the sign stands behind the point. -/
theorem misplaced_sign_misread :
    ¬ ∀ (t : List Char) (d : Decimal) (n : Number), Literal t d → ofText? t = some n →
      n.value = d.value := by
  intro hall
  have hdigits : Digits ['5'] := digits_of_isDigit (by simp) (by simp)
  have hliteral := Literal.pointFirst .minus (by simp) hdigits .none
  have hvalue := hall _ _ (.decimal ⟨-5, 2⟩) hliteral (by decide +kernel)
  have hspelled : spelled ['5'] = 5 := by decide
  have hplaces : places ['5'] = 1 := by decide
  rw [hspelled, hplaces] at hvalue
  norm_num [Decimal.value, zpow_neg] at hvalue

end SmallScheme.Number
