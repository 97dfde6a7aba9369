import Mathlib.Data.List.Chain
import Mathlib.Order.Compare
import Mathlib.Tactic.NormNum
import SmallScheme.Proofs.Number.Value
import SmallScheme.Proofs.Operator.Primitive

/-!
# Comparisons of many numbers

A comparison looks at neighbours only. That settles all pairs: what a comparison asks of neighbours
is a transitive relation of the rationals that they denote (`Comparison.exists_tests`), so that it
reaches every number from every one before it (`Tests.chained_iff`). Kinds and scales of the
numbers do not enter. Numbers that denote the same rationals are compared alike, and a list is
compared the other way round as the reversed list is
(`Primitive.comparisons_decide_all_pairs`).

No two numbers are compared before all operands have been found to be numbers. So an operand that
is no number is reported even where the numbers in front of it have settled the matter.
-/

namespace SmallScheme.Primitive

/-- The comparisons: the name of each, what it computes, and the relation that it asks for. -/
inductive Comparison : String → Primitive → (ℚ → ℚ → Prop) → Prop
  | less : Comparison "<" .less (· < ·)
  | lessOrEqual : Comparison "<=" .lessOrEqual (· ≤ ·)
  | greater : Comparison ">" .greater (· > ·)
  | greaterOrEqual : Comparison ">=" .greaterOrEqual (· ≥ ·)
  | equal : Comparison "=" .equal (· = ·)

/-! ## From neighbours to all pairs -/

/-- A test of orders that two rationals pass exactly if a transitive relation holds between them. -/
structure Tests (holds : Ordering → Bool) (relation : ℚ → ℚ → Prop) : Prop where
  holds_iff : ∀ p q : ℚ, holds (compare p q) = true ↔ relation p q
  trans : ∀ {p q r : ℚ}, relation p q → relation q r → relation p r

variable {holds : Ordering → Bool} {relation relation' : ℚ → ℚ → Prop}

theorem chained_iff_isChain (ns : List Number) :
    chained holds ns = true ↔ ns.IsChain fun a b => holds (a.order b) = true := by
  induction ns with
  | nil => simp [chained]
  | cons a rest ih =>
    cases rest with
    | nil => simp [chained]
    | cons b rest => rw [chained, Bool.and_eq_true, List.isChain_cons_cons, ih]

theorem Tests.chained_iff (h : Tests holds relation) (ns : List Number) :
    chained holds ns = true ↔ ns.Pairwise fun a b => relation a.value b.value := by
  let related (a b : Number) : Prop := relation a.value b.value
  have htrans : Trans related related related := ⟨h.trans⟩
  have hneighbours : ∀ a b : Number, holds (a.order b) = true ↔ related a b := by
    intro a b
    rw [Number.order_eq_compare_value, h.holds_iff]
  simp only [chained_iff_isChain, hneighbours]
  exact List.isChain_iff_pairwise

variable {name : String} {p p' : Primitive}

/-- Every comparison tests the orders of neighbours. -/
theorem Comparison.exists_tests (h : Comparison name p relation) :
    ∃ holds, Tests holds relation ∧ ∀ operands, p.apply operands = compareAll holds operands := by
  cases h with
  | less =>
    exact ⟨_, ⟨fun p q => Ordering.isLT_iff_eq_lt.trans compare_lt_iff_lt, lt_trans⟩, fun _ => rfl⟩
  | lessOrEqual =>
    exact ⟨_, ⟨fun p q => Ordering.isLE_iff_ne_gt.trans compare_le_iff_le, le_trans⟩, fun _ => rfl⟩
  | greater =>
    exact ⟨_, ⟨fun p q => Ordering.isGT_iff_eq_gt.trans compare_gt_iff_gt, gt_trans⟩, fun _ => rfl⟩
  | greaterOrEqual =>
    exact ⟨_, ⟨fun p q => Ordering.isGE_iff_ne_lt.trans compare_ge_iff_ge, ge_trans⟩, fun _ => rfl⟩
  | equal =>
    exact ⟨_, ⟨fun p q => Ordering.isEq_iff_eq_eq.trans compare_eq_iff_eq, Eq.trans⟩, fun _ => rfl⟩

/-! ## What comparisons answer -/

/-- Of numbers, a comparison tells whether a relation holds between every two of them, the earlier
one on the left. Of other operands, it reports the first that is no number. -/
structure Decides (p : Primitive) (relation : ℚ → ℚ → Prop) : Prop where
  numbers : ∀ ns : List Number, ∃ b, p.apply (ns.map .number) = .ok (.bool b) ∧
    (b = true ↔ ns.Pairwise fun a b => relation a.value b.value)
  others : ∀ (ns : List Number) (v : Value) (rest : List Value), (∀ n, v ≠ .number n) →
    p.apply (ns.map .number ++ v :: rest) = .error (.notANumber v)

theorem Comparison.decides (h : Comparison name p relation) : Decides p relation := by
  obtain ⟨holds, htests, happly⟩ := h.exists_tests
  constructor
  · intro ns
    refine ⟨chained holds ns, ?_, htests.chained_iff ns⟩
    rw [happly, compareAll, numbers_map]
    rfl
  · intro ns v rest hv
    have hfault : v.asNumber = .error (.notANumber v) := by
      cases v with
      | number n => exact absurd rfl (hv n)
      | bool b | symbol name | list items => rfl
    rw [happly, compareAll, numbers_eq_error hfault]
    rfl

/-- The answer depends on which pairs there are, and on nothing else. -/
theorem Decides.apply_eq (h : Decides p relation) (h' : Decides p' relation') {ns ms : List Number}
    (hpairs : (ns.Pairwise fun a b => relation a.value b.value) ↔
      ms.Pairwise fun a b => relation' a.value b.value) :
    p.apply (ns.map .number) = p'.apply (ms.map .number) := by
  obtain ⟨b, happly, hb⟩ := h.numbers ns
  obtain ⟨b', happly', hb'⟩ := h'.numbers ms
  have hsame : b = b' := Bool.eq_iff_iff.mpr (hb.trans (hpairs.trans hb'.symm))
  rw [happly, happly', hsame]

/-- Numbers that denote the same rationals are compared alike. -/
theorem Decides.apply_congr (h : Decides p relation) {ns ms : List Number}
    (hvalues : ns.map Number.value = ms.map Number.value) :
    p.apply (ns.map .number) = p.apply (ms.map .number) := by
  refine h.apply_eq h ?_
  rw [← List.pairwise_map (f := Number.value) (R := relation), hvalues, List.pairwise_map]

/-- **Comparisons decide all pairs.** Each comparison holds of numbers, of either kind, exactly if
its relation holds between the rationals that every two of them denote, and reports the first
operand that is no number. Numbers may be replaced by others that denote the same, and the
comparisons that ask for falling numbers are those that ask for rising ones on the reversed list. -/
theorem comparisons_decide_all_pairs :
    (∀ name p relation, Comparison name p relation →
      Operator.named? name = some ⟨name, .atLeast 2, .primitive p⟩ ∧ Decides p relation ∧
        ∀ ns ms : List Number, ns.map Number.value = ms.map Number.value →
          p.apply (ns.map .number) = p.apply (ms.map .number)) ∧
    ∀ ns : List Number,
      greater.apply (ns.map .number) = less.apply (ns.reverse.map .number) ∧
        greaterOrEqual.apply (ns.map .number) = lessOrEqual.apply (ns.reverse.map .number) := by
  refine ⟨fun name p relation h => ⟨?_, h.decides, fun ns ms => h.decides.apply_congr⟩, fun ns => ?_⟩
  · cases h <;> decide
  · have hfalling {r r' : ℚ → ℚ → Prop} (hswap : ∀ x y, r x y ↔ r' y x) :
        (ns.Pairwise fun a b => r a.value b.value) ↔
          ns.reverse.Pairwise fun a b => r' a.value b.value := by
      simp only [List.pairwise_reverse, hswap]
    exact ⟨Comparison.greater.decides.apply_eq Comparison.less.decides (hfalling fun _ _ => Iff.rfl),
      Comparison.greaterOrEqual.decides.apply_eq Comparison.lessOrEqual.decides
        (hfalling fun _ _ => Iff.rfl)⟩

/-- Integers among decimals, some of them equal in value, and a truth value behind numbers that do
not rise. -/
theorem comparisons_decide_all_pairs_mixed :
    let ns : List Number := [.integer 1, .decimal ⟨15, 1⟩, .integer 20, .decimal ⟨2, -1⟩]
    let ms : List Number := [.decimal ⟨1, 0⟩, .decimal ⟨15, 1⟩, .decimal ⟨2, -1⟩, .integer 20]
    Comparison "<=" lessOrEqual (· ≤ ·) ∧ lessOrEqual.apply (ns.map .number) = .ok (.bool true) ∧
      ns.map Number.value = ms.map Number.value ∧
      lessOrEqual.apply (ms.map .number) = .ok (.bool true) ∧
      (∀ n, Value.bool true ≠ .number n) ∧
      lessOrEqual.apply [.number (.integer 2), .number (.integer 1), .bool true]
        = .error (.notANumber (.bool true)) := by
  intro ns ms
  obtain ⟨-, hdecides, hsame⟩ := comparisons_decide_all_pairs.1 "<=" _ _ .lessOrEqual
  obtain ⟨b, happly, hb⟩ := hdecides.numbers ns
  have hpairs : ns.Pairwise fun a b => a.value ≤ b.value := by
    norm_num [ns, Decimal.value, zpow_neg]
  obtain rfl : b = true := hb.mpr hpairs
  have hvalues : ns.map Number.value = ms.map Number.value := by
    norm_num [ns, ms, Decimal.value]
  have hbool : ∀ n, Value.bool true ≠ .number n := by simp
  exact ⟨.lessOrEqual, happly, hvalues, (hsame ns ms hvalues).symm.trans happly, hbool,
    hdecides.others [.integer 2, .integer 1] (.bool true) [] hbool⟩

end SmallScheme.Primitive
