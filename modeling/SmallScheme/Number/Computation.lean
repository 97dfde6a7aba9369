import SmallScheme.Number.Basic

/-!
# Single computations

A computation is one operation of arithmetic together with its operands. Its result is exact, or a
quotient that is rounded, and is known without regard to how scales are stored. What is worked out
on the way has to be stored all the same: the decimal that is brought into normal form, and the
distance between the scales of the operands where their digits are aligned or divided. A computation
fits if all of these scales can be stored.
-/

namespace SmallScheme.Number

/-- One operation of arithmetic on its operands. -/
inductive Computation where
  | negate (a : Number)
  | add (a b : Number)
  | subtract (a b : Number)
  | multiply (a b : Number)
  | divide (a b : Number)

namespace Computation

def operands : Computation → List Number
  | negate a => [a]
  | add a b | subtract a b | multiply a b | divide a b => [a, b]

/-- The result, unless a number is divided by zero. -/
def result? : Computation → Option Number
  | negate a => some a.negate
  | add a b => some (a.add b)
  | subtract a b => some (a.subtract b)
  | multiply a b => some (a.multiply b)
  | divide a b => a.divide? b

/-- What is worked out as a decimal, before it is brought into normal form. -/
def unreduced : Computation → Decimal
  | negate a => a.toDecimal.neg
  | add a b => a.toDecimal.alignedSum b.toDecimal
  | subtract a b => a.toDecimal.alignedSum b.toDecimal.neg
  | multiply a b => a.toDecimal.plainProduct b.toDecimal
  | divide a b => a.toDecimal.roundedQuotient b.toDecimal

/-- The decimals that a computation makes: its result before and after it is brought into normal
form, unless that is an integer. -/
def decimals (c : Computation) : List Decimal :=
  match c.result? with
  | some (.decimal d) => [c.unreduced, d]
  | _ => []

/-- The distance between the scales of the operands: in a sum it is how far one of them is shifted,
and long division starts from it. Zeros are not shifted and not divided, nor is anything divided by
zero. -/
def distance : Computation → Int
  | add a b | subtract a b =>
    if a.isZero ∨ b.isZero then 0 else (a.toDecimal.scale - b.toDecimal.scale).natAbs
  | divide a b =>
    if a.isZero ∨ b.isZero then 0 else a.toDecimal.scale - b.toDecimal.scale
  | negate _ | multiply _ _ => 0

/-- All scales that the computation comes across can be stored. -/
def Fits (c : Computation) : Prop :=
  Decimal.IsScale c.distance ∧ ∀ d ∈ c.decimals, Decimal.IsScale d.scale

instance (c : Computation) : Decidable c.Fits :=
  inferInstanceAs (Decidable (_ ∧ _))

variable {c : Computation} {n : Number}

theorem result?_eq_none_iff :
    c.result? = none ↔ ∃ a b, c = .divide a b ∧ b.isZero = true := by
  cases c with
  | divide a b =>
    cases hzero : b.isZero with
    | true =>
      have hnone : (divide a b).result? = none := by simp [result?, divide?, hzero]
      exact iff_of_true hnone ⟨a, b, rfl, hzero⟩
    | false => cases a <;> cases b <;> simp_all [result?, divide?]
  | negate | add | subtract | multiply => simp [result?]

/-- The result is an integer if and only if all operands are. -/
theorem isInteger_of_result? (h : c.result? = some n) :
    n.isInteger = true ↔ ∀ a ∈ c.operands, a.isInteger = true := by
  cases c with
  | negate a => cases a <;> cases h <;> simp [operands, isInteger, Number.negate, ofDecimal]
  | add a b => cases a <;> cases b <;> cases h <;> simp [operands, isInteger, Number.add]
  | subtract a b => cases a <;> cases b <;> cases h <;> simp [operands, isInteger, Number.subtract]
  | multiply a b => cases a <;> cases b <;> cases h <;> simp [operands, isInteger, Number.multiply]
  | divide a b =>
    unfold result? divide? at h
    dsimp only at h
    split at h
    · cases h
    · cases a <;> cases b <;> cases h <;> simp [operands, isInteger]

/-- Nothing is worked out when a number is divided by zero. -/
theorem fits_of_result?_eq_none (h : c.result? = none) : c.Fits := by
  obtain ⟨a, b, rfl, hzero⟩ := result?_eq_none_iff.mp h
  refine ⟨?_, by simp [decimals, h]⟩
  rw [distance, if_pos (.inr hzero)]
  decide

theorem distance_of_isInteger (h : ∀ a ∈ c.operands, a.isInteger = true) : c.distance = 0 := by
  have hscale : ∀ a ∈ c.operands, a.toDecimal.scale = 0 := by
    intro a ha
    cases a with
    | integer m => rfl
    | decimal d => cases h _ ha
  cases c with
  | negate a | multiply a b => rfl
  | add a b | subtract a b | divide a b => simp_all [operands, distance]

/-- Integers have no scales. -/
theorem fits_of_isInteger (h : ∀ a ∈ c.operands, a.isInteger = true) : c.Fits := by
  refine ⟨by rw [distance_of_isInteger h]; decide, fun d hd => ?_⟩
  unfold decimals at hd
  split at hd
  · next e he => cases (isInteger_of_result? he).mpr h
  · cases hd

end Computation

end SmallScheme.Number
