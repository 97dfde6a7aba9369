import SmallScheme.Proofs.Operator.Computation

/-!
# What primitives compute from

A primitive makes its result of the parts of its operands, of truth values, of the symbol between
the two sides of a pair, and of the number that arithmetic gets from its operands
(`Primitive.Answers`). So a property that passes from the elements of lists to the lists and back
(`Value.Carried`) passes from the operands of a primitive to its result, unless the result is such a
number (`Primitive.carried_apply`). If it also passes from numbers to what is computed from them
(`Value.Inherited`), it passes to every result (`Primitive.inherited_apply`). A primitive that fails
shows one of its operands (`Primitive.shows_of_apply`).
-/

namespace SmallScheme

open Fault

/-- A property of numbers that arithmetic preserves. -/
structure Number.Closed (p : Number → Prop) : Prop where
  zero : p (.integer 0)
  one : p (.integer 1)
  result : ∀ {c : Computation} {n}, (∀ a ∈ c.operands, p a) → c.result? = some n → p n

/-- A property of values that passes from lists to their elements and back, and that truth values
have and the symbols that evaluation puts in. -/
structure Value.Carried (p : Value → Prop) : Prop where
  list : ∀ items, p (.list items) ↔ ∀ v ∈ items, p v
  bool : ∀ b, p (.bool b)
  dot : p .dot
  quote : p (.symbol "quote")

theorem Value.carried_numbers (good : Number → Prop) : Carried (Numbers good) where
  list _ := numbers_list
  bool _ := by simp [Numbers]
  dot := by simp [Numbers, dot]
  quote := by simp [Numbers]

/-- A property of values that whatever is computed from values has if these have it. -/
structure Value.Inherited (p : Value → Prop) : Prop extends Carried p where
  number : Number.Closed fun n => p (.number n)

theorem Value.inherited_true : Inherited fun _ => True where
  list := by simp
  bool _ := trivial
  dot := trivial
  quote := trivial
  number := by constructor <;> intros <;> trivial

namespace Primitive

variable {operands : List Value}

/-! ## Numbers -/

theorem asNumber_eq_ok_iff {v : Value} {n : Number} : v.asNumber = .ok n ↔ v = .number n := by
  cases v <;> simp [Value.asNumber]

theorem numbers_map (ns : List Number) : numbers (ns.map .number) = .ok ns := by
  induction ns with
  | nil => rfl
  | cons n rest ih =>
    rw [numbers] at ih
    rw [numbers, List.map_cons, List.mapM_cons, ih]
    rfl

/-- The first operand that is no number is reported, whatever stands behind it. -/
theorem numbers_eq_error {v : Value} {fault : Fault} (hv : v.asNumber = .error fault)
    (ns : List Number) (rest : List Value) :
    numbers (ns.map .number ++ v :: rest) = .error fault := by
  induction ns with
  | nil =>
    rw [numbers, List.map_nil, List.nil_append, List.mapM_cons, hv]
    rfl
  | cons n ns ih =>
    rw [numbers] at ih
    rw [numbers, List.map_cons, List.cons_append, List.mapM_cons, ih]
    rfl

theorem eq_map_of_numbers {ns : List Number} (h : numbers operands = .ok ns) :
    operands = ns.map .number := by
  induction operands generalizing ns with
  | nil =>
    cases h
    rfl
  | cons v rest ih =>
    rw [numbers, List.mapM_cons] at h
    obtain ⟨n, hv, h⟩ := bind_eq_ok.mp h
    obtain ⟨more, hrest, h⟩ := bind_eq_ok.mp h
    cases h
    rw [List.map_cons, ← ih hrest, asNumber_eq_ok_iff.mp hv]

theorem shows_of_numbers {fault : Fault} (h : numbers operands = .error fault) :
    fault.Shows (· ∈ operands) := by
  induction operands with
  | nil => cases h
  | cons v rest ih =>
    rw [numbers, List.mapM_cons] at h
    rcases bind_eq_error.mp h with hv | ⟨n, -, h⟩
    · refine (Value.shows_of_asNumber hv).imp ?_
      rintro _ rfl
      exact List.mem_cons_self
    · rcases bind_eq_error.mp h with hrest | ⟨ns, -, h⟩
      · exact (ih hrest).imp fun _ => List.mem_cons_of_mem _
      · cases h

/-- What arithmetic preserves passes from the operands of a primitive to its answer. -/
theorem closed_answers {p : Number → Prop} {ns : List Number} (hns : ∀ n ∈ ns, p n)
    (hp : Number.Closed p) {primitive : Primitive} {n : Number}
    (h : primitive.Answers ns (.ok n)) : p n :=
  of_performs hns (fun _ => hp.result) hp.zero hp.one h

/-- A primitive that fails on numbers shows nothing, and one that comes across a scale which cannot
be stored has got a decimal. -/
theorem shows_of_answers {primitive : Primitive} {ns : List Number} {fault : Fault}
    (h : primitive.Answers ns (.error fault)) : fault.Shows (· ∈ ns.map .number) := by
  rcases performs_of_error h with rfl | ⟨c, hperforms, hrun⟩
  · exact shows_of_shown?_eq_none rfl rfl
  · rcases Number.Computation.run_eq_error_iff.mp hrun with ⟨hfits, rfl⟩ | ⟨-, rfl⟩
    · obtain ⟨d, hd⟩ := exists_decimal_of_performs hperforms hfits
      exact shows_scaleOverflow (List.mem_map_of_mem hd)
    · exact shows_of_shown?_eq_none rfl rfl

section

variable {primitive : Primitive} {f : List Number → Except Fault Number}

/-- Arithmetic answers with what it makes of the numbers that the operands are. -/
theorem answers_of_ok (hf : ∀ {ns n}, f ns = .ok n → primitive.Answers ns (.ok n)) {v : Value}
    (h : (do return Value.number (← f (← numbers operands))) = .ok v) :
    ∃ ns n, operands = ns.map .number ∧ primitive.Answers ns (.ok n) ∧ v = .number n := by
  obtain ⟨ns, hns, h⟩ := bind_eq_ok.mp h
  obtain ⟨n, hn, h⟩ := bind_eq_ok.mp h
  cases h
  exact ⟨ns, n, eq_map_of_numbers hns, hf hn, rfl⟩

theorem shows_of_arithmetic {fault : Fault}
    (hf : ∀ {ns}, f ns = .error fault → primitive.Answers ns (.error fault))
    (h : (do return Value.number (← f (← numbers operands))) = .error fault) :
    fault.Shows (· ∈ operands) := by
  rcases bind_eq_error.mp h with hns | ⟨ns, hns, h⟩
  · exact shows_of_numbers hns
  · rcases bind_eq_error.mp h with hn | ⟨n, -, h⟩
    · rw [eq_map_of_numbers hns]
      exact shows_of_answers (hf hn)
    · cases h

end

/-! ## Results -/

section

variable {p : Value → Prop} (hp : Value.Carried p) (hoperands : ∀ v ∈ operands, p v) {v : Value}
include hp

theorem inherited_compareAll {holds : Ordering → Bool} (h : compareAll holds operands = .ok v) :
    p v := by
  obtain ⟨ns, -, h⟩ := bind_eq_ok.mp h
  cases h
  exact hp.bool _

theorem inherited_negation (h : negation operands = .ok v) : p v := by
  unfold negation at h
  split at h
  · obtain ⟨b, -, h⟩ := bind_eq_ok.mp h
    cases h
    exact hp.bool _
  · cases h

include hoperands

theorem inherited_construct (h : construct operands = .ok v) : p v := by
  unfold construct at h
  split at h
  · next head tail =>
    cases h
    have htail := hoperands (.list tail) (by simp)
    exact (hp.list _).mpr (List.forall_mem_cons.mpr
      ⟨hoperands head (by simp), (hp.list tail).mp htail⟩)
  · next left right _ =>
    cases h
    refine (hp.list _).mpr ?_
    simpa [hp.dot] using hoperands
  · cases h

theorem inherited_first (h : first operands = .ok v) : p v := by
  unfold first at h
  split at h
  · next head tail =>
    cases h
    have hlist := hoperands (.list (v :: tail)) (by simp)
    exact (hp.list _).mp hlist v List.mem_cons_self
  · cases h
  · cases h

theorem inherited_remainder (h : remainder operands = .ok v) : p v := by
  unfold remainder at h
  split at h
  · next left mark right =>
    cases h
    have hlist := hoperands (.list [left, mark, right]) (by simp)
    simp only [hp.list, List.forall_mem_cons] at hlist
    split
    · exact hlist.2.2.1
    · exact (hp.list _).mpr (by simpa using ⟨hlist.2.1, hlist.2.2.1⟩)
  · next head tail _ =>
    cases h
    have hlist := (hp.list _).mp (hoperands (.list (head :: tail)) (by simp))
    exact (hp.list tail).mpr fun w hw => hlist w (List.mem_cons_of_mem _ hw)
  · cases h
  · cases h

/-- What is carried passes from the operands of a primitive to its result, unless that is a number
which arithmetic makes of numbers. -/
theorem carried_apply (primitive : Primitive) (h : primitive.apply operands = .ok v)
    (hnumber : ∀ (ns : List Number) (n : Number), operands = ns.map .number →
      primitive.Answers ns (.ok n) → p (.number n)) : p v := by
  cases primitive with
  | not => exact inherited_negation hp h
  | equal | less | lessOrEqual | greater | greaterOrEqual => exact inherited_compareAll hp h
  | add =>
    obtain ⟨ns, n, hns, hn, rfl⟩ := answers_of_ok .sum h
    exact hnumber ns n hns hn
  | multiply =>
    obtain ⟨ns, n, hns, hn, rfl⟩ := answers_of_ok .product h
    exact hnumber ns n hns hn
  | subtract =>
    obtain ⟨ns, n, hns, hn, rfl⟩ := answers_of_ok .difference h
    exact hnumber ns n hns hn
  | divide =>
    obtain ⟨ns, n, hns, hn, rfl⟩ := answers_of_ok .ratio h
    exact hnumber ns n hns hn
  | cons => exact inherited_construct hp hoperands h
  | car => exact inherited_first hp hoperands h
  | cdr => exact inherited_remainder hp hoperands h
  | list =>
    cases h
    exact (hp.list operands).mpr hoperands

end

/-- What holds of the operands of a primitive and is inherited holds of its result. -/
theorem inherited_apply (primitive : Primitive) {p : Value → Prop} (hp : Value.Inherited p)
    (hoperands : ∀ v ∈ operands, p v) {v : Value} (h : primitive.apply operands = .ok v) : p v := by
  refine carried_apply hp.toCarried hoperands primitive h fun ns n hns hanswer => ?_
  subst hns
  exact closed_answers (fun m hm => hoperands _ (List.mem_map_of_mem hm)) hp.number hanswer

/-! ## Faults -/

section

variable {fault : Fault}

theorem shows_of_compareAll {holds : Ordering → Bool}
    (h : compareAll holds operands = .error fault) : fault.Shows (· ∈ operands) := by
  rcases bind_eq_error.mp h with hns | ⟨ns, -, h⟩
  · exact shows_of_numbers hns
  · cases h

/-- A primitive that fails shows one of its operands, if anything. -/
theorem shows_of_apply (primitive : Primitive) (h : primitive.apply operands = .error fault) :
    fault.Shows (· ∈ operands) := by
  cases primitive with
  | not =>
    simp only [apply, negation] at h
    split at h
    · next v =>
      rcases bind_eq_error.mp h with hv | ⟨b, -, h⟩
      · exact (Value.shows_of_asBool hv).imp fun _ => List.mem_singleton.mpr
      · cases h
    · cases h
      exact shows_of_shown?_eq_none rfl rfl
  | equal | less | lessOrEqual | greater | greaterOrEqual => exact shows_of_compareAll h
  | add => exact shows_of_arithmetic .sum h
  | multiply => exact shows_of_arithmetic .product h
  | subtract => exact shows_of_arithmetic .difference h
  | divide => exact shows_of_arithmetic .ratio h
  | cons =>
    simp only [apply, construct] at h
    split at h <;> cases h
    exact shows_of_shown?_eq_none rfl rfl
  | car =>
    simp only [apply, first] at h
    split at h <;> cases h
    · exact shows_of_shown?_eq_some rfl rfl (List.mem_singleton.mpr rfl)
    · exact shows_of_shown?_eq_none rfl rfl
  | cdr =>
    simp only [apply, remainder] at h
    split at h <;> cases h
    · exact shows_of_shown?_eq_some rfl rfl (List.mem_singleton.mpr rfl)
    · exact shows_of_shown?_eq_none rfl rfl
  | list => cases h

end

end Primitive

end SmallScheme
