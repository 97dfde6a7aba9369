import SmallScheme.Function
import SmallScheme.Operator.Basic

/-!
# Functions and their forms

Turning a form into a function and back loses nothing: a form stands for a function exactly if it
is the form that the function is written as and the parameters are distinct
(`Function.ofForm_eq_ok_iff`). And a name that may be bound is none that the evaluator gives a
meaning of its own (`Identifier.ne_nil_of_isValid`, `Identifier.named?_eq_none_of_isValid`).
-/

namespace SmallScheme

/-! ## Identifiers -/

namespace Identifier

theorem ofValue_eq_ok_iff {v : Value} {name : String} :
    ofValue v = .ok name ↔ v = .symbol name ∧ isValid name = true := by
  constructor
  · intro h
    unfold ofValue at h
    split at h
    · split at h
      · next hvalid =>
        cases h
        exact ⟨rfl, hvalid⟩
      · cases h
    · cases h
  · rintro ⟨rfl, hvalid⟩
    simp [ofValue, hvalid]

theorem ne_nil_of_isValid {name : String} (h : isValid name = true) : name ≠ "nil" := by
  rintro rfl
  revert h
  decide

/-- An operator has a reserved name, or one that does not begin with a letter. -/
theorem isValid_operator : ∀ op ∈ Operator.registry, isValid op.name = false := by
  decide

theorem named?_eq_none_of_isValid {name : String} (h : isValid name = true) :
    Operator.named? name = none := by
  refine List.find?_eq_none.mpr fun op hop hname => ?_
  have hinvalid := isValid_operator op hop
  rw [eq_of_beq hname, h] at hinvalid
  cases hinvalid

end Identifier

/-! ## Forms -/

theorem Value.isSymbol_iff {v : Value} {name : String} :
    v.isSymbol name = true ↔ v = .symbol name := by
  cases v <;> simp [isSymbol]

namespace Function

@[simp] theorem isLambdaForm_toForm (f : Function) : f.toForm.isLambdaForm = true :=
  Value.isLambdaForm_lambdaForm ..

/-- The parameters that are read are those read before and the symbols behind them, all of them
distinct. -/
theorem readParams_eq_ok_iff {read : List String} (hread : read.Nodup) {vs : List Value}
    {names : List String} :
    readParams read vs = .ok names ↔
      names.Nodup ∧ ∃ more, vs = more.map .symbol ∧ names = read ++ more := by
  induction vs generalizing read with
  | nil =>
    constructor
    · intro h
      cases h
      exact ⟨hread, [], rfl, by simp⟩
    · rintro ⟨-, more, hmore, rfl⟩
      rw [List.map_eq_nil_iff.mp hmore.symm, List.append_nil]
      rfl
  | cons v rest ih =>
    constructor
    · intro h
      cases v with
      | symbol name =>
        simp only [readParams] at h
        split at h
        · cases h
        · next hfresh =>
          have hnext : (read ++ [name]).Nodup := by
            refine List.nodup_append.mpr ⟨hread, List.pairwise_singleton .., fun a ha b hb => ?_⟩
            rw [List.mem_singleton.mp hb]
            exact fun heq => hfresh (heq ▸ ha)
          obtain ⟨hnames, more, rfl, rfl⟩ := (ih hnext).mp h
          exact ⟨hnames, name :: more, rfl, by simp⟩
      | bool b => cases h
      | number n => cases h
      | list items => cases h
    · rintro ⟨hnames, more, hmore, rfl⟩
      obtain ⟨name, later, rfl, rfl, rfl⟩ := List.map_eq_cons_iff.mp hmore.symm
      have hnext : (read ++ [name]).Nodup := by
        rw [List.append_cons] at hnames
        exact (List.nodup_append.mp hnames).1
      have hfresh : name ∉ read := fun hmem =>
        (List.nodup_append.mp hnext).2.2 name hmem name List.mem_cons_self rfl
      rw [readParams, if_neg hfresh]
      exact (ih hnext).mpr ⟨hnames, later, rfl, List.append_cons ..⟩

/-- **A form stands for a function exactly if it is the form of that function** and the parameters
of the function are distinct. -/
theorem ofForm_eq_ok_iff {form : Value} {f : Function} :
    ofForm form = .ok f ↔ f.params.Nodup ∧ form = f.toForm := by
  constructor
  · intro h
    unfold ofForm at h
    split at h
    · split at h
      · next head parts hhead =>
        rw [Value.isSymbol_iff.mp hhead]
        unfold ofParts at h
        split at h
        · next params body =>
          cases hnames : readParams [] params with
          | error fault =>
            rw [hnames] at h
            cases h
          | ok names =>
            rw [hnames] at h
            cases h
            obtain ⟨hnodup, more, rfl, rfl⟩ := (readParams_eq_ok_iff List.nodup_nil).mp hnames
            exact ⟨hnodup, rfl⟩
        · cases h
        · cases h
      · cases h
    · cases h
  · rintro ⟨hnodup, rfl⟩
    have hparams : readParams [] (f.params.map .symbol) = .ok f.params :=
      (readParams_eq_ok_iff List.nodup_nil).mpr ⟨hnodup, f.params, rfl, rfl⟩
    simp only [toForm, Value.lambdaForm, ofForm, Value.isSymbol, beq_self_eq_true, if_true,
      ofParts, hparams]
    rfl

end Function

end SmallScheme
