import SmallScheme.Environment.Basic
import SmallScheme.Proofs.Value.Parts

/-!
# What faults show

Most faults show a value: the one that is not what it should be (`Fault.shown?`). It is always a
value that was at hand: a check shows what it has checked or a part of that. So what holds of all
values at hand, and of the parts of what it holds of, holds of the values that faults show
(`Fault.Shows`). There is one lemma for each check that the evaluator makes.

A fault that says of a form that it has no text says so truly, and arithmetic on integers comes
across no scale that cannot be stored. This is kept with what faults show, so that it comes up with
it wherever a fault does.
-/

namespace SmallScheme

namespace Fault

variable {α β : Type}

/-! ## Checks one after the other -/

theorem bind_eq_ok {r : Except Fault α} {f : α → Except Fault β} {b : β} :
    (r >>= f) = .ok b ↔ ∃ a, r = .ok a ∧ f a = .ok b := by
  constructor
  · intro h
    cases r with
    | ok a => exact ⟨a, rfl, h⟩
    | error fault => cases h
  · rintro ⟨a, rfl, h⟩
    exact h

theorem bind_eq_error {r : Except Fault α} {f : α → Except Fault β} {fault : Fault} :
    (r >>= f) = .error fault ↔ r = .error fault ∨ ∃ a, r = .ok a ∧ f a = .error fault := by
  constructor
  · intro h
    cases r with
    | ok a => exact .inr ⟨a, rfl, h⟩
    | error fault' =>
      cases h
      exact .inl rfl
  · rintro (rfl | ⟨a, rfl, h⟩)
    · rfl
    · exact h

/-! ## The value that is shown -/

/-- The value at fault. -/
def shown? : Fault → Option Value
  | notANumber v | notABoolean v | notACons v | notAList v | notAnIdentifier v
  | notAParameterList v | notAFunction v | notAnOperator v | notALambda v | unprintable v => some v
  | notALiteral _ | alreadyDefined _ | undefinedName _ | divisionByZero | operandCount
  | unsupportedOperator _ | depthLimit _ | scaleOverflow => none

/-- The value that a fault shows is of some kind, if it shows one, and has no text if it is said to
have none. And there is a decimal of this kind if a scale cannot be stored. -/
structure Shows (p : Value → Prop) (fault : Fault) : Prop where
  value : ∀ v ∈ fault.shown?, p v
  textless : ∀ v, fault = .unprintable v → v.text? = none
  decimal : fault = .scaleOverflow → ∃ d, p (.number (.decimal d))

variable {p q : Value → Prop} {fault : Fault}

/-- A fault that shows no value and has a kind. -/
theorem shows_of_shown?_eq_none (h : fault.shown? = none) (hkind : fault.kind?.isSome = true) :
    fault.Shows p where
  value v hv := by
    rw [h] at hv
    cases hv
  textless v hv := by
    rw [hv] at hkind
    cases hkind
  decimal hoverflow := by
    rw [hoverflow] at hkind
    cases hkind

/-- A fault that has a kind says something else of the value it shows. -/
theorem shows_of_shown?_eq_some {v : Value} (h : fault.shown? = some v)
    (hkind : fault.kind?.isSome = true) (hv : p v) : fault.Shows p where
  value w hw := by
    rw [h] at hw
    cases hw
    exact hv
  textless w hw := by
    rw [hw] at hkind
    cases hkind
  decimal hoverflow := by
    rw [hoverflow] at hkind
    cases hkind

theorem shows_unprintable {v : Value} (htext : v.text? = none) (hv : p v) :
    (unprintable v).Shows p where
  value w hw := by
    cases hw
    exact hv
  textless w hw := by
    cases hw
    exact htext
  decimal hoverflow := by cases hoverflow

theorem shows_scaleOverflow {d : Decimal} (hd : p (.number (.decimal d))) :
    scaleOverflow.Shows p where
  value v hv := by cases hv
  textless v hv := by cases hv
  decimal _ := ⟨d, hd⟩

theorem Shows.imp (h : fault.Shows p) (himp : ∀ v, p v → q v) : fault.Shows q where
  value v hv := himp v (h.value v hv)
  textless := h.textless
  decimal hoverflow := (h.decimal hoverflow).imp fun _ => himp _

end Fault

open Fault

variable {fault : Fault}

/-! ## Conversions -/

theorem Value.shows_of_asNumber {v : Value} (h : v.asNumber = .error fault) :
    fault.Shows (· = v) := by
  cases v <;> cases h <;> exact shows_of_shown?_eq_some rfl rfl rfl

theorem Value.shows_of_asBool {v : Value} (h : v.asBool = .error fault) : fault.Shows (· = v) := by
  cases v <;> cases h <;> exact shows_of_shown?_eq_some rfl rfl rfl

theorem Identifier.shows_of_ofValue {v : Value} (h : ofValue v = .error fault) :
    fault.Shows (· = v) := by
  unfold ofValue at h
  split at h
  · split at h <;> cases h
    exact shows_of_shown?_eq_some rfl rfl rfl
  · cases h
    exact shows_of_shown?_eq_some rfl rfl rfl

/-! ## Functions -/

namespace Function

theorem shows_of_readParams {read : List String} {vs : List Value}
    (h : readParams read vs = .error fault) : fault.Shows (· ∈ vs) := by
  induction vs generalizing read with
  | nil => cases h
  | cons v rest ih =>
    cases v with
    | symbol name =>
      simp only [readParams] at h
      split at h
      · cases h
        exact shows_of_shown?_eq_some rfl rfl List.mem_cons_self
      · exact (ih h).imp fun _ => List.mem_cons_of_mem _
    | bool b | number n | list items =>
      cases h
      exact shows_of_shown?_eq_some rfl rfl List.mem_cons_self

theorem shows_of_ofParts {vs : List Value} (h : ofParts vs = .error fault) :
    fault.Shows (fun u => ∃ v ∈ vs, u ∈ v.parts) := by
  unfold ofParts at h
  split at h
  · next params body =>
    rcases bind_eq_error.mp h with hparams | ⟨names, -, hnames⟩
    · refine (shows_of_readParams hparams).imp fun v hv => ?_
      exact ⟨.list params, List.mem_cons_self,
        Value.mem_parts_list.mpr (.inr ⟨v, hv, v.mem_parts_self⟩)⟩
    · cases hnames
  · next params _ _ =>
    cases h
    exact shows_of_shown?_eq_some rfl rfl ⟨params, List.mem_cons_self, params.mem_parts_self⟩
  · cases h
    exact shows_of_shown?_eq_none rfl rfl

/-- A form that stands for no function is shown, or a part of it. -/
theorem shows_of_ofForm {form : Value} (h : ofForm form = .error fault) :
    fault.Shows (· ∈ form.parts) := by
  unfold ofForm at h
  split at h
  · split at h
    · refine (shows_of_ofParts h).imp fun u hu => ?_
      obtain ⟨v, hv, hpart⟩ := hu
      exact Value.mem_parts_list.mpr (.inr ⟨v, List.mem_cons_of_mem _ hv, hpart⟩)
    · cases h
      exact shows_of_shown?_eq_some rfl rfl (Value.mem_parts_self _)
  · cases h
    exact shows_of_shown?_eq_some rfl rfl (Value.mem_parts_self _)

end Function

/-! ## Environments -/

namespace Environment

variable {env : Environment} {name : String}

theorem shows_of_lookup {p : Value → Prop} (h : env.lookup name = .error fault) :
    fault.Shows p := by
  unfold lookup at h
  repeat' split at h
  all_goals cases h
  exact shows_of_shown?_eq_none rfl rfl

/-- Only a parameter can hold a form that stands for no function. -/
theorem shows_of_resolve (h : env.resolve name = .error fault) :
    ∃ form, env.calls.lookup? name = some form ∧ fault.Shows (· ∈ form.parts) := by
  unfold resolve at h
  split at h
  · next form hform =>
    refine ⟨form, (Option.filter_eq_some_iff.mp hform).1, ?_⟩
    cases hf : Function.ofForm form with
    | ok f =>
      rw [hf] at h
      cases h
    | error fault' =>
      rw [hf] at h
      cases h
      exact Function.shows_of_ofForm hf
  · cases h

theorem shows_of_bind {v : Value} (h : env.bind name v = .error fault) :
    fault.Shows (· ∈ v.parts) := by
  unfold bind at h
  split at h
  · rcases bind_eq_error.mp h with hf | ⟨f, -, hf⟩
    · exact Function.shows_of_ofForm hf
    · cases hf
  · cases h

end Environment

end SmallScheme
