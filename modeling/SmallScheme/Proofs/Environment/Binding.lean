import SmallScheme.Environment.Basic
import SmallScheme.Proofs.Function

/-!
# Binding a name

All that `Environment.bind` can do (`Environment.bind_cases`), and what it leaves of the bindings
of the environment: the name is bound, and every other name is bound to what it was bound to.
-/

namespace SmallScheme

namespace Environment

variable {env bound : Environment} {name : String} {v : Value}

/-- Binding succeeds in one of two ways: a form makes the name a function, any other value makes it
a variable. -/
theorem bind_cases (h : env.bind name v = .ok bound) :
    (∃ f : Function, f.params.Nodup ∧ v = f.toForm ∧
      bound = { env with
        values := env.values.erase name
        functions := env.functions.insert name f }) ∨
    (v.isLambdaForm = false ∧
      bound = { env with
        values := env.values.insert name v
        functions := env.functions.erase name }) := by
  unfold bind at h
  split at h
  · next hform =>
    cases hf : Function.ofForm v with
    | error fault =>
      rw [hf] at h
      cases h
    | ok f =>
      rw [hf] at h
      cases h
      obtain ⟨hnodup, hv⟩ := Function.ofForm_eq_ok_iff.mp hf
      exact .inl ⟨f, hnodup, hv, rfl⟩
  · next hform =>
    cases h
    exact .inr ⟨Bool.eq_false_iff.mpr hform, rfl⟩

/-- Whether binding fails, and how, depends on the value only. -/
theorem bind_error {fault : Fault} (h : env.bind name v = .error fault) (other : Environment)
    (otherName : String) : other.bind otherName v = .error fault := by
  unfold bind at h ⊢
  cases hform : v.isLambdaForm with
  | false => simp [hform] at h
  | true =>
    simp only [hform, if_true] at h ⊢
    cases hf : Function.ofForm v with
    | ok f =>
      rw [hf] at h
      cases h
    | error fault' =>
      rw [hf] at h
      cases h
      rfl

theorem bind_ok (h : env.bind name v = .ok bound) (other : Environment) (otherName : String) :
    ∃ bound', other.bind otherName v = .ok bound' := by
  cases hother : other.bind otherName v with
  | ok bound' => exact ⟨bound', rfl⟩
  | error fault =>
    rw [bind_error hother env name] at h
    cases h

/-- Binding a name to one value changes two environments alike. -/
theorem bind_both {other bound' : Environment} (h : env.bind name v = .ok bound)
    (hother : other.bind name v = .ok bound') :
    (∃ f : Function, v = f.toForm ∧
      bound = { env with
        values := env.values.erase name
        functions := env.functions.insert name f } ∧
      bound' = { other with
        values := other.values.erase name
        functions := other.functions.insert name f }) ∨
    (v.isLambdaForm = false ∧
      bound = { env with
        values := env.values.insert name v
        functions := env.functions.erase name } ∧
      bound' = { other with
        values := other.values.insert name v
        functions := other.functions.erase name }) := by
  rcases bind_cases h with ⟨f, hnodup, hform, rfl⟩ | ⟨hplain, rfl⟩ <;>
    rcases bind_cases hother with ⟨g, hnodup', hform', rfl⟩ | ⟨hplain', rfl⟩
  · have hf := Function.ofForm_eq_ok_iff.mpr ⟨hnodup, hform⟩
    rw [Function.ofForm_eq_ok_iff.mpr ⟨hnodup', hform'⟩] at hf
    cases hf
    exact .inl ⟨f, hform, rfl, rfl⟩
  · simp [hform, Function.toForm] at hplain'
  · simp [hform', Function.toForm] at hplain
  · exact .inr ⟨hplain, rfl, rfl⟩

/-- Binding a global name changes no call. -/
theorem calls_bind (h : env.bind name v = .ok bound) : bound.calls = env.calls := by
  rcases bind_cases h with ⟨f, -, -, rfl⟩ | ⟨-, rfl⟩ <;> rfl

theorem config_bind (h : env.bind name v = .ok bound) : bound.config = env.config := by
  rcases bind_cases h with ⟨f, -, -, rfl⟩ | ⟨-, rfl⟩ <;> rfl

theorem isDefined_iff :
    env.isDefined name = true ↔
      (∃ v, env.values.get? name = some v) ∨ ∃ f, env.functions.get? name = some f := by
  simp [isDefined, Table.contains, Option.isSome_iff_exists]

/-- A name that is bound is defined. -/
theorem isDefined_bind_self (h : env.bind name v = .ok bound) : bound.isDefined name = true := by
  rcases bind_cases h with ⟨f, -, -, rfl⟩ | ⟨-, rfl⟩
  · exact isDefined_iff.mpr (.inr ⟨f, Table.get?_insert_self ..⟩)
  · exact isDefined_iff.mpr (.inl ⟨v, Table.get?_insert_self ..⟩)

theorem values_bind_of_ne (h : env.bind name v = .ok bound) {other : String}
    (hother : other ≠ name) : bound.values.get? other = env.values.get? other := by
  rcases bind_cases h with ⟨f, -, -, rfl⟩ | ⟨-, rfl⟩
  · exact Table.get?_erase_of_ne _ hother
  · exact Table.get?_insert_of_ne _ hother _

theorem functions_bind_of_ne (h : env.bind name v = .ok bound) {other : String}
    (hother : other ≠ name) : bound.functions.get? other = env.functions.get? other := by
  rcases bind_cases h with ⟨f, -, -, rfl⟩ | ⟨-, rfl⟩
  · exact Table.get?_insert_of_ne _ hother _
  · exact Table.get?_erase_of_ne _ hother

/-- Binding a name leaves the other names as defined as they were. -/
theorem isDefined_bind_of_ne (h : env.bind name v = .ok bound) {other : String}
    (hother : other ≠ name) : bound.isDefined other = env.isDefined other := by
  simp only [isDefined, Table.contains, values_bind_of_ne h hother, functions_bind_of_ne h hother]

/-- After a name has been bound, the defined names are those before and that one. -/
theorem isDefined_bind_iff (h : env.bind name v = .ok bound) {other : String} :
    bound.isDefined other = true ↔ env.isDefined other = true ∨ other = name := by
  by_cases heq : other = name
  · rw [heq]
    simp [isDefined_bind_self h]
  · rw [isDefined_bind_of_ne h heq]
    simp [heq]

end Environment

end SmallScheme
