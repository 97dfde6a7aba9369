import SmallScheme.Environment.Basic
import SmallScheme.Operator.Primitive

/-!
# Checks know nothing of the limit of depth

On its way the evaluator checks values, looks names up, binds them, and applies primitives. All of
this is done on values, with no levels to run out of. So a check that fails does so with a fault of
the program (`Fault.Ordinary`), and only the evaluator itself reports that its levels have run out.

What is checked part by part has this property if its parts do (`Fault.Harmless.bind`), so the
lemmas follow the definitions of the checks.
-/

namespace SmallScheme

namespace Fault

variable {α β : Type}

/-- A fault of the program that is evaluated, not of the limit of depth. -/
def Ordinary (fault : Fault) : Prop :=
  fault.kind? ≠ some .depthLimitExceeded

/-- If this is a fault, then it is not that of the limit of depth. -/
def Harmless (r : Except Fault α) : Prop :=
  ∀ fault, r = .error fault → fault.Ordinary

@[simp] theorem harmless_ok (a : α) : Harmless (.ok a) := by
  intro fault h
  cases h

@[simp] theorem harmless_error {fault : Fault} :
    Harmless (.error fault : Except Fault α) ↔ fault.Ordinary := by
  constructor
  · intro h
    exact h fault rfl
  · intro h fault' hfault
    cases hfault
    exact h

theorem Harmless.bind {r : Except Fault α} {f : α → Except Fault β} (hr : Harmless r)
    (hf : ∀ a, Harmless (f a)) : Harmless (r >>= f) := by
  cases r with
  | error fault => exact harmless_error.mpr (hr fault rfl)
  | ok a => exact hf a

theorem Harmless.foldlM {f : β → α → Except Fault β} (hf : ∀ b a, Harmless (f b a)) (start : β)
    (as : List α) : Harmless (as.foldlM f start) := by
  induction as generalizing start with
  | nil => exact harmless_ok start
  | cons a as ih =>
    rw [List.foldlM_cons]
    exact (hf start a).bind fun b => ih b

theorem Harmless.mapM {f : α → Except Fault β} (hf : ∀ a, Harmless (f a)) (as : List α) :
    Harmless (as.mapM f) := by
  induction as with
  | nil => exact harmless_ok []
  | cons a as ih =>
    rw [List.mapM_cons]
    exact (hf a).bind fun b => ih.bind fun bs => harmless_ok (b :: bs)

end Fault

open Fault

/-! ## Conversions -/

theorem Value.harmless_asNumber (v : Value) : Harmless v.asNumber := by
  cases v with
  | number n => exact harmless_ok n
  | bool | symbol | list => exact harmless_error.mpr nofun

theorem Value.harmless_asBool (v : Value) : Harmless v.asBool := by
  cases v with
  | bool b => exact harmless_ok b
  | number | symbol | list => exact harmless_error.mpr nofun

theorem Identifier.harmless_ofValue (v : Value) : Harmless (ofValue v) := by
  cases v with
  | symbol name =>
    simp only [ofValue]
    split
    · exact harmless_ok name
    · exact harmless_error.mpr nofun
  | bool | number | list => exact harmless_error.mpr nofun

theorem Number.Computation.harmless_run (c : Computation) : Harmless c.run := by
  intro fault h
  rcases run_eq_error_iff.mp h with ⟨-, rfl⟩ | ⟨-, rfl⟩ <;> exact nofun

/-! ## Functions and environments -/

theorem Function.harmless_readParams (read : List String) (vs : List Value) :
    Harmless (readParams read vs) := by
  fun_induction readParams read vs with
  | case1 => exact harmless_ok _
  | case2 => exact harmless_error.mpr nofun
  | case3 _ _ _ _ ih => exact ih
  | case4 => exact harmless_error.mpr nofun

theorem Function.harmless_ofForm (form : Value) : Harmless (ofForm form) := by
  unfold ofForm ofParts
  repeat' split
  · exact (harmless_readParams [] _).bind fun names => harmless_ok _
  all_goals exact harmless_error.mpr nofun

theorem Environment.harmless_lookup (env : Environment) (name : String) :
    Harmless (env.lookup name) := by
  unfold lookup
  repeat' split
  case h_2 => exact harmless_error.mpr nofun
  all_goals exact harmless_ok _

theorem Environment.harmless_bind (env : Environment) (name : String) (v : Value) :
    Harmless (env.bind name v) := by
  unfold Environment.bind
  split
  · exact (Function.harmless_ofForm v).bind fun f => harmless_ok _
  · exact harmless_ok _

/-! ## Primitives -/

namespace Primitive

open Number (Computation)

theorem harmless_numbers (operands : List Value) : Harmless (numbers operands) :=
  .mapM Value.harmless_asNumber operands

theorem harmless_accumulate (make : Number → Number → Computation) (start : Number)
    (ns : List Number) : Harmless (accumulate make start ns) :=
  .foldlM (fun total n => (make total n).harmless_run) start ns

theorem harmless_difference (ns : List Number) : Harmless (difference ns) := by
  unfold difference
  split
  · exact Computation.harmless_run _
  · exact Computation.harmless_run _
  · exact harmless_error.mpr nofun

theorem harmless_ratio (ns : List Number) : Harmless (ratio ns) := by
  unfold ratio
  split
  · exact Computation.harmless_run _
  · exact Computation.harmless_run _
  · exact harmless_error.mpr nofun

theorem harmless_negation (operands : List Value) : Harmless (negation operands) := by
  unfold negation
  split
  · exact (Value.harmless_asBool _).bind fun b => harmless_ok _
  · exact harmless_error.mpr nofun

theorem harmless_first (operands : List Value) : Harmless (first operands) := by
  unfold first
  split
  · exact harmless_ok _
  all_goals exact harmless_error.mpr nofun

theorem harmless_construct (operands : List Value) : Harmless (construct operands) := by
  unfold construct
  split
  · exact harmless_ok _
  · exact harmless_ok _
  · exact harmless_error.mpr nofun

theorem harmless_remainder (operands : List Value) : Harmless (remainder operands) := by
  unfold remainder
  split
  · exact harmless_ok _
  · exact harmless_ok _
  all_goals exact harmless_error.mpr nofun

/-- No primitive reports the limit of depth. -/
theorem harmless_apply (p : Primitive) (operands : List Value) : Harmless (p.apply operands) := by
  have hnumbers := harmless_numbers operands
  cases p with
  | not => exact harmless_negation operands
  | equal | less | lessOrEqual | greater | greaterOrEqual =>
    exact hnumbers.bind fun ns => harmless_ok _
  | add | multiply =>
    exact hnumbers.bind fun ns => (harmless_accumulate _ _ ns).bind fun n => harmless_ok _
  | subtract => exact hnumbers.bind fun ns => (harmless_difference ns).bind fun n => harmless_ok _
  | divide => exact hnumbers.bind fun ns => (harmless_ratio ns).bind fun n => harmless_ok _
  | cons => exact harmless_construct operands
  | car => exact harmless_first operands
  | cdr => exact harmless_remainder operands
  | list => exact harmless_ok _

end Primitive

end SmallScheme
