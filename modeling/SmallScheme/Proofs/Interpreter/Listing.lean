import SmallScheme.Prompt.Transcript
import SmallScheme.Proofs.Environment.Content
import SmallScheme.Proofs.Environment.Invariant
import SmallScheme.Proofs.Evaluation.Writing

/-!
# The listing of global bindings

There are three ways to ask what is bound globally: to list all bindings, to ask whether a name is
defined, and to evaluate the name. The listing merges two tables and sorts what it gets, and the
evaluator looks into one table after the other, behind `nil` and the call under way. Between two
requests of a session all three agree (`Session.listed_handleAll`): no call is under way then, and
the tables have no name in common and do not bind `nil`.
-/

namespace SmallScheme

namespace Environment

/-- The entries of the table of functions, as they are listed. -/
def forms (env : Environment) : List (String × Value) :=
  env.functions.toList.map fun b => (b.1, b.2.toForm)

variable {env : Environment} {name : String} {v : Value}

/-! ## What is listed -/

theorem mem_forms_iff :
    (name, v) ∈ env.forms ↔ ∃ f, env.functions.get? name = some f ∧ f.toForm = v := by
  simp only [forms, List.mem_map, Prod.exists, Prod.mk.injEq, Table.mem_toList_iff]
  constructor
  · rintro ⟨_, f, hf, rfl, hv⟩
    exact ⟨f, hf, hv⟩
  · rintro ⟨f, hf, hv⟩
    exact ⟨name, f, hf, rfl, hv⟩

theorem perm_bindings (env : Environment) : env.bindings.Perm (env.values.toList ++ env.forms) :=
  List.mergeSort_perm ..

theorem mem_bindings_iff :
    (name, v) ∈ env.bindings ↔
      env.values.get? name = some v ∨ ∃ f, env.functions.get? name = some f ∧ f.toForm = v := by
  rw [env.perm_bindings.mem_iff, List.mem_append, Table.mem_toList_iff, mem_forms_iff]

theorem ascending_forms (env : Environment) : env.forms.Pairwise fun a b => a.1 < b.1 :=
  List.pairwise_map.mpr env.functions.ascending

/-- The names that are listed are the defined ones. -/
theorem mem_names_iff : name ∈ env.bindings.map Prod.fst ↔ env.isDefined name = true := by
  rw [isDefined_iff, List.mem_map]
  constructor
  · rintro ⟨⟨_, v⟩, hmem, rfl⟩
    exact (mem_bindings_iff.mp hmem).imp (⟨v, ·⟩) fun ⟨f, hf, _⟩ => ⟨f, hf⟩
  · rintro (⟨v, hv⟩ | ⟨f, hf⟩)
    · exact ⟨(name, v), mem_bindings_iff.mpr (.inl hv), rfl⟩
    · exact ⟨(name, f.toForm), mem_bindings_iff.mpr (.inr ⟨f, hf, rfl⟩), rfl⟩

/-- The sorting puts no name behind a greater one. -/
theorem sorted_bindings (env : Environment) : env.bindings.Pairwise fun a b => a.1 ≤ b.1 := by
  have hsorted := @List.pairwise_mergeSort _ (fun a b : String × Value => a.1 ≤ b.1)
    (fun a b c hab hbc =>
      decide_eq_true (String.le_trans (of_decide_eq_true hab) (of_decide_eq_true hbc)))
    (fun a b => by simpa using String.le_total a.1 b.1) (env.values.toList ++ env.forms)
  exact hsorted.imp of_decide_eq_true

variable (hwf : env.WellFormed)
include hwf

/-! ## The two tables -/

theorem WellFormed.functions_get?_eq_none (hv : env.values.get? name = some v) :
    env.functions.get? name = none := by
  have hnone := hwf.once name (by simp [Table.contains, hv])
  simpa [Table.contains] using hnone

/-- No variable is listed as a function. -/
theorem WellFormed.ne_of_mem {a b : String × Value} (ha : a ∈ env.values.toList)
    (hb : b ∈ env.forms) : a.1 ≠ b.1 := by
  intro heq
  obtain ⟨f, hf, -⟩ := mem_forms_iff.mp hb
  have hnone := hwf.functions_get?_eq_none (Table.mem_toList_iff.mp ha)
  rw [heq, hf] at hnone
  cases hnone

theorem WellFormed.nodup_names : (env.bindings.map Prod.fst).Nodup := by
  have hne : ∀ {entries : List (String × Value)}, (entries.Pairwise fun a b => a.1 < b.1) →
      (entries.map Prod.fst).Nodup :=
    fun h => List.pairwise_map.mpr (h.imp String.ne_of_lt)
  rw [(env.perm_bindings.map Prod.fst).nodup_iff, List.map_append, List.nodup_append]
  refine ⟨hne env.values.ascending, hne env.ascending_forms, fun name hname other hother => ?_⟩
  obtain ⟨a, ha, rfl⟩ := List.mem_map.mp hname
  obtain ⟨b, hb, rfl⟩ := List.mem_map.mp hother
  exact hwf.ne_of_mem ha hb

theorem WellFormed.ascending_bindings : env.bindings.Pairwise fun a b => a.1 < b.1 := by
  have hne := List.pairwise_map.mp hwf.nodup_names
  refine (env.sorted_bindings.and hne).imp fun ⟨hle, hne⟩ => ?_
  exact Decidable.byContradiction fun hlt => hne (String.le_antisymm hle (String.not_lt.mp hlt))

/-- The prompt finds the two tables in the listing again. -/
theorem WellFormed.partition_bindings :
    (env.bindings.partition fun b => (env.functions.get? b.1).isSome)
      = (env.forms, env.values.toList) := by
  have hvalues : ∀ b ∈ env.values.toList, (env.functions.get? b.1).isSome = false := by
    intro b hb
    rw [hwf.functions_get?_eq_none (Table.mem_toList_iff.mp hb), Option.isSome_none]
  have hforms : ∀ b ∈ env.forms, (env.functions.get? b.1).isSome = true := by
    intro b hb
    obtain ⟨f, hf, -⟩ := mem_forms_iff.mp hb
    rw [hf, Option.isSome_some]
  rw [List.partition_eq_filter_filter, Prod.mk.injEq]
  constructor
  · refine Table.eq_of_perm (hwf.ascending_bindings.filter _) env.ascending_forms ?_
    refine (env.perm_bindings.filter _).trans (.of_eq ?_)
    have hnone := List.filter_eq_nil_iff.mpr fun b hb => Bool.not_eq_true _ ▸ hvalues b hb
    rw [List.filter_append, hnone, List.filter_eq_self.mpr hforms, List.nil_append]
  · refine Table.eq_of_perm (hwf.ascending_bindings.filter _) env.values.ascending ?_
    refine (env.perm_bindings.filter _).trans (.of_eq ?_)
    have hall : env.values.toList.filter (not ∘ fun b => (env.functions.get? b.1).isSome)
        = env.values.toList := List.filter_eq_self.mpr fun b hb => by simp [hvalues b hb]
    have hnone : env.forms.filter (not ∘ fun b => (env.functions.get? b.1).isSome) = [] :=
      List.filter_eq_nil_iff.mpr fun b hb => by simp [hforms b hb]
    rw [List.filter_append, hall, hnone, List.append_nil]

/-- The prompt shows the variables and the functions under titles of their own. -/
theorem WellFormed.showEnvironment_eq :
    Prompt.showEnvironment env = if env.bindings.isEmpty then .lines ["Environment is empty."]
      else Prompt.showGroup "Variables" env.values.toList
        ++ Prompt.showGroup "Functions" env.forms := by
  rw [Prompt.showEnvironment, hwf.partition_bindings]

/-! ## What names mean -/

omit hwf in
theorem outcome_symbol (hroom : 0 < env.maxDepth) (name : String) :
    ((Evaluation.evaluateAt 0 (.symbol name)).outcome env).1 = env.lookup name := by
  rw [Evaluation.outcome_evaluateAt_step hroom]
  simp [Evaluation.step, Eval.outcome_bind]

/-- Where no call is under way, a name but `nil` means what it is listed with. -/
theorem WellFormed.lookup_iff (hidle : env.calls.isIdle = true) :
    name ≠ "nil" ∧ env.lookup name = .ok v ↔ (name, v) ∈ env.bindings := by
  have hcall := Calls.lookup?_of_isIdle hidle name
  have hname : (name, v) ∈ env.bindings → name ≠ "nil" := fun hmem =>
    (hwf.not_builtin (mem_names_iff.mp (List.mem_map_of_mem hmem))).1
  rw [← and_iff_right_of_imp hname, and_congr_right_iff]
  intro hne
  rw [mem_bindings_iff, lookup, if_neg hne, hcall]
  cases hv : env.values.get? name with
  | some w => simp [hwf.functions_get?_eq_none hv]
  | none => cases env.functions.get? name <;> simp

/-- All that there is to ask about the global bindings agrees. -/
structure Listed (env : Environment) : Prop where
  ascending : env.bindings.Pairwise fun a b => a.1 < b.1
  evaluates : ∀ name v, (name, v) ∈ env.bindings ↔
    name ≠ "nil" ∧ ((Evaluation.evaluateAt 0 (.symbol name)).outcome env).1 = .ok v
  defined : ∀ name, name ∈ env.bindings.map Prod.fst ↔ env.isDefined name = true
  once : (env.bindings.map Prod.fst).Nodup
  /-- The prompt divides the listing into the functions and the variables. -/
  groups : (env.bindings.partition fun b => (env.functions.get? b.1).isSome)
    = (env.forms, env.values.toList)
  cover : (env.values.toList ++ env.forms).Perm env.bindings
  apart : ∀ a ∈ env.values.toList, ∀ b ∈ env.forms, a.1 ≠ b.1
  shown : Prompt.showEnvironment env =
    if env.bindings.isEmpty then .lines ["Environment is empty."]
    else Prompt.showGroup "Variables" env.values.toList ++ Prompt.showGroup "Functions" env.forms

theorem WellFormed.listed (hidle : env.calls.isIdle = true) (hroom : 0 < env.maxDepth) :
    env.Listed where
  ascending := hwf.ascending_bindings
  evaluates name v := by rw [outcome_symbol hroom, hwf.lookup_iff hidle]
  defined _ := mem_names_iff
  once := hwf.nodup_names
  groups := hwf.partition_bindings
  cover := env.perm_bindings.symm
  apart _ ha _ hb := hwf.ne_of_mem ha hb
  shown := hwf.showEnvironment_eq

end Environment

/-- **The listing of the global bindings agrees with evaluation.** Between two requests of a session
with a level to evaluate at, the listing is strictly ascending; it holds a name, other than `nil`,
with a value exactly if the name evaluates to the value; the names in it are the defined ones, each
once; and the prompt divides it into the variables and the functions, with nothing in both. -/
theorem Session.listed_handleAll (reader : Reader.Config) {config : Environment.Config}
    (hroom : 0 < config.maxDepth) (requests : List Request) :
    ((start (.fresh reader config)).handleAll requests).2.Both Environment.Listed := by
  have hlisted : ∀ {env : Environment}, env.WellFormed → env.calls.isIdle = true →
      env.config = config → env.Listed := fun hwf hidle hconfig =>
    hwf.listed hidle (by rwa [← hconfig] at hroom)
  obtain ⟨hcurrent, hkept⟩ := wellFormed_handleAll reader config requests
  obtain ⟨hidle, hidle'⟩ := isIdle_handleAll reader config requests
  obtain ⟨hconfig, hconfig'⟩ := config_handleAll reader config requests
  exact ⟨hlisted hcurrent hidle hconfig, hlisted hkept hidle' hconfig'⟩

/-- A variable and a function: the function is listed as what its name evaluates to. -/
theorem Session.listed_handleAll_definitions :
    let requests := [Request.run "(define b 1)", .run "(define a (lambda (x) x))"]
    let env := ((start (.fresh {} {})).handleAll requests).2.current.environment
    let form := Value.lambdaForm (.list [.symbol "x"]) (.symbol "x")
    0 < ({} : Environment.Config).maxDepth ∧ env.values.toList = [("b", .number (.integer 1))] ∧
      env.forms = [("a", form)] ∧ ("a", form) ∈ env.bindings ∧
      ((Evaluation.evaluateAt 0 (.symbol "a")).outcome env).1 = .ok form := by
  intro requests env form
  have hroom : 0 < ({} : Environment.Config).maxDepth := by decide
  have hvalues : env.values.toList = [("b", .number (.integer 1))] := by decide +kernel
  have hforms : env.forms = [("a", form)] := by decide +kernel
  obtain ⟨hlisted, -⟩ := listed_handleAll {} hroom requests
  have hmem : ("a", form) ∈ env.bindings := by
    rw [← hlisted.cover.mem_iff, hforms]
    exact List.mem_append_right _ List.mem_cons_self
  exact ⟨hroom, hvalues, hforms, hmem, ((hlisted.evaluates "a" form).mp hmem).2⟩

end SmallScheme
