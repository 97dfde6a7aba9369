import SmallScheme.Proofs.Environment.Binding
import SmallScheme.Proofs.Evaluation.Law

/-!
# What holds of every environment

The global bindings of an environment are well formed (`Environment.WellFormed`) if every name is an
identifier that is bound once, variables hold no lambda forms, and functions can be turned into
their forms and back. This is so of the fresh environment, binding an identifier keeps it so
(`Environment.WellFormed.bind`), and therefore it is so in every session
(`Session.wellFormed_handleAll`), whatever is evaluated and whatever fails.

Evaluation also keeps the configuration (`Evaluation.config_evaluateAt`), and makes no defined name
undefined (`Evaluation.isDefined_evaluateAt`).
-/

namespace SmallScheme

namespace Environment

/-! ## Well-formed bindings -/

/-- The global bindings are in order. -/
structure WellFormed (env : Environment) : Prop where
  /-- No name is bound both to a value and to a function. -/
  once : ∀ name, env.values.contains name = true → env.functions.contains name = false
  identifier : ∀ name, env.isDefined name = true → Identifier.isValid name = true
  /-- Lambda forms are not bound as values. -/
  plain : ∀ name v, env.values.get? name = some v → v.isLambdaForm = false
  /-- Functions can be written as forms and read back. -/
  function : ∀ name f, env.functions.get? name = some f →
    f.params.Nodup ∧ Function.ofForm f.toForm = .ok f

theorem wellFormed_fresh (config : Config) : (fresh config).WellFormed where
  once _ _ := rfl
  identifier _ h := by cases h
  plain _ _ h := by cases h
  function _ _ h := by cases h

variable {env bound : Environment} {name : String} {v : Value}

theorem WellFormed.bind (hwf : env.WellFormed) (hname : Identifier.isValid name = true)
    (h : env.bind name v = .ok bound) : bound.WellFormed where
  once other hother := by
    by_cases heq : other = name
    · subst heq
      rcases bind_cases h with ⟨f, -, -, rfl⟩ | ⟨-, rfl⟩
      · simp [Table.contains] at hother
      · simp [Table.contains]
    · rw [Table.contains, values_bind_of_ne h heq] at hother
      rw [Table.contains, functions_bind_of_ne h heq]
      exact hwf.once other hother
  identifier other hother := by
    by_cases heq : other = name
    · rw [heq]
      exact hname
    · rw [isDefined_bind_of_ne h heq] at hother
      exact hwf.identifier other hother
  plain other w hw := by
    by_cases heq : other = name
    · subst heq
      rcases bind_cases h with ⟨f, -, -, rfl⟩ | ⟨hplain, rfl⟩
      · simp at hw
      · obtain rfl : v = w := by simpa using hw
        exact hplain
    · rw [values_bind_of_ne h heq] at hw
      exact hwf.plain other w hw
  function other g hg := by
    by_cases heq : other = name
    · subst heq
      rcases bind_cases h with ⟨f, hnodup, -, rfl⟩ | ⟨-, rfl⟩
      · obtain rfl : f = g := by simpa using hg
        exact ⟨hnodup, Function.ofForm_eq_ok_iff.mpr ⟨hnodup, rfl⟩⟩
      · simp at hg
    · rw [functions_bind_of_ne h heq] at hg
      exact hwf.function other g hg

/-- No name that the evaluator gives a meaning of its own is ever bound. -/
theorem WellFormed.not_builtin (hwf : env.WellFormed) (h : env.isDefined name = true) :
    name ≠ "nil" ∧ Operator.named? name = none :=
  have hvalid := hwf.identifier name h
  ⟨Identifier.ne_nil_of_isValid hvalid, Identifier.named?_eq_none_of_isValid hvalid⟩

theorem isDefined_bind (h : env.bind name v = .ok bound) {other : String}
    (hother : env.isDefined other = true) : bound.isDefined other = true := by
  by_cases heq : other = name
  · rw [heq]
    exact isDefined_bind_self h
  · rw [isDefined_bind_of_ne h heq]
    exact hother

/-! ## Calls

A call changes neither the global bindings nor the configuration. -/

theorem config_enter (env : Environment) (key : String) (bindings : List (String × Option Value)) :
    (env.enter key bindings).config = env.config := by
  cases hcalls : env.calls <;> simp [config, enter, Calls.enter, Calls.model, hcalls]

theorem config_leave (env : Environment) : env.leave.config = env.config := by
  cases hcalls : env.calls <;> simp [config, leave, Calls.leave, Calls.model, hcalls]

/-! ## Laws -/

theorem law_wellFormed : Law fun before after => before.WellFormed → after.WellFormed where
  refl _ := id
  trans hfirst hsecond := hsecond ∘ hfirst
  bind hname hbound hwf := hwf.bind hname hbound
  within := by
    intro env after key bindings hbody hwf
    have hafter := hbody ⟨hwf.once, hwf.identifier, hwf.plain, hwf.function⟩
    exact ⟨hafter.once, hafter.identifier, hafter.plain, hafter.function⟩

theorem law_config : Law fun before after => after.config = before.config where
  refl _ := rfl
  trans hfirst hsecond := hsecond.trans hfirst
  bind _ hbound := config_bind hbound
  within := by
    intro env after key bindings hbody
    rw [config_leave, hbody, config_enter]

theorem law_isDefined :
    Law fun before after => ∀ name, before.isDefined name = true → after.isDefined name = true where
  refl _ _ := id
  trans hfirst hsecond name := hsecond name ∘ hfirst name
  bind _ hbound _ := isDefined_bind hbound
  within hbody := hbody

end Environment

/-! ## Evaluations and sessions -/

theorem Evaluation.config_evaluateAt (depth : Nat) (e : Value) (env : Environment) :
    ((evaluateAt depth e).outcome env).2.config = env.config :=
  obeys_evaluateAt Environment.law_config depth e env

/-- A name that is defined when an evaluation begins is defined when it ends, or fails. -/
theorem Evaluation.isDefined_evaluateAt {env : Environment} {name : String}
    (h : env.isDefined name = true) (depth : Nat) (e : Value) :
    ((evaluateAt depth e).outcome env).2.isDefined name = true :=
  obeys_evaluateAt Environment.law_isDefined depth e env name h

namespace Session

variable (reader : Reader.Config) (config : Environment.Config) (requests : List Request)

theorem wellFormed_handleAll :
    ((start (.fresh reader config)).handleAll requests).2.Both Environment.WellFormed :=
  both_of_fresh Environment.law_wellFormed id (Environment.wellFormed_fresh config) reader requests

theorem config_handleAll :
    ((start (.fresh reader config)).handleAll requests).2.Both fun env => env.config = config := by
  refine both_of_fresh Environment.law_config ?_ ?_ reader requests
  · intro before after hsame hconfig
    rw [hsame]
    exact hconfig
  · cases config with
    | mk model maxDepth => cases model <;> rfl

end Session

/-- **The global bindings are in order throughout every session**, whatever is evaluated and
whatever fails: names are bound once, only identifiers are bound, hence never `nil` nor the name of
an operator, functions and variables are told apart by their values, and the configuration is the
one that the session began with. And no evaluation makes a defined name undefined. -/
theorem Session.bindings_invariant :
    (∀ (reader : Reader.Config) (config : Environment.Config) (requests : List Request),
      ((start (.fresh reader config)).handleAll requests).2.Both fun env =>
        env.WellFormed ∧
        (∀ name, env.isDefined name = true → name ≠ "nil" ∧ Operator.named? name = none) ∧
        env.config = config) ∧
    ∀ (env : Environment) (depth : Nat) (e : Value) (name : String),
      env.isDefined name = true →
        ((Evaluation.evaluateAt depth e).outcome env).2.isDefined name = true := by
  refine ⟨fun reader config requests => ?_, fun env depth e name hname =>
    Evaluation.isDefined_evaluateAt hname depth e⟩
  obtain ⟨hcurrent, hkept⟩ := wellFormed_handleAll reader config requests
  obtain ⟨hcurrentConfig, hkeptConfig⟩ := config_handleAll reader config requests
  exact ⟨⟨hcurrent, fun _ => hcurrent.not_builtin, hcurrentConfig⟩,
    ⟨hkept, fun _ => hkept.not_builtin, hkeptConfig⟩⟩

/-- A variable that becomes a function stays defined. -/
theorem Session.bindings_invariant_assignment :
    let env : Environment :=
      { Environment.fresh {} with values := Table.empty.insert "x" (.bool true) }
    let e : Value := .list [.symbol "set!", .symbol "x",
      .lambdaForm (.list [.symbol "y"]) (.symbol "y")]
    let after := ((Evaluation.evaluateAt 0 e).outcome env).2
    env.isDefined "x" = true ∧ after.values.contains "x" = false ∧ after.isDefined "x" = true := by
  refine ⟨by decide, by decide, ?_⟩
  exact bindings_invariant.2 _ 0 _ "x" (by decide)

end SmallScheme
