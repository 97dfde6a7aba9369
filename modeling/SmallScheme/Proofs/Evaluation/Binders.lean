import SmallScheme.Proofs.Evaluation.Content

/-!
# Only definitions and assignments change globals

The words `define` and `set!` are nowhere made: no primitive and no form puts a symbol into a value
that was not in the values it is made of, apart from `quote`, `lambda`'s own word, and the mark of
pairs. So where neither word stands in the expression or in what the environment holds, neither
comes up, though programs may put together the forms that they call. Then all variables and
functions stay as they are, whether the evaluation ends with a result or a fault
(`Evaluation.globals_constant`).
-/

namespace SmallScheme

/-- None of the names stands in the value as a symbol. -/
def Value.Avoids (names : List String) (v : Value) : Prop :=
  ∀ name ∈ names, .symbol name ∉ v.parts

instance (names : List String) (v : Value) : Decidable (v.Avoids names) :=
  inferInstanceAs (Decidable (∀ name ∈ names, _))

namespace Value

variable {names : List String}

theorem avoids_list (items : List Value) :
    Avoids names (.list items) ↔ ∀ v ∈ items, v.Avoids names := by
  simp only [Avoids, mem_parts_list, reduceCtorEq, false_or, not_exists, not_and]
  exact ⟨fun h v hv name hname => h name hname v hv, fun h name hname v hv => h v hv name hname⟩

theorem avoids_symbol {name : String} : Avoids names (.symbol name) ↔ name ∉ names := by
  simp only [Avoids, parts_symbol, List.mem_singleton, symbol.injEq]
  exact ⟨fun h hname => h name hname rfl, fun h other hother heq => h (heq ▸ hother)⟩

theorem avoids_number (n : Number) : Avoids names (.number n) := by
  simp [Avoids]

/-- Evaluation puts no symbols into values but its own. -/
theorem inherited_avoids (hdot : "." ∉ names) (hquote : "quote" ∉ names) :
    Inherited (Avoids names) where
  list := avoids_list
  bool b := by simp [Avoids]
  dot := avoids_symbol.mpr hdot
  quote := avoids_symbol.mpr hquote
  number := by constructor <;> intros <;> exact avoids_number _

end Value

namespace Environment

/-- None of the names stands as a symbol in a variable, in the parameters or the body of a function,
or in a value that a parameter is bound to. -/
structure Avoids (names : List String) (env : Environment) : Prop where
  values : env.values.Each fun _ v => v.Avoids names
  functions : env.functions.Each fun _ f => (∀ param ∈ f.params, param ∉ names) ∧
    f.body.Avoids names
  calls : env.calls.Every (Table.Each fun _ v => v.Avoids names)

variable {names : List String}

theorem Avoids.holds (hdot : "." ∉ names) (hquote : "quote" ∉ names) (hlambda : "lambda" ∉ names)
    {env : Environment} (h : env.Avoids names) : env.Holds (Value.Avoids names) where
  values := h.values
  functions name f hf := by
    obtain ⟨hparams, hbody⟩ := h.functions name f hf
    refine (Value.inherited_avoids hdot hquote).toForm_iff.mpr ⟨Value.avoids_symbol.mpr hlambda, ?_,
      hbody⟩
    exact fun param hparam => Value.avoids_symbol.mpr (hparams param hparam)
  parameters := h.calls

end Environment

/-- The words by which global names are bound. -/
def binders : List String := ["define", "set!"]

/-- Where the words that bind global names do not come up, calls are all that changes, and they bind
no parameters that are called like one of the words. -/
theorem Environment.keeps_globals (env : Environment) :
    Keeps (Value.Avoids binders) fun after =>
      after.values = env.values ∧ after.functions = env.functions ∧
        (env.calls.Every (Table.Each fun name _ => name ∉ binders) →
          after.calls.Every (Table.Each fun name _ => name ∉ binders)) where
  bind hword := by
    rcases hword with hword | hword
    · exact absurd (Value.avoids_symbol.mp hword) (by decide)
    · exact absurd (Value.avoids_symbol.mp hword) (by decide)
  enter := by
    rintro after key bindings ⟨hvalues, hfunctions, hcalls⟩ hnames
    refine ⟨hvalues, hfunctions, fun hstart => ?_⟩
    refine (hcalls hstart).enter Table.each_empty fun table htable => ?_
    refine htable.insertAll fun b hb => ?_
    obtain ⟨binding, hbinding, hb⟩ := List.mem_filterMap.mp hb
    obtain ⟨v, -, rfl⟩ := Option.map_eq_some_iff.mp hb
    exact Value.avoids_symbol.mp (hnames binding hbinding)
  leave := by
    rintro after ⟨hvalues, hfunctions, hcalls⟩
    exact ⟨hvalues, hfunctions, fun hstart => (hcalls hstart).leave⟩

namespace Evaluation

/-- **Only `define` and `set!` change globals.** If neither word stands in the expression or in the
environment, an evaluation leaves all variables and functions as they are, with a result or a fault,
in both models of calls. Neither word stands in the result or in what parameters are bound to
afterwards, and no parameter is called like one if none was. -/
theorem globals_constant {env : Environment} (henv : env.Avoids binders) {e : Value}
    (he : e.Avoids binders) (depth : Nat) :
    let run := (evaluateAt depth e).outcome env
    run.2.values = env.values ∧ run.2.functions = env.functions ∧
      (∀ v, run.1 = .ok v → v.Avoids binders) ∧
      run.2.calls.Every (Table.Each fun _ v => v.Avoids binders) ∧
      (env.calls.Every (Table.Each fun name _ => name ∉ binders) →
        run.2.calls.Every (Table.Each fun name _ => name ∉ binders)) := by
  intro run
  have hinherited : Value.Inherited (Value.Avoids binders) :=
    Value.inherited_avoids (by decide) (by decide)
  have hholds := henv.holds (by decide) (by decide) (by decide)
  have hleaves := content_evaluateAt hinherited env.keeps_globals hholds ⟨rfl, rfl, id⟩ he depth
  obtain ⟨hvalues, hfunctions, hnames⟩ := hleaves.kept
  exact ⟨hvalues, hfunctions, hleaves.result, hleaves.holds.parameters, hnames⟩

/-- In the shared model, a form that is put together and called leaves the bindings of its parameter
behind. -/
theorem globals_constant_assembled :
    let env : Environment := { Environment.fresh ⟨.shared, 256⟩ with
      values := Table.empty.insert "y" (.bool true) }
    let e : Value := .list [
      .list [.symbol "list", .quoted (.symbol "lambda"), .quoted (.list [.symbol "x"]),
        .quoted (.list [.symbol "cons", .symbol "x", .symbol "y"])],
      .number (.integer 1)]
    let run := (evaluateAt 0 e).outcome env
    env.Avoids binders ∧ e.Avoids binders ∧
      run.1 = .ok (.list [.number (.integer 1), .dot, .bool true]) ∧
      run.2.values = env.values ∧ run.2.functions = env.functions ∧
      run.2.calls.Every (Table.Each fun _ v => v.Avoids binders) := by
  intro env e run
  have henv : env.Avoids binders := by
    refine ⟨Table.each_empty.insert (by decide), Table.each_empty, ?_⟩
    exact Calls.every_initial .shared
  have he : e.Avoids binders := by decide
  obtain ⟨hvalues, hfunctions, -, hcalls, -⟩ := globals_constant henv he 0
  exact ⟨henv, he, by decide, hvalues, hfunctions, hcalls⟩

end Evaluation

end SmallScheme
