import SmallScheme.Proofs.Evaluation.Binders

/-!
# Unrelated definitions do not matter

A global binding of a name that stands nowhere as a symbol, neither in the expression nor in what
the environment holds, is unseen: with it and without it, an evaluation has the same result or the
same fault, and leaves the same environment up to that binding
(`Evaluation.unrelated_definition_unseen`). What the name is bound to may be anything. Its parts do
not come up either, so nothing is assumed of the symbols in it.

The proof runs the evaluator in both environments side by side. Symbols are not made by evaluation
(`Value.inherited_avoids`), so the name never stands where it would be looked up, called, defined or
assigned to. It must be one that can be bound: the words of the evaluator itself, such as `quote`,
are put into forms by `map`.
-/

namespace SmallScheme

/-! ## One more global binding -/

/-- What a name may be bound to globally: to a value as a variable, or to a function. -/
inductive Definition where
  | value (v : Value)
  | function (f : Function)

namespace Definition

/-- The value that the name means. -/
def toValue : Definition → Value
  | value v => v
  | function f => f.toForm

/-- Forms are bound as functions, and functions have distinct parameters. -/
def IsProper : Definition → Prop
  | value v => v.isLambdaForm = false
  | function f => f.params.Nodup

end Definition

namespace Environment

/-- The environment with one more global binding. -/
def withDefinition (env : Environment) (name : String) : Definition → Environment
  | .value v => { env with values := env.values.insert name v }
  | .function f => { env with functions := env.functions.insert name f }

section

variable (env : Environment) {name other : String} (d : Definition)

@[simp] theorem calls_withDefinition : (env.withDefinition name d).calls = env.calls := by
  cases d <;> rfl

@[simp] theorem maxDepth_withDefinition :
    (env.withDefinition name d).maxDepth = env.maxDepth := by
  cases d <;> rfl

@[simp] theorem enter_withDefinition (key : String) (bindings : List (String × Option Value)) :
    (env.withDefinition name d).enter key bindings
      = (env.enter key bindings).withDefinition name d := by
  cases d <;> rfl

@[simp] theorem leave_withDefinition :
    (env.withDefinition name d).leave = env.leave.withDefinition name d := by
  cases d <;> rfl

theorem values_withDefinition_of_ne (h : other ≠ name) :
    (env.withDefinition name d).values.get? other = env.values.get? other := by
  cases d with
  | value v => exact Table.get?_insert_of_ne _ h v
  | function f => rfl

theorem functions_withDefinition_of_ne (h : other ≠ name) :
    (env.withDefinition name d).functions.get? other = env.functions.get? other := by
  cases d with
  | value v => rfl
  | function f => exact Table.get?_insert_of_ne _ h f

theorem lookup_withDefinition_of_ne (h : other ≠ name) :
    (env.withDefinition name d).lookup other = env.lookup other := by
  simp only [lookup, calls_withDefinition, values_withDefinition_of_ne env d h,
    functions_withDefinition_of_ne env d h]

theorem resolve_withDefinition_of_ne (h : other ≠ name) :
    (env.withDefinition name d).resolve other = env.resolve other := by
  simp only [resolve, calls_withDefinition, functions_withDefinition_of_ne env d h]

theorem isDefined_withDefinition_of_ne (h : other ≠ name) :
    (env.withDefinition name d).isDefined other = env.isDefined other := by
  simp only [isDefined, Table.contains, values_withDefinition_of_ne env d h,
    functions_withDefinition_of_ne env d h]

end

variable {env bound bound' : Environment} {name other : String} {v : Value}

/-- Another name is bound beside the one more binding as it is bound without it. -/
theorem bind_withDefinition_of_ne {d : Definition} (h : other ≠ name)
    (hbound : env.bind other v = .ok bound)
    (hbound' : (env.withDefinition name d).bind other v = .ok bound') :
    bound' = bound.withDefinition name d := by
  rcases bind_both hbound hbound' with ⟨f, -, rfl, rfl⟩ | ⟨-, rfl, rfl⟩ <;> cases d
  · simp only [withDefinition, Table.erase_insert_of_ne _ h.symm]
  · simp only [withDefinition, Table.insert_insert_of_ne _ h.symm]
  · simp only [withDefinition, Table.insert_insert_of_ne _ h.symm]
  · simp only [withDefinition, Table.erase_insert_of_ne _ h.symm]

/-- To bind a name that is not defined is to add one binding. -/
theorem bind_eq_ok_iff_of_new (hnew : env.isDefined name = false) :
    env.bind name v = .ok bound ↔
      ∃ d : Definition, d.IsProper ∧ d.toValue = v ∧ bound = env.withDefinition name d := by
  simp only [isDefined, Bool.or_eq_false_iff, Table.contains, Option.isSome_eq_false_iff,
    Option.isNone_iff_eq_none] at hnew
  have hvalues := Table.erase_eq_self hnew.1
  have hfunctions := Table.erase_eq_self hnew.2
  constructor
  · intro h
    rcases bind_cases h with ⟨f, hnodup, rfl, rfl⟩ | ⟨hplain, rfl⟩
    · exact ⟨.function f, hnodup, rfl, by rw [hvalues]; rfl⟩
    · exact ⟨.value v, hplain, rfl, by rw [hfunctions]; rfl⟩
  · rintro ⟨d, hproper, rfl, rfl⟩
    cases d with
    | value v =>
      have hplain : v.isLambdaForm = false := hproper
      simp [bind, Definition.toValue, withDefinition, hplain, hfunctions]
    | function f =>
      have hform : Function.ofForm f.toForm = .ok f :=
        Function.ofForm_eq_ok_iff.mpr ⟨hproper, rfl⟩
      have hlambda : f.toForm.isLambdaForm = true := Value.isLambdaForm_lambdaForm ..
      simp only [bind, Definition.toValue, withDefinition, hlambda, hform, hvalues, if_true]
      rfl

end Environment

/-! ## Two runs -/

/-- A word that cannot be bound is not a name that can be bound. -/
theorem Identifier.notMem_singleton {name word : String} (hvalid : isValid name = true)
    (hword : isValid word = false) : word ∉ [name] := by
  intro hmem
  rw [List.mem_singleton.mp hmem, hvalid] at hword
  cases hword

theorem Value.ne_of_avoids {name other : String} (h : Avoids [name] (.symbol other)) :
    other ≠ name := by
  simpa using avoids_symbol.mp h

namespace Environment

/-- One environment with and without a global binding of a name that stands nowhere in it. -/
structure Extended (name : String) (d : Definition) (s t : Environment) : Prop where
  eq : t = s.withDefinition name d
  new : s.isDefined name = false
  holds : s.Holds (Value.Avoids [name])

theorem Extended.bind {name other : String} {d : Definition} {s t bound bound' : Environment}
    {v : Value} (h : Extended name d s t) (hother : Value.Avoids [name] (.symbol other))
    (hv : v.Avoids [name]) (hs : s.bind other v = .ok bound) (ht : t.bind other v = .ok bound') :
    Extended name d bound bound' := by
  obtain ⟨rfl, hnew, hholds⟩ := h
  have hne := Value.ne_of_avoids hother
  refine ⟨bind_withDefinition_of_ne hne hs ht, ?_, hholds.bind hv hs⟩
  rw [isDefined_bind_of_ne hs hne.symm, hnew]

end Environment

/-- A run beside one with one more global binding, of a name that does not come up. -/
def Comparison.withDefinition {name : String} (h : Value.Inherited (Value.Avoids [name]))
    (d : Definition) : Comparison where
  Context := List String
  running := id
  Related _ _ s t := s.Extended name d t
  Good := Value.Avoids [name]
  good_bool := h.bool
  good_list := h.list
  good_quote := h.quote
  good_primitive {p} _ _ _ hvalues hv := p.inherited_apply h hvalues hv
  limit := by
    rintro _ _ s _ ⟨rfl, -, -⟩
    exact .inr (by rw [Environment.maxDepth_withDefinition])
  lookup := by
    rintro _ _ s _ other ⟨rfl, -, hholds⟩ hother
    refine ⟨?_, fun v => hholds.lookup ((h.list []).mpr (by simp))⟩
    exact (s.lookup_withDefinition_of_ne d (Value.ne_of_avoids hother)).symm
  resolve := by
    rintro _ _ s _ other ⟨rfl, -, hholds⟩ hother
    refine ⟨?_, fun f => hholds.resolve⟩
    exact (s.resolve_withDefinition_of_ne d (Value.ne_of_avoids hother)).symm
  resolve_error hrel _ hfault := hrel.holds.resolve_error (fun items => (h.list items).mp) hfault
  isDefined := by
    rintro _ _ s _ other ⟨rfl, -, -⟩ hother
    exact (s.isDefined_withDefinition_of_ne d (Value.ne_of_avoids hother)).symm
  define hrel _ _ hother hv _ hs ht := hrel.bind hother hv hs ht
  assign _ _ hrel _ hother hv _ hs ht := hrel.bind hother hv hs ht
  apply hrel _ := hrel
  operand := by
    rintro _ _ s _ key f operands b ⟨rfl, -, -⟩ _ _ _
    rw [Environment.calls_withDefinition]
  enter := by
    rintro running _ s _ key f operands bindings ⟨rfl, hnew, hholds⟩ _ _ _ hbindings
    have hbound : (s.enter key bindings).Holds (Value.Avoids [name]) :=
      hholds.enter key fun b hb => (Bound.of_mem hbindings b hb).2
    refine ⟨key :: running, rfl, ⟨s.enter_withDefinition d key bindings, hnew, hbound⟩, ?_⟩
    rintro _ s' _ ⟨rfl, hnew', hholds'⟩
    exact ⟨s'.leave_withDefinition d, hnew', hholds'.leave⟩

namespace Evaluation

/-- **Unrelated definitions do not matter.** If a name that can be bound is not defined, and stands
as a symbol neither in the expression nor in the environment, then with any global binding of it an
evaluation ends as it does without, in both models of calls, and leaves the same environment with
that one binding more. This is what becomes of the environment if any value is bound to the name
beforehand. -/
theorem unrelated_definition_unseen {name : String} (hvalid : Identifier.isValid name = true)
    {env : Environment} (hnew : env.isDefined name = false) (henv : env.Avoids [name]) {e : Value}
    (he : e.Avoids [name]) (depth : Nat) :
    let run := (evaluateAt depth e).outcome env
    run.2.isDefined name = false ∧
      (∀ d, (evaluateAt depth e).outcome (env.withDefinition name d)
        = (run.1, run.2.withDefinition name d)) ∧
      ∀ v extended, env.bind name v = .ok extended →
        ∃ extended', run.2.bind name v = .ok extended' ∧
          (evaluateAt depth e).outcome extended = (run.1, extended') := by
  intro run
  have hdot : "." ∉ [name] := Identifier.notMem_singleton hvalid (by decide)
  have hquote : "quote" ∉ [name] := Identifier.notMem_singleton hvalid (by decide)
  have hlambda : "lambda" ∉ [name] := Identifier.notMem_singleton hvalid (by decide)
  have hruns : ∀ d, (evaluateAt depth e).outcome (env.withDefinition name d)
      = (run.1, run.2.withDefinition name d) ∧ run.2.isDefined name = false := by
    intro d
    have hrel : env.Extended name d (env.withDefinition name d) :=
      ⟨rfl, hnew, henv.holds hdot hquote hlambda⟩
    have hagree := Comparison.agree_evaluateAt
      (c := .withDefinition (Value.inherited_avoids hdot hquote) d) (i := []) (e := e) depth rfl hrel
      (env.maxDepth_withDefinition d) he fun _ _ => trivial
    have hresult := hagree.result_eq (fun _ => id) fun _ _ => id
    have hafter := hagree.related fun _ => id
    exact ⟨Prod.ext hresult.symm hafter.eq, hafter.new⟩
  have hnew' := (hruns (.value .nil)).2
  refine ⟨hnew', fun d => (hruns d).1, fun v extended hextended => ?_⟩
  obtain ⟨d, hproper, hv, rfl⟩ := (Environment.bind_eq_ok_iff_of_new hnew).mp hextended
  exact ⟨_, (Environment.bind_eq_ok_iff_of_new hnew').mpr ⟨d, hproper, hv, rfl⟩, (hruns d).1⟩

/-- A function is called, a variable is assigned to and another one is defined beside a definition
of `z`, which names itself and what is called. -/
theorem unrelated_definition_unseen_function :
    let env : Environment := { Environment.fresh ⟨.shared, 256⟩ with
      values := Table.empty.insert "y" (.bool true)
      functions := Table.empty.insert "f"
        ⟨["x"], .list [.symbol "set!", .symbol "y", .list [.symbol "cons", .symbol "x", .symbol "y"]]⟩ }
    let e : Value := .list [.symbol "define", .symbol "w",
      .list [.symbol "f", .number (.integer 1)]]
    let v : Value := .lambdaForm (.list [.symbol "y"]) (.list [.symbol "f", .symbol "z"])
    let run := (evaluateAt 0 e).outcome env
    Identifier.isValid "z" = true ∧ env.isDefined "z" = false ∧ env.Avoids ["z"] ∧
      e.Avoids ["z"] ∧ run.1 = .ok (.list [.number (.integer 1), .dot, .bool true]) ∧
      ∃ extended extended', env.bind "z" v = .ok extended ∧ run.2.bind "z" v = .ok extended' ∧
        (evaluateAt 0 e).outcome extended = (run.1, extended') := by
  intro env e v run
  have hvalid : Identifier.isValid "z" = true := by decide
  have hnew : env.isDefined "z" = false := by decide
  have henv : env.Avoids ["z"] := by
    refine ⟨Table.each_empty.insert (by decide), Table.each_empty.insert (by decide), ?_⟩
    exact Calls.every_initial .shared
  have he : e.Avoids ["z"] := by decide
  obtain ⟨extended, hextended⟩ : ∃ extended, env.bind "z" v = .ok extended := ⟨_, rfl⟩
  obtain ⟨-, -, hbind⟩ := unrelated_definition_unseen hvalid hnew henv he 0
  obtain ⟨extended', hextended', hrun⟩ := hbind v extended hextended
  exact ⟨hvalid, hnew, henv, he, by decide, extended, extended', hextended, hextended', hrun⟩

end Evaluation

end SmallScheme
