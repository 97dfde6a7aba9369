import SmallScheme.Proofs.Evaluation.Operators
import SmallScheme.Proofs.Evaluation.Reached

/-!
# What evaluations compute

In the course of an evaluation primitives are applied to values (`Evaluation.Computes`). All else
that an evaluation does is to pass values on. So what is carried from lists to their elements and
back holds of everything that an evaluation comes across, if it holds of what it starts with and of
what the primitives answer in this very evaluation (`Evaluation.leaves_of_computes`). It does not
matter what they would answer elsewhere. This is what is added to `Evaluation.content_evaluateAt`.
-/

namespace SmallScheme

namespace Evaluation

variable {good : Value → Prop} {room room' : Nat} {e e' : Value} {env env' : Environment}

/-- A step applies a primitive to the values of its operands. -/
inductive Applies (recur : Value → Eval Value) :
    Value → Environment → Primitive → List Value → Prop
  | intro {name : String} {op : Operator} {p : Primitive} {operands values : List Value}
      {env after : Environment} (hop : Operator.named? name = some op)
      (haction : op.action = .primitive p) (hadmits : op.arity.admits operands.length = true)
      (hvalues : (operands.mapM recur).outcome env = (.ok values, after)) :
      Applies recur (.list (.symbol name :: operands)) env p values

/-- In the course of an evaluation, with so many levels left, a primitive is applied to values. -/
inductive Computes (room : Nat) (e : Value) (env : Environment) : Primitive → List Value → Prop
  | intro {room' : Nat} {e' : Value} {env' : Environment} {p : Primitive} {values : List Value}
      (hreach : Reaches room e env (room' + 1) e' env')
      (happlies : Applies (evaluate room') e' env' p values) : Computes room e env p values

theorem Computes.nested {p : Primitive} {values : List Value}
    (hasks : Asks (step · e) (evaluate room) env e' env') (h : Computes room e' env' p values) :
    Computes (room + 1) e env p values := by
  obtain ⟨hreach, happlies⟩ := h
  exact .intro (.nested hasks hreach) happlies

theorem Computes.of_reaches {p : Primitive} {values : List Value}
    (hreach : Reaches room e env room' e' env') (h : Computes room' e' env' p values) :
    Computes room e env p values := by
  induction hreach with
  | start => exact h
  | nested hasks _ ih => exact (ih h).nested hasks

/-! ## What is passed on -/

theorem exists_passes (good : Value → Prop) (e : Value) (env : Environment) :
    ∃ outcome, Passes good e env outcome :=
  ⟨(.error .operandCount, env), fun _ hholds =>
    .error (Fault.shows_of_shown?_eq_none rfl rfl) hholds trivial⟩

section

variable {recur : Value → Eval Value} {name : String} {op : Operator} {p : Primitive}
variable {operands : List Value}

variable (h : Value.Carried good)
include h

/-- A step that applies no primitive passes on what the evaluator passes on everywhere. -/
theorem passes_plain (hplain : ∀ p, ¬e.Applies p)
    (hrecur : ∀ e env, Passes good e env ((recur e).outcome env)) :
    Passes good e env ((step recur e).outcome env) := by
  intro he hholds
  let c := Comparison.carried h (fun _ => False) nofun (Environment.keeps_true good)
  have hsimulates : ∀ (i : List String) (e : Value), good e →
      c.Simulates i .silent good (recur e) (recur e) := by
    rintro i e he history s _ ⟨rfl, hs, -⟩ -
    obtain ⟨hresult, hfault, hafter, -⟩ := hrecur e s he hs
    generalize (recur e).outcome s = outcome at *
    obtain ⟨fault | v, after⟩ := outcome
    · exact .error ⟨rfl, hfault fault rfl⟩ ⟨rfl, hafter, trivial⟩
    · exact .ok (hresult v rfl) ⟨rfl, hafter, trivial⟩
  have hstep := @Comparison.simulates_step c recur recur (fun _ _ => .silent) hsimulates [] e he
    fun p hp => hplain p hp
  exact .of_agree (hstep [] env env ⟨rfl, hholds, trivial⟩ fun _ _ => trivial)

section

variable (hop : Operator.named? name = some op) (haction : op.action = .primitive p)
variable (hadmits : op.arity.admits operands.length = true)
variable (hasked : ∀ e' env', Asks (step · (.list (.symbol name :: operands))) recur env e' env' →
  Passes good e' env' ((recur e').outcome env'))
include hop haction hadmits hasked

/-- The operands of a primitive are handed over one after the other. -/
theorem leaves_operands (he : good (.list (.symbol name :: operands))) (hholds : env.Holds good) :
    Leaves (fun vs => ∀ v ∈ vs, good v) good (fun _ => True)
      ((operands.mapM recur).outcome env) := by
  have hoperands : ∀ v ∈ operands, good v :=
    fun v hv => (h.list _).mp he v (List.mem_cons_of_mem _ hv)
  have hparts : ∀ e' env', Part.Asks (fun recur => operands.mapM recur) recur env e' env' →
      Passes good e' env' ((recur e').outcome env') := by
    refine fun e' env' hasks => hasked e' env' fun fault => ?_
    simp only [step_primitive hop haction hadmits]
    exact Eval.fails_bind (hasks fault) _
  obtain ⟨other, hother, hsame⟩ := (Part.Determined.mapM Part.Determined.self
    operands).exists_everywhere hparts (exists_passes good)
  rw [← hsame]
  clear hsame hparts he hadmits hasked
  induction operands generalizing env with
  | nil => exact .ok (fun v hv => absurd hv List.not_mem_nil) hholds trivial
  | cons operand rest ih =>
    rw [List.mapM_cons]
    obtain ⟨hfirst, hrest⟩ := List.forall_mem_cons.mp hoperands
    refine (hother operand env hfirst hholds).bind fun hv hholds _ => ?_
    refine (ih hholds hrest).bind fun hvs hholds _ => ?_
    exact .ok (List.forall_mem_cons.mpr ⟨hv, hvs⟩) hholds trivial

/-- A primitive is applied to the values of its operands. -/
theorem passes_primitive
    (hanswer : ∀ {values after v}, (operands.mapM recur).outcome env = (.ok values, after) →
      (∀ w ∈ values, good w) → p.apply values = .ok v → good v) :
    Passes good (.list (.symbol name :: operands)) env
      ((step recur (.list (.symbol name :: operands))).outcome env) := by
  intro he hholds
  have hleaves := leaves_operands h hop haction hadmits hasked he hholds
  rw [step_primitive hop haction hadmits, Eval.outcome_bind]
  rcases hrun : (operands.mapM recur).outcome env with ⟨fault | values, after⟩
  · rw [hrun] at hleaves
    exact .error (hleaves.fault fault rfl) hleaves.holds trivial
  · rw [hrun] at hleaves
    have hvalues := hleaves.result values rfl
    simp only [Eval.outcome_ofExcept]
    cases hv : p.apply values with
    | ok v => exact .ok (hanswer hrun hvalues hv) hleaves.holds trivial
    | error fault => exact .error ((p.shows_of_apply hv).imp hvalues) hleaves.holds trivial

end

variable (hasked : ∀ e' env', Asks (step · e) recur env e' env' →
  Passes good e' env' ((recur e').outcome env'))
variable (hanswer : ∀ {p values v}, Applies recur e env p values → (∀ w ∈ values, good w) →
  p.apply values = .ok v → good v)
include hasked hanswer

/-- A step passes on what all that it hands over passes on, if this is so of the answer of the
primitive that it applies. -/
theorem passes_step : Passes good e env ((step recur e).outcome env) := by
  by_cases hprimitive : ∃ p, e.Applies p
  · obtain ⟨p, _, operands, rfl, name, op, rfl, hop, haction⟩ := hprimitive
    by_cases hadmits : op.arity.admits operands.length = true
    · exact passes_primitive h hop haction hadmits hasked fun hvalues =>
        hanswer (.intro hop haction hadmits hvalues)
    · intro _ hholds
      simp only [step, apply, hop, applyOperator, if_neg hadmits]
      exact .error (Fault.shows_of_shown?_eq_none rfl rfl) hholds trivial
  · obtain ⟨other, hother, hsame⟩ :=
      (Part.determined_step e).exists_everywhere hasked (exists_passes good)
    rw [← hsame]
    exact passes_plain h (not_exists.mp hprimitive) hother

/-- What such a step hands over is of the kind that is passed on, and so are all values in the
environments that it hands it over in. -/
theorem carried_of_asks (he : good e) (hholds : env.Holds good)
    (hasks : Asks (step · e) recur env e' env') : good e' ∧ env'.Holds good := by
  by_contra hbad
  obtain ⟨w, hw⟩ : ∃ w, ¬good w := by
    by_contra hall
    push Not at hall
    exact hbad ⟨hall e', Environment.holds_of_forall hall env'⟩
  -- Failing there with a fault that shows another value, the evaluator would pass on all the same.
  have hpasses : Passes good e env
      ((step (failingAt recur e' env' (.notANumber w)) e).outcome env) := by
    refine passes_step h ?_ ?_
    · intro e'' env'' hasks'
      by_cases hplace : e'' = e' ∧ env'' = env'
      · obtain ⟨rfl, rfl⟩ := hplace
        exact fun he' hholds' => absurd ⟨he', hholds'⟩ hbad
      · rw [outcome_failingAt_of_ne hplace]
        exact hasked e'' env'' ((Part.determined_step e).asks_of_failingAt hplace hasks')
    · rintro p values v ⟨hop, haction, hadmits, hvalues⟩ hgood hv
      rcases (Part.Determined.mapM Part.Determined.self _).fails_or_eq recur env e' env'
        (.notANumber w) with hfails | hsame
      · rw [hvalues] at hfails
        cases hfails
      · exact hanswer (.intro hop haction hadmits (hsame.symm.trans hvalues)) hgood hv
  exact hw (((hpasses he hholds).fault _ (hasks _)).value w rfl)

end

/-! ## What is computed -/

section

variable (h : Value.Carried good)
variable (hanswer : ∀ {p values v}, Computes room e env p values → (∀ w ∈ values, good w) →
  p.apply values = .ok v → good v)
include h hanswer

/-- **What is carried holds of everything that an evaluation leaves behind**, if it holds of what
the evaluation starts with and of what primitives answer in its course. -/
theorem leaves_of_computes : Passes good e env ((evaluate room e).outcome env) := by
  induction room generalizing e env with
  | zero => exact fun _ hholds => .error (Fault.shows_of_shown?_eq_none rfl rfl) hholds trivial
  | succ room ih =>
    refine passes_step h (fun e' env' hasks => ?_) fun happlies => ?_
    · exact ih fun hcomputes => hanswer (hcomputes.nested hasks)
    · exact hanswer (.intro (.start ..) happlies)

/-- It also holds wherever the evaluation comes to. -/
theorem carried_of_reaches (he : good e) (hholds : env.Holds good)
    (hreach : Reaches room e env room' e' env') : good e' ∧ env'.Holds good := by
  induction hreach with
  | start => exact ⟨he, hholds⟩
  | nested hasks _ ih =>
    obtain ⟨he', hholds'⟩ := carried_of_asks h
      (fun e' env' hasks => leaves_of_computes h fun hcomputes => hanswer (hcomputes.nested hasks))
      (fun happlies => hanswer (.intro (.start ..) happlies)) he hholds hasks
    exact ih (fun hcomputes => hanswer (hcomputes.nested hasks)) he' hholds'

/-- It holds of the values that primitives are applied to. -/
theorem carried_of_computes (he : good e) (hholds : env.Holds good) {p : Primitive}
    {values : List Value} (hcomputes : Computes room e env p values) : ∀ v ∈ values, good v := by
  obtain ⟨hreach, hop, haction, hadmits, hvalues⟩ := hcomputes
  obtain ⟨he', hholds'⟩ := carried_of_reaches h hanswer he hholds hreach
  have hleaves := leaves_operands h hop haction hadmits
    (fun e' env' hasks => leaves_of_computes h fun hcomputes =>
      hanswer (.of_reaches hreach (hcomputes.nested hasks))) he' hholds'
  rw [hvalues] at hleaves
  exact hleaves.result values rfl

end

end Evaluation

end SmallScheme
