import SmallScheme.Proofs.Evaluation.Operators
import SmallScheme.Proofs.Evaluation.Simulation

/-!
# Which names a definition binds

A name is defined after an evaluation if it was defined before or the evaluation has defined it, and
never else: assignments bind no new names, and nothing unbinds a name
(`Evaluation.isDefined_evaluateAt_iff`).

A definition checks that its name is not bound, evaluates its expression, and binds the name to the
result. The check is not repeated, and the expression may define the same name. So a definition
binds a name that is new to the environment it started in; in the environment in which its
expression ended the name is new unless the expression has defined it
(`Evaluation.define_fresh_iff`), in which case that binding is replaced
(`Evaluation.define_replaces_nested`).
-/

namespace SmallScheme

namespace Comparison

/-- A run beside itself, with an account of the names that are defined since it started. -/
def definitions (start : Environment) : Comparison where
  Context := List String
  running := id
  Related _ history s t := s = t ∧ ∀ name,
    s.isDefined name = true ↔ start.isDefined name = true ∨ .define name ∈ history
  limit := fun hrel => .inr (by rw [hrel.1])
  lookup := fun hrel _ => ⟨by rw [hrel.1], fun _ _ => trivial⟩
  resolve := fun hrel _ => ⟨by rw [hrel.1], fun _ _ => trivial⟩
  isDefined := fun hrel _ => by rw [hrel.1]
  define := by
    rintro _ history s _ name v bound bound' ⟨rfl, hnames⟩ _ _ _ _ _ hs ht
    rw [hs] at ht
    cases ht
    refine ⟨rfl, fun other => ?_⟩
    rw [Environment.isDefined_bind_iff hs, hnames other]
    simp [or_assoc]
  assign := by
    rintro _ history since s₀ _ s _ name v bound bound' ⟨rfl, hnames₀⟩ hdefined ⟨rfl, hnames⟩
      _ _ _ _ hs ht
    rw [hs] at ht
    cases ht
    refine ⟨rfl, fun other => ?_⟩
    rw [Environment.isDefined_bind_iff hs, hnames other]
    -- The name was defined when the assignment began, so it is no new one.
    refine or_iff_left_of_imp ?_
    rintro rfl
    exact ((hnames₀ other).mp hdefined).imp_right (List.mem_append_left since)
  apply := by
    rintro _ history s _ a ⟨rfl, hnames⟩ _
    exact ⟨rfl, by simpa using hnames⟩
  operand := by
    rintro _ _ s _ key f operands b ⟨rfl, -⟩ _ _ _
    rfl
  enter := by
    rintro running history s _ key f operands bindings ⟨rfl, hnames⟩ _ _ _ _
    refine ⟨key :: running, rfl, ⟨rfl, hnames⟩, ?_⟩
    rintro _ s' _ ⟨rfl, hnames'⟩
    exact ⟨rfl, hnames'⟩

end Comparison

/-- How a definition succeeds. -/
theorem SpecialForm.outcome_bindNew_ok {recur : Value → Eval Value} {env after : Environment}
    {target e v : Value} (h : (bindNew recur target e).outcome env = (.ok v, after)) :
    ∃ name mid, target = .symbol name ∧ Identifier.isValid name = true ∧
      env.isDefined name = false ∧ (recur e).outcome env = (.ok v, mid) ∧
      mid.bind name v = .ok after := by
  obtain ⟨name, env₀, htarget, hrest⟩ := Eval.outcome_bind_ok h
  rw [Eval.outcome_ofExcept, Prod.mk.injEq] at htarget
  obtain ⟨htarget, rfl⟩ := htarget
  obtain ⟨rfl, hvalid⟩ := Identifier.ofValue_eq_ok_iff.mp htarget
  obtain ⟨seen, env₁, hseen, hrest⟩ := Eval.outcome_bind_ok hrest
  cases hseen
  split at hrest
  · cases hrest
  · next hnew =>
    obtain ⟨w, mid, hvalue, hrest⟩ := Eval.outcome_bind_ok hrest
    obtain ⟨_, bound, hbound, hrest⟩ := Eval.outcome_bind_ok hrest
    cases hrest
    rw [outcome_bindName] at hbound
    refine ⟨name, mid, rfl, hvalid, by simpa using hnew, hvalue, ?_⟩
    split at hbound
    · next heq =>
      cases hbound
      exact heq
    · cases hbound

namespace Evaluation

/-- **The names defined after an evaluation are those defined before and those that it has
defined**, with whatever outcome it ends. -/
theorem isDefined_evaluateAt_iff (depth : Nat) (e : Value) (env : Environment) (name : String) :
    ((evaluateAt depth e).outcome env).2.isDefined name = true ↔
      env.isDefined name = true ∨ .define name ∈ traceAt depth e env := by
  have hagree := Comparison.agree_evaluateAt (c := .definitions env) (i := []) (s := env) depth
    (e := e) rfl ⟨rfl, by simp⟩ rfl trivial fun _ _ => trivial
  exact (hagree.related fun _ => id).2 name

/-- With a level left, a definition is evaluated as what its operator does. -/
theorem outcome_evaluateAt_define {depth : Nat} {env : Environment} (h : depth < env.maxDepth)
    (target e : Value) :
    (evaluateAt depth (.list [.symbol "define", target, e])).outcome env
      = (SpecialForm.bindNew (evaluate (env.maxDepth - (depth + 1))) target e).outcome env := by
  rw [outcome_evaluateAt_step h,
    step_special ⟨"define", .exact 2, .special .define⟩ (by decide) rfl rfl]
  rfl

/-- **A successful definition** has a valid name that was not defined when it began, evaluates its
expression one level deeper, and binds the name to the result in the environment that this leaves.
There the name is defined exactly if the expression has defined it. -/
theorem define_fresh_iff {env after : Environment} {depth : Nat} {target e v : Value}
    (h : (evaluateAt depth (.list [.symbol "define", target, e])).outcome env = (.ok v, after)) :
    ∃ name mid, target = .symbol name ∧ Identifier.isValid name = true ∧
      env.isDefined name = false ∧
      (evaluateAt (depth + 1) e).outcome env = (.ok v, mid) ∧ mid.bind name v = .ok after ∧
      (mid.isDefined name = true ↔ .define name ∈ traceAt (depth + 1) e env) := by
  have hroom : depth < env.maxDepth := by
    by_contra hnone
    have hzero : env.maxDepth - depth = 0 := by omega
    rw [outcome_evaluateAt, hzero] at h
    cases h
  rw [outcome_evaluateAt_define hroom] at h
  obtain ⟨name, mid, rfl, hvalid, hnew, hvalue, hbound⟩ := SpecialForm.outcome_bindNew_ok h
  refine ⟨name, mid, rfl, hvalid, hnew, hvalue, hbound, ?_⟩
  have hnames := isDefined_evaluateAt_iff (depth + 1) e env name
  rw [outcome_evaluateAt, hvalue, hnew] at hnames
  simpa using hnames

/-- The expression of a definition that defines the same name first. -/
theorem define_fresh_iff_nested :
    let env := Environment.fresh {}
    let e : Value := .list [.symbol "list",
      .list [.symbol "define", .symbol "x", .number (.integer 1)], .number (.integer 2)]
    let v : Value := .list [.number (.integer 1), .number (.integer 2)]
    let run := (evaluateAt 0 (.list [.symbol "define", .symbol "x", e])).outcome env
    run = (.ok v, run.2) ∧
      ∃ mid, (evaluateAt 1 e).outcome env = (.ok v, mid) ∧ mid.isDefined "x" = true := by
  intro env e v run
  have hrun : run = (.ok v, run.2) := Prod.ext (by decide) rfl
  obtain ⟨name, mid, hname, -, -, hvalue, -, hfresh⟩ := define_fresh_iff hrun
  cases hname
  exact ⟨hrun, mid, hvalue, hfresh.mpr (by decide)⟩

/-- **Definitions may replace bindings**: not every successful definition binds a name that is new
to the environment in which its expression ended. -/
theorem define_replaces_nested :
    ¬ ∀ (env : Environment) (depth : Nat) (name : String) (e v : Value) (mid after : Environment),
      (evaluateAt depth (.list [.symbol "define", .symbol name, e])).outcome env = (.ok v, after) →
        (evaluateAt (depth + 1) e).outcome env = (.ok v, mid) → mid.isDefined name = false := by
  intro hfresh
  let env := Environment.fresh {}
  let e : Value := .list [.symbol "list",
    .list [.symbol "define", .symbol "x", .number (.integer 1)], .number (.integer 2)]
  let v : Value := .list [.number (.integer 1), .number (.integer 2)]
  have hnew := hfresh env 0 "x" e v ((evaluateAt 1 e).outcome env).2 _
    (Prod.ext (by decide) rfl) (Prod.ext (by decide) rfl)
  revert hnew
  decide

end Evaluation

end SmallScheme
