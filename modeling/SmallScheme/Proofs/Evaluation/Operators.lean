import SmallScheme.Proofs.Evaluation.Comparison

/-!
# Operators at work

With a level left, an expression is evaluated by one step, and the expressions nested in it one
level deeper (`Evaluation.outcome_evaluateAt_step`). A step on the name of an operator and as many
operands as it takes does what the operator does: a primitive gets the values of the operands
(`Evaluation.step_primitive`), and a special form runs on the operands as they are written
(`Evaluation.step_special`).
-/

namespace SmallScheme.Evaluation

variable {depth : Nat} {env : Environment}

theorem outcome_evaluateAt_of_le (h : env.maxDepth ≤ depth) (e : Value) :
    (evaluateAt depth e).outcome env = (.error (.depthLimit env.maxDepth), env) := by
  rw [outcome_evaluateAt, Nat.sub_eq_zero_of_le h]
  rfl

theorem outcome_evaluateAt_step (h : depth < env.maxDepth) (e : Value) :
    (evaluateAt depth e).outcome env
      = (step (evaluate (env.maxDepth - (depth + 1))) e).outcome env := by
  have hleft : env.maxDepth - depth = env.maxDepth - (depth + 1) + 1 := by omega
  rw [outcome_evaluateAt, hleft, evaluate]

variable {recur : Value → Eval Value} {name : String} {op : Operator} {operands : List Value}

theorem step_primitive {p : Primitive} (hop : Operator.named? name = some op)
    (haction : op.action = .primitive p) (hadmits : op.arity.admits operands.length = true) :
    step recur (.list (.symbol name :: operands))
      = operands.mapM recur >>= fun values => .ofExcept (p.apply values) := by
  simp only [step, apply, hop, applyOperator, hadmits, if_true, haction]

theorem step_special {form : SpecialForm} (op : Operator) (hop : Operator.named? name = some op)
    (haction : op.action = .special form) (hadmits : op.arity.admits operands.length = true) :
    step recur (.list (.symbol name :: operands)) = form.run recur operands := by
  simp only [step, apply, hop, applyOperator, hadmits, if_true, haction]

/-- A quoted value is not evaluated, whatever the evaluator is. -/
theorem step_quoted (v : Value) : step recur (.quoted v) = pure v :=
  step_special ⟨"quote", .exact 1, .special .quote⟩ (by decide) rfl rfl

end SmallScheme.Evaluation
