import SmallScheme.Evaluation.Forms

/-!
# Evaluation to a limited depth

`step` says how one expression is evaluated, given the evaluator of the expressions nested in it.
Every nested expression is evaluated exactly one level deeper, whatever it is nested in. So the
evaluator is `step` tied to itself through the number of levels that are left, and fails where none
is left.
-/

namespace SmallScheme

namespace Evaluation

section Step

variable (recur : Value → Eval Value)

def applyOperator (op : Operator) (operands : List Value) : Eval Value :=
  if op.arity.admits operands.length then
    match op.action with
    | .primitive p => do
      let values ← operands.mapM recur
      .ofExcept (p.apply values)
    | .special form => form.run recur operands
  else throw .operandCount

/-- The binding of a parameter. Under the shared model an operand that is the parameter itself is
left alone. -/
def bindOperand (param : String) (operand : Value) : Eval (String × Option Value) := do
  if (← get).calls.model = .shared ∧ operand.isSymbol param then pure (param, none)
  else
    let v ← recur operand
    pure (param, some v)

/-- Calls a function: the operands are evaluated in the context of the caller, in order, and the
body in the context of the call. -/
def call (key : String) (f : Function) (operands : List Value) : Eval Value := do
  if operands.length ≠ f.params.length then throw .operandCount
  let bindings ← (f.params.zip operands).mapM fun (param, operand) =>
    bindOperand recur param operand
  Eval.within key bindings (recur f.body)

/-- The key of a call of a form: its text. -/
def formKey (form : Value) : Except Fault String :=
  match form.text? with
  | some text => .ok (String.ofList text)
  | none => .error (.unprintable form)

def apply (head : Value) (operands : List Value) : Eval Value :=
  match head with
  | .symbol name =>
    match Operator.named? name with
    | some op => applyOperator recur op operands
    | none => do
      match ← .ofExcept ((← get).resolve name) with
      | some f => call recur name f operands
      | none => throw (.unsupportedOperator name)
  | .list _ => do
    let form ← lambdaOf recur head
    if !form.isLambdaForm then throw (.notALambda head)
    let f ← .ofExcept (Function.ofForm form)
    let key ← .ofExcept (formKey form)
    call recur key f operands
  | _ => throw (.notAnOperator head)

/-- Evaluates an expression, given the evaluator of nested expressions. -/
def step (e : Value) : Eval Value :=
  match e with
  | .symbol name => do
    .ofExcept ((← get).lookup name)
  | .list (head :: operands) => apply recur head operands
  | _ => pure e

end Step

/-- Evaluates an expression with so many levels left. -/
def evaluate : Nat → Value → Eval Value
  | 0, _ => do
    throw (.depthLimit (← get).maxDepth)
  | room + 1, e => step (evaluate room) e

/-- Evaluates an expression at a depth: as many levels are left as the limit of the environment
exceeds the depth by. -/
def evaluateAt (depth : Nat) (e : Value) : Eval Value := do
  evaluate ((← get).maxDepth - depth) e

/-- Runs a special form at a depth: its operands are one level deeper. -/
def runFormAt (depth : Nat) (form : SpecialForm) (operands : List Value) : Eval Value := do
  form.run (evaluate ((← get).maxDepth - (depth + 1))) operands

end Evaluation

end SmallScheme
