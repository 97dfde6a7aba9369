import SmallScheme.Evaluation.Basic
import SmallScheme.Operator.Primitive

/-!
# Special forms

What the special forms do with their operands as they are written. Each of them gets the evaluator
of nested expressions as `recur`, and evaluates an operand by handing it to `recur` once. `map`
hands over one call for each element, in which the element is quoted.
-/

namespace SmallScheme

/-- The form that a value denotes in the place of a function: itself if it is a lambda form
already, else what it evaluates to. -/
def lambdaOf (recur : Value → Eval Value) (v : Value) : Eval Value :=
  if v.isLambdaForm then pure v else recur v

namespace SpecialForm

variable (recur : Value → Eval Value)

/-- Evaluates operands to truth values until one is decisive. -/
def shortCircuit (decisive : Bool) : List Value → Eval Value
  | [] => pure (.bool !decisive)
  | operand :: rest => do
    let v ← recur operand
    let b ← .ofExcept v.asBool
    if b = decisive then pure (.bool decisive) else shortCircuit decisive rest

def choose (condition consequent alternative : Value) : Eval Value := do
  let v ← recur condition
  let b ← .ofExcept v.asBool
  if b then recur consequent else recur alternative

/-- Replaces the environment by one in which a name is bound, unless binding fails. -/
def bindName (name : String) (v : Value) : Eval Unit := do
  let env ← get
  let bound ← .ofExcept (env.bind name v)
  set bound

/-- Binds a name that is not bound yet. -/
def bindNew (target e : Value) : Eval Value := do
  let name ← .ofExcept (Identifier.ofValue target)
  if (← get).isDefined name then throw (.alreadyDefined name)
  let v ← recur e
  bindName name v
  pure v

/-- Binds a name anew that is bound already. -/
def rebind (target e : Value) : Eval Value := do
  let name ← .ofExcept (Identifier.ofValue target)
  if !(← get).isDefined name then throw (.undefinedName name)
  let v ← recur e
  bindName name v
  pure v

/-- The lambda form of its parts, which must stand for a function. -/
def lambdaForm (params body : Value) : Eval Value := do
  let form := Value.lambdaForm params body
  let _ ← .ofExcept (Function.ofForm form)
  pure form

def requireUnary (f : Function) : Eval Unit :=
  if f.params.length = 1 then pure () else throw .operandCount

/-- What is called for each element: the name of an operator, the name of a function, or a lambda
form. Functions must have one parameter. -/
def mapCallee (f : Value) : Eval Value :=
  match f with
  | .symbol name =>
    if (Operator.named? name).isSome then pure f
    else do
      match ← .ofExcept ((← get).resolve name) with
      | none => throw (.notAFunction f)
      | some function =>
        requireUnary function
        pure f
  | .list _ => do
    let form ← lambdaOf recur f
    let function ← .ofExcept (Function.ofForm form)
    requireUnary function
    pure form
  | _ => throw (.notAFunction f)

/-- Calls a function for each element of a list. -/
def mapOver (f items : Value) : Eval Value := do
  let callee ← mapCallee recur f
  match ← recur items with
  | .list elements =>
    let results ← elements.mapM fun element => recur (.list [callee, .quoted element])
    pure (.list results)
  | v => throw (.notAList v)

def run : SpecialForm → List Value → Eval Value
  | and, operands => shortCircuit recur false operands
  | or, operands => shortCircuit recur true operands
  | map, [f, items] => mapOver recur f items
  | quote, [v] => pure v
  | conditional, [condition, consequent, alternative] =>
    choose recur condition consequent alternative
  | define, [target, e] => bindNew recur target e
  | assign, [target, e] => rebind recur target e
  | lambda, [params, body] => lambdaForm params body
  | _, _ => throw .operandCount

end SpecialForm

end SmallScheme
