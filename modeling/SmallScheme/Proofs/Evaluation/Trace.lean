import SmallScheme.Evaluation.Depth

/-!
# What happens during an evaluation

The trace of an evaluation lists the functions that it calls and the names that it defines, in the
order in which this happens (`Evaluation.trace`). It goes with the evaluator from one nested
expression to the next, through the environments that the evaluator passes through, and ends where
the evaluator meets a fault. So there is one log beside each part of the evaluator, and what a log
says of nested expressions comes from a parameter `log`, as their results come from `recur`.

A call is listed when it is requested, which is before its operands are counted or evaluated, and
together with the calls that are under way then.
-/

namespace SmallScheme

/-- The request to call a function. -/
structure Application where
  key : String
  params : List String
  operands : List Value
  /-- The keys of the calls under way, innermost call first. -/
  running : List String
deriving DecidableEq

inductive Event where
  /-- A function is called. -/
  | apply (a : Application)
  /-- A name that was not bound when its definition began has been bound. -/
  | define (name : String)
deriving DecidableEq

/-- What happens during an evaluation, by the environment that it starts in. -/
abbrev Log := Environment → List Event

namespace Log

variable {α β : Type}

def silent : Log := fun _ => []

/-- What happens in an evaluation and then, if it ends with a result, after it. -/
def andThen (log : Log) (x : Eval α) (next : α → Log) : Log := fun env =>
  log env ++
    match x.outcome env with
    | (.ok a, after) => next a after
    | (.error _, _) => []

/-- What happens after a look at the environment, if that finds a result. -/
def query (look : Environment → Except Fault α) (next : α → Log) : Log := fun env =>
  match look env with
  | .ok a => next a env
  | .error _ => []

/-- What happens in one evaluation after the other. -/
def each (log : α → Log) (f : α → Eval β) : List α → Log
  | [] => silent
  | a :: as => (log a).andThen (f a) fun _ => each log f as

end Log

section

variable (recur : Value → Eval Value) (log : Value → Log)

def lambdaOfLog (v : Value) : Log :=
  if v.isLambdaForm then .silent else log v

namespace SpecialForm

def shortCircuitLog (decisive : Bool) : List Value → Log
  | [] => .silent
  | operand :: rest =>
    (log operand).andThen (recur operand) fun v =>
      .query (fun _ => v.asBool) fun b =>
        if b = decisive then .silent else shortCircuitLog decisive rest

def chooseLog (condition consequent alternative : Value) : Log :=
  (log condition).andThen (recur condition) fun v =>
    .query (fun _ => v.asBool) fun b => if b then log consequent else log alternative

def bindNewLog (target e : Value) : Log :=
  .query (fun _ => Identifier.ofValue target) fun name env =>
    if env.isDefined name then []
    else
      (log e).andThen (recur e) (fun v =>
        Log.silent.andThen (bindName name v) fun _ _ => [.define name]) env

def rebindLog (target e : Value) : Log :=
  .query (fun _ => Identifier.ofValue target) fun name env =>
    if !env.isDefined name then [] else log e env

def mapCalleeLog (f : Value) : Log :=
  match f with
  | .list _ => lambdaOfLog log f
  | _ => .silent

def mapOverLog (f items : Value) : Log :=
  (mapCalleeLog log f).andThen (mapCallee recur f) fun callee =>
    (log items).andThen (recur items) fun v =>
      match v with
      | .list elements =>
        .each (fun element => log (.list [callee, .quoted element]))
          (fun element => recur (.list [callee, .quoted element])) elements
      | _ => .silent

def runLog : SpecialForm → List Value → Log
  | and, operands => shortCircuitLog recur log false operands
  | or, operands => shortCircuitLog recur log true operands
  | map, [f, items] => mapOverLog recur log f items
  | conditional, [condition, consequent, alternative] =>
    chooseLog recur log condition consequent alternative
  | define, [target, e] => bindNewLog recur log target e
  | assign, [target, e] => rebindLog log target e
  | _, _ => .silent

end SpecialForm

namespace Evaluation

def applyOperatorLog (op : Operator) (operands : List Value) : Log :=
  if op.arity.admits operands.length then
    match op.action with
    | .primitive _ => .each log recur operands
    | .special form => form.runLog recur log operands
  else .silent

def bindOperandLog (param : String) (operand : Value) : Log := fun env =>
  if env.calls.model = .shared ∧ operand.isSymbol param then [] else log operand env

end Evaluation

end

namespace Evaluation

section

variable (recur : Value → Eval Value) (log : List String → Value → Log) (running : List String)

def operandsLog (f : Function) (operands : List Value) : Log :=
  .each (fun b => bindOperandLog (log running) b.1 b.2) (fun b => bindOperand recur b.1 b.2)
    (f.params.zip operands)

/-- What happens in the body of a call happens while that call is under way too. -/
def bodyLog (key : String) (f : Function) (bindings : List (String × Option Value)) : Log :=
  fun env => log (key :: running) f.body (env.enter key bindings)

/-- What happens in a call once it has been requested. -/
def servedLog (key : String) (f : Function) (operands : List Value) : Log :=
  if operands.length ≠ f.params.length then .silent
  else
    (operandsLog recur log running f operands).andThen
      ((f.params.zip operands).mapM fun b => bindOperand recur b.1 b.2)
      (bodyLog log running key f)

def callLog (key : String) (f : Function) (operands : List Value) : Log := fun env =>
  .apply ⟨key, f.params, operands, running⟩ :: servedLog recur log running key f operands env

def applyLog (head : Value) (operands : List Value) : Log :=
  match head with
  | .symbol name =>
    match Operator.named? name with
    | some op => applyOperatorLog recur (log running) op operands
    | none =>
      .query (·.resolve name) fun found =>
        match found with
        | some f => callLog recur log running name f operands
        | none => .silent
  | .list _ =>
    (lambdaOfLog (log running) head).andThen (lambdaOf recur head) fun form =>
      if !form.isLambdaForm then .silent
      else
        .query (fun _ => Function.ofForm form) fun f =>
          .query (fun _ => formKey form) fun key => callLog recur log running key f operands
  | _ => .silent

def stepLog (e : Value) : Log :=
  match e with
  | .list (head :: operands) => applyLog recur log running head operands
  | _ => .silent

end

/-- What happens in the evaluation of an expression with so many levels left, while calls are under
way. -/
def trace : Nat → List String → Value → Log
  | 0, _, _ => .silent
  | room + 1, running, e => stepLog (evaluate room) (trace room) running e

/-- What happens in the evaluation of an expression at a depth, from an environment in which no call
is under way or as if none were. -/
def traceAt (depth : Nat) (e : Value) : Log := fun env =>
  trace (env.maxDepth - depth) [] e env

theorem outcome_evaluateAt (depth : Nat) (e : Value) (env : Environment) :
    (evaluateAt depth e).outcome env = (evaluate (env.maxDepth - depth) e).outcome env := rfl

end Evaluation

end SmallScheme
