import SmallScheme.Interpreter.Session

/-!
# The evaluations of a session

A session evaluates the expressions that its requests bring, one after the other, each in the
environment that the session has come to by then. These are the turns of the session. Of several
expressions in one text, those behind the first that fails get no turn.
-/

namespace SmallScheme

/-- The expressions that a request asks to be evaluated. -/
def Request.expressions (reader : Reader.Config) : Request → List Value
  | run text => (Reader.readOne reader text).toOption.toList
  | runAll text => (Reader.readAll reader text).toOption.getD []
  | evaluate e => [e]
  | read _ | bindings | query _ | config | save | restore => []

namespace Interpreter

theorem evaluateEach_cons (i : Interpreter) (e : Value) (rest : List Value) :
    i.evaluateEach (e :: rest) = match i.evaluate e with
      | (.ok v, next) => ((next.evaluateEach rest).1.map (v :: ·), (next.evaluateEach rest).2)
      | (.error fault, next) => (.error fault, next) := by
  unfold evaluateEach evaluate
  rw [List.mapM_cons, Eval.outcome_bind]
  rcases (Evaluation.evaluateAt 0 e).outcome i.environment with ⟨_ | v, after⟩
  · rfl
  · simp only [Eval.outcome_bind]
    rcases (rest.mapM (Evaluation.evaluateAt 0)).outcome after with ⟨_ | vs, last⟩ <;> rfl

/-- The expressions that are evaluated, in order up to the first fault, each with the environment
that it is evaluated in. -/
def turns (i : Interpreter) : List Value → List (Value × Environment)
  | [] => []
  | e :: es => (e, i.environment) ::
    match i.evaluate e with
    | (.ok _, next) => next.turns es
    | (.error _, _) => []

end Interpreter

namespace Session

/-- The expressions that are evaluated in a session, each with the environment that it is evaluated
in. -/
def turns (s : Session) : List Request → List (Value × Environment)
  | [] => []
  | request :: rest =>
    s.current.turns (request.expressions s.current.reader) ++ (s.handle request).2.turns rest

theorem turns_append (s : Session) (requests more : List Request) :
    s.turns (requests ++ more) = s.turns requests ++ (s.handleAll requests).2.turns more := by
  induction requests generalizing s with
  | nil => rfl
  | cons request rest ih =>
    rw [List.cons_append, turns, ih, turns, List.append_assoc]
    rfl

end Session

end SmallScheme
