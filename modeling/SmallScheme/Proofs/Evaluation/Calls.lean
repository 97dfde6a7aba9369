import SmallScheme.Proofs.Environment.Binding
import SmallScheme.Proofs.Evaluation.Law

/-!
# Evaluation restores the calls under way

Whatever is evaluated, and however it ends, the calls under way afterwards are those under way
before: every call that was entered has been left, and no leaving has ended another call
(`Evaluation.calls_restored`). The proof is that being left with the same calls is a law
(`law_underWay`). So no call is under way between two requests of a session.

What the calls of the shared model have bound is not restored, and is left out of `Calls.underWay`.
-/

namespace SmallScheme

/-! ## Calls under way -/

namespace Calls

/-- The calls that have been entered and not left: the bindings of each in the model of frames, the
key of each in the shared model. -/
def underWay : Calls → List (Table Value) ⊕ List String
  | frames stack => .inl stack
  | shared _ active => .inr active

def isIdle (calls : Calls) : Bool :=
  calls.underWay.elim List.isEmpty List.isEmpty

@[simp] theorem isIdle_initial (model : CallModel) : (initial model).isIdle = true := by
  cases model <;> rfl

theorem underWay_leave (calls : Calls) :
    calls.leave.underWay = calls.underWay.map List.tail List.tail := by
  cases calls <;> rfl

theorem underWay_enter (calls : Calls) (key : String) (bindings : List (String × Option Value)) :
    (calls.enter key bindings).underWay.map List.tail List.tail = calls.underWay := by
  cases calls <;> rfl

end Calls

/-! ## Evaluation -/

theorem law_underWay :
    Law fun before after => after.calls.underWay = before.calls.underWay where
  refl _ := rfl
  trans hfirst hsecond := hsecond.trans hfirst
  bind _ hbound := congrArg Calls.underWay (Environment.calls_bind hbound)
  within := by
    intro env after key bindings hbody
    calc after.leave.calls.underWay
        = after.calls.underWay.map List.tail List.tail := Calls.underWay_leave after.calls
      _ = (env.enter key bindings).calls.underWay.map List.tail List.tail := by rw [hbody]
      _ = env.calls.underWay := Calls.underWay_enter env.calls key bindings

/-- No call is under way between two requests. -/
theorem Session.isIdle_handleAll (reader : Reader.Config) (config : Environment.Config)
    (requests : List Request) :
    ((start (.fresh reader config)).handleAll requests).2.Both fun env =>
      env.calls.isIdle = true := by
  -- Being idle is no law by itself, since a body runs while its call is under way.
  have hkeeps : ∀ {before after : Environment},
      after.calls.underWay = before.calls.underWay →
        before.calls.isIdle = true → after.calls.isIdle = true := by
    intro before after hsame hidle
    rw [Calls.isIdle, hsame]
    exact hidle
  exact both_of_fresh law_underWay hkeeps (Calls.isIdle_initial config.model) reader requests

/-- **Evaluation restores the call context**: the calls under way after an evaluation are those
before it, in every environment, at every depth and with every outcome, so that no call is under
way between the requests of a session. -/
theorem Evaluation.calls_restored :
    (∀ (env : Environment) (depth : Nat) (e : Value),
      ((evaluateAt depth e).outcome env).2.calls.underWay = env.calls.underWay) ∧
    ∀ (reader : Reader.Config) (config : Environment.Config) (requests : List Request),
      ((Session.start (.fresh reader config)).handleAll requests).2.Both fun env =>
        env.calls.isIdle = true := by
  refine ⟨?_, ?_⟩
  · intro env depth e
    exact obeys_evaluateAt law_underWay depth e env
  · intro reader config requests
    exact Session.isIdle_handleAll reader config requests

end SmallScheme
