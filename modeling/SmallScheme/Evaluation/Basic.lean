import SmallScheme.Environment.Basic

/-!
# Evaluations

An evaluation reads and changes an environment and ends with a result or a fault. What it changed
before a fault stays changed. `Eval.within` runs an evaluation inside a call, and ends the call in
either case.
-/

namespace SmallScheme

/-- A computation on an environment that may fail. -/
abbrev Eval := ExceptT Fault (StateM Environment)

namespace Eval

variable {α : Type}

/-- The result of an evaluation and the environment that it leaves. -/
def outcome (x : Eval α) (env : Environment) : Except Fault α × Environment :=
  StateT.run (ExceptT.run x) env

/-- The evaluation with a result or a fault that is known already. -/
def ofExcept (r : Except Fault α) : Eval α :=
  ExceptT.mk (pure r)

/-- Runs a body inside a call. -/
def within (key : String) (bindings : List (String × Option Value)) (body : Eval α) : Eval α :=
  ExceptT.mk fun env =>
    let (result, after) := body.outcome (env.enter key bindings)
    (result, after.leave)

@[simp] theorem outcome_ofExcept (r : Except Fault α) (env : Environment) :
    (ofExcept r).outcome env = (r, env) := rfl

@[simp] theorem outcome_pure (a : α) (env : Environment) :
    (pure a : Eval α).outcome env = (.ok a, env) := rfl

@[simp] theorem outcome_throw (fault : Fault) (env : Environment) :
    (throw fault : Eval α).outcome env = (.error fault, env) := rfl

@[simp] theorem outcome_get (env : Environment) :
    (get : Eval Environment).outcome env = (.ok env, env) := rfl

theorem outcome_bind {β : Type} (x : Eval α) (f : α → Eval β) (env : Environment) :
    (x >>= f).outcome env = match x.outcome env with
      | (.ok a, after) => (f a).outcome after
      | (.error fault, after) => (.error fault, after) := by
  simp only [outcome, bind, ExceptT.bind, ExceptT.run, ExceptT.mk, StateT.run, StateT.bind]
  rcases x env with ⟨result, after⟩
  cases result <;> rfl

/-- What an evaluation that goes on has been through when it ends with a result. -/
theorem outcome_bind_ok {β : Type} {x : Eval α} {f : α → Eval β} {b : β} {env after : Environment}
    (h : (x >>= f).outcome env = (.ok b, after)) :
    ∃ a mid, x.outcome env = (.ok a, mid) ∧ (f a).outcome mid = (.ok b, after) := by
  rw [outcome_bind] at h
  split at h
  · next a mid hx => exact ⟨a, mid, hx, h⟩
  · cases h

/-- An evaluation fails with the fault of its first part. -/
theorem fails_bind {β : Type} {x : Eval α} {env : Environment} {fault : Fault}
    (h : (x.outcome env).1 = .error fault) (f : α → Eval β) :
    ((x >>= f).outcome env).1 = .error fault := by
  rw [outcome_bind]
  generalize x.outcome env = outcome at *
  obtain ⟨result, after⟩ := outcome
  obtain rfl : result = .error fault := h
  rfl

@[simp] theorem outcome_within (key : String) (bindings : List (String × Option Value))
    (body : Eval α) (env : Environment) :
    (within key bindings body).outcome env
      = ((body.outcome (env.enter key bindings)).1,
          (body.outcome (env.enter key bindings)).2.leave) := rfl

end Eval

end SmallScheme
