import SmallScheme.Proofs.Evaluation.Calls
import SmallScheme.Proofs.Evaluation.Operators
import SmallScheme.Proofs.Evaluation.Simulation

/-!
# What a definition or an assignment writes

Definitions and assignments differ in one check of the target. Apart from it both evaluate an
expression and write the name that is the target (`Binder.outcome_step`). What is written is read
back as it was, a function as its form, and no other name is touched (`Environment.Writes`).

A form that fails has written nothing: the environment is as it was before if no level is left or
the target is refused, and else as the expression left it, also where the value is a lambda form
that stands for no function (`Binder.written_or_kept`).
-/

namespace SmallScheme

theorem Calls.lookup?_of_isIdle {calls : Calls} (h : calls.isIdle = true) (name : String) :
    calls.lookup? name = none := by
  cases calls with
  | frames stack =>
    obtain rfl : stack = [] := List.isEmpty_iff.mp h
    rfl
  | shared contexts active =>
    obtain rfl : active = [] := List.isEmpty_iff.mp h
    rfl

namespace Environment

/-! ## One name is written -/

/-- A name is bound to a value, and all other names are bound as before. -/
structure Writes (name : String) (v : Value) (before after : Environment) : Prop where
  /-- The name means the value wherever no call is under way. -/
  lookup : ∀ calls : Calls, calls.isIdle = true → { after with calls }.lookup name = .ok v
  /-- The name is bound as a variable or as a function, and not as both. -/
  once : after.values.contains name = !after.functions.contains name
  values : ∀ other, other ≠ name → after.values.get? other = before.values.get? other
  functions : ∀ other, other ≠ name → after.functions.get? other = before.functions.get? other

variable {env bound : Environment} {name : String} {v : Value}

theorem writes_bind (hname : name ≠ "nil") (h : env.bind name v = .ok bound) :
    Writes name v env bound where
  lookup calls hidle := by
    have hcall := Calls.lookup?_of_isIdle hidle name
    rcases bind_cases h with ⟨f, -, rfl, rfl⟩ | ⟨-, rfl⟩
    · simp [Environment.lookup, hname, hcall]
    · simp [Environment.lookup, hname, hcall]
  once := by
    rcases bind_cases h with ⟨f, -, -, rfl⟩ | ⟨-, rfl⟩ <;> simp [Table.contains]
  values _ hother := values_bind_of_ne h hother
  functions _ hother := functions_bind_of_ne h hother

/-- A value cannot be bound exactly if it is a lambda form that stands for no function. -/
theorem bind_eq_error_iff {fault : Fault} :
    env.bind name v = .error fault ↔ v.isLambdaForm = true ∧ Function.ofForm v = .error fault := by
  unfold bind
  split
  · next hform =>
    rw [Fault.bind_eq_error]
    simp [hform, pure, Except.pure]
  · next hform => simp [hform]

end Environment

/-! ## The two forms that write -/

/-- The special forms that write a name. -/
inductive Binder where
  | define
  | assign
deriving DecidableEq

namespace Binder

def form : Binder → SpecialForm
  | define => .define
  | assign => .assign

def expression (b : Binder) (target e : Value) : Value :=
  .list [.symbol b.form.keyword, target, e]

/-- Whether the name must be bound already. -/
def rebinds : Binder → Bool
  | define => false
  | assign => true

/-- What is wrong with a name that is bound although it must not be, or the other way round. -/
def refusal : Binder → String → Fault
  | define => .alreadyDefined
  | assign => .undefinedName

/-- The name that is written, unless the target is refused. -/
def accept (b : Binder) (env : Environment) (target : Value) : Except Fault String :=
  match Identifier.ofValue target with
  | .ok name => if env.isDefined name = b.rebinds then .ok name else .error (b.refusal name)
  | .error fault => .error fault

/-- Evaluates an expression and binds the name to the result. -/
def write (recur : Value → Eval Value) (name : String) (e : Value) : Eval Value := do
  let v ← recur e
  SpecialForm.bindName name v
  pure v

variable {recur : Value → Eval Value} {b : Binder} {env after : Environment} {target e v : Value}
variable {name : String} {fault : Fault} {depth : Nat}

theorem of_accept (h : b.accept env target = .ok name) :
    target = .symbol name ∧ Identifier.isValid name = true := by
  unfold accept at h
  split at h
  · next hname =>
    split at h
    · cases h
      exact Identifier.ofValue_eq_ok_iff.mp hname
    · cases h
  · cases h

/-- Both forms check the target and then write. -/
theorem outcome_step (recur : Value → Eval Value) (b : Binder) (env : Environment)
    (target e : Value) :
    (Evaluation.step recur (b.expression target e)).outcome env =
      match b.accept env target with
      | .ok name => (write recur name e).outcome env
      | .error fault => (.error fault, env) := by
  have hstep : Evaluation.step recur (b.expression target e) = b.form.run recur [target, e] := by
    cases b with
    | define =>
      exact Evaluation.step_special ⟨"define", .exact 2, .special .define⟩ (by decide) rfl rfl
    | assign =>
      exact Evaluation.step_special ⟨"set!", .exact 2, .special .assign⟩ (by decide) rfl rfl
  rw [hstep, accept]
  cases b <;>
    simp only [form, SpecialForm.run, SpecialForm.bindNew, SpecialForm.rebind, Eval.outcome_bind,
      Eval.outcome_ofExcept] <;>
    cases Identifier.ofValue target with
    | error fault => rfl
    | ok name =>
      cases hdefined : env.isDefined name <;>
        simp [hdefined, write, rebinds, refusal, Eval.outcome_bind]

theorem outcome_write (recur : Value → Eval Value) (name : String) (e : Value) (env : Environment) :
    (write recur name e).outcome env =
      match (recur e).outcome env with
      | (.error fault, mid) => (.error fault, mid)
      | (.ok v, mid) =>
        match mid.bind name v with
        | .ok bound => (.ok v, bound)
        | .error fault => (.error fault, mid) := by
  rw [write, Eval.outcome_bind]
  rcases (recur e).outcome env with ⟨_ | v, mid⟩
  · rfl
  · simp only [Eval.outcome_bind, SpecialForm.outcome_bindName]
    cases mid.bind name v <;> rfl

theorem bind_of_write (h : ((write recur name e).outcome env).1 = .ok v) :
    ((recur e).outcome env).1 = .ok v ∧
      ((recur e).outcome env).2.bind name v = .ok ((write recur name e).outcome env).2 := by
  rw [outcome_write] at h ⊢
  generalize (recur e).outcome env = value at h ⊢
  obtain ⟨_ | w, mid⟩ := value
  · cases h
  · dsimp only at h ⊢
    cases hbind : mid.bind name w with
    | error fault => simp [hbind] at h
    | ok bound =>
      simp only [hbind, Except.ok.injEq] at h
      subst h
      exact ⟨rfl, hbind⟩

theorem write_fails_iff :
    ((write recur name e).outcome env).1 = .error fault ↔
      ((recur e).outcome env).1 = .error fault ∨
        ∃ v, ((recur e).outcome env).1 = .ok v ∧ v.isLambdaForm = true ∧
          Function.ofForm v = .error fault := by
  rw [outcome_write]
  rcases (recur e).outcome env with ⟨_ | w, mid⟩
  · simp
  · have hfault : mid.bind name w = .error fault ↔
        w.isLambdaForm = true ∧ Function.ofForm w = .error fault := Environment.bind_eq_error_iff
    cases hbind : mid.bind name w <;> simp [hbind, ← hfault]

/-- A write that fails leaves what the expression has left. -/
theorem kept_of_write (h : ((write recur name e).outcome env).1 = .error fault) :
    ((write recur name e).outcome env).2 = ((recur e).outcome env).2 := by
  rw [outcome_write] at h ⊢
  generalize (recur e).outcome env = value at h ⊢
  obtain ⟨_ | w, mid⟩ := value
  · rfl
  · dsimp only at h ⊢
    cases hbind : mid.bind name w with
    | error fault => rfl
    | ok bound => simp [hbind] at h

/-! ## Evaluation of the two forms -/

open Evaluation

theorem outcome_evaluateAt (h : depth < env.maxDepth) (b : Binder) (target e : Value) :
    (evaluateAt depth (b.expression target e)).outcome env =
      match b.accept env target with
      | .ok name => (write (evaluateAt (depth + 1)) name e).outcome env
      | .error fault => (.error fault, env) := by
  rw [outcome_evaluateAt_step h, outcome_step]
  simp only [outcome_write, Evaluation.outcome_evaluateAt (depth + 1)]

/-- **A definition or an assignment writes its name and no other, or nothing at all.**

* If it succeeds then the expression has the value that is returned, this value is read back from
  the name, and everything else is as the expression left it.
* If no level is left, or the target is refused, then the environment is as it was.
* Else it fails as the expression does, or because the value is a lambda form that stands for no
  function, and leaves what the expression left. -/
theorem written_or_kept (b : Binder) (env : Environment) (depth : Nat) (target e : Value) :
    let run := (evaluateAt depth (b.expression target e)).outcome env
    let value := (evaluateAt (depth + 1) e).outcome env
    (∀ v, run.1 = .ok v → ∃ name, target = .symbol name ∧ value.1 = .ok v ∧
      Environment.Writes name v value.2 run.2) ∧
    (env.maxDepth ≤ depth → run = (.error (.depthLimit env.maxDepth), env)) ∧
    (depth < env.maxDepth → ∀ fault, b.accept env target = .error fault →
      run = (.error fault, env)) ∧
    (depth < env.maxDepth → ∀ name, b.accept env target = .ok name → ∀ fault,
      (run.1 = .error fault ↔ value.1 = .error fault ∨
        ∃ v, value.1 = .ok v ∧ v.isLambdaForm = true ∧ Function.ofForm v = .error fault) ∧
      (run.1 = .error fault → run.2 = value.2)) := by
  intro run value
  by_cases hlevel : depth < env.maxDepth
  case neg =>
    have hrun : run = (.error (.depthLimit env.maxDepth), env) :=
      outcome_evaluateAt_of_le (Nat.not_lt.mp hlevel) _
    simp [hrun, hlevel]
  have hsome : ¬ env.maxDepth ≤ depth := Nat.not_le.mpr hlevel
  cases haccept : b.accept env target with
  | error fault =>
    have hrun : run = (.error fault, env) := by
      simp only [run, outcome_evaluateAt hlevel, haccept]
    simp [hrun, hsome]
  | ok name =>
    have hrun : run = (write (evaluateAt (depth + 1)) name e).outcome env := by
      simp only [run, outcome_evaluateAt hlevel, haccept]
    obtain ⟨rfl, hvalid⟩ := of_accept haccept
    have hname := Identifier.ne_nil_of_isValid hvalid
    refine ⟨fun v hv => ?_, (absurd · hsome), fun _ _ h => (by cases h), fun _ _ _ fault => ?_⟩
    · rw [hrun] at hv ⊢
      obtain ⟨hvalue, hbound⟩ := bind_of_write hv
      exact ⟨name, rfl, hvalue, Environment.writes_bind hname hbound⟩
    · rw [hrun]
      exact ⟨write_fails_iff, kept_of_write⟩

/-- A variable becomes a function, and a lambda form without a body leaves the variable. -/
theorem written_or_kept_variable :
    let one : Value := .number (.integer 1)
    let env := { Environment.fresh {} with values := Table.empty.insert "x" one }
    let form := Value.lambdaForm (.list [.symbol "y"]) (.symbol "y")
    let bare : Value := .quoted (.list [.symbol "lambda", .list [.symbol "y"]])
    let written := (evaluateAt 0 (assign.expression (.symbol "x") form)).outcome env
    let kept := (evaluateAt 0 (assign.expression (.symbol "x") bare)).outcome env
    written.1 = .ok form ∧ written.2.lookup "x" = .ok form ∧
      written.2.values.contains "x" = false ∧
      kept.1 = .error .operandCount ∧ kept.2 = ((evaluateAt 1 bare).outcome env).2 := by
  intro one env form bare written kept
  have hwritten : written.1 = .ok form := by decide
  obtain ⟨hok, -⟩ := written_or_kept assign env 0 (.symbol "x") form
  obtain ⟨name, hname, -, hwrites⟩ := hok form hwritten
  cases hname
  have hread : written.2.lookup "x" = .ok form := hwrites.lookup written.2.calls (by decide)
  have hvalues : written.2.values.contains "x" = false := hwrites.once.trans (by decide)
  obtain ⟨-, -, -, hfails⟩ := written_or_kept assign env 0 (.symbol "x") bare
  obtain ⟨hiff, hkept⟩ := hfails (by decide) "x" (by decide) .operandCount
  have hvalue : ((evaluateAt 1 bare).outcome env).1
      = .ok (.list [.symbol "lambda", .list [.symbol "y"]]) := by decide
  have hmalformed : kept.1 = .error .operandCount := hiff.mpr (.inr ⟨_, hvalue, rfl, rfl⟩)
  exact ⟨hwritten, hread, hvalues, hmalformed, hkept hmalformed⟩

end Binder

end SmallScheme
