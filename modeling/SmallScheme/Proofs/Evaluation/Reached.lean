import SmallScheme.Proofs.Evaluation.Content
import SmallScheme.Proofs.Evaluation.Start

/-!
# What is reached in the course of an evaluation

An evaluation hands over nested expressions, and their evaluations hand over further ones. The
expressions that are reached so, each with its environment and the levels that are left there, are
all that is ever evaluated (`Evaluation.Reaches`). What a comparison of a run with itself says holds
at every one of them (`Comparison.Single.reaches`), so invariants hold in all of these environments
(`Invariant.reaches`), and what is inherited holds of all of the expressions and of all that they
leave behind (`Evaluation.content_of_reaches`).

A call is made at an expression that is reached. Its key is the text of what stands for the function
there: the name at the head of the call, or the form that the head evaluates to
(`Evaluation.Requests.key_eq`).
-/

namespace SmallScheme

namespace Evaluation

/-- In the course of the evaluation of an expression, with so many levels left, an expression is
evaluated, in some environment and with some levels left. -/
inductive Reaches : Nat → Value → Environment → Nat → Value → Environment → Prop
  | start (room : Nat) (e : Value) (env : Environment) : Reaches room e env room e env
  | nested {room room' : Nat} {e e' e'' : Value} {env env' env'' : Environment}
      (hasks : Asks (step · e) (evaluate room) env e' env')
      (h : Reaches room e' env' room' e'' env'') : Reaches (room + 1) e env room' e'' env''

/-- What stands for the function in a call: the name at its head, or the form of the function. -/
def callee : Value → Function → Value
  | .list (.symbol name :: _), _ => .symbol name
  | _, f => f.toForm

/-- The key of a call is the text of what stands for the function. -/
theorem Requests.key_eq {recur : Value → Eval Value} {e : Value} {env before : Environment}
    {key : String} {f : Function} {operands : List Value}
    (h : Requests recur e env key f operands before) :
    ∃ text, (callee e f).text? = some text ∧ key = String.ofList text := by
  cases h with
  | named hname hf => exact ⟨key.toList, Value.text?_symbol key, String.ofList_toList.symm⟩
  | @form items _ form _ _ _ _ hform hf hkey =>
    obtain ⟨-, rfl⟩ := Function.ofForm_eq_ok_iff.mp hf
    unfold formKey at hkey
    split at hkey
    · next text htext => exact ⟨text, htext, (Except.ok.inj hkey).symm⟩
    · cases hkey

end Evaluation

namespace Comparison

open Evaluation

variable {c : Comparison} {room room' : Nat} {i : c.Context} {history : List Event}
variable {e e' : Value} {env env' : Environment}

/-- Wherever an expression is evaluated, the environment is related to itself, and all that happens
behind it is allowed. -/
theorem Single.reaches (hc : c.Single) (hreach : Reaches room e env room' e' env')
    (hrel : c.Related i history env env) (he : c.Good e)
    (hallowed : ∀ event ∈ trace room (c.running i) e env, c.Allowed event) :
    ∃ j history', c.Related j history' env' env' ∧ c.Good e' ∧
      ∀ event ∈ trace room' (c.running j) e' env', c.Allowed event := by
  induction hreach generalizing i history with
  | start room e env => exact ⟨i, history, hrel, he, hallowed⟩
  | nested hasks _ ih =>
    obtain ⟨j, history', hrel', he', hallowed'⟩ := hc.asks hrel he hallowed hasks
    exact ih hrel' he' hallowed'

end Comparison

/-- An invariant holds wherever an expression is evaluated. -/
theorem Invariant.reaches {inv : List String → Environment → Prop} {Allowed : Event → Prop}
    (h : Invariant inv Allowed) (running : List String) {room room' : Nat} {e e' : Value}
    {env env' : Environment} (hreach : Evaluation.Reaches room e env room' e' env')
    (hinv : inv running env)
    (hallowed : ∀ event ∈ Evaluation.trace room running e env, Allowed event) :
    ∃ running', inv running' env' := by
  have hrel : h.comparison.Related running [] env env := ⟨rfl, hinv⟩
  obtain ⟨running', _, hrel', -⟩ := h.single.reaches hreach hrel trivial hallowed
  exact ⟨running', hrel'.2⟩

namespace Evaluation

variable {good : Value → Prop} {room room' : Nat} {e e' : Value} {env env' : Environment}

/-- **What is inherited holds wherever an evaluation comes to**: of the expressions that are
evaluated in its course, of all values in their environments, and of what they leave behind. -/
theorem content_of_reaches (h : Value.Inherited good) (hreach : Reaches room e env room' e' env')
    (hholds : env.Holds good) (he : good e) :
    good e' ∧ env'.Holds good ∧
      Leaves good good (fun _ => True) ((evaluate room' e').outcome env') := by
  have hsingle : (Comparison.content h (Environment.keeps_true good)).Single :=
    ⟨And.left, fun _ _ => And.left, fun _ => id, fun _ => trivial⟩
  have hrel : (Comparison.content h (Environment.keeps_true good)).Related [] [] env env :=
    ⟨rfl, hholds, trivial⟩
  obtain ⟨j, history, hrel, he', hallowed⟩ := hsingle.reaches hreach hrel he fun _ _ => trivial
  exact ⟨he', hrel.2.1,
    .of_agree (Comparison.simulates_evaluate_same hsingle.computes room' j e' he' history env' env'
      hrel hallowed)⟩

/-- What stands for the function in a call is inherited like all other values. -/
theorem content_callee (h : Value.Inherited good) {key : String} {f : Function}
    {operands : List Value} {before : Environment}
    (hrequest : Requests (evaluate room) e env key f operands before)
    (hholds : env.Holds good) (he : good e) : good (callee e f) := by
  have hrel : (Comparison.content h (Environment.keeps_true good)).Related [] [] env env :=
    ⟨rfl, hholds, trivial⟩
  obtain ⟨hform, -⟩ := Comparison.related_of_requests hrel he (fun _ _ => trivial)
    (fun _ => trivial) hrequest
  cases hrequest with
  | named hname hf => exact (h.list _).mp he _ List.mem_cons_self
  | form => exact hform

end Evaluation

end SmallScheme
