import SmallScheme.Interpreter.Session
import SmallScheme.Proofs.Evaluation.Simulation

/-!
# Laws of evaluation

An evaluation changes the environment in two ways only: it binds an identifier, and it runs a body
inside a call, which it leaves again. A relation between the environment before and the one after
that allows both, and goes on from one change to the next, is a `Law`.

* `Evaluation.obeys_evaluate`, `Evaluation.obeys_evaluateAt`: every evaluation obeys every law,
  whatever the expression, however deep, and whether it ends with a result or with a fault. The
  proof compares a run with itself, in the context of the environment in which the innermost call
  began (`Law.comparison`).
* `Session.both_handle`, `Session.both_handleAll`: what evaluation preserves, a session preserves
  in the interpreter at work and in the one saved last.
-/

namespace SmallScheme

/-- The environment that an evaluation leaves, with a result or a fault, is related to the one that
it starts in. -/
def Eval.Obeys {α : Type} (rel : Environment → Environment → Prop) (x : Eval α) : Prop :=
  ∀ env, rel env (x.outcome env).2

/-- A relation that holds across each change that an evaluation makes. -/
structure Law (rel : Environment → Environment → Prop) : Prop where
  refl : ∀ env, rel env env
  trans : ∀ {before between after}, rel before between → rel between after → rel before after
  bind : ∀ {env bound name v}, Identifier.isValid name = true →
    env.bind name v = .ok bound → rel env bound
  within : ∀ {env after key bindings}, rel (env.enter key bindings) after → rel env after.leave

theorem Eval.Obeys.bind {α β : Type} {rel : Environment → Environment → Prop} (law : Law rel)
    {x : Eval α} {f : α → Eval β} (hx : x.Obeys rel) (hf : ∀ a, (f a).Obeys rel) :
    (x >>= f).Obeys rel := by
  intro env
  have hfirst := hx env
  rw [outcome_bind]
  rcases hout : x.outcome env with ⟨result, after⟩
  rw [hout] at hfirst
  cases result with
  | error fault => exact hfirst
  | ok a => exact law.trans hfirst (hf a after)

/-- A run beside itself: what it has done since the innermost call began obeys the law. -/
def Law.comparison {rel : Environment → Environment → Prop} (law : Law rel) : Comparison where
  Context := Environment × List String
  running := Prod.snd
  Related i _ s t := s = t ∧ rel i.1 s
  limit hrel := .inr (by rw [hrel.1])
  lookup hrel _ := ⟨by rw [hrel.1], fun _ _ => trivial⟩
  resolve hrel _ := ⟨by rw [hrel.1], fun _ _ => trivial⟩
  isDefined hrel _ := by rw [hrel.1]
  define := by
    rintro i _ s _ name v bound bound' ⟨rfl, hrel⟩ _ _ _ _ hname hs ht
    exact ⟨Except.ok.inj (hs.symm.trans ht), law.trans hrel (law.bind hname hs)⟩
  assign := by
    rintro i _ _ _ _ s _ name v bound bound' _ _ ⟨rfl, hrel⟩ _ _ _ hname hs ht
    exact ⟨Except.ok.inj (hs.symm.trans ht), law.trans hrel (law.bind hname hs)⟩
  apply hrel _ := hrel
  operand hrel _ _ _ := by rw [hrel.1]
  enter := by
    rintro i _ s _ key f operands bindings ⟨rfl, hrel⟩ _ _ _ _
    refine ⟨(s.enter key bindings, key :: i.2), rfl, ⟨rfl, law.refl _⟩, ?_⟩
    rintro _ s' _ ⟨rfl, hbody⟩
    exact ⟨rfl, law.trans hrel (law.within hbody)⟩

/-! ## Whole evaluations -/

section

variable {rel : Environment → Environment → Prop} (law : Law rel)
include law

namespace Evaluation

/-- **Every evaluation obeys every law**, however many levels are left. -/
theorem obeys_evaluate (room : Nat) (e : Value) : (evaluate room e).Obeys rel := by
  intro env
  have hagree := law.comparison.simulates_evaluate (.inl rfl) room (i := (env, [])) (e := e)
    trivial (fun _ => trivial) [] env env ⟨rfl, law.refl env⟩ fun _ _ => trivial
  exact (hagree.related fun _ => id).2

theorem obeys_evaluateAt (depth : Nat) (e : Value) : (evaluateAt depth e).Obeys rel := by
  intro env
  exact obeys_evaluate law (env.maxDepth - depth) e env

theorem obeys_evaluateEach (es : List Value) : (es.mapM (evaluateAt 0)).Obeys rel := by
  induction es with
  | nil => exact law.refl
  | cons e es ih =>
    rw [List.mapM_cons]
    refine .bind law (obeys_evaluateAt law 0 e) fun v => ?_
    exact .bind law ih fun vs => law.refl

end Evaluation

/-! ## Sessions -/

namespace Interpreter

theorem rel_evaluate (i : Interpreter) (e : Value) :
    rel i.environment (i.evaluate e).2.environment :=
  Evaluation.obeys_evaluateAt law 0 e i.environment

theorem rel_evaluateEach (i : Interpreter) (es : List Value) :
    rel i.environment (i.evaluateEach es).2.environment :=
  Evaluation.obeys_evaluateEach law es i.environment

theorem rel_run (i : Interpreter) (text : String) :
    rel i.environment (i.run text).2.environment := by
  unfold run
  split
  · exact law.refl _
  · exact rel_evaluate law i _

theorem rel_runAll (i : Interpreter) (text : String) :
    rel i.environment (i.runAll text).2.environment := by
  unfold runAll
  split
  · exact law.refl _
  · exact rel_evaluateEach law i _

end Interpreter

end

namespace Session

/-- Both interpreters of a session have an environment of some kind. -/
def Both (p : Environment → Prop) (s : Session) : Prop :=
  p s.current.environment ∧ p s.kept.environment

variable {rel : Environment → Environment → Prop} (law : Law rel)
variable {p : Environment → Prop} (hp : ∀ {before after}, rel before after → p before → p after)
include law hp

theorem both_handle {s : Session} (hs : s.Both p) (request : Request) :
    (s.handle request).2.Both p := by
  cases request with
  | run text => exact ⟨hp (Interpreter.rel_run law s.current text) hs.1, hs.2⟩
  | runAll text => exact ⟨hp (Interpreter.rel_runAll law s.current text) hs.1, hs.2⟩
  | read text => exact hs
  | evaluate e => exact ⟨hp (Interpreter.rel_evaluate law s.current e) hs.1, hs.2⟩
  | bindings => exact hs
  | query name => exact hs
  | config => exact hs
  | save => exact ⟨hs.1, hs.1⟩
  | restore => exact ⟨hs.2, hs.2⟩

/-- **A session preserves what a law of evaluation preserves**, whatever is asked of it. -/
theorem both_handleAll {s : Session} (hs : s.Both p) (requests : List Request) :
    (s.handleAll requests).2.Both p := by
  induction requests generalizing s with
  | nil => exact hs
  | cons request rest ih => exact ih (both_handle law hp hs request)

theorem both_of_fresh {config : Environment.Config} (hfresh : p (.fresh config))
    (reader : Reader.Config) (requests : List Request) :
    ((start (.fresh reader config)).handleAll requests).2.Both p :=
  both_handleAll law hp ⟨hfresh, hfresh⟩ requests

end Session

end SmallScheme
