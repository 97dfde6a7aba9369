import SmallScheme.Proofs.Evaluation.Places
import SmallScheme.Proofs.Evaluation.Simulation

/-!
# Where bodies start

The bodies that are started in the course of an evaluation, at any depth, and the environments that
they are started in come from what evaluations hand over (`Evaluation.Starts`).

What a comparison of a run with itself says of environments holds wherever a nested expression is
handed over (`Comparison.Single.asks`), and so wherever a body starts (`Comparison.Single.starts`).
Otherwise the run could be compared with one that fails there, with any fault whatever.
-/

namespace SmallScheme

namespace Evaluation

/-! ## Calls -/

/-- The evaluation of an expression comes to the call of a function under some key with some
operands, in some environment. -/
inductive Requests (recur : Value → Eval Value) :
    Value → Environment → String → Function → List Value → Environment → Prop
  | named {name : String} {f : Function} {operands : List Value} {env : Environment}
      (hname : Operator.named? name = none) (hf : env.resolve name = .ok (some f)) :
      Requests recur (.list (.symbol name :: operands)) env name f operands env
  | form {items operands : List Value} {form : Value} {f : Function} {key : String}
      {env after : Environment}
      (hform : (lambdaOf recur (.list items)).outcome env = (.ok form, after))
      (hf : Function.ofForm form = .ok f) (hkey : formKey form = .ok key) :
      Requests recur (.list (.list items :: operands)) env key f operands after

/-- In the course of the evaluation of an expression, with so many levels left, the body of a
function is started, in some environment. -/
inductive Starts : Nat → Value → Environment → String → Function → Environment → Prop
  /-- The body of the function that the expression calls, behind its operands. -/
  | called {room : Nat} {e : Value} {env : Environment} {key : String} {f : Function}
      {operands : List Value} {before after : Environment}
      {bindings : List (String × Option Value)}
      (hrequest : Requests (evaluate room) e env key f operands before)
      (hlength : operands.length = f.params.length)
      (hoperands : ((f.params.zip operands).mapM fun b =>
        bindOperand (evaluate room) b.1 b.2).outcome before = (.ok bindings, after)) :
      Starts (room + 1) e env key f (after.enter key bindings)
  /-- A body that is started by a nested expression. -/
  | nested {room : Nat} {e e' : Value} {env env' start : Environment} {key : String} {f : Function}
      (hasks : Asks (step · e) (evaluate room) env e' env')
      (h : Starts room e' env' key f start) : Starts (room + 1) e env key f start

end Evaluation

namespace Comparison

open Evaluation

/-- Both runs have the same levels left. -/
theorem simulates_evaluate_same {c : Comparison} (hcomputes : ∀ p, c.Computes p) (room : Nat)
    (i : c.Context) (e : Value) (he : c.Good e) :
    c.Simulates i (trace room (c.running i) e) c.Good (evaluate room e) (evaluate room e) :=
  simulates_evaluate (.inl rfl) room he hcomputes

/-- A comparison of a run with itself. -/
structure Single (c : Comparison) : Prop where
  same : ∀ {i history s t}, c.Related i history s t → s = t
  similar : ∀ f g, c.Similar f g → f = g
  lost : ∀ fault, ¬c.Lost fault
  computes : ∀ p, c.Computes p

section

variable {c : Comparison} {room : Nat} {i : c.Context} {history : List Event}
variable {e : Value} {env : Environment}
variable (hrel : c.Related i history env env) (he : c.Good e)
variable (hallowed : ∀ event ∈ trace (room + 1) (c.running i) e env, c.Allowed event)
include hrel he hallowed

/-- A nested expression is handed over in an environment that is related to itself, and all that
happens behind it is allowed. -/
theorem Single.asks (hc : c.Single) {e' : Value} {env' : Environment}
    (hasks : Asks (step · e) (evaluate room) env e' env') :
    ∃ j history', c.Related j history' env' env' ∧ c.Good e' ∧
      ∀ event ∈ trace room (c.running j) e' env', c.Allowed event := by
  by_contra hnot
  -- The evaluator may fail there in the second run: the comparison never comes to that place.
  have hrecur : ∀ (fault : Fault) (i : c.Context) (e : Value), c.Good e →
      c.Simulates i (trace room (c.running i) e) c.Good (evaluate room e)
        (failingAt (evaluate room) e' env' fault e) := by
    intro fault i e he history s t hrel hallowed
    obtain rfl := hc.same hrel
    have hne : ¬(e = e' ∧ s = env') := by
      rintro ⟨rfl, rfl⟩
      exact hnot ⟨i, history, hrel, he, hallowed⟩
    rw [outcome_failingAt_of_ne hne]
    exact simulates_evaluate_same hc.computes room i e he history s s hrel hallowed
  have hfails : ∀ fault, ((step (evaluate room) e).outcome env).1 = .error fault := by
    intro fault
    have hagree := simulates_step (hrecur fault) he (fun p _ => hc.computes p) history env env
      hrel hallowed
    exact (hagree.result_eq hc.lost hc.similar).trans (hasks fault)
  exact Fault.not_forall_eq _ hfails

/-- The environment in which a call is requested is related to itself, and the call is allowed with
all that happens behind its request. -/
theorem related_of_requests (hcomputes : ∀ p, c.Computes p) {key : String} {f : Function}
    {operands : List Value} {before : Environment}
    (hrequest : Requests (evaluate room) e env key f operands before) :
    c.Good f.toForm ∧ (∀ v ∈ operands, c.Good v) ∧
      (∀ event ∈ callLog (evaluate room) (trace room) (c.running i) key f operands before,
        c.Allowed event) ∧
      ∃ history', c.Related i history' before before := by
  cases hrequest with
  | named hname hf =>
    obtain ⟨hhead, hoperands⟩ := List.forall_mem_cons.mp ((c.good_list _).mp he)
    have hlog : trace (room + 1) (c.running i) (.list (.symbol key :: operands)) env
        = callLog (evaluate room) (trace room) (c.running i) key f operands env := by
      simp only [trace, stepLog, applyLog, hname, Log.query, hf]
    rw [hlog] at hallowed
    exact ⟨(c.resolve hrel hhead).2 f hf, hoperands, hallowed, history, hrel⟩
  | @form items _ form _ _ _ _ hform hf hkey =>
    obtain ⟨hhead, hoperands⟩ := List.forall_mem_cons.mp ((c.good_list _).mp he)
    obtain ⟨-, rfl⟩ := Function.ofForm_eq_ok_iff.mp hf
    have hlog : trace (room + 1) (c.running i) (.list (.list items :: operands)) env
        = lambdaOfLog (trace room (c.running i)) (.list items) env ++
          callLog (evaluate room) (trace room) (c.running i) key f operands before := by
      have hlambda : f.toForm.isLambdaForm = true := Value.isLambdaForm_lambdaForm ..
      simp [trace, stepLog, applyLog, Log.andThen, Log.query, hform, hlambda, hf, hkey]
    rw [hlog] at hallowed
    have hagree := simulates_lambdaOf (simulates_evaluate_same hcomputes room i) hhead history
      env env hrel fun event hevent => hallowed event (List.mem_append_left _ hevent)
    rw [hform] at hagree
    cases hagree with
    | ok hgood hbefore =>
      exact ⟨hgood, hoperands, fun event hevent => hallowed event (List.mem_append_right _ hevent),
        _, hbefore⟩

end

/-- The environment in which a body starts is related to itself, in a context that was entered by an
allowed call. -/
theorem Single.starts {c : Comparison} (hc : c.Single) {room : Nat} {i : c.Context}
    {history : List Event} {e : Value} {env start : Environment} {key : String} {f : Function}
    (hstart : Starts room e env key f start) (hrel : c.Related i history env env) (he : c.Good e)
    (hallowed : ∀ event ∈ trace room (c.running i) e env, c.Allowed event) :
    ∃ j operands outer history', c.running j = key :: outer ∧
      c.Allowed (.apply ⟨key, f.params, operands, outer⟩) ∧
      operands.length = f.params.length ∧ c.Related j history' start start := by
  induction hstart generalizing i history with
  | @called room e env key f operands before after bindings hrequest hlength hoperands =>
    obtain ⟨hf, hgood, hevents, history', hbefore⟩ :=
      related_of_requests hrel he hallowed hc.computes hrequest
    have happly := hevents _ List.mem_cons_self
    have hfirst : ∀ event ∈ operandsLog (evaluate room) (trace room) (c.running i) f operands
        before, c.Allowed event := by
      intro event hevent
      refine hevents event (List.mem_cons_of_mem _ ?_)
      simpa [servedLog, hlength, Log.andThen] using .inl hevent
    have hagree := simulates_operands (simulates_evaluate_same hc.computes room) happly hlength
      hgood history' before before hbefore hfirst
    rw [hoperands] at hagree
    cases hagree with
    | ok hbindings hafter =>
      obtain ⟨j, hrunning, hinside, -⟩ := c.enter hafter happly hlength hf hbindings
      exact ⟨j, operands, _, _, hrunning, happly, hlength, hinside⟩
  | nested hasks _ ih =>
    obtain ⟨j, history', hrel', he', hallowed'⟩ := hc.asks hrel he hallowed hasks
    exact ih hrel' he' hallowed'

end Comparison

/-! ## Invariants -/

/-- What holds of the environment and of the keys of the calls under way remains so as long as all
that happens is allowed. -/
structure Invariant (inv : List String → Environment → Prop) (Allowed : Event → Prop) : Prop where
  bind : ∀ {running env name v bound}, inv running env → Identifier.isValid name = true →
    env.bind name v = .ok bound → inv running bound
  enter : ∀ {running env key} {f : Function} {operands : List Value}
    {bindings : List (String × Option Value)}, inv running env →
    Allowed (.apply ⟨key, f.params, operands, running⟩) → operands.length = f.params.length →
    List.Forall₂ (Bound fun _ => True) (f.params.zip operands) bindings →
    inv (key :: running) (env.enter key bindings)
  leave : ∀ {key running env}, inv (key :: running) env → inv running env.leave

namespace Invariant

variable {inv : List String → Environment → Prop} {Allowed : Event → Prop}
variable (h : Invariant inv Allowed)
include h

/-- A run that keeps an invariant beside itself. -/
def comparison : Comparison where
  Context := List String
  running := id
  Related running _ s t := s = t ∧ inv running s
  Allowed := Allowed
  limit hrel := .inr (by rw [hrel.1])
  lookup hrel _ := ⟨by rw [hrel.1], fun _ _ => trivial⟩
  resolve hrel _ := ⟨by rw [hrel.1], fun _ _ => trivial⟩
  isDefined hrel _ := by rw [hrel.1]
  define := by
    rintro _ _ s _ name v bound bound' ⟨rfl, hinv⟩ _ _ _ _ hname hs ht
    exact ⟨Except.ok.inj (hs.symm.trans ht), h.bind hinv hname hs⟩
  assign := by
    rintro _ _ _ _ _ s _ name v bound bound' _ _ ⟨rfl, hinv⟩ _ _ _ hname hs ht
    exact ⟨Except.ok.inj (hs.symm.trans ht), h.bind hinv hname hs⟩
  apply hrel _ := hrel
  operand hrel _ _ _ := by rw [hrel.1]
  enter := by
    rintro running _ s _ key f operands bindings ⟨rfl, hinv⟩ happly hlength _ hbindings
    refine ⟨key :: running, rfl, ⟨rfl, h.enter hinv happly hlength hbindings⟩, ?_⟩
    rintro _ s' _ ⟨rfl, hbody⟩
    exact ⟨rfl, h.leave hbody⟩

theorem single : h.comparison.Single :=
  ⟨And.left, fun _ _ => id, fun _ => id, fun _ => trivial⟩

/-- An invariant holds again at the end of an evaluation. -/
theorem evaluateAt {env : Environment} (hinv : inv [] env) (depth : Nat) {e : Value}
    (hallowed : ∀ event ∈ Evaluation.traceAt depth e env, Allowed event) :
    inv [] ((Evaluation.evaluateAt depth e).outcome env).2 := by
  have hagree := Comparison.agree_evaluateAt (c := h.comparison) (i := []) depth rfl
    ⟨rfl, hinv⟩ rfl trivial hallowed
  exact (hagree.related fun _ => id).2

/-- An invariant holds where a body starts, behind a call that is allowed. -/
theorem starts {room : Nat} {running : List String} {e : Value} {env start : Environment}
    {key : String} {f : Function} (hstart : Evaluation.Starts room e env key f start)
    (hinv : inv running env)
    (hallowed : ∀ event ∈ Evaluation.trace room running e env, Allowed event) :
    ∃ operands outer, Allowed (.apply ⟨key, f.params, operands, outer⟩) ∧
      operands.length = f.params.length ∧ inv (key :: outer) start := by
  have hsingle := h.single
  have hrel : h.comparison.Related running [] env env := ⟨rfl, hinv⟩
  obtain ⟨_, operands, outer, _, rfl, happly, hlength, -, hinside⟩ :=
    hsingle.starts hstart hrel trivial hallowed
  exact ⟨operands, outer, happly, hlength, hinside⟩

end Invariant

/-! ## Bodies are handed over -/

namespace Evaluation

variable {recur : Value → Eval Value} {e : Value} {env : Environment} {key : String} {f : Function}
variable {operands : List Value} {before after : Environment}

/-- An expression that requests a call is evaluated as the call is. -/
theorem Requests.outcome_step (h : Requests recur e env key f operands before) :
    (step recur e).outcome env = (call recur key f operands).outcome before := by
  cases h with
  | named hname hf => simp [step, apply, hname, Eval.outcome_bind, hf]
  | form hform hf hkey =>
    obtain ⟨-, rfl⟩ := Function.ofForm_eq_ok_iff.mp hf
    have hlambda : f.toForm.isLambdaForm = true := Value.isLambdaForm_lambdaForm ..
    simp [step, apply, Eval.outcome_bind, hform, hlambda, hf, hkey]

/-- A call is requested of the evaluator that fails somewhere as it is of the evaluator, unless that
fails before. -/
theorem Requests.failingAt (h : Requests recur e env key f operands before) (e' : Value)
    (env' : Environment) (fault : Fault) :
    ((step (failingAt recur e' env' fault) e).outcome env).1 = .error fault ∨
      Requests (failingAt recur e' env' fault) e env key f operands before := by
  cases h with
  | named hname hf => exact .inr (.named hname hf)
  | @form items _ form _ _ _ _ hform hf hkey =>
    rcases (Part.determined_lambdaOf (.list items)).fails_or_eq recur env e' env' fault
      with hfails | hsame
    · exact .inl (Eval.fails_bind hfails _)
    · exact .inr (.form (hsame.trans hform) hf hkey)

/-- The body of a call is handed over behind its operands. -/
theorem asks_body {bindings : List (String × Option Value)}
    (hrequest : Requests recur e env key f operands before)
    (hlength : operands.length = f.params.length)
    (hoperands : ((f.params.zip operands).mapM fun b =>
      bindOperand recur b.1 b.2).outcome before = (.ok bindings, after)) :
    Asks (step · e) recur env f.body (after.enter key bindings) := by
  intro fault
  rcases hrequest.failingAt f.body (after.enter key bindings) fault with hfails | hrequest
  · exact hfails
  · show ((step _ e).outcome env).1 = _
    rw [hrequest.outcome_step, call, if_neg (not_not.mpr hlength)]
    rcases (Part.determined_bindOperands (f.params.zip operands)).fails_or_eq recur before f.body
      (after.enter key bindings) fault with hfails | hsame
    · exact Eval.fails_bind hfails _
    · rw [Eval.outcome_bind, hsame, hoperands]
      exact congrArg Prod.fst outcome_failingAt_self

end Evaluation

end SmallScheme
