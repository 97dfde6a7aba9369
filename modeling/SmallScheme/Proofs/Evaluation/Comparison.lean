import Mathlib.Data.List.Forall2
import SmallScheme.Proofs.Environment.Binding
import SmallScheme.Proofs.Evaluation.Trace
import SmallScheme.Proofs.Operator.Primitive

/-!
# Two evaluations side by side

Many laws of the evaluator compare two runs of it that start in different environments: with two
limits of depth, in two models of calls, above two stacks of calls. A `Comparison` says how the
environments of the two runs are related, and what must hold for the relation to be kept by
everything that an evaluation does to an environment. Then every two evaluations of one expression
go on side by side (`Comparison.simulates_evaluate`): they end alike, and in related environments.

A comparison may watch what happens in the first run (`Log`): the relation may depend on the history
so far, and on the context, which is the place in the nest of calls; and the runs need to agree only
as long as everything that happens is allowed. It may also end early, with a fault of the first run
that is declared lost. And it may say what the expressions are like, which is then so of all values
that come up, and of those that faults show. A comparison of a run with itself proves what one run
preserves.
-/

namespace SmallScheme

@[simp] theorem Log.andThen_silent {α : Type} (log : Log) (x : Eval α) :
    log.andThen x (fun _ => .silent) = log := by
  funext env
  unfold Log.andThen Log.silent
  split <;> simp

/-! ## Comparisons -/

/-- How a parameter is bound to an operand: to a value, or not at all if the operand is the
parameter itself. -/
inductive Bound (good : Value → Prop) : String × Value → String × Option Value → Prop
  | evaluated {param operand v} (hv : good v) : Bound good (param, operand) (param, some v)
  | kept {param operand} (h : operand.isSymbol param = true) :
      Bound good (param, operand) (param, none)

namespace SpecialForm

/-- The name of the operator that is this form. -/
def keyword : SpecialForm → String
  | and => "and"
  | or => "or"
  | map => "map"
  | quote => "quote"
  | conditional => "if"
  | define => "define"
  | assign => "set!"
  | lambda => "lambda"

end SpecialForm

theorem Operator.eq_keyword {name : String} {op : Operator} {form : SpecialForm}
    (hop : Operator.named? name = some op) (hform : op.action = .special form) :
    name = form.keyword := by
  have hall : ∀ op ∈ registry, ∀ form ∈ [SpecialForm.and, .or, .map, .quote, .conditional, .define,
      .assign, .lambda], op.action = .special form → op.name = form.keyword := by decide
  have hname : op.name = name := by simpa using List.find?_some hop
  rw [← hname]
  exact hall op (List.mem_of_find?_eq_some hop) form (by cases form <;> decide) hform

/-- The value is the name of a primitive. -/
def Value.Names (v : Value) (p : Primitive) : Prop :=
  ∃ name op, v = .symbol name ∧ Operator.named? name = some op ∧ op.action = .primitive p

/-- The expression applies a primitive. -/
def Value.Applies (e : Value) (p : Primitive) : Prop :=
  ∃ head operands, e = .list (head :: operands) ∧ head.Names p

theorem Value.true_iff_forall_mem (items : List Value) : True ↔ ∀ v ∈ items, True := by simp

/-- Two runs of the evaluator that can go on side by side. -/
structure Comparison where
  /-- The place of the runs in the nest of calls. -/
  Context : Type
  /-- The keys of the calls that are under way there. -/
  running : Context → List String
  /-- How the environments of the runs are related, after a history of the first run. -/
  Related : Context → List Event → Environment → Environment → Prop
  /-- What the first run may do. -/
  Allowed : Event → Prop := fun _ => True
  /-- What expressions and their values are like. -/
  Good : Value → Prop := fun _ => True
  /-- The primitives that may be applied. -/
  Computes : Primitive → Prop := fun _ => True
  /-- How faults of the runs are related. -/
  Similar : Fault → Fault → Prop := Eq
  /-- The faults of the first run behind which nothing is compared. -/
  Lost : Fault → Prop := fun _ => False
  similar_refl : ∀ fault, fault.Shows Good → Similar fault fault := by exact fun _ _ => rfl
  good_bool : ∀ b, Good (.bool b) := by exact fun _ => trivial
  good_list : ∀ items, Good (.list items) ↔ ∀ v ∈ items, Good v := by
    exact Value.true_iff_forall_mem
  good_quote : Good (.symbol "quote") := by exact trivial
  good_primitive : ∀ {p values v}, Computes p → (∀ w ∈ values, Good w) →
    p.apply values = .ok v → Good v := by exact fun _ _ _ => trivial
  limit : ∀ {i history s t}, Related i history s t → Lost (.depthLimit s.maxDepth) ∨
    Similar (.depthLimit s.maxDepth) (.depthLimit t.maxDepth)
  lookup : ∀ {i history s t name}, Related i history s t → Good (.symbol name) →
    s.lookup name = t.lookup name ∧ ∀ v, s.lookup name = .ok v → Good v
  resolve : ∀ {i history s t name}, Related i history s t → Good (.symbol name) →
    s.resolve name = t.resolve name ∧ ∀ f, s.resolve name = .ok (some f) → Good f.toForm
  resolve_error : ∀ {i history s t name fault}, Related i history s t → Good (.symbol name) →
    s.resolve name = .error fault → fault.Shows Good := by
      exact fun _ _ h => (Environment.shows_of_resolve h).elim fun _ hshown =>
        hshown.2.imp fun _ _ => trivial
  isDefined : ∀ {i history s t name}, Related i history s t → Good (.symbol name) →
    s.isDefined name = t.isDefined name
  /-- A definition binds a name. -/
  define : ∀ {i history s t name v bound bound'}, Related i history s t →
    Allowed (.define name) → Good (.symbol "define") → Good (.symbol name) → Good v →
    Identifier.isValid name = true → s.bind name v = .ok bound → t.bind name v = .ok bound' →
    Related i (history ++ [.define name]) bound bound'
  /-- An assignment binds a name that was defined when the assignment began. -/
  assign : ∀ {i history since s₀ t₀ s t name v bound bound'}, Related i history s₀ t₀ →
    s₀.isDefined name = true → Related i (history ++ since) s t →
    Good (.symbol "set!") → Good (.symbol name) → Good v → Identifier.isValid name = true →
    s.bind name v = .ok bound → t.bind name v = .ok bound' →
    Related i (history ++ since) bound bound'
  apply : ∀ {i history s t a}, Related i history s t → Allowed (.apply a) →
    Related i (history ++ [.apply a]) s t
  /-- Both runs leave out the same operands. -/
  operand : ∀ {i history s t key} {f : Function} {operands : List Value} {b : String × Value},
    Related i history s t →
    Allowed (.apply ⟨key, f.params, operands, running i⟩) →
    operands.length = f.params.length → b ∈ f.params.zip operands →
    (s.calls.model = .shared ∧ b.2.isSymbol b.1 = true ↔
      t.calls.model = .shared ∧ b.2.isSymbol b.1 = true)
  /-- A call begins in a context of its own, and leads back to the context of its caller. -/
  enter : ∀ {i history s t key} {f : Function} {operands : List Value}
    {bindings : List (String × Option Value)}, Related i history s t →
    Allowed (.apply ⟨key, f.params, operands, running i⟩) →
    operands.length = f.params.length → Good f.toForm →
    List.Forall₂ (Bound Good) (f.params.zip operands) bindings →
    ∃ j, running j = key :: running i ∧
      Related j history (s.enter key bindings) (t.enter key bindings) ∧
      ∀ {history' s' t'}, Related j history' s' t' → Related i history' s'.leave t'.leave

namespace Comparison

/-- The outcomes of the two runs agree: the results are equal and of some kind, or the faults are
similar; and the environments are related. -/
inductive Agree (c : Comparison) {α : Type} (i : c.Context) (history : List Event)
    (post : α → Prop) : Except Fault α × Environment → Except Fault α × Environment → Prop
  | ok {a s t} (ha : post a) (hrel : c.Related i history s t) :
      Agree c i history post (.ok a, s) (.ok a, t)
  | error {f g s t} (hfault : c.Similar f g) (hrel : c.Related i history s t) :
      Agree c i history post (.error f, s) (.error g, t)
  | lost {f s outcome} (hlost : c.Lost f) : Agree c i history post (.error f, s) outcome

/-- The environments of the outcomes are related if no fault is lost. -/
theorem Agree.related {c : Comparison} {α : Type} {i : c.Context} {history : List Event}
    {post : α → Prop} {left right : Except Fault α × Environment}
    (h : c.Agree i history post left right) (hlost : ∀ fault, ¬ c.Lost fault) :
    c.Related i history left.2 right.2 := by
  cases h with
  | ok _ hrel => exact hrel
  | error _ hrel => exact hrel
  | lost h => exact (hlost _ h).elim

/-- The results are equal if no fault is lost and only equal faults are similar. -/
theorem Agree.result_eq {c : Comparison} {α : Type} {i : c.Context} {history : List Event}
    {post : α → Prop} {left right : Except Fault α × Environment}
    (h : c.Agree i history post left right) (hlost : ∀ fault, ¬ c.Lost fault)
    (hsimilar : ∀ f g, c.Similar f g → f = g) : left.1 = right.1 := by
  cases h with
  | ok _ _ => rfl
  | error hfault _ => exact congrArg Except.error (hsimilar _ _ hfault)
  | lost h => exact (hlost _ h).elim

/-- From related environments, and as long as what happens in the first run is allowed, two
evaluations have outcomes that agree. -/
def Simulates (c : Comparison) {α : Type} (i : c.Context) (log : Log) (post : α → Prop)
    (x y : Eval α) : Prop :=
  ∀ history s t, c.Related i history s t → (∀ event ∈ log s, c.Allowed event) →
    c.Agree i (history ++ log s) post (x.outcome s) (y.outcome t)

variable {c : Comparison} {i : c.Context} {α β : Type} {post : α → Prop} {goal : β → Prop}

/-! ## Combining evaluations -/

theorem Simulates.imp {log : Log} {more : α → Prop} {x y : Eval α}
    (hx : c.Simulates i log post x y) (himp : ∀ a, post a → more a) :
    c.Simulates i log more x y := by
  intro history s t hrel hallowed
  have hagree := hx history s t hrel hallowed
  generalize x.outcome s = left at *
  generalize y.outcome t = right at *
  cases hagree with
  | ok ha hrel' => exact .ok (himp _ ha) hrel'
  | error hfault hrel' => exact .error hfault hrel'
  | lost hlost => exact .lost hlost

theorem Simulates.pure {a : α} (ha : post a) :
    c.Simulates i .silent post (pure a) (pure a) := by
  intro history s t hrel _
  exact .ok ha (by simpa [Log.silent] using hrel)

theorem Simulates.fault {fault : Fault} (hfault : fault.Shows c.Good) :
    c.Simulates i .silent post (throw fault) (throw fault) := by
  intro history s t hrel _
  exact .error (c.similar_refl fault hfault) (by simpa [Log.silent] using hrel)

theorem Simulates.ofExcept {r : Except Fault α} (hr : ∀ a, r = .ok a → post a)
    (hfault : ∀ fault, r = .error fault → fault.Shows c.Good) :
    c.Simulates i .silent post (.ofExcept r) (.ofExcept r) := by
  cases r with
  | ok a => exact .pure (hr a rfl)
  | error fault => exact .fault (hfault fault rfl)

/-- One outcome of an evaluation that goes on, given how the outcomes of its first part agree. -/
theorem Agree.bind {history : List Event} {s t : Environment} {log : Log} {next : α → Log}
    {x y : Eval α} {f g : α → Eval β}
    (hallowed : ∀ event ∈ log.andThen x next s, c.Allowed event)
    (hx : (∀ event ∈ log s, c.Allowed event) →
      c.Agree i (history ++ log s) post (x.outcome s) (y.outcome t))
    (hf : ∀ {a s' t'}, post a → c.Related i (history ++ log s) s' t' →
      (∀ event ∈ next a s', c.Allowed event) →
        c.Agree i (history ++ log s ++ next a s') goal ((f a).outcome s') ((g a).outcome t')) :
    c.Agree i (history ++ log.andThen x next s) goal ((x >>= f).outcome s)
      ((y >>= g).outcome t) := by
  rw [Eval.outcome_bind, Eval.outcome_bind]
  unfold Log.andThen at hallowed ⊢
  generalize x.outcome s = left at *
  generalize y.outcome t = right at *
  cases hx fun event he => hallowed event (List.mem_append_left _ he) with
  | ok ha hmid =>
    rw [← List.append_assoc]
    exact hf ha hmid fun event he => hallowed event (List.mem_append_right _ he)
  | error hfault hmid =>
    rw [List.append_nil]
    exact .error hfault hmid
  | lost hlost => exact .lost hlost

theorem Simulates.bind {log : Log} {next : α → Log} {x y : Eval α} {f g : α → Eval β}
    (hx : c.Simulates i log post x y)
    (hf : ∀ a, post a → c.Simulates i (next a) goal (f a) (g a)) :
    c.Simulates i (log.andThen x next) goal (x >>= f) (y >>= g) := by
  intro history s t hrel hallowed
  refine .bind hallowed (hx history s t hrel) ?_
  intro a s' t' ha hmid hlater
  exact hf a ha _ s' t' hmid hlater

/-- An evaluation followed by one during which nothing happens. -/
theorem Simulates.bind_silent {log : Log} {x y : Eval α} {f g : α → Eval β}
    (hx : c.Simulates i log post x y)
    (hf : ∀ a, post a → c.Simulates i .silent goal (f a) (g a)) :
    c.Simulates i log goal (x >>= f) (y >>= g) := by
  rw [← Log.andThen_silent log x]
  exact hx.bind hf

/-- What follows a check may rely on its success. -/
theorem Simulates.check {r : Except Fault α} {next : α → Log} {f g : α → Eval β}
    (hfault : ∀ fault, r = .error fault → fault.Shows c.Good)
    (hf : ∀ a, r = .ok a → c.Simulates i (next a) goal (f a) (g a)) :
    c.Simulates i (.query (fun _ => r) next) goal (.ofExcept r >>= f) (.ofExcept r >>= g) := by
  cases r with
  | ok a => exact hf a rfl
  | error fault => exact .fault (hfault fault rfl)

/-- A look at the environment, which finds the same in both runs. -/
theorem Simulates.look {look : Environment → Except Fault α}
    (hlook : ∀ {history s t}, c.Related i history s t →
      look s = look t ∧ ∀ a, look s = .ok a → post a)
    (hfault : ∀ {history s t fault}, c.Related i history s t → look s = .error fault →
      fault.Shows c.Good) :
    c.Simulates i .silent post (get >>= fun env => .ofExcept (look env))
      (get >>= fun env => .ofExcept (look env)) := by
  intro history s t hrel hallowed
  obtain ⟨hsame, hpost⟩ := hlook hrel
  simp only [Eval.outcome_bind, Eval.outcome_get, ← hsame]
  exact Simulates.ofExcept hpost (fun _ => hfault hrel) history s t hrel hallowed

/-- What follows a look at the environment, which finds the same in both runs. -/
theorem Simulates.query {look : Environment → Except Fault α} {next : α → Log} {f g : α → Eval β}
    (hlook : ∀ {history s t}, c.Related i history s t →
      look s = look t ∧ ∀ a, look s = .ok a → post a)
    (hfault : ∀ {history s t fault}, c.Related i history s t → look s = .error fault →
      fault.Shows c.Good)
    (hf : ∀ a, post a → c.Simulates i (next a) goal (f a) (g a)) :
    c.Simulates i (.query look next) goal
      (get >>= fun env => .ofExcept (look env) >>= f)
      (get >>= fun env => .ofExcept (look env) >>= g) := by
  intro history s t hrel hallowed
  obtain ⟨hsame, hpost⟩ := hlook hrel
  simp only [Eval.outcome_bind, Eval.outcome_get, Eval.outcome_ofExcept, ← hsame]
  unfold Log.query at hallowed ⊢
  cases hfound : look s with
  | ok a =>
    simp only [hfound] at hallowed
    exact hf a (hpost a hfound) history s t hrel hallowed
  | error fault =>
    exact Simulates.fault (hfault hrel hfound) history s t hrel (by simp [Log.silent])

/-- What follows a test that throws unless it fails. -/
theorem Simulates.guard {p : Prop} [Decidable p] {fault : Fault} {log : Log} {f g : Unit → Eval β}
    (hfault : fault.Shows c.Good)
    (hf : ¬ p → c.Simulates i log goal (f ()) (g ())) :
    c.Simulates i (if p then .silent else log) goal
      (if p then throw fault >>= f else f ()) (if p then throw fault >>= g else g ()) := by
  split
  · exact .fault hfault
  · next hp => exact hf hp

theorem Simulates.mapM {log : α → Log} {rel : α → β → Prop} {f g : α → Eval β} {as : List α}
    (hf : ∀ a ∈ as, c.Simulates i (log a) (rel a) (f a) (g a)) :
    c.Simulates i (.each log f as) (List.Forall₂ rel as) (as.mapM f) (as.mapM g) := by
  induction as with
  | nil => exact .pure .nil
  | cons a as ih =>
    rw [List.mapM_cons, List.mapM_cons]
    refine (hf a List.mem_cons_self).bind fun b hb => ?_
    refine (ih fun a ha => hf a (List.mem_cons_of_mem _ ha)).bind_silent fun bs hbs => ?_
    exact .pure (.cons hb hbs)

theorem Simulates.mapM_all {log : α → Log} {f g : α → Eval β} {as : List α}
    (hf : ∀ a ∈ as, c.Simulates i (log a) goal (f a) (g a)) :
    c.Simulates i (.each log f as) (fun bs => ∀ b ∈ bs, goal b) (as.mapM f) (as.mapM g) := by
  have heach : c.Simulates i (.each log f as) (List.Forall₂ (fun _ => goal) as) (as.mapM f)
      (as.mapM g) := .mapM hf
  refine heach.imp fun bs hbs => ?_
  have hpairs : List.Forall₂ (fun b _ => goal b ∧ True) bs as :=
    hbs.flip.imp fun b a hb => ⟨hb, trivial⟩
  exact (List.forall₂_and_left bs as |>.mp hpairs).1

end Comparison

end SmallScheme
