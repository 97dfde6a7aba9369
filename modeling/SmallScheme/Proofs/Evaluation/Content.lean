import SmallScheme.Proofs.Environment.Content
import SmallScheme.Proofs.Evaluation.Simulation

/-!
# What evaluations come across

Evaluation makes values of values. If a property passes on to whatever is computed
(`Value.Inherited`), and the expression and all values in the environment have it, then so do the
result of the evaluation, the value that its fault shows, and all values in the environment that it
leaves (`Evaluation.content_evaluateAt`). The proof compares a run with itself.

Such a property may exclude the words `define` or `set!`. Then no global binding is ever made, and
the environment keeps whatever calls alone do not change (`Environment.Keeps`).
-/

namespace SmallScheme

theorem Value.Carried.toForm_iff {good : Value → Prop} (h : Value.Carried good) {f : Function} :
    good f.toForm ↔
      good (.symbol "lambda") ∧ (∀ param ∈ f.params, good (.symbol param)) ∧ good f.body := by
  simp [Function.toForm, Value.lambdaForm, h.list]

/-- What is so of an environment remains so as long as values of some kind are evaluated. -/
structure Environment.Keeps (good : Value → Prop) (kept : Environment → Prop) : Prop where
  bind : good (.symbol "define") ∨ good (.symbol "set!") → ∀ {env bound name v}, kept env →
    env.bind name v = .ok bound → kept bound
  enter : ∀ {env key} {bindings : List (String × Option Value)}, kept env →
    (∀ b ∈ bindings, good (.symbol b.1)) → kept (env.enter key bindings)
  leave : ∀ {env}, kept env → kept env.leave

theorem Environment.keeps_true (good : Value → Prop) : Keeps good fun _ => True :=
  ⟨fun _ _ _ _ _ _ _ => trivial, fun _ _ => trivial, fun _ => trivial⟩

/-- What a call binds its parameters to are values of its operands. -/
theorem Bound.of_mem {good : Value → Prop} {pairs : List (String × Value)}
    {bindings : List (String × Option Value)} (h : List.Forall₂ (Bound good) pairs bindings) :
    ∀ b ∈ bindings, (∃ pair ∈ pairs, pair.1 = b.1) ∧ ∀ v ∈ b.2, good v := by
  induction h with
  | nil => exact fun b hb => absurd hb List.not_mem_nil
  | @cons pair binding pairs bindings hbound _ ih =>
    intro b hb
    rcases List.mem_cons.mp hb with rfl | hb
    · cases hbound with
      | @evaluated param operand v hv =>
        refine ⟨⟨_, List.mem_cons_self, rfl⟩, fun w hw => ?_⟩
        cases hw
        exact hv
      | @kept param operand _ => exact ⟨⟨_, List.mem_cons_self, rfl⟩, fun w hw => by cases hw⟩
    · obtain ⟨⟨p, hp, hname⟩, hv⟩ := ih b hb
      exact ⟨⟨p, List.mem_cons_of_mem _ hp, hname⟩, hv⟩

namespace Comparison

variable {good : Value → Prop} {kept : Environment → Prop}

/-- A run beside itself, with all values of some kind. Some primitives are known to answer values of
this kind with one. -/
def carried (h : Value.Carried good) (computes : Primitive → Prop)
    (hprimitive : ∀ {p values v}, computes p → (∀ w ∈ values, good w) → p.apply values = .ok v →
      good v) (hkeeps : Environment.Keeps good kept) : Comparison where
  Context := List String
  running := id
  Related _ _ s t := s = t ∧ s.Holds good ∧ kept s
  Good := good
  Computes := computes
  Similar f g := f = g ∧ f.Shows good
  similar_refl _ hshown := ⟨rfl, hshown⟩
  good_bool := h.bool
  good_list := h.list
  good_quote := h.quote
  good_primitive := hprimitive
  limit := by
    rintro _ _ s _ ⟨rfl, -⟩
    exact .inr ⟨rfl, Fault.shows_of_shown?_eq_none rfl rfl⟩
  lookup := by
    rintro _ _ s _ name ⟨rfl, hholds, -⟩ _
    exact ⟨rfl, fun v => hholds.lookup ((h.list []).mpr (by simp))⟩
  resolve := by
    rintro _ _ s _ name ⟨rfl, hholds, -⟩ _
    exact ⟨rfl, fun f => hholds.resolve⟩
  resolve_error := by
    rintro _ _ s _ name fault ⟨rfl, hholds, -⟩ _ hfault
    exact hholds.resolve_error (fun items => (h.list items).mp) hfault
  isDefined := by
    rintro _ _ s _ name ⟨rfl, -⟩ _
    rfl
  define := by
    rintro _ _ s _ name v bound bound' ⟨rfl, hholds, hkept⟩ _ hword _ hv _ hs ht
    rw [hs] at ht
    cases ht
    exact ⟨rfl, hholds.bind hv hs, hkeeps.bind (.inl hword) hkept hs⟩
  assign := by
    rintro _ _ _ _ _ s _ name v bound bound' _ _ ⟨rfl, hholds, hkept⟩ hword _ hv _ hs ht
    rw [hs] at ht
    cases ht
    exact ⟨rfl, hholds.bind hv hs, hkeeps.bind (.inr hword) hkept hs⟩
  apply hrel _ := hrel
  operand := by
    rintro _ _ s _ key f operands b ⟨rfl, -⟩ _ _ _
    rfl
  enter := by
    rintro running _ s _ key f operands bindings ⟨rfl, hholds, hkept⟩ _ _ hf hbindings
    have hbound := Bound.of_mem hbindings
    have hnames : ∀ b ∈ bindings, good (.symbol b.1) := by
      intro b hb
      obtain ⟨⟨pair, hpair, hname⟩, -⟩ := hbound b hb
      have hparam : b.1 ∈ f.params := hname ▸ (List.of_mem_zip hpair).1
      exact (h.toForm_iff.mp hf).2.1 b.1 hparam
    refine ⟨key :: running, rfl, ⟨rfl, ?_, hkeeps.enter hkept hnames⟩, ?_⟩
    · exact hholds.enter key fun b hb => (hbound b hb).2
    · rintro _ s' _ ⟨rfl, hholds', hkept'⟩
      exact ⟨rfl, hholds'.leave, hkeeps.leave hkept'⟩

/-- A run beside itself, with all values of a kind that is inherited. -/
def content (h : Value.Inherited good) (hkeeps : Environment.Keeps good kept) : Comparison :=
  carried h.toCarried (fun _ => True) (fun {p} _ _ _ hvalues hv => p.inherited_apply h hvalues hv)
    hkeeps

end Comparison

/-! ## What evaluations leave behind -/

namespace Evaluation

variable {α β : Type} {post : α → Prop} {goal : β → Prop}
variable {good : Value → Prop} {kept : Environment → Prop} {env : Environment}

/-- What an evaluation leaves behind: the result is as it should be, or the value that the fault
shows is of some kind; all values in the environment are of that kind, and the environment is still
what evaluation keeps it. -/
structure Leaves (post : α → Prop) (good : Value → Prop) (kept : Environment → Prop)
    (outcome : Except Fault α × Environment) : Prop where
  result : ∀ a, outcome.1 = .ok a → post a
  fault : ∀ fault, outcome.1 = .error fault → fault.Shows good
  holds : outcome.2.Holds good
  kept : kept outcome.2

theorem Leaves.ok {a : α} (ha : post a) (hholds : env.Holds good) (hkept : kept env) :
    Leaves post good kept (.ok a, env) where
  result b hb := Except.ok.inj hb ▸ ha
  fault g hg := by cases hg
  holds := hholds
  kept := hkept

theorem Leaves.error {fault : Fault} (hfault : fault.Shows good) (hholds : env.Holds good)
    (hkept : kept env) : Leaves post good kept (.error fault, env) where
  result b hb := by cases hb
  fault g hg := Except.error.inj hg ▸ hfault
  holds := hholds
  kept := hkept

theorem Leaves.bind {x : Eval α} {f : α → Eval β} (hx : Leaves post good kept (x.outcome env))
    (hf : ∀ {a after}, post a → after.Holds good → kept after →
      Leaves goal good kept ((f a).outcome after)) :
    Leaves goal good kept ((x >>= f).outcome env) := by
  rw [Eval.outcome_bind]
  obtain ⟨hresult, hfault, hholds, hkept⟩ := hx
  generalize x.outcome env = outcome at *
  obtain ⟨result, after⟩ := outcome
  cases result with
  | ok a => exact hf (hresult a rfl) hholds hkept
  | error fault => exact .error (hfault fault rfl) hholds hkept

/-- What a run beside itself leaves behind. -/
theorem Leaves.of_agree {h : Value.Carried good} {computes : Primitive → Prop}
    {hprimitive : ∀ {p values v}, computes p → (∀ w ∈ values, good w) → p.apply values = .ok v →
      good v} {hkeeps : Environment.Keeps good kept} {running : List String} {history : List Event}
    {outcome : Except Fault α × Environment}
    (hagree : (Comparison.carried h computes hprimitive hkeeps).Agree running history post outcome
      outcome) :
    Leaves post good kept outcome := by
  cases hagree with
  | ok ha hrel => exact .ok ha hrel.2.1 hrel.2.2
  | error hfault hrel => exact .error hfault.2 hrel.2.1 hrel.2.2
  | lost hlost => exact hlost.elim

/-- The evaluation of an expression in an environment leaves values of some kind behind, if it
starts with such values. -/
def Passes (good : Value → Prop) (e : Value) (env : Environment)
    (outcome : Except Fault Value × Environment) : Prop :=
  good e → env.Holds good → Leaves good good (fun _ => True) outcome

/-- **What is inherited holds of everything that an evaluation comes across**, if it holds of the
expression and of all values in the environment. -/
theorem content_evaluateAt (h : Value.Inherited good) (hkeeps : Environment.Keeps good kept)
    (hholds : env.Holds good) (hkept : kept env) {e : Value} (he : good e) (depth : Nat) :
    Leaves good good kept ((evaluateAt depth e).outcome env) :=
  .of_agree (Comparison.agree_evaluateAt (c := .content h hkeeps) (i := []) (s := env) depth
    rfl ⟨rfl, hholds, hkept⟩ rfl he fun _ _ => trivial)

end Evaluation

end SmallScheme
