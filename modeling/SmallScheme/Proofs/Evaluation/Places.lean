import Mathlib.Tactic.Choose
import SmallScheme.Evaluation.Depth

/-!
# What evaluations hand over

An evaluation hands nested expressions over to the evaluator, each in the environment that it has
come to by then. Which these are is not written down anywhere, but it can be observed: a fault of a
nested evaluation is never caught, so an evaluation hands an expression over in some environment if
it fails with every fault with which the evaluator is made to fail there (`Evaluation.Asks`).

What the evaluator does with what is handed over to it determines what the evaluation does, and what
it would do anywhere else does not matter (`Part.determined_step`). This is proved for the parts of
an evaluation one by one: a part hands over what its own parts hand over, as far as it comes to them
(`Part.Determined.bind`). So if something is so of the evaluator in every place that comes up, then
an evaluation cannot tell it from an evaluator of which it is so everywhere
(`Part.Determined.exists_everywhere`).
-/

namespace SmallScheme

theorem Fault.not_forall_eq {α : Type} (result : Except Fault α) :
    ¬∀ fault, result = .error fault := by
  intro h
  have hfault : Fault.operandCount = .depthLimit 0 :=
    Except.error.inj ((h .operandCount).symm.trans (h (.depthLimit 0)))
  cases hfault

theorem Fault.not_forall_ne_eq {α : Type} (fault : Fault) (result : Except Fault α) :
    ¬∀ other, other ≠ fault → result = .error other := by
  obtain ⟨n, hn⟩ : ∃ n, ∀ limit, n ≤ limit → Fault.depthLimit limit ≠ fault := by
    cases fault with
    | depthLimit m =>
      refine ⟨m + 1, fun limit hlimit heq => ?_⟩
      cases heq
      omega
    | _ => exact ⟨0, fun _ _ => nofun⟩
  intro h
  have hfault : Fault.depthLimit n = .depthLimit (n + 1) :=
    Except.error.inj ((h _ (hn n (Nat.le_refl n))).symm.trans (h _ (hn (n + 1) (Nat.le_succ n))))
  cases hfault

namespace Evaluation

/-! ## Nested expressions -/

open scoped Classical in
/-- The evaluator, except that it fails at one expression in one environment. -/
noncomputable def failingAt (recur : Value → Eval Value) (e : Value) (env : Environment)
    (fault : Fault) : Value → Eval Value := fun e' =>
  ExceptT.mk fun env' =>
    if e' = e ∧ env' = env then (.error fault, env) else (recur e').outcome env'

section

variable {recur : Value → Eval Value} {e e' : Value} {env env' : Environment} {fault : Fault}

theorem outcome_failingAt_self :
    (failingAt recur e env fault e).outcome env = (.error fault, env) :=
  if_pos ⟨rfl, rfl⟩

theorem outcome_failingAt_of_ne (h : ¬(e' = e ∧ env' = env)) :
    (failingAt recur e env fault e').outcome env' = (recur e').outcome env' :=
  if_neg h

theorem failingAt_of_ne (h : e' ≠ e) (env : Environment) (fault : Fault) :
    failingAt recur e env fault e' = recur e' := by
  funext env'
  exact if_neg fun hplace => h hplace.1

end

/-- Two places are different, and it does not matter which comes first. -/
theorem failingAt_comm {recur : Value → Eval Value} {e e' : Value} {env env' : Environment}
    {fault fault' : Fault} (hne : ¬(e' = e ∧ env' = env)) :
    failingAt (failingAt recur e env fault) e' env' fault'
      = failingAt (failingAt recur e' env' fault') e env fault := by
  funext a s
  show (failingAt (failingAt recur e env fault) e' env' fault' a).outcome s
    = (failingAt (failingAt recur e' env' fault') e env fault a).outcome s
  by_cases hplace : a = e ∧ s = env
  · obtain ⟨rfl, rfl⟩ := hplace
    rw [outcome_failingAt_of_ne fun h => hne ⟨h.1.symm, h.2.symm⟩, outcome_failingAt_self,
      outcome_failingAt_self]
  · rw [outcome_failingAt_of_ne hplace]
    by_cases hplace' : a = e' ∧ s = env'
    · obtain ⟨rfl, rfl⟩ := hplace'
      rw [outcome_failingAt_self, outcome_failingAt_self]
    · rw [outcome_failingAt_of_ne hplace', outcome_failingAt_of_ne hplace,
        outcome_failingAt_of_ne hplace']

/-- An evaluation hands an expression over in some environment: it fails with every fault with which
the evaluator could fail there. -/
def Asks (x : (Value → Eval Value) → Eval Value) (recur : Value → Eval Value) (env : Environment)
    (e' : Value) (env' : Environment) : Prop :=
  ∀ fault, ((x (failingAt recur e' env' fault)).outcome env).1 = .error fault

/-- An expression that makes no difference to an evaluation when it fails is not handed over. -/
theorem not_asks {x : (Value → Eval Value) → Eval Value} {recur : Value → Eval Value}
    {env env' : Environment} {e' : Value}
    (h : ∀ fault, (x (failingAt recur e' env' fault)).outcome env = (x recur).outcome env) :
    ¬Asks x recur env e' env' := by
  intro hasks
  refine Fault.not_forall_eq ((x recur).outcome env).1 fun fault => ?_
  rw [← h fault]
  exact hasks fault

/-! What is handed over is handed over by one of the parts of an evaluation, unless a part before it
fails. -/

section

variable {recur : Value → Eval Value} {env env' : Environment} {e e' : Value}

/-- An evaluation that begins by evaluating an expression hands over that one, and what it goes on
to hand over with its value. -/
theorem asks_bind_iff {next : (Value → Eval Value) → Value → Eval Value} :
    Asks (fun recur => recur e >>= next recur) recur env e' env' ↔
      (e' = e ∧ env' = env) ∨ ∃ v after, (recur e).outcome env = (.ok v, after) ∧
        Asks (next · v) recur after e' env' := by
  by_cases hplace : e = e' ∧ env = env'
  · obtain ⟨rfl, rfl⟩ := hplace
    refine iff_of_true (fun fault => Eval.fails_bind ?_ _) (.inl ⟨rfl, rfl⟩)
    rw [outcome_failingAt_self]
  · have hsame : ∀ fault, (failingAt recur e' env' fault e).outcome env = (recur e).outcome env :=
      fun fault => outcome_failingAt_of_ne hplace
    rw [or_iff_right fun h => hplace ⟨h.1.symm, h.2.symm⟩]
    simp only [Asks, Eval.outcome_bind, hsame]
    rcases (recur e).outcome env with ⟨fault | v, after⟩
    · refine iff_of_false (fun h => Fault.not_forall_eq (.error fault) h) ?_
      rintro ⟨_, _, hok, -⟩
      cases hok
    · constructor
      · intro h
        exact ⟨v, after, rfl, h⟩
      · rintro ⟨_, _, hok, h⟩
        cases hok
        exact h

theorem asks_self_iff : Asks (· e) recur env e' env' ↔ e' = e ∧ env' = env := by
  have hbind : Asks (fun recur => recur e >>= pure) recur env e' env' ↔ _ := asks_bind_iff
  simp only [bind_pure] at hbind
  rw [hbind, or_iff_left]
  rintro ⟨v, after, -, hasks⟩
  exact not_asks (fun _ => rfl) hasks

/-- What follows a check is handed over if the check succeeds. -/
theorem asks_check_iff {α : Type} {r : Except Fault α}
    {next : (Value → Eval Value) → α → Eval Value} :
    Asks (fun recur => .ofExcept r >>= next recur) recur env e' env' ↔
      ∃ a, r = .ok a ∧ Asks (next · a) recur env e' env' := by
  cases r with
  | error fault =>
    refine iff_of_false (fun h => Fault.not_forall_eq (.error fault) h) ?_
    rintro ⟨_, hok, -⟩
    cases hok
  | ok a =>
    constructor
    · intro h
      exact ⟨a, rfl, h⟩
    · rintro ⟨_, hok, h⟩
      cases hok
      exact h

end

/-! ## Parts -/

/-- A part of an evaluation, made from the evaluator of nested expressions. -/
abbrev Part (α : Type) : Type :=
  (Value → Eval Value) → Eval α

namespace Part

variable {α β : Type} {recur : Value → Eval Value} {env env' : Environment} {e' : Value}

/-- What `Evaluation.Asks` says of whole expressions: the part fails with every fault with which the
evaluator could fail there. -/
def Asks (x : Part α) (recur : Value → Eval Value) (env : Environment) (e' : Value)
    (env' : Environment) : Prop :=
  ∀ fault, ((x (failingAt recur e' env' fault)).outcome env).1 = .error fault

/-- Evaluators that do the same with all that is handed over make no difference. -/
def Determined (x : Part α) : Prop :=
  ∀ (recur other : Value → Eval Value) (env : Environment),
    (∀ e' env', x.Asks recur env e' env' → (other e').outcome env' = (recur e').outcome env') →
      (x other).outcome env = (x recur).outcome env

namespace Determined

variable {x : Part α}

/-- The evaluator may fail where nothing is handed over to it. -/
theorem outcome_failingAt (hx : x.Determined) (h : ¬x.Asks recur env e' env') (fault : Fault) :
    (x (failingAt recur e' env' fault)).outcome env = (x recur).outcome env := by
  refine hx _ _ _ fun e env'' hasks => outcome_failingAt_of_ne ?_
  rintro ⟨rfl, rfl⟩
  exact h hasks

/-- The evaluator that fails in one place makes the part fail, or makes no difference. -/
theorem fails_or_eq (hx : x.Determined) (recur : Value → Eval Value) (env : Environment)
    (e' : Value) (env' : Environment) (fault : Fault) :
    ((x (failingAt recur e' env' fault)).outcome env).1 = .error fault ∨
      (x (failingAt recur e' env' fault)).outcome env = (x recur).outcome env := by
  by_cases h : x.Asks recur env e' env'
  · exact .inl (h fault)
  · exact .inr (hx.outcome_failingAt h fault)

/-- What is handed over to the evaluator that fails in one place is handed over to the evaluator,
but for that place. -/
theorem asks_of_failingAt (hx : x.Determined) {e'' : Value} {env'' : Environment} {fault : Fault}
    (hne : ¬(e'' = e' ∧ env'' = env')) (h : x.Asks (failingAt recur e' env' fault) env e'' env'') :
    x.Asks recur env e'' env'' := by
  by_contra hnot
  refine Fault.not_forall_ne_eq fault ((x recur).outcome env).1 fun other hother => ?_
  -- An evaluator that fails in both places makes the part fail as in the second place.
  have hboth : ((x (failingAt (failingAt recur e'' env'' other) e' env' fault)).outcome env).1
      = .error other := by
    rw [← failingAt_comm hne]
    exact h other
  rcases hx.fails_or_eq (failingAt recur e'' env'' other) env e' env' fault with hfails | hsame
  · rw [hfails] at hboth
    exact absurd (Except.error.inj hboth).symm hother
  · rwa [hsame, hx.outcome_failingAt hnot] at hboth

theorem const (y : Eval α) : Determined fun _ => y :=
  fun _ _ _ _ => rfl

theorem self (e : Value) : Determined (· e) :=
  fun _ _ _ h => h e _ fun _ => congrArg Prod.fst outcome_failingAt_self

theorem bind {f : α → Part β} (hx : x.Determined) (hf : ∀ a, (f a).Determined) :
    Determined fun recur => x recur >>= fun a => f a recur := by
  intro recur other env hsame
  have hfirst : (x other).outcome env = (x recur).outcome env :=
    hx _ _ _ fun e' env' hasks => hsame e' env' fun fault => Eval.fails_bind (hasks fault) _
  rw [Eval.outcome_bind, Eval.outcome_bind, hfirst]
  rcases hrun : (x recur).outcome env with ⟨fault | a, after⟩
  · rfl
  · refine hf a _ _ _ fun e' env' hasks => hsame e' env' fun fault => ?_
    by_cases hbefore : x.Asks recur env e' env'
    · exact Eval.fails_bind (hbefore fault) _
    · rw [Eval.outcome_bind, hx.outcome_failingAt hbefore, hrun]
      exact hasks fault

/-- What follows a look at the environment may depend on it. -/
theorem get {f : Environment → Part β} (hf : ∀ env, (f env).Determined) :
    Determined fun recur => MonadState.get >>= fun env => f env recur :=
  (const _).bind hf

theorem within (hx : x.Determined) (key : String) (bindings : List (String × Option Value)) :
    Determined fun recur => Eval.within key bindings (x recur) := by
  intro recur other env hsame
  rw [Eval.outcome_within, Eval.outcome_within, hx _ _ _ hsame]

theorem mapM {f : α → Part β} (hf : ∀ a, (f a).Determined) (as : List α) :
    Determined fun recur => as.mapM fun a => f a recur := by
  induction as with
  | nil => exact .const _
  | cons a as ih =>
    simp only [List.mapM_cons]
    exact (hf a).bind fun b => ih.bind fun bs => .const _

end Determined

/-! ## The parts of the evaluator -/

open SpecialForm

theorem determined_lambdaOf (v : Value) : Determined (lambdaOf · v) := by
  unfold lambdaOf
  split
  · exact .const _
  · exact .self v

theorem determined_shortCircuit (decisive : Bool) (operands : List Value) :
    Determined (shortCircuit · decisive operands) := by
  induction operands with
  | nil => exact .const _
  | cons operand rest ih =>
    refine (Determined.self operand).bind fun v => (Determined.const _).bind fun b => ?_
    split
    · exact .const _
    · exact ih

theorem determined_choose (condition consequent alternative : Value) :
    Determined (choose · condition consequent alternative) := by
  refine (Determined.self condition).bind fun v => (Determined.const _).bind fun b => ?_
  split
  · exact .self consequent
  · exact .self alternative

theorem determined_bindNew (target e : Value) : Determined (bindNew · target e) := by
  refine (Determined.const _).bind fun name => .get fun env => ?_
  split
  · exact .const _
  · exact (Determined.self e).bind fun v => .const _

theorem determined_rebind (target e : Value) : Determined (rebind · target e) := by
  refine (Determined.const _).bind fun name => .get fun env => ?_
  split
  · exact .const _
  · exact (Determined.self e).bind fun v => .const _

theorem determined_mapCallee (f : Value) : Determined (mapCallee · f) := by
  cases f with
  | list items => exact (determined_lambdaOf _).bind fun form => .const _
  | bool | number | symbol => exact .const _

theorem determined_mapOver (f items : Value) : Determined (mapOver · f items) := by
  refine (determined_mapCallee f).bind fun callee => (Determined.self items).bind fun v => ?_
  cases v with
  | list elements =>
    exact (Determined.mapM (fun element => .self _) elements).bind fun results => .const _
  | bool | number | symbol => exact .const _

theorem determined_run (form : SpecialForm) (operands : List Value) :
    Determined (form.run · operands) := by
  unfold run
  split
  · exact determined_shortCircuit false operands
  · exact determined_shortCircuit true operands
  · exact determined_mapOver _ _
  · exact .const _
  · exact determined_choose _ _ _
  · exact determined_bindNew _ _
  · exact determined_rebind _ _
  · exact .const _
  · exact .const _

theorem determined_applyOperator (op : Operator) (operands : List Value) :
    Determined (applyOperator · op operands) := by
  unfold applyOperator
  split
  · split
    · exact (Determined.mapM .self operands).bind fun values => .const _
    · exact determined_run _ operands
  · exact .const _

theorem determined_bindOperand (param : String) (operand : Value) :
    Determined (bindOperand · param operand) := by
  refine .get fun env => ?_
  split
  · exact .const _
  · exact (Determined.self operand).bind fun v => .const _

theorem determined_bindOperands (pairs : List (String × Value)) :
    Determined fun recur => pairs.mapM fun b => bindOperand recur b.1 b.2 :=
  .mapM (fun b : String × Value => determined_bindOperand b.1 b.2) pairs

theorem determined_call (key : String) (f : Function) (operands : List Value) :
    Determined (call · key f operands) := by
  unfold call
  split
  · exact .const _
  · refine (determined_bindOperands _).bind fun bindings => ?_
    exact (Determined.self f.body).within key bindings

theorem determined_apply (head : Value) (operands : List Value) :
    Determined (apply · head operands) := by
  cases head with
  | bool | number => exact .const _
  | symbol name =>
    simp only [apply]
    split
    · exact determined_applyOperator _ operands
    · refine .get fun env => (Determined.const _).bind fun found => ?_
      cases found with
      | none => exact .const _
      | some f => exact determined_call name f operands
  | list items =>
    refine (determined_lambdaOf (.list items)).bind fun form => ?_
    split
    · exact .const _
    · refine (Determined.const _).bind fun f => (Determined.const _).bind fun key => ?_
      exact determined_call key f operands

/-- **An evaluation is determined by what the evaluator does with what is handed over to it.** -/
theorem determined_step (e : Value) : Determined (step · e) := by
  unfold step
  split
  · exact .const _
  · exact determined_apply _ _
  · exact .const _

/-! ## Everywhere instead of where it matters -/

open scoped Classical in
/-- If something is so of the evaluator in every place that comes up, then it is so everywhere of
some evaluator that makes no difference. -/
theorem Determined.exists_everywhere {x : Part α} (hx : x.Determined)
    {p : Value → Environment → Except Fault Value × Environment → Prop}
    (hasked : ∀ e' env', x.Asks recur env e' env' → p e' env' ((recur e').outcome env'))
    (hpossible : ∀ e' env', ∃ outcome, p e' env' outcome) :
    ∃ other : Value → Eval Value, (∀ e' env', p e' env' ((other e').outcome env')) ∧
      (x other).outcome env = (x recur).outcome env := by
  choose fallback hfallback using hpossible
  let other : Value → Eval Value := fun e' => ExceptT.mk fun env' =>
    if x.Asks recur env e' env' then (recur e').outcome env' else fallback e' env'
  have hother : ∀ e' env', (other e').outcome env' =
      if x.Asks recur env e' env' then (recur e').outcome env' else fallback e' env' :=
    fun _ _ => rfl
  refine ⟨other, fun e' env' => ?_, hx _ _ _ fun e' env' hasks => by rw [hother, if_pos hasks]⟩
  rw [hother]
  split
  · next hasks => exact hasked e' env' hasks
  · exact hfallback e' env'

end Part

end Evaluation

end SmallScheme
