import SmallScheme.Proofs.Evaluation.Binders
import SmallScheme.Proofs.Evaluation.Frames
import SmallScheme.Proofs.Evaluation.Operators

/-!
# What is not mentioned is not seen

In the model of frames, the body of a call sees the parameters of that call and no others. So the
parameters of the call under way matter to an expression only where the expression itself mentions
them: not to what it quotes, nor to the forms that it calls, whatever those forms mention
(`Value.Overlooks`). An evaluation that overlooks a parameter goes on alike whether the parameter is
bound or not (`Evaluation.alike_evaluate`).

Nor does it matter to a call under frames which key it is made under, so calls of one function are
alike in whatever way the function was named (`Evaluation.alike_call`).

Two evaluations are compared above two stacks of frames (`Eval.Alike`). `Comparison` does not serve
here, since what it says of an expression it says of all values that come up, and the values that
come up may mention anything.
-/

namespace SmallScheme

/-! ## Environments with other frames -/

namespace Environment

/-- The environment with these frames for the calls under way. -/
def withFrames (env : Environment) (stack : List (Table Value)) : Environment :=
  { env with calls := .frames stack }

variable (env : Environment) (stack : List (Table Value)) (name : String)

@[simp] theorem calls_withFrames : (env.withFrames stack).calls = .frames stack := rfl

@[simp] theorem maxDepth_withFrames : (env.withFrames stack).maxDepth = env.maxDepth := rfl

@[simp] theorem leave_withFrames (frame : Table Value) :
    (env.withFrames (frame :: stack)).leave = env.withFrames stack := rfl

/-- A call puts a frame on top, whatever its key is. -/
theorem enter_withFrames (key : String) (bindings : List (String × Option Value)) :
    (env.withFrames stack).enter key bindings = env.withFrames
      (Table.empty.insertAll (bindings.filterMap fun b => b.2.map (b.1, ·)) :: stack) := rfl

theorem bind_withFrames (v : Value) :
    (env.withFrames stack).bind name v = (env.bind name v).map (·.withFrames stack) := by
  unfold bind
  split
  · cases Function.ofForm v <;> rfl
  · rfl

variable {env stack name}

theorem withFrames_eq_self (h : env.calls = .frames stack) : env.withFrames stack = env := by
  rw [withFrames, ← h]

theorem SameTop.eq_withFrames {stack stack' : List (Table Value)} {s t : Environment}
    (h : SameTop stack stack' s t) : t = s.withFrames stack' := by
  obtain ⟨values, functions, calls, maxDepth⟩ := t
  simp only [withFrames, h.values, h.functions, h.maxDepth, ← h.right]

/-- A name that both innermost frames bind alike, or neither, means the same above both stacks. -/
theorem lookup_withFrames {stack' : List (Table Value)}
    (h : (Calls.frames stack).lookup? name = (Calls.frames stack').lookup? name) :
    (env.withFrames stack).lookup name = (env.withFrames stack').lookup name := by
  simp only [lookup, calls_withFrames, h]
  rfl

theorem resolve_withFrames {stack' : List (Table Value)}
    (h : (Calls.frames stack).lookup? name = (Calls.frames stack').lookup? name) :
    (env.withFrames stack).resolve name = (env.withFrames stack').resolve name := by
  simp only [resolve, calls_withFrames, h]
  rfl

end Environment

/-! ## Evaluations above two stacks of frames -/

/-- Two evaluations, each above a stack of frames of its own, end alike: the results are equal, and
so are the environments but for the frames, which are those of the beginning. -/
def Eval.Alike {α : Type} (stack stack' : List (Table Value)) (x y : Eval α) : Prop :=
  ∀ env : Environment, ∃ (result : Except Fault α) (after : Environment),
    x.outcome (env.withFrames stack) = (result, after.withFrames stack) ∧
      y.outcome (env.withFrames stack') = (result, after.withFrames stack')

namespace Eval

variable {α β : Type} {stack stack' : List (Table Value)}

theorem Alike.ofExcept (r : Except Fault α) : Alike stack stack' (.ofExcept r) (.ofExcept r) :=
  fun env => ⟨r, env, rfl, rfl⟩

theorem Alike.pure (a : α) : Alike stack stack' (pure a) (pure a) :=
  .ofExcept (.ok a)

theorem Alike.fault (fault : Fault) : Alike stack stack' (throw fault : Eval α) (throw fault) :=
  .ofExcept (.error fault)

/-- What goes on behind two evaluations needs to be alike for results of the first only. -/
theorem Alike.bind {x y : Eval α} {f g : α → Eval β} (hx : Alike stack stack' x y)
    (hf : ∀ {a env after}, x.outcome env = (.ok a, after) → Alike stack stack' (f a) (g a)) :
    Alike stack stack' (x >>= f) (y >>= g) := by
  intro env
  obtain ⟨result, mid, hleft, hright⟩ := hx env
  cases result with
  | error fault =>
    exact ⟨.error fault, mid, by rw [outcome_bind, hleft], by rw [outcome_bind, hright]⟩
  | ok a =>
    obtain ⟨result, after, hleft', hright'⟩ := hf hleft mid
    refine ⟨result, after, ?_, ?_⟩
    · rw [outcome_bind, hleft]
      exact hleft'
    · rw [outcome_bind, hright]
      exact hright'

theorem Alike.check {r : Except Fault α} {f g : α → Eval β}
    (hf : ∀ a, r = .ok a → Alike stack stack' (f a) (g a)) :
    Alike stack stack' (.ofExcept r >>= f) (.ofExcept r >>= g) :=
  (ofExcept r).bind fun h => hf _ (congrArg Prod.fst h)

theorem Alike.look {f g : Environment → Eval α}
    (hf : ∀ env : Environment,
      Alike stack stack' (f (env.withFrames stack)) (g (env.withFrames stack'))) :
    Alike stack stack' (get >>= f) (get >>= g) :=
  fun env => hf env env

theorem Alike.guard {p p' : Prop} [Decidable p] [Decidable p'] (hp : p ↔ p') {fault : Fault}
    {f g : Unit → Eval α} (hf : Alike stack stack' (f ()) (g ())) :
    Alike stack stack' (if p then throw fault >>= f else f ())
      (if p' then throw fault >>= g else g ()) := by
  by_cases h : p
  · rw [if_pos h, if_pos (hp.mp h)]
    exact .fault fault
  · rw [if_neg h, if_neg (mt hp.mpr h)]
    exact hf

theorem Alike.mapM {f g : α → Eval β} {as : List α}
    (hf : ∀ a ∈ as, Alike stack stack' (f a) (g a)) :
    Alike stack stack' (as.mapM f) (as.mapM g) := by
  induction as with
  | nil => exact .pure []
  | cons a as ih =>
    rw [List.mapM_cons, List.mapM_cons]
    refine (hf a List.mem_cons_self).bind fun _ => ?_
    exact (ih fun a ha => hf a (List.mem_cons_of_mem _ ha)).bind fun _ => .pure _

theorem Alike.within {x y : Eval α} (h : ∀ frame, Alike (frame :: stack) (frame :: stack') x y)
    (key key' : String) (bindings : List (String × Option Value)) :
    Alike stack stack' (.within key bindings x) (.within key' bindings y) := by
  intro env
  obtain ⟨result, after, hleft, hright⟩ :=
    h (Table.empty.insertAll (bindings.filterMap fun b => b.2.map (b.1, ·))) env
  refine ⟨result, after, ?_, ?_⟩
  · rw [outcome_within, Environment.enter_withFrames, hleft, Environment.leave_withFrames]
  · rw [outcome_within, Environment.enter_withFrames, hright, Environment.leave_withFrames]

theorem Alike.bindName (name : String) (v : Value) :
    Alike stack stack' (SpecialForm.bindName name v) (SpecialForm.bindName name v) := by
  intro env
  simp only [SpecialForm.outcome_bindName, Environment.bind_withFrames]
  cases env.bind name v with
  | error fault => exact ⟨.error fault, env, rfl, rfl⟩
  | ok bound => exact ⟨.ok (), bound, rfl, rfl⟩

end Eval

/-! ## Overlooking a parameter -/

/-- Evaluated where a name is a parameter, the value does not ask for it: the name stands in it
within quotes only, and within forms that are called. -/
inductive Value.Overlooks (name : String) : Value → Prop
  | bool (b : Bool) : Overlooks name (.bool b)
  | number (n : Number) : Overlooks name (.number n)
  | symbol {other : String} (h : other ≠ name) : Overlooks name (.symbol other)
  | list {items : List Value} (h : ∀ v ∈ items, Overlooks name v) : Overlooks name (.list items)
  | quoted (v : Value) : Overlooks name (.quoted v)
  | form {head : Value} {operands : List Value} (hhead : head.isLambdaForm = true)
      (h : ∀ v ∈ operands, Overlooks name v) : Overlooks name (.list (head :: operands))

theorem Value.overlooks_symbol {name other : String} :
    Overlooks name (.symbol other) ↔ other ≠ name := by
  constructor
  · intro h
    cases h with
    | symbol h => exact h
  · exact .symbol

theorem Value.Avoids.overlooks {name : String} {v : Value} (h : v.Avoids [name]) :
    v.Overlooks name := by
  induction v using Value.induction_on with
  | bool b => exact .bool b
  | number n => exact .number n
  | symbol other => exact .symbol fun heq => avoids_symbol.mp h (List.mem_singleton.mpr heq)
  | list items ih => exact .list fun v hv => ih v hv ((avoids_list items).mp h v hv)

namespace Evaluation

open Eval

variable {recur : Value → Eval Value} {stack stack' : List (Table Value)} {name : String}

/-- What is called for each element is the operand as it is written, or a lambda form. -/
theorem isLambdaForm_or_eq_of_mapCallee {f callee : Value} {env after : Environment}
    (h : (SpecialForm.mapCallee recur f).outcome env = (.ok callee, after)) :
    callee.isLambdaForm = true ∨ callee = f := by
  cases f with
  | bool b => cases h
  | number n => cases h
  | symbol other =>
    simp only [SpecialForm.mapCallee] at h
    split at h
    · cases h
      exact .inr rfl
    · obtain ⟨_, _, -, h⟩ := outcome_bind_ok h
      obtain ⟨found, _, -, h⟩ := outcome_bind_ok h
      cases found with
      | none => cases h
      | some function =>
        obtain ⟨_, _, -, h⟩ := outcome_bind_ok h
        cases h
        exact .inr rfl
  | list items =>
    obtain ⟨form, _, -, h⟩ := outcome_bind_ok h
    obtain ⟨function, _, hform, h⟩ := outcome_bind_ok h
    obtain ⟨_, _, -, h⟩ := outcome_bind_ok h
    cases h
    obtain ⟨-, rfl⟩ := Function.ofForm_eq_ok_iff.mp (congrArg Prod.fst hform)
    exact .inl function.isLambdaForm_toForm

theorem alike_requireUnary (f : Function) :
    Alike stack stack' (SpecialForm.requireUnary f) (SpecialForm.requireUnary f) := by
  unfold SpecialForm.requireUnary
  split
  · exact .pure ()
  · exact .fault _

section Operands

variable (hrecur : ∀ e, e.Overlooks name → Alike stack stack' (recur e) (recur e))
variable (hsame : ∀ other, other ≠ name →
  (Calls.frames stack).lookup? other = (Calls.frames stack').lookup? other)

section

include hrecur

theorem alike_lambdaOf {v : Value} (h : v.isLambdaForm = true ∨ v.Overlooks name) :
    Alike stack stack' (lambdaOf recur v) (lambdaOf recur v) := by
  unfold lambdaOf
  split
  · exact .pure v
  · next hform => exact hrecur v (h.resolve_left hform)

theorem alike_shortCircuit (decisive : Bool) {operands : List Value}
    (h : ∀ v ∈ operands, v.Overlooks name) :
    Alike stack stack' (SpecialForm.shortCircuit recur decisive operands)
      (SpecialForm.shortCircuit recur decisive operands) := by
  induction operands with
  | nil => exact .pure _
  | cons operand rest ih =>
    obtain ⟨hoperand, hrest⟩ := List.forall_mem_cons.mp h
    refine (hrecur operand hoperand).bind fun _ => .check fun b _ => ?_
    split
    · exact .pure _
    · exact ih hrest

theorem alike_choose {condition consequent alternative : Value}
    (hcondition : condition.Overlooks name) (hconsequent : consequent.Overlooks name)
    (halternative : alternative.Overlooks name) :
    Alike stack stack' (SpecialForm.choose recur condition consequent alternative)
      (SpecialForm.choose recur condition consequent alternative) := by
  refine (hrecur condition hcondition).bind fun _ => .check fun b _ => ?_
  split
  · exact hrecur consequent hconsequent
  · exact hrecur alternative halternative

/-- A value is bound in both runs alike. -/
theorem alike_bound {e : Value} (he : e.Overlooks name) (target : String) :
    Alike stack stack' (do let v ← recur e; SpecialForm.bindName target v; pure v)
      (do let v ← recur e; SpecialForm.bindName target v; pure v) :=
  (hrecur e he).bind fun _ => (Alike.bindName target _).bind fun _ => .pure _

theorem alike_bindNew (target : Value) {e : Value} (he : e.Overlooks name) :
    Alike stack stack' (SpecialForm.bindNew recur target e)
      (SpecialForm.bindNew recur target e) := by
  refine .check fun target _ => .look fun env => ?_
  exact .guard (.refl _) (alike_bound hrecur he target)

theorem alike_rebind (target : Value) {e : Value} (he : e.Overlooks name) :
    Alike stack stack' (SpecialForm.rebind recur target e)
      (SpecialForm.rebind recur target e) := by
  refine .check fun target _ => .look fun env => ?_
  exact .guard (.refl _) (alike_bound hrecur he target)

end

include hrecur hsame

theorem alike_mapCallee {f : Value} (hf : f.Overlooks name) :
    Alike stack stack' (SpecialForm.mapCallee recur f) (SpecialForm.mapCallee recur f) := by
  cases f with
  | bool b => exact .fault _
  | number n => exact .fault _
  | symbol other =>
    simp only [SpecialForm.mapCallee]
    split
    · exact .pure _
    · refine .look fun env => ?_
      rw [Environment.resolve_withFrames (hsame other (Value.overlooks_symbol.mp hf))]
      refine .check fun found _ => ?_
      cases found with
      | none => exact .fault _
      | some function => exact (alike_requireUnary function).bind fun _ => .pure _
  | list items =>
    refine (alike_lambdaOf hrecur (.inr hf)).bind fun _ => .check fun function _ => ?_
    exact (alike_requireUnary function).bind fun _ => .pure _

theorem alike_mapOver {f items : Value} (hf : f.Overlooks name)
    (hitems : items.Overlooks name) :
    Alike stack stack' (SpecialForm.mapOver recur f items) (SpecialForm.mapOver recur f items) := by
  refine (alike_mapCallee hrecur hsame hf).bind fun hcallee => ?_
  refine (hrecur items hitems).bind fun {v _ _} _ => ?_
  cases v with
  | bool b => exact .fault _
  | number n => exact .fault _
  | symbol name => exact .fault _
  | list elements =>
    refine (Alike.mapM fun element _ => hrecur _ ?_).bind fun _ => .pure _
    have hquoted : ∀ w ∈ [Value.quoted element], w.Overlooks name :=
      List.forall_mem_singleton.mpr (.quoted element)
    rcases isLambdaForm_or_eq_of_mapCallee hcallee with hform | rfl
    · exact .form hform hquoted
    · exact .list (List.forall_mem_cons.mpr ⟨hf, hquoted⟩)

theorem alike_run (form : SpecialForm) {operands : List Value}
    (h : ∀ v ∈ operands, v.Overlooks name) :
    Alike stack stack' (form.run recur operands) (form.run recur operands) := by
  unfold SpecialForm.run
  split
  · exact alike_shortCircuit hrecur false h
  · exact alike_shortCircuit hrecur true h
  · simp only [List.forall_mem_cons] at h
    exact alike_mapOver hrecur hsame h.1 h.2.1
  · exact .pure _
  · simp only [List.forall_mem_cons] at h
    exact alike_choose hrecur h.1 h.2.1 h.2.2.1
  · simp only [List.forall_mem_cons] at h
    exact alike_bindNew hrecur _ h.2.1
  · simp only [List.forall_mem_cons] at h
    exact alike_rebind hrecur _ h.2.1
  · exact .check fun _ _ => .pure _
  · exact .fault _

theorem alike_applyOperator (op : Operator) {operands : List Value}
    (h : ∀ v ∈ operands, v.Overlooks name) :
    Alike stack stack' (applyOperator recur op operands) (applyOperator recur op operands) := by
  unfold applyOperator
  split
  · cases op.action with
    | primitive p => exact (Alike.mapM fun v hv => hrecur v (h v hv)).bind fun _ => .ofExcept _
    | special form => exact alike_run hrecur hsame form h
  · exact .fault _

end Operands

/-! ## Calls -/

theorem alike_bindOperand (param : String) {operand : Value}
    (h : Alike stack stack' (recur operand) (recur operand)) :
    Alike stack stack' (bindOperand recur param operand) (bindOperand recur param operand) := by
  refine .look fun env => ?_
  simp only [Environment.calls_withFrames, Calls.model, reduceCtorEq, false_and, if_false]
  exact h.bind fun _ => .pure _

section Calls

variable (hbody : ∀ frame e, Alike (frame :: stack) (frame :: stack') (recur e) (recur e))

include hbody in
/-- In the model of frames, the key of a call makes no difference. -/
theorem alike_call (key key' : String) (f : Function) {operands : List Value}
    (h : ∀ v ∈ operands, Alike stack stack' (recur v) (recur v)) :
    Alike stack stack' (call recur key f operands) (call recur key' f operands) := by
  unfold call
  refine .guard (p := operands.length ≠ f.params.length) .rfl ?_
  refine .bind (.mapM fun b hb => ?_) fun _ => ?_
  · exact alike_bindOperand b.1 (h b.2 (List.of_mem_zip hb).2)
  · exact .within (fun frame => hbody frame f.body) key key' _

variable (hrecur : ∀ e, e.Overlooks name → Alike stack stack' (recur e) (recur e))
variable (hsame : ∀ other, other ≠ name →
  (Calls.frames stack).lookup? other = (Calls.frames stack').lookup? other)
include hbody hrecur hsame

theorem alike_apply {head : Value} {operands : List Value}
    (hhead : head.isLambdaForm = true ∨ head.Overlooks name)
    (h : ∀ v ∈ operands, v.Overlooks name) :
    Alike stack stack' (apply recur head operands) (apply recur head operands) := by
  cases head with
  | bool b => exact .fault _
  | number n => exact .fault _
  | symbol other =>
    simp only [apply]
    cases Operator.named? other with
    | some op => exact alike_applyOperator hrecur hsame op h
    | none =>
      have hother : other ≠ name :=
        Value.overlooks_symbol.mp (hhead.resolve_left Bool.false_ne_true)
      refine .look fun env => ?_
      rw [Environment.resolve_withFrames (hsame other hother)]
      refine .check fun found _ => ?_
      cases found with
      | none => exact .fault _
      | some f => exact alike_call hbody other other f fun v hv => hrecur v (h v hv)
  | list items =>
    refine (alike_lambdaOf hrecur hhead).bind fun _ => .guard .rfl ?_
    refine .check fun f _ => .check fun key _ => ?_
    exact alike_call hbody key key f fun v hv => hrecur v (h v hv)

theorem alike_step {e : Value} (he : e.Overlooks name) :
    Alike stack stack' (step recur e) (step recur e) := by
  cases he with
  | bool b => exact .pure _
  | number n => exact .pure _
  | @symbol other h =>
    refine .look fun env => ?_
    rw [Environment.lookup_withFrames (hsame other h)]
    exact .ofExcept _
  | @list items h =>
    cases items with
    | nil => exact .pure _
    | cons head operands =>
      obtain ⟨hhead, hoperands⟩ := List.forall_mem_cons.mp h
      exact alike_apply hbody hrecur hsame (.inr hhead) hoperands
  | quoted v =>
    rw [step_quoted]
    exact .pure v
  | form hhead h => exact alike_apply hbody hrecur hsame (.inl hhead) h

end Calls

/-! ## Whole evaluations -/

/-- Where the innermost frames are the same, all evaluations are alike. -/
theorem alike_evaluate_of_head (h : stack.head? = stack'.head?) (room : Nat) (e : Value) :
    Alike stack stack' (evaluate room e) (evaluate room e) := by
  intro env
  have hrel : (env.withFrames stack).SameTop stack stack' (env.withFrames stack') :=
    ⟨rfl, rfl, rfl, rfl, rfl, h⟩
  have hagree := Comparison.simulates_evaluate (c := .aboveFrames) (.inl rfl) room
    (i := ([], stack, stack')) (e := e) trivial (fun _ => trivial) [] _ _ hrel fun _ _ => trivial
  have hafter := hagree.related fun _ => id
  exact ⟨_, _, Prod.ext rfl (Environment.withFrames_eq_self hafter.left).symm,
    Prod.ext (hagree.result_eq (fun _ => id) fun _ _ => id).symm hafter.eq_withFrames⟩

/-- **What is not mentioned is not seen.** If two stacks of frames bind all names but one to the
same values in the innermost frame, every expression that overlooks this name is evaluated alike
above both. -/
theorem alike_evaluate (hsame : ∀ other, other ≠ name →
      (Calls.frames stack).lookup? other = (Calls.frames stack').lookup? other)
    (room : Nat) {e : Value} (he : e.Overlooks name) :
    Alike stack stack' (evaluate room e) (evaluate room e) := by
  induction room generalizing e with
  | zero => exact .look fun env => .fault _
  | succ room ih =>
    exact alike_step (fun frame e => alike_evaluate_of_head List.head?_cons room e)
      (fun e he => ih he) hsame he

end Evaluation

end SmallScheme
