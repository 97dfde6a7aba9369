import SmallScheme.Proofs.Evaluation.Levels
import SmallScheme.Proofs.Evaluation.Operators
import SmallScheme.Proofs.Reader.Restriction

/-!
# How many levels an expression needs

An expression in which nothing is called but operators other than `map` needs as many levels as it
is high (`Value.height`): an operand that may be evaluated is one level below its expression, and
what is quoted, or the body of a lambda form, adds nothing. So many levels are enough in every
environment (`Evaluation.unstopped_of_callFree`), and what the reader accepts is never higher than
lists may be nested, and one more (`Value.height_le`). If the operators are primitives, which
evaluate all of their operands, then the levels are needed, too, unless the evaluation fails
otherwise (`Evaluation.stopped_of_lt_height`).
-/

namespace SmallScheme

/-! ## Operands in evaluated position -/

/-- The operands that a special form may evaluate. -/
def SpecialForm.evaluated {α : Type} : SpecialForm → List α → List α
  | quote, _ => []
  | lambda, _ => []
  | define, [_, e] => [e]
  | assign, [_, e] => [e]
  | _, operands => operands

/-- The operands that an operator may evaluate. -/
def Operator.evaluated {α : Type} (op : Operator) (operands : List α) : List α :=
  match op.action with
  | .primitive _ => operands
  | .special form => form.evaluated operands

section

variable {α β : Type} {operands : List α}

theorem SpecialForm.evaluated_map (form : SpecialForm) (f : α → β) (operands : List α) :
    form.evaluated (operands.map f) = (form.evaluated operands).map f := by
  rcases operands with _ | ⟨_, _ | ⟨_, _ | ⟨_, _⟩⟩⟩ <;> cases form <;> rfl

theorem SpecialForm.mem_of_mem_evaluated {form : SpecialForm} {a : α}
    (h : a ∈ form.evaluated operands) : a ∈ operands := by
  unfold evaluated at h
  split at h
  · cases h
  · cases h
  · exact List.mem_cons_of_mem _ h
  · exact List.mem_cons_of_mem _ h
  · exact h

theorem Operator.evaluated_map (op : Operator) (f : α → β) (operands : List α) :
    op.evaluated (operands.map f) = (op.evaluated operands).map f := by
  unfold evaluated
  split
  · rfl
  · exact SpecialForm.evaluated_map _ f operands

theorem Operator.mem_of_mem_evaluated {op : Operator} {a : α} (h : a ∈ op.evaluated operands) :
    a ∈ operands := by
  unfold evaluated at h
  split at h
  · exact h
  · exact SpecialForm.mem_of_mem_evaluated h

end

/-! ## Height -/

namespace Value

/-- The operands behind a head that may be evaluated: if the head is no operator, all of them. -/
def evaluatedBehind {α : Type} (head : Value) (operands : List α) : List α :=
  match head with
  | .symbol name =>
    match Operator.named? name with
    | some op => op.evaluated operands
    | none => operands
  | _ => operands

mutual

/-- One for an atom, for the empty list and for what is quoted, else one more than the highest of
the operands that may be evaluated. -/
def height : Value → Nat
  | .list (head :: operands) => 1 + (head.evaluatedBehind (heights operands)).foldr max 0
  | _ => 1

def heights : List Value → List Nat
  | [] => []
  | v :: rest => v.height :: heights rest

end

/-- The height of the highest of some expressions, zero if there are none. -/
def heightAll (vs : List Value) : Nat :=
  (vs.map height).foldr max 0

theorem heights_eq_map (vs : List Value) : heights vs = vs.map height := by
  induction vs with
  | nil => rfl
  | cons v rest ih => rw [heights, ih, List.map_cons]

theorem heightAll_le_iff {vs : List Value} {bound : Nat} :
    heightAll vs ≤ bound ↔ ∀ v ∈ vs, v.height ≤ bound := by
  induction vs with
  | nil => simp [heightAll]
  | cons v rest ih =>
    rw [heightAll, List.map_cons, List.foldr_cons, ← heightAll, Nat.max_le, ih,
      List.forall_mem_cons]

theorem evaluatedBehind_map {α β : Type} (head : Value) (f : α → β) (operands : List α) :
    head.evaluatedBehind (operands.map f) = (head.evaluatedBehind operands).map f := by
  unfold evaluatedBehind
  split
  · split
    · exact Operator.evaluated_map _ f operands
    · rfl
  · rfl

theorem mem_of_mem_evaluatedBehind {α : Type} {head : Value} {operands : List α} {a : α}
    (h : a ∈ head.evaluatedBehind operands) : a ∈ operands := by
  unfold evaluatedBehind at h
  split at h
  · split at h
    · exact Operator.mem_of_mem_evaluated h
    · exact h
  · exact h

theorem height_list (head : Value) (operands : List Value) :
    (list (head :: operands)).height = 1 + heightAll (head.evaluatedBehind operands) := by
  rw [height, heights_eq_map, evaluatedBehind_map, heightAll]

theorem height_operator {name : String} {op : Operator} (hop : Operator.named? name = some op)
    (operands : List Value) :
    (list (symbol name :: operands)).height = 1 + heightAll (op.evaluated operands) := by
  rw [height_list]
  simp only [evaluatedBehind, hop]

theorem height_pos (v : Value) : 0 < v.height := by
  unfold height
  split <;> omega

/-- What is nested so deeply is at most one higher. -/
theorem height_le (v : Value) : v.height ≤ v.nesting + 1 := by
  induction v using induction_on with
  | bool | number | symbol => simp [height]
  | list items ih =>
    cases items with
    | nil => simp [height]
    | cons head operands =>
      have hoperands : heightAll (head.evaluatedBehind operands) ≤ nestingAll operands + 1 := by
        refine heightAll_le_iff.mpr fun v hv => ?_
        have hmem := mem_of_mem_evaluatedBehind hv
        have hnesting := nestingAll_le_iff.mp (Nat.le_refl (nestingAll operands)) v hmem
        exact (ih v (List.mem_cons_of_mem _ hmem)).trans (Nat.add_le_add_right hnesting 1)
      have hlist : nestingAll operands ≤ nestingAll (head :: operands) := Nat.le_max_right _ _
      rw [height_list, nesting_list]
      omega

/-- Every list in evaluated position, other than the empty one, applies an operator, which is not
`map`. -/
inductive CallFree : Value → Prop
  | bool (b : Bool) : CallFree (.bool b)
  | number (n : Number) : CallFree (.number n)
  | symbol (name : String) : CallFree (.symbol name)
  | nil : CallFree (.list [])
  | operator {name : String} {op : Operator} {operands : List Value}
      (hop : Operator.named? name = some op) (hmap : op.action ≠ .special .map)
      (hoperands : op.arity.admits operands.length = true →
        ∀ e ∈ op.evaluated operands, CallFree e) : CallFree (.list (.symbol name :: operands))

/-- Every list, other than the empty one, applies a primitive. -/
inductive OfPrimitives : Value → Prop
  | bool (b : Bool) : OfPrimitives (.bool b)
  | number (n : Number) : OfPrimitives (.number n)
  | symbol (name : String) : OfPrimitives (.symbol name)
  | nil : OfPrimitives (.list [])
  | operator {name : String} {op : Operator} {primitive : Primitive} {operands : List Value}
      (hop : Operator.named? name = some op) (haction : op.action = .primitive primitive)
      (hoperands : ∀ e ∈ operands, OfPrimitives e) :
      OfPrimitives (.list (.symbol name :: operands))

end Value

/-! ## Special forms -/

namespace SpecialForm

open Eval

variable {recur : Value → Eval Value} {operands : List Value}

theorem unstopped_shortCircuit (decisive : Bool) (h : ∀ e ∈ operands, (recur e).Unstopped) :
    (shortCircuit recur decisive operands).Unstopped := by
  induction operands with
  | nil => exact .pure _
  | cons e rest ih =>
    refine (h e List.mem_cons_self).bind fun v => ?_
    refine (Unstopped.ofExcept v.harmless_asBool).bind fun b => ?_
    split
    · exact .pure _
    · exact ih fun e' he' => h e' (List.mem_cons_of_mem e he')

theorem unstopped_bindName (name : String) (v : Value) : (bindName name v).Unstopped :=
  .get fun env => (Unstopped.ofExcept (env.harmless_bind name v)).bind fun _ _ => withinLimit_ok _ _

theorem unstopped_bindNew (target : Value) {e : Value} (h : (recur e).Unstopped) :
    (bindNew recur target e).Unstopped := by
  refine (Unstopped.ofExcept (Identifier.harmless_ofValue target)).bind fun name => ?_
  refine .get fun env => ?_
  split
  · exact .throw nofun
  · exact h.bind fun v => (unstopped_bindName name v).bind fun _ => .pure v

theorem unstopped_rebind (target : Value) {e : Value} (h : (recur e).Unstopped) :
    (rebind recur target e).Unstopped := by
  refine (Unstopped.ofExcept (Identifier.harmless_ofValue target)).bind fun name => ?_
  refine .get fun env => ?_
  split
  · exact .throw nofun
  · exact h.bind fun v => (unstopped_bindName name v).bind fun _ => .pure v

/-- A special form has enough levels if its operands have, except that `map` makes calls. -/
theorem unstopped_run {form : SpecialForm} (hmap : form ≠ .map)
    (h : ∀ e ∈ form.evaluated operands, (recur e).Unstopped) :
    (form.run recur operands).Unstopped := by
  unfold run
  split
  · exact unstopped_shortCircuit false h
  · exact unstopped_shortCircuit true h
  · exact absurd rfl hmap
  · exact .pure _
  · next condition consequent alternative =>
    refine (h condition (by simp [evaluated])).bind fun v => ?_
    refine (Unstopped.ofExcept v.harmless_asBool).bind fun b => ?_
    split
    · exact h consequent (by simp [evaluated])
    · exact h alternative (by simp [evaluated])
  · next target e => exact unstopped_bindNew target (h e (by simp [evaluated]))
  · next target e => exact unstopped_rebind target (h e (by simp [evaluated]))
  · next params body =>
    exact (Unstopped.ofExcept (Function.harmless_ofForm _)).bind fun _ => .pure _
  · exact .throw nofun

end SpecialForm

namespace Evaluation

open Eval Value

variable {e : Value} {env : Environment}

/-! ## As many levels are enough -/

theorem unstopped_applyOperator {recur : Value → Eval Value} {op : Operator}
    {operands : List Value} (hmap : op.action ≠ .special .map)
    (h : op.arity.admits operands.length = true →
      ∀ e ∈ op.evaluated operands, (recur e).Unstopped) :
    (applyOperator recur op operands).Unstopped := by
  unfold applyOperator
  split
  · next hadmits =>
    have hoperands := h hadmits
    unfold Operator.evaluated at hoperands
    cases haction : op.action with
    | primitive p =>
      simp only [haction] at hoperands
      exact (Unstopped.mapM hoperands).bind fun values => .ofExcept (p.harmless_apply values)
    | special form =>
      simp only [haction] at hoperands
      exact SpecialForm.unstopped_run (fun hform => hmap (hform ▸ haction)) hoperands
  · exact .throw nofun

/-- An expression without calls needs no more levels than it is high. -/
theorem unstopped_of_callFree (h : CallFree e) {room : Nat} (hroom : e.height ≤ room) :
    (evaluate room e).Unstopped := by
  induction h generalizing room with
  | bool | number | nil =>
    obtain ⟨room, rfl⟩ := Nat.exists_eq_add_of_le' ((height_pos _).trans_le hroom)
    exact .pure _
  | symbol name =>
    obtain ⟨room, rfl⟩ := Nat.exists_eq_add_of_le' ((height_pos _).trans_le hroom)
    exact .get fun env => .ofExcept (env.harmless_lookup name)
  | operator hop hmap _ ih =>
    obtain ⟨room, rfl⟩ := Nat.exists_eq_add_of_le' ((height_pos _).trans_le hroom)
    rw [height_operator hop] at hroom
    simp only [evaluate, step, apply, hop]
    refine unstopped_applyOperator hmap fun hadmits e he => ih hadmits e he ?_
    exact heightAll_le_iff.mp (by omega) e he

/-! ## Fewer levels are not -/

/-- Two evaluations that have enough levels end alike. -/
theorem outcome_eq_of_withinLimit {room room' : Nat}
    (h : WithinLimit ((evaluate room e).outcome env))
    (h' : WithinLimit ((evaluate room' e).outcome env)) :
    (evaluate room e).outcome env = (evaluate room' e).outcome env := by
  rcases Nat.le_total room room' with hle | hle
  · exact cutFrom_evaluate hle e env h
  · exact (cutFrom_evaluate hle e env h').symm

/-- If operands are evaluated with enough levels in one run and with some result in another one,
then so is each of them. -/
theorem each_of_mapM {room room' : Nat} {operands vs : List Value} {after : Environment}
    (hrun : (operands.mapM (evaluate room)).outcome env = (.ok vs, after))
    (hwithin : WithinLimit ((operands.mapM (evaluate room')).outcome env)) :
    ∀ e ∈ operands, ∃ s v after', (evaluate room e).outcome s = (.ok v, after') ∧
      WithinLimit ((evaluate room' e).outcome s) := by
  induction operands generalizing env vs after with
  | nil => exact fun e he => absurd he List.not_mem_nil
  | cons operand rest ih =>
    rw [List.mapM_cons] at hrun hwithin
    obtain ⟨v, mid, hfirst, hrest⟩ := outcome_bind_ok hrun
    obtain ⟨others, last, hothers, -⟩ := outcome_bind_ok hrest
    obtain ⟨hfirst', hrest'⟩ := withinLimit_bind.mp hwithin
    have hsame := outcome_eq_of_withinLimit (hfirst ▸ withinLimit_ok v mid) hfirst'
    have hothers' := (withinLimit_bind.mp (hrest' v mid (hsame.symm.trans hfirst))).1
    exact List.forall_mem_cons.mpr ⟨⟨env, v, mid, hfirst, hfirst'⟩, ih hothers hothers'⟩

/-- An expression of primitives that succeeds needs all the levels that it is high. -/
theorem stopped_of_lt_height (h : OfPrimitives e) {room lower : Nat} {v : Value}
    {after : Environment} (hrun : (evaluate room e).outcome env = (.ok v, after))
    (hlt : lower < e.height) : ¬WithinLimit ((evaluate lower e).outcome env) := by
  induction h generalizing room lower env v after with
  | bool | number | symbol | nil =>
    obtain rfl : lower = 0 := by simpa [height] using hlt
    exact not_withinLimit_evaluate_zero _ env
  | @operator name op primitive operands hop haction _ ih =>
    intro hwithin
    rw [height_operator hop, Operator.evaluated, haction] at hlt
    cases lower with
    | zero => exact not_withinLimit_evaluate_zero _ env hwithin
    | succ lower =>
      cases room with
      | zero => cases hrun
      | succ room =>
        by_cases hadmits : op.arity.admits operands.length = true
        · rw [evaluate, step_primitive hop haction hadmits] at hrun hwithin
          obtain ⟨values, mid, hvalues, -⟩ := outcome_bind_ok hrun
          have heach := each_of_mapM hvalues (withinLimit_bind.mp hwithin).1
          -- One of the operands is too high for the levels that are left to it.
          have htoo : ¬∀ e ∈ operands, e.height ≤ lower := fun hall => by
            have := heightAll_le_iff.mpr hall
            simp only at hlt
            omega
          push Not at htoo
          obtain ⟨e, he, hhigh⟩ := htoo
          obtain ⟨s, w, after', hrun', hwithin'⟩ := heach e he
          exact ih e he hrun' hhigh hwithin'
        · simp only [evaluate, step, apply, hop, applyOperator, if_neg hadmits] at hrun
          cases hrun

/-- **The levels that an expression needs are known from its height.**

* An expression that makes no calls is never stopped by a limit of at least its height, whatever
  environment it is evaluated in.
* What is read is at most one higher than lists may be nested. So if it makes no calls, then every
  limit of depth above the limit of nesting is enough for it.
* An expression of primitives that succeeds under some limit is stopped by every limit below its
  height. -/
theorem height_decides_limit :
    (∀ (e : Value) (env : Environment), e.CallFree → e.height ≤ env.maxDepth →
      WithinLimit ((evaluateAt 0 e).outcome env)) ∧
    (∀ (reader : Reader.Config) (text : String) (vs : List Value),
      Reader.readAll reader text = .ok vs ∨
        (∃ v, Reader.readOne reader text = .ok v ∧ vs = [v]) →
      ∀ v ∈ vs, v.height ≤ reader.maxDepth + 1 ∧
        (v.CallFree → ∀ env : Environment, reader.maxDepth < env.maxDepth →
          WithinLimit ((evaluateAt 0 v).outcome env))) ∧
    ∀ (e v : Value) (env : Environment) (limit lower : Nat), e.OfPrimitives →
      ((evaluateAt 0 e).outcome (env.withLimit limit)).1 = .ok v → lower < e.height →
        ∃ fault, ((evaluateAt 0 e).outcome (env.withLimit lower)).1 = .error fault ∧
          fault.kind? = some .depthLimitExceeded := by
  have henough : ∀ (e : Value) (env : Environment), e.CallFree → e.height ≤ env.maxDepth →
      WithinLimit ((evaluateAt 0 e).outcome env) :=
    fun e env h hheight => unstopped_of_callFree h hheight env
  refine ⟨henough, fun reader text vs hread v hv => ?_, fun e v env limit lower h hrun hlt => ?_⟩
  · have hall : Reader.readAll reader text = .ok vs := by
      rcases hread with hall | ⟨v, hone, rfl⟩
      · exact hall
      · exact Reader.readOne_eq_ok_iff.mp hone
    have hnesting := nestingAll_le_iff.mp (Reader.nestingAll_le_of_readAll hall) v hv
    have hheight : v.height ≤ reader.maxDepth + 1 :=
      v.height_le.trans (Nat.add_le_add_right hnesting 1)
    exact ⟨hheight, fun h env hdepth => henough v env h (hheight.trans hdepth)⟩
  · have hsame : (evaluate limit e).outcome (env.withLimit limit)
        = (.ok v, ((evaluateAt 0 e).outcome (env.withLimit limit)).2) := Prod.ext hrun rfl
    have hstopped := stopped_of_lt_height h (outcome_evaluate_withLimit hsame lower) hlt
    simp only [WithinLimit, Fault.Harmless, Fault.Ordinary] at hstopped
    push Not at hstopped
    exact hstopped

/-- A definition of height three is read where lists may be nested twice, and evaluated under every
limit from three on. A negation has the height two. -/
theorem height_decides_limit_definition :
    let negation := Value.list [.symbol "not", .bool true]
    let definition := Value.list [.symbol "define", .symbol "x", negation]
    let env := Environment.fresh {}
    definition.CallFree ∧ definition.height = 3 ∧
      WithinLimit ((evaluateAt 0 definition).outcome (env.withLimit 3)) ∧
      Reader.readAll ⟨false, 2⟩ "(define x (not #t))" = .ok [definition] ∧
      WithinLimit ((evaluateAt 0 definition).outcome (env.withLimit 4)) ∧
      negation.OfPrimitives ∧ negation.height = 2 ∧
      ((evaluateAt 0 negation).outcome (env.withLimit 2)).1 = .ok (.bool false) ∧
      ∃ fault, ((evaluateAt 0 negation).outcome (env.withLimit 1)).1 = .error fault ∧
        fault.kind? = some .depthLimitExceeded := by
  intro negation definition env
  obtain ⟨henough, hread, hneeded⟩ := height_decides_limit
  have hnot : Operator.named? "not" = some ⟨"not", .exact 1, .primitive .not⟩ := by decide
  have hdefine : Operator.named? "define" = some ⟨"define", .exact 2, .special .define⟩ := by decide
  have hnegation : negation.CallFree :=
    .operator hnot nofun fun _ => List.forall_mem_singleton.mpr (.bool true)
  have hdefinition : definition.CallFree :=
    .operator hdefine nofun fun _ => List.forall_mem_singleton.mpr hnegation
  have hprimitives : negation.OfPrimitives :=
    .operator hnot rfl (List.forall_mem_singleton.mpr (.bool true))
  have htext : Reader.readAll ⟨false, 2⟩ "(define x (not #t))" = .ok [definition] := rfl
  have hlimits := (hread _ _ _ (.inl htext) definition List.mem_cons_self).2 hdefinition
  have hrun : ((evaluateAt 0 negation).outcome (env.withLimit 2)).1 = .ok (.bool false) := rfl
  exact ⟨hdefinition, rfl, henough definition (env.withLimit 3) hdefinition (Nat.le_refl 3), htext,
    hlimits (env.withLimit 4) (by decide), hprimitives, rfl, hrun,
    hneeded negation _ env 2 1 hprimitives hrun (by decide)⟩

end Evaluation

end SmallScheme
