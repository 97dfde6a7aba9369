import SmallScheme.Proofs.Evaluation.Levels
import SmallScheme.Proofs.Evaluation.Operators
import SmallScheme.Proofs.Evaluation.Reached

/-!
# The connectives and their expansions

`and` and `or` evaluate their operands until one of them is decisive, which is `#f` for `and` and
`#t` for `or`. Both can be expressed by nested conditionals (`Connective.nested`), and by the other
one of them with negations (`Connective.dual`). The three expressions end alike, with a result or a
fault, and on the way they evaluate the same operands in the same environments
(`Connective.agrees_with_expansions`).

An expansion evaluates its operands deeper than the connective does, the nested conditionals each
operand one level deeper than the one before. So it may run out of levels where the connective does
not, and nothing is said of an expansion that does. All else is the same equation between
evaluations, `Eval.CutFrom`: nested conditionals are short-circuit evaluation with fewer levels, and
so is the negation of the other connective, because negating every operand, the decisive value and
the result changes nothing (`Connective.negate_shortCircuit`).
-/

namespace SmallScheme

namespace Connective

open Evaluation Eval
open SpecialForm (shortCircuit choose)

/-! ## Three ways of writing one -/

/-- The connective with this decisive value, of some operands. -/
def form (decisive : Bool) (operands : List Value) : Value :=
  .list (.symbol (if decisive then "or" else "and") :: operands)

def conditional (condition consequent alternative : Value) : Value :=
  .list [.symbol "if", condition, consequent, alternative]

/-- A conditional that ends with the decisive value, or goes on. -/
def branch (decisive : Bool) (operand rest : Value) : Value :=
  if decisive then conditional operand (.bool true) rest
  else conditional operand rest (.bool false)

/-- A connective as nested conditionals, one for each operand. -/
def nested (decisive : Bool) (operands : List Value) : Value :=
  operands.foldr (branch decisive) (.bool !decisive)

def negation (v : Value) : Value :=
  .list [.symbol "not", v]

/-- A connective expressed by the other one. -/
def dual (decisive : Bool) (operands : List Value) : Value :=
  negation (form (!decisive) (operands.map negation))

example (a b : Value) : nested false [a, b]
    = conditional a (conditional b (.bool true) (.bool false)) (.bool false) := rfl

example (a b : Value) : nested true [a, b]
    = conditional a (.bool true) (conditional b (.bool true) (.bool false)) := rfl

/-! ## One step -/

/-- The negation of the truth value that an evaluation gives. -/
def negate (x : Eval Value) : Eval Value := do
  let v ← x
  let b ← .ofExcept v.asBool
  pure (.bool !b)

theorem outcome_negate (x : Eval Value) (env : Environment) :
    (negate x).outcome env = match x.outcome env with
      | (.ok (.bool b), after) => (.ok (.bool !b), after)
      | (.ok v, after) => (.error (.notABoolean v), after)
      | (.error fault, after) => (.error fault, after) := by
  rw [negate, Eval.outcome_bind]
  rcases x.outcome env with ⟨fault | v, after⟩
  · rfl
  · cases v <;> rfl

section

variable {recur : Value → Eval Value} {decisive : Bool} {operands : List Value}

theorem step_form (hne : operands ≠ []) :
    step recur (form decisive operands) = shortCircuit recur decisive operands := by
  have hadmits : (Arity.atLeast 1).admits operands.length = true :=
    decide_eq_true (List.length_pos_iff.mpr hne)
  cases decisive with
  | true => exact step_special ⟨"or", .atLeast 1, .special .or⟩ (by decide) rfl hadmits
  | false => exact step_special ⟨"and", .atLeast 1, .special .and⟩ (by decide) rfl hadmits

theorem step_conditional (condition consequent alternative : Value) :
    step recur (conditional condition consequent alternative)
      = choose recur condition consequent alternative :=
  step_special ⟨"if", .exact 3, .special .conditional⟩ (by decide) rfl rfl

theorem step_branch (operand rest : Value) :
    step recur (branch decisive operand rest) = recur operand >>= fun v =>
      .ofExcept v.asBool >>= fun b => recur (if b = decisive then .bool decisive else rest) := by
  cases decisive with
  | true => simp [branch, step_conditional, choose, apply_ite recur]
  | false =>
    simp only [branch, step_conditional, choose, Bool.false_eq_true, if_false]
    refine congrArg (recur operand >>= ·) (funext fun v => ?_)
    refine congrArg (Eval.ofExcept v.asBool >>= ·) (funext fun b => ?_)
    cases b <;> rfl

theorem step_negation (v : Value) : step recur (negation v) = negate (recur v) := by
  have hop : Operator.named? "not" = some ⟨"not", .exact 1, .primitive .not⟩ := by decide
  have hstep : step recur (negation v)
      = [v].mapM recur >>= fun values => .ofExcept (Primitive.not.apply values) :=
    step_primitive hop rfl rfl
  simp only [hstep, List.mapM_cons, List.mapM_nil, bind_assoc, pure_bind, negate]
  refine congrArg (recur v >>= ·) (funext fun w => ?_)
  cases w <;> rfl

end

/-! ## Short-circuit evaluation -/

section

variable {f g recur : Value → Eval Value}

theorem shortCircuit_map (decisive : Bool) (change : Value → Value) (operands : List Value) :
    shortCircuit f decisive (operands.map change)
      = shortCircuit (fun a => f (change a)) decisive operands := by
  induction operands with
  | nil => rfl
  | cons a rest ih => simp only [List.map_cons, shortCircuit, ih]

/-- Negating the operands, the decisive value and the result changes nothing. -/
theorem negate_shortCircuit (decisive : Bool) (operands : List Value) :
    negate (shortCircuit (fun a => negate (recur a)) (!decisive) operands)
      = shortCircuit recur decisive operands := by
  induction operands with
  | nil => cases decisive <;> rfl
  | cons a rest ih =>
    simp only [shortCircuit, negate, bind_assoc, pure_bind] at ih ⊢
    refine congrArg (recur a >>= ·) (funext fun v => ?_)
    refine congrArg (Eval.ofExcept v.asBool >>= ·) (funext fun b => ?_)
    rw [← ih]
    cases b <;> cases decisive <;> rfl

theorem cutFrom_shortCircuit (hcut : ∀ a, (f a).CutFrom (g a)) (decisive : Bool)
    (operands : List Value) :
    (shortCircuit f decisive operands).CutFrom (shortCircuit g decisive operands) := by
  induction operands with
  | nil => exact .refl _
  | cons a rest ih =>
    refine (hcut a).bind fun v => CutFrom.bind (.refl _) fun b => ?_
    split
    · exact .refl _
    · exact ih

end

/-! ## The expansions have fewer levels -/

section

variable {room big : Nat} {decisive : Bool}

theorem cutFrom_of_succ {e : Value} {x : Eval Value}
    (h : ∀ room', room = room' + 1 → (step (evaluate room') e).CutFrom x) :
    (evaluate room e).CutFrom x := by
  cases room with
  | zero => exact fun env hwithin => absurd hwithin (not_withinLimit_evaluate_zero e env)
  | succ room => exact h room rfl

theorem cutFrom_bool (room : Nat) (b : Bool) :
    (evaluate room (.bool b)).CutFrom (pure (.bool b)) :=
  cutFrom_of_succ fun _ _ => .refl _

theorem cutFrom_nested (hle : room ≤ big + 1) (operands : List Value) :
    (evaluate room (nested decisive operands)).CutFrom
      (shortCircuit (evaluate big) decisive operands) := by
  induction operands generalizing room with
  | nil => exact cutFrom_bool room !decisive
  | cons a rest ih =>
    refine cutFrom_of_succ fun room' hroom => ?_
    rw [nested, List.foldr_cons, step_branch]
    refine (cutFrom_evaluate (by omega) a).bind fun v => CutFrom.bind (.refl _) fun b => ?_
    split
    · exact cutFrom_bool room' decisive
    · exact ih (by omega)

theorem cutFrom_negation (hle : room ≤ big + 1) (a : Value) :
    (evaluate room (negation a)).CutFrom (negate (evaluate big a)) := by
  refine cutFrom_of_succ fun room' hroom => ?_
  rw [step_negation]
  exact (cutFrom_evaluate (by omega) a).bind_left _

theorem cutFrom_dual (hle : room ≤ big + 1) {operands : List Value} (hne : operands ≠ []) :
    (evaluate room (dual decisive operands)).CutFrom
      (shortCircuit (evaluate big) decisive operands) := by
  refine cutFrom_of_succ fun room' hroom => ?_
  rw [dual, step_negation, ← negate_shortCircuit]
  refine CutFrom.bind_left (cutFrom_of_succ fun room'' hroom' => ?_) _
  rw [step_form (by simpa using hne), shortCircuit_map]
  exact cutFrom_shortCircuit (cutFrom_negation (by omega)) (!decisive) operands

end

/-! ## The operands that are evaluated -/

/-- The operands that are evaluated, in order, each in the environment that the one before it has
left: up to the first one that is decisive, that is no truth value, or that fails. -/
def course (recur : Value → Eval Value) (decisive : Bool) :
    List Value → Environment → List (Value × Environment)
  | [], _ => []
  | a :: rest, env => (a, env) ::
    match (recur a).outcome env with
    | (.ok (.bool b), after) => if b = decisive then [] else course recur decisive rest after
    | _ => []

section

variable {f g recur : Value → Eval Value} {decisive : Bool} {operands rest : List Value}
variable {a e : Value} {env s : Environment}

theorem mem_course_cons : (e, s) ∈ course recur decisive (a :: rest) env ↔ (e = a ∧ s = env) ∨
    ∃ v after, (recur a).outcome env = (.ok v, after) ∧
      ∃ b, v.asBool = .ok b ∧ b ≠ decisive ∧ (e, s) ∈ course recur decisive rest after := by
  rw [course, List.mem_cons, Prod.mk.injEq]
  refine or_congr_right ?_
  rcases (recur a).outcome env with ⟨fault | v, after⟩
  · simp
  · cases v with
    | bool b => cases b <;> cases decisive <;> simp [Value.asBool]
    | number n => simp [Value.asBool]
    | symbol name => simp [Value.asBool]
    | list items => simp [Value.asBool]

theorem mem_of_mem_course {place : Value × Environment}
    (h : place ∈ course recur decisive operands env) : place.1 ∈ operands := by
  induction operands generalizing env with
  | nil => cases h
  | cons a rest ih =>
    rcases mem_course_cons.mp h with ⟨ha, -⟩ | ⟨_, _, _, _, _, _, hlater⟩
    · rw [ha]
      exact List.mem_cons_self
    · exact List.mem_cons_of_mem a (ih hlater)

/-- Exactly these operands are handed over. -/
theorem asks_shortCircuit :
    Asks (shortCircuit · decisive operands) recur env e s
      ↔ (e, s) ∈ course recur decisive operands env := by
  induction operands generalizing env with
  | nil => exact iff_of_false (not_asks fun _ => rfl) List.not_mem_nil
  | cons a rest ih =>
    simp only [shortCircuit]
    rw [asks_bind_iff, mem_course_cons]
    refine or_congr_right (exists_congr fun v => exists_congr fun after => and_congr_right fun _ => ?_)
    rw [asks_check_iff]
    refine exists_congr fun b => and_congr_right fun _ => ?_
    by_cases hb : b = decisive
    · simp only [hb, if_true, ne_eq, not_true, false_and, iff_false]
      exact not_asks fun _ => rfl
    · simp only [hb, if_false, ne_eq, not_false_iff, true_and]
      exact ih

theorem course_map (change : Value → Value) : course f decisive (operands.map change) env
    = (course (fun a => f (change a)) decisive operands env).map fun p => (change p.1, p.2) := by
  induction operands generalizing env with
  | nil => rfl
  | cons a rest ih =>
    simp only [List.map_cons, course]
    refine congrArg _ ?_
    split
    · split
      · rfl
      · exact ih
    · rfl

theorem course_negate : course (fun a => negate (recur a)) (!decisive) operands env
    = course recur decisive operands env := by
  induction operands generalizing env with
  | nil => rfl
  | cons a rest ih =>
    rw [course, course, outcome_negate]
    refine congrArg _ ?_
    rcases (recur a).outcome env with ⟨fault | v, after⟩
    · rfl
    · cases v with
      | bool b => simp [ih]
      | number n => rfl
      | symbol name => rfl
      | list items => rfl

/-- With fewer levels the same operands are evaluated, as long as they are enough. -/
theorem course_eq_of_cutFrom (hcut : ∀ a, (f a).CutFrom (g a))
    (hwithin : WithinLimit ((shortCircuit f decisive operands).outcome env)) :
    course f decisive operands env = course g decisive operands env := by
  induction operands generalizing env with
  | nil => rfl
  | cons a rest ih =>
    obtain ⟨hfirst, hrest⟩ := withinLimit_bind.mp hwithin
    rw [course, course, ← hcut a env hfirst]
    refine congrArg _ ?_
    split
    · next b after hrun =>
      split
      · rfl
      · next hb =>
        have hlater := hrest _ _ hrun
        simp only [Value.asBool, Eval.outcome_bind, Eval.outcome_ofExcept, if_neg hb] at hlater
        exact ih hlater
    · rfl

end

/-! ## Where the expressions lead -/

/-- Some places are come to in the course of an evaluation, and apart from some expressions nothing
is evaluated but in the course of the evaluations there. -/
structure Visits (room : Nat) (e : Value) (env : Environment) (apart : List Value)
    (places : List (Value × Environment)) : Prop where
  reached : ∀ place ∈ places, ∃ room', Reaches room e env room' place.1 place.2
  covered : ∀ {room' e' env'}, Reaches room e env room' e' env' →
    e' ∈ apart ∨ ∃ place ∈ places, ∃ room'', Reaches room'' place.1 place.2 room' e' env'

section

variable {room big : Nat} {decisive : Bool} {operands : List Value} {env : Environment}

theorem reaches_bool {b : Bool} {room' : Nat} {e' : Value} {env' : Environment}
    (h : Reaches room (.bool b) env room' e' env') : e' = .bool b := by
  cases h with
  | start => rfl
  | nested hasks => exact absurd hasks (not_asks fun _ => rfl)

theorem visits_form (hne : operands ≠ []) :
    Visits (room + 1) (form decisive operands) env [form decisive operands]
      (course (evaluate room) decisive operands env) := by
  have hasks : ∀ e' env', Asks (step · (form decisive operands)) (evaluate room) env e' env' ↔
      (e', env') ∈ course (evaluate room) decisive operands env := by
    intro e' env'
    simp only [step_form hne]
    exact asks_shortCircuit
  refine ⟨fun place hplace => ?_, fun hreach => ?_⟩
  · exact ⟨room, .nested ((hasks _ _).mpr hplace) (.start ..)⟩
  · cases hreach with
    | start => exact .inl List.mem_cons_self
    | nested hhanded hlater => exact .inr ⟨_, (hasks _ _).mp hhanded, room, hlater⟩

theorem asks_branch {recur : Value → Eval Value} {operand rest e' : Value} {env' : Environment} :
    Asks (step · (branch decisive operand rest)) recur env e' env' ↔
      (e' = operand ∧ env' = env) ∨ ∃ v after, (recur operand).outcome env = (.ok v, after) ∧
        ∃ b, v.asBool = .ok b ∧ e' = (if b = decisive then .bool decisive else rest) ∧
          env' = after := by
  simp only [step_branch]
  rw [asks_bind_iff]
  simp only [asks_check_iff, asks_self_iff]

theorem visits_nested (hle : room ≤ big + 1)
    (hwithin : WithinLimit ((evaluate room (nested decisive operands)).outcome env)) :
    Visits room (nested decisive operands) env
      (.bool decisive :: operands.tails.map (nested decisive))
      (course (evaluate big) decisive operands env) := by
  induction operands generalizing room env with
  | nil =>
    refine ⟨fun place hplace => absurd hplace List.not_mem_nil, fun hreach => .inl ?_⟩
    rw [reaches_bool hreach]
    exact List.mem_cons_of_mem _ (List.mem_map_of_mem (List.mem_singleton_self []))
  | cons a rest ih =>
    cases room with
    | zero => exact absurd hwithin (not_withinLimit_evaluate_zero _ env)
    | succ room =>
      rw [evaluate, nested, List.foldr_cons, step_branch, ← nested] at hwithin
      obtain ⟨hfirst, hrest⟩ := withinLimit_bind.mp hwithin
      have hsame := cutFrom_evaluate (show room ≤ big by omega) a env hfirst
      -- Behind an operand that decides nothing the rest is evaluated, one level deeper.
      have hgoes : ∀ v after b, (evaluate room a).outcome env = (.ok v, after) →
          v.asBool = .ok b → b ≠ decisive → Visits room (nested decisive rest) after
            (.bool decisive :: rest.tails.map (nested decisive))
            (course (evaluate big) decisive rest after) := by
        intro v after b hrun hb hne
        have hlater := hrest v after hrun
        simp only [hb, Eval.outcome_bind, Eval.outcome_ofExcept, if_neg hne] at hlater
        exact ih (by omega) hlater
      refine ⟨fun place hplace => ?_, fun hreach => ?_⟩
      · rcases mem_course_cons.mp hplace with ⟨he, henv⟩ | ⟨v, after, hrun, b, hb, hne, hplace⟩
        · exact ⟨room, .nested (asks_branch.mpr (.inl ⟨he, henv⟩)) (.start ..)⟩
        · rw [← hsame] at hrun
          obtain ⟨room', hlater⟩ := (hgoes v after b hrun hb hne).reached place hplace
          refine ⟨room', .nested (asks_branch.mpr (.inr ⟨v, after, hrun, b, hb, ?_, rfl⟩)) hlater⟩
          rw [if_neg hne]
          rfl
      · cases hreach with
        | start => exact .inl (by simp)
        | nested hhanded hlater =>
          rcases asks_branch.mp hhanded with ⟨rfl, rfl⟩ | ⟨v, after, hrun, b, hb, rfl, rfl⟩
          · exact .inr ⟨(_, _), mem_course_cons.mpr (.inl ⟨rfl, rfl⟩), room, hlater⟩
          · by_cases hdecided : b = decisive
            · rw [if_pos hdecided] at hlater
              exact .inl (by simp [reaches_bool hlater])
            · rw [if_neg hdecided] at hlater
              rcases (hgoes v _ b hrun hb hdecided).covered hlater with hmem | ⟨place, hplace, hreach⟩
              · refine .inl ?_
                simp only [List.mem_cons, List.tails, List.map_cons] at hmem ⊢
                tauto
              · refine .inr ⟨place, mem_course_cons.mpr (.inr ?_), hreach⟩
                exact ⟨v, _, hsame ▸ hrun, b, hb, hdecided, hplace⟩

theorem asks_negation {recur : Value → Eval Value} {v e' : Value} {env' : Environment} :
    Asks (step · (negation v)) recur env e' env' ↔ e' = v ∧ env' = env := by
  simp only [step_negation, negate]
  rw [asks_bind_iff, or_iff_left]
  rintro ⟨w, after, -, hasks⟩
  exact not_asks (fun _ => rfl) hasks

theorem visits_dual (hle : room ≤ big + 1) (hne : operands ≠ [])
    (hwithin : WithinLimit ((evaluate room (dual decisive operands)).outcome env)) :
    Visits room (dual decisive operands) env
      (dual decisive operands :: form (!decisive) (operands.map negation) :: operands.map negation)
      (course (evaluate big) decisive operands env) := by
  have hmapped : operands.map negation ≠ [] := by simpa using hne
  rcases room with _ | _ | room
  · exact absurd hwithin (not_withinLimit_evaluate_zero _ env)
  · rw [evaluate, dual, step_negation] at hwithin
    exact absurd (withinLimit_bind.mp hwithin).1 (not_withinLimit_evaluate_zero _ env)
  · rw [evaluate, dual, step_negation] at hwithin
    have hinner := (withinLimit_bind.mp hwithin).1
    rw [evaluate, step_form hmapped, shortCircuit_map] at hinner
    have hcut : ∀ a, (evaluate room (negation a)).CutFrom (negate (evaluate big a)) :=
      cutFrom_negation (by omega)
    have hasks : ∀ e' env', Asks (step · (form (!decisive) (operands.map negation)))
        (evaluate room) env e' env' ↔ ∃ place ∈ course (evaluate big) decisive operands env,
          negation place.1 = e' ∧ place.2 = env' := by
      intro e' env'
      simp only [step_form hmapped]
      rw [asks_shortCircuit, course_map, course_eq_of_cutFrom hcut hinner, course_negate]
      simp only [List.mem_map, Prod.mk.injEq]
    -- The first operand is evaluated in any case, so there is a level left below the negations.
    obtain ⟨room, rfl⟩ : ∃ room', room = room' + 1 := by
      obtain ⟨a, rest, rfl⟩ := List.exists_cons_of_ne_nil hne
      cases room with
      | zero =>
        exact absurd (withinLimit_bind.mp hinner).1 (not_withinLimit_evaluate_zero _ env)
      | succ room => exact ⟨room, rfl⟩
    refine ⟨fun place hplace => ⟨room, ?_⟩, fun hreach => ?_⟩
    · refine .nested (asks_negation.mpr ⟨rfl, rfl⟩) ?_
      refine .nested ((hasks _ _).mpr ⟨place, hplace, rfl, rfl⟩) ?_
      exact .nested (asks_negation.mpr ⟨rfl, rfl⟩) (.start ..)
    · cases hreach with
      | start => exact .inl List.mem_cons_self
      | nested hhanded hlater =>
        obtain ⟨rfl, rfl⟩ := asks_negation.mp hhanded
        cases hlater with
        | start => exact .inl (List.mem_cons_of_mem _ List.mem_cons_self)
        | nested hhanded hlater =>
          obtain ⟨place, hplace, rfl, rfl⟩ := (hasks _ _).mp hhanded
          cases hlater with
          | start =>
            have hoperand := List.mem_map_of_mem (f := negation) (mem_of_mem_course hplace)
            exact .inl (List.mem_cons_of_mem _ (List.mem_cons_of_mem _ hoperand))
          | nested hhanded hlater =>
            obtain ⟨rfl, rfl⟩ := asks_negation.mp hhanded
            exact .inr ⟨place, hplace, room, hlater⟩

end

/-! ## The expansions -/

/-- **The connectives agree with their expansions.** Let a connective have at least one operand, and
let an expansion of it, by nested conditionals or by the other connective, be evaluated at the same
depth and in the same environment without being stopped by the limit of depth. Then the connective
has the same result or fault, and leaves the same environment. And both evaluate the same operands,
in the same order and each in the same environment, and nothing else apart from the connectives,
conditionals, negations and truth values of which the expansion is made. -/
theorem agrees_with_expansions (decisive : Bool) {operands : List Value} (hne : operands ≠ [])
    (depth : Nat) (env : Environment) :
    let room := env.maxDepth - depth
    let places := course (evaluate (room - 1)) decisive operands env
    let Agrees (expansion : Value) (scaffold : List Value) :=
      WithinLimit ((evaluateAt depth expansion).outcome env) →
        (evaluateAt depth (form decisive operands)).outcome env
          = (evaluateAt depth expansion).outcome env ∧
        Visits room (form decisive operands) env [form decisive operands] places ∧
        Visits room expansion env scaffold places
    Agrees (nested decisive operands) (.bool decisive :: operands.tails.map (nested decisive)) ∧
      Agrees (dual decisive operands) (dual decisive operands ::
        form (!decisive) (operands.map negation) :: operands.map negation) := by
  intro room places Agrees
  have hle : room ≤ room - 1 + 1 := by omega
  -- Either expansion has a level left, and so has the connective.
  have hform : ∀ {expansion : Value}, WithinLimit ((evaluateAt depth expansion).outcome env) →
      ((evaluateAt depth expansion).outcome env
        = (shortCircuit (evaluate (room - 1)) decisive operands).outcome env) →
      (evaluateAt depth (form decisive operands)).outcome env
          = (evaluateAt depth expansion).outcome env ∧
        Visits room (form decisive operands) env [form decisive operands] places := by
    intro expansion hwithin hsame
    have hroom : room = room - 1 + 1 := by
      by_contra hzero
      have hroom : env.maxDepth - depth = 0 := by omega
      rw [outcome_evaluateAt, hroom] at hwithin
      exact not_withinLimit_evaluate_zero _ env hwithin
    have hvisits : Visits (room - 1 + 1) (form decisive operands) env [form decisive operands]
        places := visits_form hne
    rw [← hroom] at hvisits
    refine ⟨?_, hvisits⟩
    rw [hsame, outcome_evaluateAt, show env.maxDepth - depth = room - 1 + 1 from hroom, evaluate,
      step_form hne]
  constructor
  · intro hwithin
    obtain ⟨hsame, hvisits⟩ := hform hwithin (cutFrom_nested hle operands env hwithin)
    exact ⟨hsame, hvisits, visits_nested hle hwithin⟩
  · intro hwithin
    obtain ⟨hsame, hvisits⟩ := hform hwithin (cutFrom_dual hle hne env hwithin)
    exact ⟨hsame, hvisits, visits_dual hle hne hwithin⟩

/-- The third operand of this `and` makes the variable false again and is decisive, so the fourth
one, which would fail, is not evaluated. -/
theorem agrees_with_expansions_effects :
    let assigned (b : Bool) := Value.list [.symbol "set!", .symbol "x", .bool b]
    let env (b : Bool) :=
      { Environment.fresh {} with values := Table.empty.insert "x" (.bool b) }
    let operands := [assigned true, .symbol "x", assigned false, .list [.symbol "car", .nil]]
    operands ≠ [] ∧
      (course (evaluate 255) false operands (env false)).map Prod.fst = operands.take 3 ∧
      ∀ expansion ∈ [nested false operands, dual false operands],
        WithinLimit ((evaluateAt 0 expansion).outcome (env false)) ∧
          (evaluateAt 0 expansion).outcome (env false) = (.ok (.bool false), env false) ∧
          (evaluateAt 0 (form false operands)).outcome (env false)
            = (evaluateAt 0 expansion).outcome (env false) := by
  intro assigned env operands
  have hne : operands ≠ [] := by simp [operands]
  obtain ⟨hnested, hdual⟩ := agrees_with_expansions false hne 0 (env false)
  have hruns : ∀ expansion ∈ [nested false operands, dual false operands],
      (evaluateAt 0 expansion).outcome (env false) = (.ok (.bool false), env false) := by
    simp only [List.forall_mem_cons]
    exact ⟨rfl, rfl, fun _ h => nomatch h⟩
  have hwithin : ∀ expansion ∈ [nested false operands, dual false operands],
      WithinLimit ((evaluateAt 0 expansion).outcome (env false)) := by
    intro expansion hexpansion
    rw [hruns expansion hexpansion]
    exact withinLimit_ok _ _
  refine ⟨hne, rfl, fun expansion hexpansion =>
    ⟨hwithin expansion hexpansion, hruns expansion hexpansion, ?_⟩⟩
  have hstays := hwithin expansion hexpansion
  rcases List.mem_pair.mp hexpansion with rfl | rfl
  · exact (hnested hstays).1
  · exact (hdual hstays).1

end Connective

end SmallScheme
