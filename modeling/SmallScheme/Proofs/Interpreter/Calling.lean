import SmallScheme.Proofs.Environment.Invariant
import SmallScheme.Proofs.Evaluation.Mapping
import SmallScheme.Proofs.Evaluation.Mentions
import SmallScheme.Proofs.Interpreter.Keys

/-!
# Ways of calling a function

A function can be called by its name, by its form, and by a parameter that holds its form. In the
model of frames these calls end alike wherever a session comes to, with operands of any number and at
any depth, except that a form without a text is not called at all
(`Session.ways_of_calling_agree`).

All three find the same function: the form of a global function can be read back, because every
environment that a session comes to is well formed (`Session.Reaches.wellFormed`). A name and a form
are different keys, which makes no difference under frames. The parameter is one more entry in the
innermost frame, and the operands do not mention it.
-/

namespace SmallScheme

/-! ## What a session comes to -/

theorem Environment.invariant_wellFormed (config : Config) :
    Invariant (fun _ env => env.WellFormed ∧ env.config = config) fun _ => True where
  bind := by
    rintro _ env name v bound ⟨hwf, hconfig⟩ hname hbound
    exact ⟨hwf.bind hname hbound, (config_bind hbound).trans hconfig⟩
  enter := by
    rintro _ env key f operands bindings ⟨hwf, hconfig⟩ _ _ _
    exact ⟨⟨hwf.once, hwf.identifier, hwf.plain, hwf.function⟩,
      (config_enter env key bindings).trans hconfig⟩
  leave := by
    rintro _ _ env ⟨hwf, hconfig⟩
    exact ⟨⟨hwf.once, hwf.identifier, hwf.plain, hwf.function⟩, (config_leave env).trans hconfig⟩

section

variable {rel : Environment → Environment → Prop} (law : Law rel)
variable {p : Environment → Prop} (hp : ∀ {before after}, rel before after → p before → p after)
include law hp

theorem Interpreter.turns_of_law {i : Interpreter} (hi : p i.environment) (es : List Value) :
    ∀ turn ∈ i.turns es, p turn.2 := by
  induction es generalizing i with
  | nil => exact fun turn hturn => nomatch hturn
  | cons e es ih =>
    refine List.forall_mem_cons.mpr ⟨hi, ?_⟩
    have hnext := hp (i.rel_evaluate law e) hi
    generalize i.evaluate e = outcome at *
    obtain ⟨_ | v, next⟩ := outcome
    · exact fun turn hturn => nomatch hturn
    · exact ih hnext

/-- What evaluation preserves holds wherever a session begins an evaluation. -/
theorem Session.turns_of_law {s : Session} (hs : s.Both p) (requests : List Request) :
    ∀ turn ∈ s.turns requests, p turn.2 := by
  induction requests generalizing s with
  | nil => exact fun turn hturn => nomatch hturn
  | cons request rest ih =>
    intro turn hturn
    rcases List.mem_append.mp hturn with hturn | hturn
    · exact Interpreter.turns_of_law law hp hs.1 _ turn hturn
    · exact ih (both_handle law hp hs request) turn hturn

end

namespace Session

variable {reader : Reader.Config} {config : Environment.Config} {requests : List Request}
variable {room : Nat} {e : Value} {env : Environment}

/-- The global bindings are in order wherever a session comes to, and its configuration is that of
the beginning. -/
theorem Reaches.wellFormed (h : (start (.fresh reader config)).Reaches requests room e env) :
    env.WellFormed ∧ env.config = config := by
  obtain ⟨turn, hturn, hreach⟩ := h
  have hwf : turn.2.WellFormed := turns_of_law Environment.law_wellFormed id
    ⟨Environment.wellFormed_fresh config, Environment.wellFormed_fresh config⟩ requests turn hturn
  have hfresh : (Environment.fresh config).config = config := by
    obtain ⟨model, maxDepth⟩ := config
    cases model <;> rfl
  have hconfig : turn.2.config = config := turns_of_law Environment.law_config
    (fun hsame hbefore => hsame.trans hbefore) ⟨hfresh, hfresh⟩ requests turn hturn
  obtain ⟨-, hinv⟩ := (Environment.invariant_wellFormed config).reaches [] hreach
    ⟨hwf, hconfig⟩ fun _ _ => trivial
  exact hinv

end Session

theorem Calls.exists_eq_frames {calls : Calls} (h : calls.model = .frames) :
    ∃ stack, calls = .frames stack := by
  cases calls with
  | frames stack => exact ⟨stack, rfl⟩
  | shared => cases h

/-! ## Finding the function -/

namespace Environment

variable {env : Environment} {name : String} {f : Function}

/-- A global function is called by its name, unless a parameter of that name holds a form. -/
theorem resolve_of_function (hf : env.functions.get? name = some f)
    (hfree : ∀ v, env.calls.lookup? name = some v → v.isLambdaForm = false) :
    env.resolve name = .ok (some f) := by
  have hnone : (env.calls.lookup? name).filter Value.isLambdaForm = none :=
    Option.filter_eq_none_iff.mpr fun v hv => by simp [hfree v hv]
  simp only [resolve, hnone, hf]

/-- A parameter that holds the form of a function calls it. -/
theorem resolve_of_parameter (hlookup : env.calls.lookup? name = some f.toForm)
    (hform : Function.ofForm f.toForm = .ok f) : env.resolve name = .ok (some f) := by
  have hsome : (env.calls.lookup? name).filter Value.isLambdaForm = some f.toForm := by
    rw [hlookup, Option.filter_some, if_pos f.isLambdaForm_toForm]
  simp only [resolve, hsome, hform]
  rfl

end Environment

namespace Evaluation

variable {stack stack' : List (Table Value)} {env : Environment} {depth : Nat} {f : Function}
variable {name : String} {operands : List Value}

/-- Two expressions that request calls of one function with the same operands, each above a stack
of frames of its own, end alike if the operands do. -/
theorem alike_of_requests {e e' : Value} {key key' : String}
    (hleft : ∀ recur, Requests recur e (env.withFrames stack) key f operands
      (env.withFrames stack))
    (hright : ∀ recur, Requests recur e' (env.withFrames stack') key' f operands
      (env.withFrames stack'))
    (hoperands : ∀ room, ∀ v ∈ operands,
      Eval.Alike stack stack' (evaluate room v) (evaluate room v)) (depth : Nat) :
    ∃ (result : Except Fault Value) (after : Environment),
      (evaluateAt depth e).outcome (env.withFrames stack) = (result, after.withFrames stack) ∧
        (evaluateAt depth e').outcome (env.withFrames stack')
          = (result, after.withFrames stack') := by
  simp only [outcome_evaluateAt, Environment.maxDepth_withFrames]
  cases env.maxDepth - depth with
  | zero => exact ⟨.error (.depthLimit env.maxDepth), env, rfl, rfl⟩
  | succ room =>
    rw [evaluate, evaluate, (hleft _).outcome_step, (hright _).outcome_step]
    refine alike_call (fun frame e => ?_) key key' f (hoperands room) env
    exact alike_evaluate_of_head List.head?_cons room e

theorem requests_of_form {text : List Char} (hform : Function.ofForm f.toForm = .ok f)
    (htext : f.toForm.text? = some text) (recur : Value → Eval Value) :
    Requests recur (.list (f.toForm :: operands)) env (String.ofList text) f operands env := by
  refine .form ?_ hform (formKey_of_text htext)
  exact congrArg (Eval.outcome · env) (lambdaOf_lambdaForm recur _ f.body)

section

variable (hname : Operator.named? name = none) (hresolve : env.resolve name = .ok (some f))
variable (hform : Function.ofForm f.toForm = .ok f)
include hname hresolve hform

theorem outcome_form_eq_named (hcalls : env.calls = .frames stack) {text : List Char}
    (htext : f.toForm.text? = some text) (depth : Nat) (operands : List Value) :
    (evaluateAt depth (.list (f.toForm :: operands))).outcome env
      = (evaluateAt depth (.list (.symbol name :: operands))).outcome env := by
  obtain ⟨env, rfl⟩ : ∃ env', env = env'.withFrames stack :=
    ⟨env, (Environment.withFrames_eq_self hcalls).symm⟩
  obtain ⟨result, after, hleft, hright⟩ := alike_of_requests
    (fun _ => .named hname hresolve) (requests_of_form hform htext)
    (fun room v _ => alike_evaluate_of_head rfl room v) depth
  exact hright.trans hleft.symm

theorem outcome_parameter_eq_named {frame : Table Value} {below : List (Table Value)}
    (hcalls : env.calls = .frames (frame :: below)) {param : String}
    (hparam : Operator.named? param = none) (hoperands : ∀ v ∈ operands, v.Avoids [param])
    (depth : Nat) :
    let above := frame.insert param f.toForm :: below
    let named := (evaluateAt depth (.list (.symbol name :: operands))).outcome env
    (evaluateAt depth (.list (.symbol param :: operands))).outcome (env.withFrames above)
      = (named.1, named.2.withFrames above) := by
  intro above named
  obtain ⟨env, rfl⟩ : ∃ env', env = env'.withFrames (frame :: below) :=
    ⟨env, (Environment.withFrames_eq_self hcalls).symm⟩
  have hsame : ∀ other, other ≠ param →
      (Calls.frames (frame :: below)).lookup? other = (Calls.frames above).lookup? other :=
    fun other hother => (Table.get?_insert_of_ne frame hother f.toForm).symm
  have hfound : (env.withFrames above).resolve param = .ok (some f) :=
    Environment.resolve_of_parameter (Table.get?_insert_self frame param f.toForm) hform
  obtain ⟨result, after, hleft, hright⟩ := alike_of_requests
    (fun _ => .named hname hresolve) (fun _ => .named hparam hfound)
    (fun room v hv => alike_evaluate hsame room (hoperands v hv).overlooks) depth
  simp only [named, hleft]
  exact hright

end

/-- The call of a form without a text is a fault, unless no level is left for it. -/
theorem outcome_form_of_textless (hform : Function.ofForm f.toForm = .ok f)
    (htext : f.toForm.text? = none) (hdepth : depth < env.maxDepth) (operands : List Value) :
    (evaluateAt depth (.list (f.toForm :: operands))).outcome env
      = (.error (.unprintable f.toForm), env) := by
  rw [outcome_evaluateAt_step hdepth, step_toForm _ hform, Eval.outcome_bind,
    Eval.outcome_ofExcept, formKey_of_textless htext]

end Evaluation

namespace Session

open Evaluation

variable {reader : Reader.Config} {maxDepth : Nat} {requests : List Request}
variable {room : Nat} {e : Value} {env : Environment} {name : String} {f : Function}

/-- **All ways of calling a function agree under frames**, wherever a session comes to, at every
depth, and with operands of any number. Let the name of a global function not be a parameter that
holds a form. Then the call of the form of the function ends like the call of its name, if the form
has a text; if it has none, the call of the form is a fault. And if a call is under way and gets the
form for one more parameter, which the operands do not mention, then the call of this parameter ends
like the call of the name, and leaves the parameter bound to the form. -/
theorem ways_of_calling_agree
    (hreach : (start (.fresh reader ⟨.frames, maxDepth⟩)).Reaches requests room e env)
    (hf : env.functions.get? name = some f)
    (hfree : ∀ v, env.calls.lookup? name = some v → v.isLambdaForm = false) (depth : Nat)
    (operands : List Value) :
    let named := (evaluateAt depth (.list (.symbol name :: operands))).outcome env
    let formed := (evaluateAt depth (.list (f.toForm :: operands))).outcome env
    (f.toForm.text? ≠ none ∨ maxDepth ≤ depth → formed = named) ∧
    (f.toForm.text? = none → depth < maxDepth →
      formed = (.error (.unprintable f.toForm), env)) ∧
    ∀ frame below param, env.calls = .frames (frame :: below) → Operator.named? param = none →
      (∀ v ∈ operands, v.Avoids [param]) →
        let stack := frame.insert param f.toForm :: below
        (evaluateAt depth (.list (.symbol param :: operands))).outcome (env.withFrames stack)
          = (named.1, named.2.withFrames stack) := by
  intro named formed
  obtain ⟨hwf, hconfig⟩ := hreach.wellFormed
  have hname : Operator.named? name = none :=
    (hwf.not_builtin (Environment.isDefined_iff.mpr (.inr ⟨f, hf⟩))).2
  have hform : Function.ofForm f.toForm = .ok f := (hwf.function name f hf).2
  have hresolve := Environment.resolve_of_function hf hfree
  have hlimit : env.maxDepth = maxDepth := congrArg Environment.Config.maxDepth hconfig
  obtain ⟨stack, hcalls⟩ := Calls.exists_eq_frames (congrArg Environment.Config.model hconfig)
  refine ⟨?_, fun htext hdepth => ?_, fun frame below param hframes hparam hoperands => ?_⟩
  · rintro (htext | hdepth)
    · obtain ⟨text, htext⟩ := Option.ne_none_iff_exists'.mp htext
      exact outcome_form_eq_named hname hresolve hform hcalls htext depth operands
    · rw [← hlimit] at hdepth
      exact (outcome_evaluateAt_of_le hdepth _).trans (outcome_evaluateAt_of_le hdepth _).symm
  · exact outcome_form_of_textless hform htext (hlimit ▸ hdepth) operands
  · exact outcome_parameter_eq_named hname hresolve hform hframes hparam hoperands depth

/-- A function that is called in the body of a form, with the parameter of the form. -/
theorem ways_of_calling_agree_in_body :
    let f : Function := ⟨["x"], .list [.symbol "list", .symbol "x", .symbol "x"]⟩
    let body : Value := .list [.symbol "f", .symbol "y"]
    let requests := [Request.evaluate (.list [.symbol "define", .symbol "f", f.toForm]),
      .evaluate (.list [.lambdaForm (.list [.symbol "y"]) body, .bool true])]
    let frame := Table.empty.insert "y" (.bool true)
    ∃ env, (start (.fresh {} ⟨.frames, 256⟩)).Reaches requests 255 body env ∧
      env.functions.get? "f" = some f ∧ env.calls = .frames [frame] ∧
      ((evaluateAt 1 (.list [f.toForm, .symbol "y"])).outcome env).1
        = .ok (.list [.bool true, .bool true]) ∧
      ((evaluateAt 1 (.list [.symbol "g", .symbol "y"])).outcome
        (env.withFrames [frame.insert "g" f.toForm])).1 = .ok (.list [.bool true, .bool true]) := by
  intro f body requests frame
  let s := start (.fresh {} ⟨.frames, 256⟩)
  let defined := (s.handle (.evaluate (.list [.symbol "define", .symbol "f", f.toForm]))).2
  let env := defined.current.environment.enter "(lambda (y) (f y))" [("y", some (.bool true))]
  have hreach : s.Reaches requests 255 body env := by
    refine ⟨(.list [.lambdaForm (.list [.symbol "y"]) body, .bool true],
      defined.current.environment), List.mem_append_right _ (.head _), ?_⟩
    exact .nested (asks_body (.form rfl (ofForm_lambdaForm "y" body) rfl) rfl rfl) (.start ..)
  have hf : env.functions.get? "f" = some f := rfl
  obtain ⟨hform, -, hparameter⟩ := ways_of_calling_agree hreach hf (by decide) 1 [.symbol "y"]
  refine ⟨env, hreach, hf, rfl, ?_, ?_⟩
  · rw [hform (.inl (by decide))]
    decide
  · rw [hparameter frame [] "g" rfl (by decide) (by decide)]
    decide

/-- **Not every function can be called by its form**: a form that holds a power of a literal has no
text, and the function is called by its name all the same. -/
theorem form_of_power_not_called :
    ¬∀ (reader : Reader.Config) (maxDepth : Nat) (requests : List Request) (room : Nat) (e : Value)
        (env : Environment) (name : String) (f : Function) (depth : Nat) (operands : List Value),
      (start (.fresh reader ⟨.frames, maxDepth⟩)).Reaches requests room e env →
        env.functions.get? name = some f →
          (∀ v, env.calls.lookup? name = some v → v.isLambdaForm = false) →
            (evaluateAt depth (.list (f.toForm :: operands))).outcome env
              = (evaluateAt depth (.list (.symbol name :: operands))).outcome env := by
  intro hall
  let definitions := [
    Request.run "(define p (lambda (x) (* x x x x x x x x x x x x x x x x)))",
    .run "(define b (p (p (p (p (p 1.0e4096))))))",
    .run "(define f (list (quote lambda) (quote (y)) (list (quote if) #t 1 b)))"]
  let e := Value.list [.symbol "f", .number (.integer 0)]
  let f : Function := ⟨["y"], .list [.symbol "if", .bool true, .number (.integer 1),
    .number (.decimal ⟨1, -4294967296⟩)]⟩
  let s := start (.fresh {} ⟨.frames, 256⟩)
  let env := (s.handleAll definitions).2.current.environment
  have hreach : s.Reaches (definitions ++ [.evaluate e]) env.maxDepth e env := by
    refine ⟨(e, env), ?_, .start ..⟩
    rw [turns_append]
    exact List.mem_append_right _ (.head _)
  obtain ⟨hf, hnone, hdiffer⟩ : env.functions.get? "f" = some f ∧
      env.calls.lookup? "f" = none ∧
      ((evaluateAt 0 (.list [f.toForm, .number (.integer 0)])).outcome env).1
        ≠ ((evaluateAt 0 e).outcome env).1 := by decide +kernel
  have hfree : ∀ v, env.calls.lookup? "f" = some v → v.isLambdaForm = false :=
    fun v hv => nomatch hnone.symm.trans hv
  exact hdiffer (congrArg Prod.fst (hall {} 256 _ _ e env "f" f 0 _ hreach hf hfree))

end Session

end SmallScheme
