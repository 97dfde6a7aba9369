import SmallScheme.Proofs.Environment.View
import SmallScheme.Proofs.Evaluation.Mapping

/-!
# Parameters and operands

In the model of frames the body of a call runs above one more frame, which binds each parameter to
the value of the operand in its place (`Evaluation.outcome_call_operands`). The parameters of a form
are distinct, so each of them is found in that frame, and what is found there is found first: it
does not matter what the variables, the functions, the operators, and the parameters of the calls
below are named (`Environment.OnFrames.lookup_parameter`). Evaluation within the body keeps the frame
as it is, so this remains so until the call ends.

The one exception is a parameter by the name of `nil`. A form may have it, but `nil` is looked up
nowhere and means the empty list in every environment.
-/

namespace SmallScheme

/-! ## The frame of a call -/

namespace Environment

open Evaluation (callFrame)

variable {s : Environment} {params : List String} {vs : List Value} {stack : List (Table Value)}
variable {limit : Nat}

theorem lookup_nil (s : Environment) : s.lookup "nil" = .ok .nil := rfl

/-- Within a call a parameter means the value of its operand. -/
theorem OnFrames.lookup_parameter (hs : s.OnFrames (callFrame params vs :: stack) limit)
    (hparams : params.Nodup) (hlength : vs.length = params.length) {p : String} {v : Value}
    (hp : (p, v) ∈ params.zip vs) (hnil : p ≠ "nil") : s.lookup p = .ok v := by
  have hnames : ((params.zip vs).map Prod.fst).Nodup := by
    rwa [List.map_fst_zip (Nat.le_of_eq hlength.symm)]
  have hfound : s.calls.lookup? p = some v := by
    rw [hs.calls]
    exact Table.get?_insertAll_of_mem hnames hp Table.empty
  rw [lookup, if_neg hnil, hfound]

end Environment

theorem Value.renderAll?_symbols (style : Style) (names : List String) :
    renderAll? style (names.map .symbol) = some (names.map fun name => style.symbol name.toList) := by
  induction names with
  | nil => rfl
  | cons name names ih => simp [renderAll?, render?, ih]

/-- A form whose body is a symbol has a text. -/
theorem Function.text?_toForm_symbol (params : List String) (name : String) :
    (toForm ⟨params, .symbol name⟩).text? ≠ none := by
  simp [toForm, Value.lambdaForm, Value.text?, Value.render?, Value.renderAll?,
    Value.renderAll?_symbols]

namespace Evaluation

/-! ## Calls of a form -/

variable {env mid : Environment} {stack : List (Table Value)} {depth : Nat} {params : List String}
variable {body : Value} {operands vs : List Value}

/-- Operands are evaluated at a depth, each with the same levels left. -/
theorem outcome_mapM_evaluateAt (hcalls : env.calls = .frames stack) (depth : Nat)
    (operands : List Value) :
    (operands.mapM (evaluateAt depth)).outcome env
      = (operands.mapM (evaluate (env.maxDepth - depth))).outcome env := by
  have hsame : ∀ e ∈ operands, ∀ s : Environment, s.OnFrames stack env.maxDepth →
      (evaluateAt depth e).outcome s = (evaluate (env.maxDepth - depth) e).outcome s := by
    intro e _ s hs
    rw [outcome_evaluateAt, hs.maxDepth]
  refine Eval.outcome_mapM_congr _ hsame (fun e he s hs => ?_) ⟨hcalls, rfl⟩
  rw [hsame e he s hs]
  exact hs.evaluate _ e

section

variable (hcalls : env.calls = .frames stack)
variable (hoperands : (operands.mapM (evaluateAt (depth + 1))).outcome env = (.ok vs, mid))
include hcalls hoperands

theorem onFrames_of_operands : mid.OnFrames stack env.maxDepth := by
  have hstart : env.OnFrames stack env.maxDepth := ⟨hcalls, rfl⟩
  have hkept := hstart.evaluateEach (env.maxDepth - (depth + 1)) operands
  rwa [← outcome_mapM_evaluateAt hcalls, hoperands] at hkept

/-- The call of a form with a text runs the body in the frame of the call. -/
theorem outcome_form_operands (hform : Function.ofForm (Function.toForm ⟨params, body⟩)
      = .ok ⟨params, body⟩) (hlength : operands.length = params.length)
    (hdepth : depth < env.maxDepth) (htext : (Function.toForm ⟨params, body⟩).text? ≠ none) :
    (evaluateAt depth (.list (Function.toForm ⟨params, body⟩ :: operands))).outcome env
      = (Eval.inFrame stack (callFrame params vs) (evaluateAt (depth + 1) body)).outcome mid := by
  obtain ⟨text, htext⟩ := Option.ne_none_iff_exists'.mp htext
  have hmid := onFrames_of_operands hcalls hoperands
  rw [outcome_mapM_evaluateAt hcalls] at hoperands
  rw [outcome_evaluateAt_step hdepth, step_toForm _ hform, Eval.outcome_bind, Eval.outcome_ofExcept,
    formKey_of_text htext]
  refine (outcome_call_operands _ hcalls hlength hoperands).trans ?_
  rw [Eval.outcome_inFrame, Eval.outcome_inFrame, outcome_evaluateAt, hmid.maxDepth]

/-- A form whose body is one of its parameters gives the value of that operand. -/
theorem outcome_form_parameter {p : String} {v : Value} (hparams : params.Nodup)
    (hlength : operands.length = params.length) (hp : (p, v) ∈ params.zip vs) (hnil : p ≠ "nil") :
    (evaluateAt depth (.list (Function.toForm ⟨params, .symbol p⟩ :: operands))).outcome env
      = (.ok v, mid) := by
  have hmid := onFrames_of_operands hcalls hoperands
  have hvalues : vs.length = operands.length := Eval.length_of_mapM hoperands
  -- An operand has been evaluated one level deeper, so there is a level left for the body.
  have hdepth : depth + 1 < env.maxDepth := by
    rw [← Nat.not_le]
    intro hle
    cases operands with
    | nil => simp [List.length_eq_zero_iff.mp hvalues] at hp
    | cons operand rest =>
      rw [List.mapM_cons, Eval.outcome_bind, outcome_evaluateAt_of_le hle] at hoperands
      cases hoperands
  have hform := Function.ofForm_eq_ok_iff (f := ⟨params, .symbol p⟩).mpr ⟨hparams, rfl⟩
  rw [outcome_form_operands hcalls hoperands hform hlength (by omega)
    (Function.text?_toForm_symbol params p), Eval.outcome_inFrame]
  have hinside : { mid with calls := .frames (callFrame params vs :: stack) }.OnFrames
      (callFrame params vs :: stack) env.maxDepth := ⟨rfl, hmid.maxDepth⟩
  have hlookup := hinside.lookup_parameter hparams (hvalues.trans hlength) hp hnil
  rw [outcome_evaluateAt_step (hinside.maxDepth ▸ hdepth)]
  simp only [step, Eval.outcome_bind, Eval.outcome_get, Eval.outcome_ofExcept, hlookup]
  rw [← hmid.calls]

end

/-- **Parameters stand for their operands.** Let a form have any number of parameters, and let the
operands of its call have been evaluated, in order and in the context of the caller.

* The body is evaluated one level deeper, where the operands have led to, in a frame of its own. It
  is not evaluated only if the form has no text.
* Wherever this is the innermost frame, each parameter means the value of its operand, whatever else
  is bound to its name. Only `nil` means the empty list, even as a parameter.
* Whatever is evaluated there, the frame remains the innermost one and as it is.
* If the body is a parameter, the call gives the value of its operand. -/
theorem parameters_mean_operands (hcalls : env.calls = .frames stack)
    (hform : Function.ofForm (Function.toForm ⟨params, body⟩) = .ok ⟨params, body⟩)
    (hlength : operands.length = params.length)
    (hoperands : (operands.mapM (evaluateAt (depth + 1))).outcome env = (.ok vs, mid)) :
    let form := Function.toForm ⟨params, body⟩
    let Within (s : Environment) := s.OnFrames (callFrame params vs :: stack) env.maxDepth
    vs.length = params.length ∧
    (depth < env.maxDepth →
      (form.text? ≠ none → (evaluateAt depth (.list (form :: operands))).outcome env
        = (Eval.inFrame stack (callFrame params vs) (evaluateAt (depth + 1) body)).outcome mid) ∧
      (form.text? = none → (evaluateAt depth (.list (form :: operands))).outcome env
        = (.error (.unprintable form), env))) ∧
    Within { mid with calls := .frames (callFrame params vs :: stack) } ∧
    (∀ s, Within s →
      (∀ b ∈ params.zip vs, b.1 ≠ "nil" → s.lookup b.1 = .ok b.2) ∧ s.lookup "nil" = .ok .nil ∧
        ∀ deeper e, Within ((evaluateAt deeper e).outcome s).2) ∧
    ∀ b ∈ params.zip vs, b.1 ≠ "nil" →
      (evaluateAt depth (.list (Function.toForm ⟨params, .symbol b.1⟩ :: operands))).outcome env
        = (.ok b.2, mid) := by
  intro form Within
  have hparams : params.Nodup := (Function.ofForm_eq_ok_iff.mp hform).1
  have hvalues : vs.length = params.length := (Eval.length_of_mapM hoperands).trans hlength
  have hmid := onFrames_of_operands hcalls hoperands
  refine ⟨hvalues, fun hdepth => ⟨fun htext => ?_, fun htext => ?_⟩, ⟨rfl, hmid.maxDepth⟩,
    fun s hs => ⟨fun b hb hnil => ?_, s.lookup_nil, fun deeper e => ?_⟩, fun b hb hnil => ?_⟩
  · exact outcome_form_operands hcalls hoperands hform hlength hdepth htext
  · rw [outcome_evaluateAt_step hdepth, step_toForm _ hform, formKey_of_textless htext]
    rfl
  · exact hs.lookup_parameter hparams hvalues hb hnil
  · exact hs.evaluate (s.maxDepth - deeper) e
  · exact outcome_form_parameter hcalls hoperands hparams hlength hb hnil

/-- The parameters have the names of a variable, a function, an operator and an outer parameter. The
first operand assigns to the variable, which the second one reads. -/
theorem parameters_mean_operands_shadowing :
    let env := { Environment.fresh {} with
      values := Table.empty.insert "x" (.number (.integer 1))
      functions := Table.empty.insert "f" ⟨[], .nil⟩
      calls := .frames [Table.empty.insert "y" (.bool true)] }
    let params := ["x", "f", "car", "y"]
    let body := Value.list (.symbol "list" :: params.map .symbol)
    let operands : List Value := [.list [.symbol "set!", .symbol "x", .number (.integer 2)],
      .symbol "x", .quoted (.symbol "a"), .bool false]
    let vs : List Value := [.number (.integer 2), .number (.integer 2), .symbol "a", .bool false]
    let mid := { env with values := Table.empty.insert "x" (.number (.integer 2)) }
    Function.ofForm (Function.toForm ⟨params, body⟩) = .ok ⟨params, body⟩ ∧
      (operands.mapM (evaluateAt 1)).outcome env = (.ok vs, mid) ∧
      (evaluateAt 0 (.list (Function.toForm ⟨params, body⟩ :: operands))).outcome env
        = (.ok (.list vs), mid) ∧
      ∀ b ∈ params.zip vs,
        (evaluateAt 0 (.list (Function.toForm ⟨params, .symbol b.1⟩ :: operands))).outcome env
          = (.ok b.2, mid) := by
  intro env params body operands vs mid
  have hform : Function.ofForm (Function.toForm ⟨params, body⟩) = .ok ⟨params, body⟩ := rfl
  have hoperands : (operands.mapM (evaluateAt (0 + 1))).outcome env = (.ok vs, mid) := rfl
  obtain ⟨-, hcall, -, -, hparameters⟩ := parameters_mean_operands rfl hform rfl hoperands
  have hbody := (hcall (by decide)).1 (by decide)
  exact ⟨hform, hoperands, hbody.trans rfl, fun b hb => hparameters b hb (by revert b; decide)⟩

/-- **Not every parameter means the value of its operand**: the form `(lambda (nil) nil)` may be
called, and gives the empty list. -/
theorem parameter_nil_unseen :
    ¬ ∀ (env mid : Environment) (stack : List (Table Value)) (depth : Nat) (params : List String)
        (operands vs : List Value), env.calls = .frames stack → params.Nodup →
      operands.length = params.length →
        (operands.mapM (evaluateAt (depth + 1))).outcome env = (.ok vs, mid) →
          ∀ b ∈ params.zip vs,
            (evaluateAt depth (.list (Function.toForm ⟨params, .symbol b.1⟩ :: operands))).outcome env
              = (.ok b.2, mid) := by
  intro hall
  let env := Environment.fresh {}
  have hnil := congrArg Prod.fst (hall env env [] 0 ["nil"] [.number (.integer 5)]
    [.number (.integer 5)] rfl (by decide) rfl rfl ("nil", .number (.integer 5)) (by decide))
  revert hnil
  decide

end Evaluation

end SmallScheme
