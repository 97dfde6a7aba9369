import SmallScheme.Proofs.Environment.Invariant
import SmallScheme.Proofs.Evaluation.Calls
import SmallScheme.Proofs.Evaluation.Operators
import SmallScheme.Proofs.Evaluation.Start

/-!
# Mapping over the elements of a list

`map` evaluates one call for each element, in which the element is quoted. In the model of frames
this comes down to a plain traversal: an operator gets each element as it is stored
(`Evaluation.evaluate_operator_quoted`), and the body of a lambda form runs in a frame of its own,
as in every call (`Evaluation.outcome_call_operands`), in which the parameter means the element
(`Evaluation.outcome_form_quoted`). The traversal goes on
from element to element because a call keeps the frames below its own and the limit of depth.

Nothing else is evaluated on the way. What may come up is listed by following what each expression
hands over (`Evaluation.Evaluates`): elements come up in quotes only (`Evaluation.mapParts`).

A lambda form is called under its text, so a form without a text is not called at all: for it every
list but the empty one ends with a fault.
-/

namespace SmallScheme

/-! ## Traversals -/

namespace Eval

variable {α β : Type}

@[simp] theorem outcome_map (f : α → β) (x : Eval α) (env : Environment) :
    (f <$> x).outcome env = ((x.outcome env).1.map f, (x.outcome env).2) := by
  rw [← bind_pure_comp, outcome_bind]
  rcases x.outcome env with ⟨_ | a, after⟩ <;> rfl

theorem mapM_ofExcept (f : α → Except Fault β) (as : List α) :
    (as.mapM fun a => ofExcept (f a)) = ofExcept (as.mapM f) := by
  induction as with
  | nil => rfl
  | cons a as ih =>
    rw [List.mapM_cons, List.mapM_cons, ih]
    cases f a with
    | error fault => rfl
    | ok b => cases as.mapM f <;> rfl

/-- Two traversals are the same if each step is, in the environments that the steps come to. -/
theorem outcome_mapM_congr (inv : Environment → Prop) {f g : α → Eval β} {as : List α}
    (hsame : ∀ a ∈ as, ∀ env, inv env → (f a).outcome env = (g a).outcome env)
    (hinv : ∀ a ∈ as, ∀ env, inv env → inv ((f a).outcome env).2) {env : Environment}
    (henv : inv env) : (as.mapM f).outcome env = (as.mapM g).outcome env := by
  induction as generalizing env with
  | nil => rfl
  | cons a as ih =>
    have hafter := hinv a List.mem_cons_self env henv
    rw [List.mapM_cons, List.mapM_cons, outcome_bind, outcome_bind,
      ← hsame a List.mem_cons_self env henv]
    generalize (f a).outcome env = first at hafter
    obtain ⟨_ | b, after⟩ := first
    · rfl
    · have hrest := ih (fun a' ha' => hsame a' (List.mem_cons_of_mem a ha'))
        (fun a' ha' => hinv a' (List.mem_cons_of_mem a ha')) hafter
      simp only [outcome_bind, hrest]

/-- What every step keeps, the traversal keeps, whether it fails or not. -/
theorem kept_of_mapM (inv : Environment → Prop) {f : α → Eval β} {as : List α}
    (hinv : ∀ a ∈ as, ∀ env, inv env → inv ((f a).outcome env).2) {env : Environment}
    (henv : inv env) : inv ((as.mapM f).outcome env).2 := by
  induction as generalizing env with
  | nil => exact henv
  | cons a as ih =>
    have hafter := hinv a List.mem_cons_self env henv
    rw [List.mapM_cons, outcome_bind]
    rcases hfirst : (f a).outcome env with ⟨_ | b, after⟩ <;> rw [hfirst] at hafter
    · exact hafter
    · have hrest := ih (fun a' ha' => hinv a' (List.mem_cons_of_mem a ha')) hafter
      simp only [outcome_bind]
      rcases hmapped : (as.mapM f).outcome after with ⟨_ | bs, last⟩ <;> rw [hmapped] at hrest
      · exact hrest
      · exact hrest

theorem length_of_mapM {f : α → Eval β} {as : List α} {bs : List β} {env after : Environment}
    (h : (as.mapM f).outcome env = (.ok bs, after)) : bs.length = as.length := by
  induction as generalizing bs env with
  | nil =>
    cases h
    rfl
  | cons a as ih =>
    rw [List.mapM_cons] at h
    obtain ⟨b, mid, -, hrest⟩ := outcome_bind_ok h
    obtain ⟨rest, last, hmapped, hresult⟩ := outcome_bind_ok hrest
    cases hresult
    rw [List.length_cons, List.length_cons, ih hmapped]

/-- Runs a body with a frame on top of these, which it ends with again. -/
def inFrame (stack : List (Table Value)) (frame : Table Value) (body : Eval α) : Eval α :=
  ExceptT.mk fun env =>
    let (result, after) := body.outcome { env with calls := .frames (frame :: stack) }
    (result, { after with calls := .frames stack })

theorem outcome_inFrame (stack : List (Table Value)) (frame : Table Value) (body : Eval α)
    (env : Environment) :
    (inFrame stack frame body).outcome env =
      let run := body.outcome { env with calls := .frames (frame :: stack) }
      (run.1, { run.2 with calls := .frames stack }) := rfl

end Eval

theorem Calls.eq_frames_of_underWay {calls : Calls} {stack : List (Table Value)}
    (h : calls.underWay = .inl stack) : calls = .frames stack := by
  cases calls with
  | frames => exact congrArg Calls.frames (Sum.inl.inj h)
  | shared => cases h

/-- The model is that of frames, these are the frames, and this is the limit of depth. -/
structure Environment.OnFrames (stack : List (Table Value)) (limit : Nat) (env : Environment) :
    Prop where
  calls : env.calls = .frames stack
  maxDepth : env.maxDepth = limit

/-- No evaluation changes the frames below it or the limit of depth. -/
theorem Environment.OnFrames.evaluate {stack : List (Table Value)} {limit : Nat}
    {env : Environment} (h : env.OnFrames stack limit) (room : Nat) (e : Value) :
    ((Evaluation.evaluate room e).outcome env).2.OnFrames stack limit where
  calls := by
    have hunder := Evaluation.obeys_evaluate law_underWay room e env
    rw [h.calls] at hunder
    exact Calls.eq_frames_of_underWay hunder
  maxDepth := by
    have hconfig := Evaluation.obeys_evaluate Environment.law_config room e env
    exact (congrArg Config.maxDepth hconfig).trans h.maxDepth

theorem Environment.OnFrames.evaluateEach {stack : List (Table Value)} {limit : Nat}
    {env : Environment} (h : env.OnFrames stack limit) (room : Nat) (es : List Value) :
    ((es.mapM (Evaluation.evaluate room)).outcome env).2.OnFrames stack limit :=
  Eval.kept_of_mapM (OnFrames stack limit) (fun e _ _ hbefore => hbefore.evaluate room e) h

namespace Evaluation

/-! ## One call -/

section Call

variable {room : Nat} {x body : Value} {p : String} {stack : List (Table Value)}
variable {env : Environment}

theorem evaluate_quoted (room : Nat) (x : Value) : evaluate (room + 1) (.quoted x) = pure x :=
  step_quoted x

/-- An operator gets a quoted operand as it stands. -/
theorem evaluate_operator_quoted {name : String} {op : Operator} {primitive : Primitive}
    (hop : Operator.named? name = some op) (haction : op.action = .primitive primitive)
    (hadmits : op.arity.admits 1 = true) (room : Nat) (x : Value) :
    evaluate (room + 2) (.list [.symbol name, .quoted x]) = .ofExcept (primitive.apply [x]) := by
  have hstep : step (evaluate (room + 1)) (.list [.symbol name, .quoted x])
      = [Value.quoted x].mapM (evaluate (room + 1)) >>= fun values =>
          .ofExcept (primitive.apply values) := step_primitive hop haction hadmits
  rw [evaluate, hstep]
  simp [evaluate_quoted]

theorem formKey_of_text {form : Value} {text : List Char} (h : form.text? = some text) :
    formKey form = .ok (String.ofList text) := by
  rw [formKey, h]

theorem formKey_of_textless {form : Value} (h : form.text? = none) :
    formKey form = .error (.unprintable form) := by
  rw [formKey, h]

/-- A form with one parameter stands for a function. -/
theorem ofForm_lambdaForm (p : String) (body : Value) :
    Function.ofForm (.lambdaForm (.list [.symbol p]) body) = .ok ⟨[p], body⟩ :=
  Function.ofForm_eq_ok_iff.mpr ⟨by simp, rfl⟩

theorem lambdaOf_lambdaForm (recur : Value → Eval Value) (params body : Value) :
    lambdaOf recur (.lambdaForm params body) = pure (.lambdaForm params body) :=
  if_pos (Value.isLambdaForm_lambdaForm params body)

/-- The form of a function is called under its text, if it has one. -/
theorem step_toForm (recur : Value → Eval Value) {f : Function}
    (hf : Function.ofForm f.toForm = .ok f) (operands : List Value) :
    step recur (.list (f.toForm :: operands))
      = .ofExcept (formKey f.toForm) >>= fun key => call recur key f operands := by
  have hlambda := f.isLambdaForm_toForm
  simp only [Function.toForm, Value.lambdaForm] at hf hlambda ⊢
  simp only [step, apply, lambdaOf, hlambda, hf, if_true, pure_bind, Bool.not_true]
  rfl

theorem step_form (recur : Value → Eval Value) (p : String) (body operand : Value) :
    step recur (.list [.lambdaForm (.list [.symbol p]) body, operand])
      = .ofExcept (formKey (.lambdaForm (.list [.symbol p]) body)) >>= fun key =>
          call recur key ⟨[p], body⟩ [operand] :=
  step_toForm recur (f := ⟨[p], body⟩) (ofForm_lambdaForm p body) [operand]

/-- Under frames every operand is evaluated, in order, and its value is bound to its parameter. -/
theorem outcome_bindOperands {params : List String} {operands vs : List Value}
    {mid : Environment} (hcalls : env.calls = .frames stack)
    (hlength : operands.length = params.length)
    (hoperands : (operands.mapM (evaluate room)).outcome env = (.ok vs, mid)) :
    ((params.zip operands).mapM fun b => bindOperand (evaluate room) b.1 b.2).outcome env
      = (.ok ((params.zip vs).map fun b => (b.1, some b.2)), mid) := by
  induction params generalizing operands vs env with
  | nil =>
    obtain rfl := List.length_eq_zero_iff.mp hlength
    cases hoperands
    rfl
  | cons p params ih =>
    obtain ⟨operand, rest, rfl⟩ := List.exists_cons_of_length_eq_add_one hlength
    rw [List.mapM_cons] at hoperands
    obtain ⟨v, between, hfirst, hrest⟩ := Eval.outcome_bind_ok hoperands
    obtain ⟨others, last, hothers, hresult⟩ := Eval.outcome_bind_ok hrest
    cases hresult
    have hstart : env.OnFrames stack env.maxDepth := ⟨hcalls, rfl⟩
    have hbetween := hstart.evaluate room operand
    rw [hfirst] at hbetween
    have hmodel : env.calls.model ≠ .shared := by simp [hcalls, Calls.model]
    have hbound : (bindOperand (evaluate room) p operand).outcome env
        = (.ok (p, some v), between) := by
      simp [bindOperand, Eval.outcome_bind, hmodel, hfirst, Except.map]
    have hbindings := ih hbetween.calls (Nat.succ.inj hlength) hothers
    simp [Eval.outcome_bind, hbound, hbindings, Except.map]

/-- The bindings of a call: its parameters and the values of its operands. -/
def callFrame (params : List String) (vs : List Value) : Table Value :=
  Table.empty.insertAll (params.zip vs)

/-- Under frames the body of a call runs in a frame of its own, in which the parameters are bound to
the values of the operands. -/
theorem outcome_call_operands (key : String) {f : Function} {operands vs : List Value}
    {mid : Environment} (hcalls : env.calls = .frames stack)
    (hlength : operands.length = f.params.length)
    (hoperands : (operands.mapM (evaluate room)).outcome env = (.ok vs, mid)) :
    (call (evaluate room) key f operands).outcome env
      = (Eval.inFrame stack (callFrame f.params vs) (evaluate room f.body)).outcome mid := by
  have hbindings := outcome_bindOperands hcalls hlength hoperands
  have hstart : env.OnFrames stack env.maxDepth := ⟨hcalls, rfl⟩
  have hmid := hstart.evaluateEach room operands
  rw [hoperands] at hmid
  have hcall : (call (evaluate room) key f operands).outcome env
      = (Eval.within key ((f.params.zip vs).map fun b => (b.1, some b.2))
          (evaluate room f.body)).outcome mid := by
    simp [call, Eval.outcome_bind, hlength, hbindings]
  have henter : mid.enter key ((f.params.zip vs).map fun b => (b.1, some b.2))
      = { mid with calls := .frames (callFrame f.params vs :: stack) } := by
    rw [Environment.enter, hmid.calls]
    simp [Calls.enter, callFrame, List.filterMap_map]
  rw [hcall, Eval.outcome_within, henter, Eval.outcome_inFrame]
  generalize callFrame f.params vs = frame
  have hinside : { mid with calls := .frames (frame :: stack) }.OnFrames (frame :: stack)
      mid.maxDepth := ⟨rfl, rfl⟩
  rw [Environment.leave, (hinside.evaluate room f.body).calls]
  rfl

/-- Under frames, the body of a call with one quoted operand runs in a frame of its own. -/
theorem outcome_call_quoted (key : String) (hcalls : env.calls = .frames stack) :
    (call (evaluate (room + 1)) key ⟨[p], body⟩ [.quoted x]).outcome env
      = (Eval.inFrame stack (Table.empty.insert p x) (evaluate (room + 1) body)).outcome env := by
  have hoperand : ([Value.quoted x].mapM (evaluate (room + 1))).outcome env = (.ok [x], env) := by
    simp [evaluate_quoted]
  exact outcome_call_operands key hcalls rfl hoperand

/-- The body of a form runs in a frame in which the parameter means the quoted operand. -/
theorem outcome_form_quoted {key : String}
    (hkey : formKey (.lambdaForm (.list [.symbol p]) body) = .ok key)
    (hcalls : env.calls = .frames stack) :
    (evaluate (room + 2) (.list [.lambdaForm (.list [.symbol p]) body, .quoted x])).outcome env
      = (Eval.inFrame stack (Table.empty.insert p x) (evaluate (room + 1) body)).outcome env := by
  rw [evaluate, step_form, Eval.outcome_bind, Eval.outcome_ofExcept, hkey]
  exact outcome_call_quoted key hcalls

/-- A form without a text is not called. -/
theorem outcome_form_of_error {fault : Fault} {operand : Value}
    (hkey : formKey (.lambdaForm (.list [.symbol p]) body) = .error fault) :
    (evaluate (room + 1) (.list [.lambdaForm (.list [.symbol p]) body, operand])).outcome env
      = (.error fault, env) := by
  rw [evaluate, step_form, Eval.outcome_bind, Eval.outcome_ofExcept, hkey]

end Call

/-! ## All calls -/

def mapExpression (callee items : Value) : Value :=
  .list [.symbol "map", callee, items]

section Map

open SpecialForm

variable {recur : Value → Eval Value} {callee items x body : Value} {elements : List Value}
variable {name p : String} {op : Operator} {env mid : Environment}

theorem mapCallee_operator (hop : Operator.named? name = some op) (recur : Value → Eval Value) :
    mapCallee recur (.symbol name) = pure (.symbol name) := by
  simp [mapCallee, hop]

theorem mapCallee_form (p : String) (body : Value) (recur : Value → Eval Value) :
    mapCallee recur (.lambdaForm (.list [.symbol p]) body)
      = pure (.lambdaForm (.list [.symbol p]) body) := by
  have hform := ofForm_lambdaForm p body
  have hlambda := lambdaOf_lambdaForm recur (.list [.symbol p]) body
  simp only [Value.lambdaForm] at hform hlambda ⊢
  simp only [mapCallee, hlambda, pure_bind, hform]
  rfl

/-- A callee that stands for itself is called for each of the elements. -/
theorem outcome_step_map (hcallee : mapCallee recur callee = pure callee)
    (hitems : (recur items).outcome env = (.ok (.list elements), mid)) :
    (step recur (mapExpression callee items)).outcome env =
      (Value.list <$> elements.mapM fun x => recur (.list [callee, .quoted x])).outcome mid := by
  have hmap : step recur (mapExpression callee items) = SpecialForm.map.run recur [callee, items] :=
    step_special ⟨"map", .exact 2, .special .map⟩ (by decide) rfl rfl
  rw [hmap, SpecialForm.run, mapOver, hcallee, pure_bind, Eval.outcome_bind, hitems]
  simp

/-! ## What is evaluated on the way -/

theorem not_asks_quoted (x e' : Value) (env' : Environment) :
    ¬Asks (step · (.quoted x)) recur env e' env' :=
  not_asks fun fault => by rw [step_quoted, step_quoted]

variable {e' : Value} {env' : Environment}

theorem asks_operator {primitive : Primitive} (hop : Operator.named? name = some op)
    (haction : op.action = .primitive primitive) (hadmits : op.arity.admits 1 = true)
    (h : Asks (step · (.list [.symbol name, .quoted x])) recur env e' env') : e' = .quoted x := by
  by_contra hne
  have hstep : ∀ recur : Value → Eval Value,
      step recur (.list [.symbol name, .quoted x])
        = [Value.quoted x].mapM recur >>= fun values => .ofExcept (primitive.apply values) :=
    fun recur => step_primitive hop haction hadmits
  refine not_asks (fun fault => ?_) h
  simp only [hstep, List.mapM_cons, List.mapM_nil, failingAt_of_ne (Ne.symm hne)]

theorem asks_form
    (h : Asks (step · (.list [.lambdaForm (.list [.symbol p]) body, .quoted x])) recur env e' env') :
    e' = .quoted x ∨ e' = body := by
  by_contra! hne
  refine not_asks (fun fault => ?_) h
  simp only [step_form, call, bindOperand, List.zip_cons_cons, List.zip_nil_left, List.mapM_cons,
    List.mapM_nil, failingAt_of_ne hne.1.symm, failingAt_of_ne hne.2.symm]

theorem asks_map (hcallee : ∀ recur, mapCallee recur callee = pure callee)
    (hitems : (recur items).outcome env = (.ok (.list elements), mid))
    (h : Asks (step · (mapExpression callee items)) recur env e' env') :
    e' = items ∨ ∃ x ∈ elements, e' = .list [callee, .quoted x] := by
  by_contra! hne
  refine not_asks (fun fault => ?_) h
  have hitems' : (failingAt recur e' env' fault items).outcome env
      = (.ok (.list elements), mid) := by
    rw [failingAt_of_ne hne.1.symm, hitems]
  have hcalls : (elements.mapM fun x =>
        failingAt recur e' env' fault (.list [callee, .quoted x])).outcome mid
      = (elements.mapM fun x => recur (.list [callee, .quoted x])).outcome mid := by
    refine Eval.outcome_mapM_congr (fun _ => True) (fun x hx s _ => ?_) (fun _ _ _ _ => trivial)
      trivial
    rw [failingAt_of_ne (hne.2 x hx).symm]
  rw [outcome_step_map (hcallee _) hitems', outcome_step_map (hcallee _) hitems, Eval.outcome_map,
    Eval.outcome_map, hcalls]

/-- In the course of the evaluation of an expression, with so many levels left, another one is
evaluated. What happens in the evaluation of the expressions that are set apart is left out. -/
inductive Evaluates (apart : List Value) : Nat → Value → Environment → Value → Prop
  | self (room : Nat) (e : Value) (env : Environment) : Evaluates apart room e env e
  | nested {room : Nat} {e e' v : Value} {env env' : Environment} (hcourse : e ∉ apart)
      (hasks : Asks (step · e) (evaluate room) env e' env')
      (h : Evaluates apart room e' env' v) : Evaluates apart (room + 1) e env v

/-- A mapping, the calls that it makes, and their operands. -/
def mapParts (callee items : Value) (elements : List Value) : List Value :=
  mapExpression callee items :: elements.flatMap fun x => [.list [callee, .quoted x], .quoted x]

theorem mem_mapParts {v : Value} :
    v ∈ mapParts callee items elements ↔ v = mapExpression callee items ∨
      ∃ x ∈ elements, v = .list [callee, .quoted x] ∨ v = .quoted x := by
  simp [mapParts]

section

variable {apart : List Value} {room : Nat} {v : Value}

theorem Evaluates.eq_of_mem {e : Value} (hapart : e ∈ apart) (h : Evaluates apart room e env v) :
    v = e := by
  cases h with
  | self => rfl
  | nested hcourse => exact absurd hapart hcourse

theorem Evaluates.eq_quoted (h : Evaluates apart room (.quoted x) env v) : v = .quoted x := by
  cases h with
  | self => rfl
  | nested _ hasks => exact absurd hasks (not_asks_quoted x _ _)

/-- If a call of the callee evaluates nothing but its quoted operand and what is set apart, then so
does the mapping, apart from its calls. -/
theorem Evaluates.mem_mapParts (hcallee : ∀ recur, mapCallee recur callee = pure callee)
    (hitems : (evaluate room items).outcome env = (.ok (.list elements), mid))
    (happart : items ∈ apart)
    (hcall : ∀ {room x env e' env'},
      Asks (step · (.list [callee, .quoted x])) (evaluate room) env e' env' →
        e' = .quoted x ∨ e' ∈ apart)
    (h : Evaluates apart (room + 1) (mapExpression callee items) env v) :
    v ∈ mapParts callee items elements ∨ v ∈ apart := by
  rw [Evaluation.mem_mapParts]
  cases h with
  | self => exact .inl (.inl rfl)
  | nested _ hasks h =>
    rcases asks_map hcallee hitems hasks with rfl | ⟨x, hx, rfl⟩
    · rw [h.eq_of_mem happart]
      exact .inr happart
    · cases h with
      | self => exact .inl (.inr ⟨x, hx, .inl rfl⟩)
      | nested _ hasks h =>
        rcases hcall hasks with rfl | hmem
        · exact .inl (.inr ⟨x, hx, .inr h.eq_quoted⟩)
        · rw [h.eq_of_mem hmem]
          exact .inr hmem

end

/-! ## Mappings at a depth -/

variable {stack : List (Table Value)} {depth : Nat}

theorem outcome_evaluateAt_map (hcallee : ∀ recur, mapCallee recur callee = pure callee)
    (hdepth : depth + 2 < env.maxDepth)
    (hitems : (evaluateAt (depth + 1) items).outcome env = (.ok (.list elements), mid)) :
    (evaluateAt depth (mapExpression callee items)).outcome env =
      (Value.list <$> elements.mapM fun x =>
        evaluate (env.maxDepth - (depth + 1)) (.list [callee, .quoted x])).outcome mid := by
  rw [outcome_evaluateAt_step (by omega)]
  exact outcome_step_map (hcallee _) hitems

theorem outcome_map_operator {primitive : Primitive} (hdepth : depth + 2 < env.maxDepth)
    (hitems : (evaluateAt (depth + 1) items).outcome env = (.ok (.list elements), mid))
    (hop : Operator.named? name = some op) (haction : op.action = .primitive primitive)
    (hadmits : op.arity.admits 1 = true) :
    (evaluateAt depth (mapExpression (.symbol name) items)).outcome env
      = ((elements.mapM fun x => primitive.apply [x]).map .list, mid) := by
  have hlevels : env.maxDepth - (depth + 1) = env.maxDepth - (depth + 3) + 2 := by omega
  rw [outcome_evaluateAt_map (mapCallee_operator hop) hdepth hitems, hlevels]
  simp only [evaluate_operator_quoted hop haction hadmits, Eval.mapM_ofExcept, Eval.outcome_map,
    Eval.outcome_ofExcept]

theorem outcome_map_form (hcalls : env.calls = .frames stack) (hdepth : depth + 2 < env.maxDepth)
    (hitems : (evaluateAt (depth + 1) items).outcome env = (.ok (.list elements), mid))
    {key : String} (hkey : formKey (.lambdaForm (.list [.symbol p]) body) = .ok key) :
    (evaluateAt depth (mapExpression (.lambdaForm (.list [.symbol p]) body) items)).outcome env =
      (Value.list <$> elements.mapM fun x =>
        Eval.inFrame stack (Table.empty.insert p x) (evaluateAt (depth + 2) body)).outcome mid := by
  have hstart : env.OnFrames stack env.maxDepth := ⟨hcalls, rfl⟩
  have hmid : mid.OnFrames stack env.maxDepth := by
    have hkept := hstart.evaluate (env.maxDepth - (depth + 1)) items
    rw [outcome_evaluateAt] at hitems
    rwa [hitems] at hkept
  have hlevels : env.maxDepth - (depth + 1) = env.maxDepth - (depth + 3) + 2 := by omega
  have hbody : env.maxDepth - (depth + 2) = env.maxDepth - (depth + 3) + 1 := by omega
  rw [outcome_evaluateAt_map (mapCallee_form p body) hdepth hitems, Eval.outcome_map,
    Eval.outcome_map]
  -- The frames and the limit are those of the start again wherever a call begins.
  have hcalls : (elements.mapM fun x => evaluate (env.maxDepth - (depth + 1))
        (.list [.lambdaForm (.list [.symbol p]) body, .quoted x])).outcome mid
      = (elements.mapM fun x =>
          Eval.inFrame stack (Table.empty.insert p x) (evaluateAt (depth + 2) body)).outcome mid := by
    refine Eval.outcome_mapM_congr (Environment.OnFrames stack env.maxDepth) (fun x _ s hs => ?_)
      (fun x _ s hs => hs.evaluate _ _) hmid
    rw [hlevels, outcome_form_quoted hkey hs.calls]
    simp only [Eval.outcome_inFrame, outcome_evaluateAt, hs.maxDepth, hbody]
  rw [hcalls]

theorem outcome_map_form_of_error (hdepth : depth + 2 < env.maxDepth)
    (hitems : (evaluateAt (depth + 1) items).outcome env = (.ok (.list elements), mid))
    {fault : Fault} (hkey : formKey (.lambdaForm (.list [.symbol p]) body) = .error fault) :
    (evaluateAt depth (mapExpression (.lambdaForm (.list [.symbol p]) body) items)).outcome env
      = (if elements = [] then .ok (.list []) else .error fault, mid) := by
  have hlevels : env.maxDepth - (depth + 1) = env.maxDepth - (depth + 2) + 1 := by omega
  rw [outcome_evaluateAt_map (mapCallee_form p body) hdepth hitems, hlevels, Eval.outcome_map]
  cases elements with
  | nil => rfl
  | cons x rest =>
    rw [List.mapM_cons, Eval.outcome_bind, outcome_form_of_error hkey]
    rfl

/-- A mapping that succeeds has one result for each element. -/
theorem length_of_mapped {f : Value → Eval Value} {v : Value}
    (h : ((Value.list <$> elements.mapM f).outcome env).1 = .ok v) :
    ∃ results, v = .list results ∧ results.length = elements.length := by
  rw [Eval.outcome_map] at h
  rcases hresult : (elements.mapM f).outcome env with ⟨_ | results, after⟩
  · rw [hresult] at h
    cases h
  · rw [hresult] at h
    cases h
    exact ⟨results, rfl, Eval.length_of_mapM hresult⟩

/-- **`map` applies its callee to the elements as they are stored, in order.** Let the list be
evaluated already, in the model of frames and with levels left for the bodies.

* An operator that takes one operand is applied to each element until it fails, and changes
  nothing.
* The body of a lambda form with one parameter is evaluated for each element until it fails, in a
  frame of its own that binds the parameter to the element, and each evaluation goes on where the
  one before has ended. There is one result for each element.
* A lambda form without a text cannot be called, which is a fault unless the list is empty.

Besides the list and the body, nothing is evaluated but the calls and their quoted operands, so no
element is. -/
theorem map_applies_elements (hcalls : env.calls = .frames stack) (hdepth : depth + 2 < env.maxDepth)
    (hitems : (evaluateAt (depth + 1) items).outcome env = (.ok (.list elements), mid)) :
    let mapped callee := (evaluateAt depth (mapExpression callee items)).outcome env
    let OnTheWay apart callee :=
      Evaluates apart (env.maxDepth - depth) (mapExpression callee items) env
    (∀ name op primitive, Operator.named? name = some op → op.action = .primitive primitive →
      op.arity.admits 1 = true →
        mapped (.symbol name) = ((elements.mapM fun x => primitive.apply [x]).map .list, mid) ∧
        ∀ v, OnTheWay [items] (.symbol name) v →
          v ∈ mapParts (.symbol name) items elements ∨ v ∈ [items]) ∧
    ∀ p body,
      let form := Value.lambdaForm (.list [.symbol p]) body
      (form.text? ≠ none → mapped form = (Value.list <$> elements.mapM fun x =>
        Eval.inFrame stack (Table.empty.insert p x) (evaluateAt (depth + 2) body)).outcome mid) ∧
      (form.text? = none → mapped form =
        (if elements = [] then .ok (.list []) else .error (.unprintable form), mid)) ∧
      (∀ v, (mapped form).1 = .ok v →
        ∃ results, v = .list results ∧ results.length = elements.length) ∧
      ∀ v, OnTheWay [items, body] form v →
        v ∈ mapParts form items elements ∨ v ∈ [items, body] := by
  intro mapped OnTheWay
  have hlevels : env.maxDepth - depth = env.maxDepth - (depth + 1) + 1 := by omega
  constructor
  · intro name op primitive hop haction hadmits
    refine ⟨outcome_map_operator hdepth hitems hop haction hadmits, fun v hv => ?_⟩
    simp only [OnTheWay, hlevels] at hv
    refine hv.mem_mapParts (mapCallee_operator hop) hitems List.mem_cons_self fun hasks => ?_
    exact .inl (asks_operator hop haction hadmits hasks)
  · intro p body form
    refine ⟨fun htext => ?_, fun htext => ?_, fun v hv => ?_, fun v hv => ?_⟩
    · obtain ⟨text, htext⟩ := Option.ne_none_iff_exists'.mp htext
      exact outcome_map_form hcalls hdepth hitems (formKey_of_text htext)
    · exact outcome_map_form_of_error hdepth hitems (formKey_of_textless htext)
    · simp only [mapped, form,
        outcome_evaluateAt_map (mapCallee_form p body) hdepth hitems] at hv
      exact length_of_mapped hv
    · simp only [OnTheWay, hlevels] at hv
      refine hv.mem_mapParts (mapCallee_form p body) hitems List.mem_cons_self fun hasks => ?_
      rcases asks_form hasks with rfl | rfl
      · exact .inl rfl
      · exact .inr (by simp)

end Map

/-- A symbol, a call and a lambda form are elements like any others, for an operator and for a form
that collects them in a variable. -/
theorem map_applies_elements_unevaluated :
    let elements : List Value := [.symbol "x", .list [.symbol "f", .symbol "x"],
      .lambdaForm (.list []) (.symbol "x")]
    let env := { Environment.fresh {} with values := Table.empty.insert "n" .nil }
    let items : Value := .quoted (.list elements)
    let form := Value.lambdaForm (.list [.symbol "y"])
      (.list [.symbol "set!", .symbol "n", .list [.symbol "cons", .symbol "y", .symbol "n"]])
    env.calls = .frames [] ∧ 2 < env.maxDepth ∧
      (evaluateAt 1 items).outcome env = (.ok (.list elements), env) ∧
      (evaluateAt 0 (mapExpression (.symbol "list") items)).outcome env
        = (.ok (.list (elements.map fun x => .list [x])), env) ∧
      ((evaluateAt 0 (mapExpression form items)).outcome env).2.lookup "n"
        = .ok (.list elements.reverse) := by
  intro elements env items form
  have hcalls : env.calls = .frames [] := rfl
  have hitems : (evaluateAt (0 + 1) items).outcome env = (.ok (.list elements), env) := rfl
  have hdepth : 0 + 2 < env.maxDepth := by decide
  obtain ⟨hoperator, hform⟩ := map_applies_elements hcalls hdepth hitems
  obtain ⟨hlist, -⟩ := hoperator "list" ⟨"list", .atLeast 0, .primitive .list⟩ .list (by decide) rfl
    rfl
  obtain ⟨hbody, -⟩ := hform "y"
    (.list [.symbol "set!", .symbol "n", .list [.symbol "cons", .symbol "y", .symbol "n"]])
  have hcollected := congrArg (fun run => run.2.lookup "n") (hbody (by decide))
  exact ⟨hcalls, hdepth, hitems, hlist, hcollected.trans (by decide)⟩

/-- **Not every lambda form is applied to the elements**: one that holds a decimal with too many
zeros behind its digits is not called, whether its body comes to the decimal or not. -/
theorem map_form_not_applied :
    ¬ ∀ (env mid : Environment) (stack : List (Table Value)) (depth : Nat) (items : Value)
        (elements : List Value) (p : String) (body : Value),
      env.calls = .frames stack → depth + 2 < env.maxDepth →
        (evaluateAt (depth + 1) items).outcome env = (.ok (.list elements), mid) →
          (evaluateAt depth (mapExpression (.lambdaForm (.list [.symbol p]) body) items)).outcome env
            = (Value.list <$> elements.mapM fun x =>
                Eval.inFrame stack (Table.empty.insert p x) (evaluateAt (depth + 2) body)).outcome
                  mid := by
  intro hall
  let env := Environment.fresh {}
  let items : Value := .quoted (.list [.number (.integer 0)])
  let body : Value := .list [.symbol "if", .bool true, .number (.integer 1),
    .number (.decimal ⟨1, -4294967296⟩)]
  have happlied := congrArg Prod.fst (hall env env [] 0 items [.number (.integer 0)] "y" body rfl
    (by decide) rfl)
  revert happlied
  decide

end Evaluation

end SmallScheme
