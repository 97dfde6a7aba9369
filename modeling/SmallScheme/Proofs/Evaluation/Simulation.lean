import SmallScheme.Proofs.Evaluation.Comparison

/-!
# The evaluator simulates itself

If the evaluations of nested expressions simulate each other, so do the evaluations of the
expression around them. There is one lemma for each part of the evaluator, and
`Comparison.simulates_evaluate` ties them together by induction on the levels that are left.

In the first section everything happens in one context; calls lead to others.
-/

namespace SmallScheme

theorem SpecialForm.outcome_bindName (name : String) (v : Value) (env : Environment) :
    (bindName name v).outcome env = match env.bind name v with
      | .ok bound => (.ok (), bound)
      | .error fault => (.error fault, env) := by
  simp only [bindName, Eval.outcome_bind, Eval.outcome_get, Eval.outcome_ofExcept]
  cases env.bind name v <;> rfl

theorem Log.query_silent {α : Type} (look : Environment → Except Fault α) :
    Log.query look (fun _ => .silent) = .silent := by
  funext env
  unfold Log.query
  split <;> rfl

namespace Comparison

variable {c : Comparison} {recur recur' : Value → Eval Value}

theorem good_of_mem_parts {u v : Value} (hv : c.Good v) (hu : u ∈ v.parts) : c.Good u :=
  Value.of_mem_parts (fun items => (c.good_list items).mp) hv hu

theorem good_quoted {v : Value} (hv : c.Good v) : c.Good (.quoted v) :=
  (c.good_list _).mpr (by simpa using ⟨c.good_quote, hv⟩)

/-! ## Checks show what they check -/

theorem shows_of_ofForm {form : Value} (hform : c.Good form) (fault : Fault)
    (h : Function.ofForm form = .error fault) : fault.Shows c.Good :=
  (Function.shows_of_ofForm h).imp fun _ => good_of_mem_parts hform

theorem shows_of_asBool {v : Value} (hv : c.Good v) (fault : Fault)
    (h : v.asBool = .error fault) : fault.Shows c.Good := by
  refine (Value.shows_of_asBool h).imp ?_
  rintro _ rfl
  exact hv

theorem shows_of_ofValue {v : Value} (hv : c.Good v) (fault : Fault)
    (h : Identifier.ofValue v = .error fault) : fault.Shows c.Good := by
  refine (Identifier.shows_of_ofValue h).imp ?_
  rintro _ rfl
  exact hv

theorem shows_of_formKey {form : Value} (hform : c.Good form) (fault : Fault)
    (h : Evaluation.formKey form = .error fault) : fault.Shows c.Good := by
  unfold Evaluation.formKey at h
  split at h <;> cases h
  next htext => exact Fault.shows_unprintable htext hform

theorem shows_of_primitive {p : Primitive} {values : List Value}
    (hvalues : ∀ v ∈ values, c.Good v) (fault : Fault) (h : p.apply values = .error fault) :
    fault.Shows c.Good :=
  (p.shows_of_apply h).imp hvalues

theorem shows_nothing {fault : Fault} (h : fault.shown? = none)
    (hkind : fault.kind?.isSome = true) : fault.Shows c.Good :=
  Fault.shows_of_shown?_eq_none h hkind

/-! ## Binding a name -/

/-- A name is bound in both runs, or in neither. -/
theorem Agree.bindName {i : c.Context} {history : List Event} {s t : Environment} {next : Log}
    {name : String} {v : Value} (hrel : c.Related i history s t) (hv : c.Good v)
    (hbound : ∀ {bound bound'}, s.bind name v = .ok bound → t.bind name v = .ok bound' →
      c.Related i (history ++ next bound) bound bound') :
    c.Agree i (history ++ (Log.silent.andThen (SpecialForm.bindName name v) fun _ => next) s)
      c.Good ((do SpecialForm.bindName name v; pure v : Eval Value).outcome s)
      ((do SpecialForm.bindName name v; pure v : Eval Value).outcome t) := by
  simp only [Log.andThen, Log.silent, Eval.outcome_bind, SpecialForm.outcome_bindName]
  cases hs : s.bind name v with
  | error fault =>
    have hshown : fault.Shows c.Good :=
      (Environment.shows_of_bind hs).imp fun _ => good_of_mem_parts hv
    simp only [Environment.bind_error hs t name, List.append_nil]
    exact .error (c.similar_refl fault hshown) hrel
  | ok bound =>
    obtain ⟨bound', ht⟩ := Environment.bind_ok hs t name
    simp only [ht, List.nil_append]
    exact .ok hv (hbound hs ht)

/-! ## Parts that stay in one context -/

section

variable {i : c.Context} {log : Value → Log}

theorem simulates_lambdaForm {params body : Value}
    (hgood : c.Good (.lambdaForm params body)) :
    c.Simulates i .silent c.Good (SpecialForm.lambdaForm params body)
      (SpecialForm.lambdaForm params body) := by
  have hcheck : c.Simulates i .silent (fun _ => True)
      (.ofExcept (Function.ofForm (.lambdaForm params body)))
      (.ofExcept (Function.ofForm (.lambdaForm params body))) :=
    .ofExcept (fun _ _ => trivial) (shows_of_ofForm hgood)
  exact hcheck.bind_silent fun _ _ => .pure hgood

theorem simulates_requireUnary {f : Function} {v : Value} (hv : c.Good v) :
    c.Simulates i .silent c.Good (do SpecialForm.requireUnary f; pure v)
      (do SpecialForm.requireUnary f; pure v) := by
  have hunary : c.Simulates i .silent (fun _ => True) (SpecialForm.requireUnary f)
      (SpecialForm.requireUnary f) := by
    unfold SpecialForm.requireUnary
    split
    · exact .pure trivial
    · exact .fault (shows_nothing rfl rfl)
  exact hunary.bind_silent fun _ _ => .pure hv

variable (hrecur : ∀ e, c.Good e → c.Simulates i (log e) c.Good (recur e) (recur' e))
include hrecur

theorem simulates_lambdaOf {v : Value} (hv : c.Good v) :
    c.Simulates i (lambdaOfLog log v) c.Good (lambdaOf recur v) (lambdaOf recur' v) := by
  unfold lambdaOf lambdaOfLog
  split
  · exact .pure hv
  · exact hrecur v hv

theorem simulates_shortCircuit (decisive : Bool) {operands : List Value}
    (hgood : ∀ v ∈ operands, c.Good v) :
    c.Simulates i (SpecialForm.shortCircuitLog recur log decisive operands) c.Good
      (SpecialForm.shortCircuit recur decisive operands)
      (SpecialForm.shortCircuit recur' decisive operands) := by
  induction operands with
  | nil => exact .pure (c.good_bool _)
  | cons operand rest ih =>
    refine (hrecur operand (hgood _ List.mem_cons_self)).bind fun v hv => ?_
    refine .check (shows_of_asBool hv) fun b _ => ?_
    split
    · exact .pure (c.good_bool _)
    · exact ih fun v hv => hgood v (List.mem_cons_of_mem _ hv)

theorem simulates_choose {condition consequent alternative : Value} (hcondition : c.Good condition)
    (hconsequent : c.Good consequent) (halternative : c.Good alternative) :
    c.Simulates i (SpecialForm.chooseLog recur log condition consequent alternative) c.Good
      (SpecialForm.choose recur condition consequent alternative)
      (SpecialForm.choose recur' condition consequent alternative) := by
  refine (hrecur condition hcondition).bind fun v hv => ?_
  refine .check (shows_of_asBool hv) fun b _ => ?_
  cases b with
  | true => exact hrecur consequent hconsequent
  | false => exact hrecur alternative halternative

theorem simulates_bindNew {target e : Value} (hdefine : c.Good (.symbol "define"))
    (htarget : c.Good target) (he : c.Good e) :
    c.Simulates i (SpecialForm.bindNewLog recur log target e) c.Good
      (SpecialForm.bindNew recur target e) (SpecialForm.bindNew recur' target e) := by
  refine .check (shows_of_ofValue htarget) fun name hname => ?_
  obtain ⟨rfl, hvalid⟩ := Identifier.ofValue_eq_ok_iff.mp hname
  intro history s t hrel hallowed
  have hdefined := c.isDefined hrel htarget
  simp only [Eval.outcome_bind, Eval.outcome_get, ← hdefined] at hallowed ⊢
  split
  · exact Simulates.fault (shows_nothing rfl rfl) history s t hrel (by simp [Log.silent])
  · next hnew =>
    rw [if_neg hnew] at hallowed
    refine .bind hallowed (hrecur e he history s t hrel) ?_
    intro v s' t' hv hmid hallowed'
    refine .bindName hmid hv fun hs ht => ?_
    have hevent : c.Allowed (.define name) :=
      hallowed' _ (by simp [Log.andThen, Log.silent, SpecialForm.outcome_bindName, hs])
    exact c.define hmid hevent hdefine htarget hv hvalid hs ht

theorem simulates_rebind {target e : Value} (hassign : c.Good (.symbol "set!"))
    (htarget : c.Good target) (he : c.Good e) :
    c.Simulates i (SpecialForm.rebindLog log target e) c.Good
      (SpecialForm.rebind recur target e) (SpecialForm.rebind recur' target e) := by
  refine .check (shows_of_ofValue htarget) fun name hname => ?_
  obtain ⟨rfl, hvalid⟩ := Identifier.ofValue_eq_ok_iff.mp hname
  intro history s t hrel hallowed
  have hdefined := c.isDefined hrel htarget
  simp only [Eval.outcome_bind, Eval.outcome_get, ← hdefined] at hallowed ⊢
  split
  · exact Simulates.fault (shows_nothing rfl rfl) history s t hrel (by simp [Log.silent])
  · next hbound =>
    rw [if_neg hbound] at hallowed
    have hs₀ : s.isDefined name = true := by simpa using hbound
    -- Binding the name is not listed, so both steps end in a silent log.
    rw [← Log.andThen_silent (log e) (recur e)] at hallowed ⊢
    refine .bind hallowed (hrecur e he history s t hrel) ?_
    intro v s' t' hv hmid _
    rw [← Log.andThen_silent .silent (SpecialForm.bindName name v)]
    refine .bindName hmid hv fun hs ht => ?_
    rw [Log.silent, List.append_nil]
    exact c.assign hrel hs₀ hmid hassign htarget hv hvalid hs ht

theorem simulates_mapCallee {f : Value} (hf : c.Good f) :
    c.Simulates i (SpecialForm.mapCalleeLog log f) c.Good (SpecialForm.mapCallee recur f)
      (SpecialForm.mapCallee recur' f) := by
  have hshown : (Fault.notAFunction f).Shows c.Good := Fault.shows_of_shown?_eq_some rfl rfl hf
  cases f with
  | bool b => exact .fault hshown
  | number n => exact .fault hshown
  | symbol name =>
    simp only [SpecialForm.mapCallee, SpecialForm.mapCalleeLog]
    split
    · exact .pure hf
    · rw [← Log.query_silent (·.resolve name)]
      have hresolve : ∀ {history s t}, c.Related i history s t →
          s.resolve name = t.resolve name ∧ ∀ found, s.resolve name = .ok found → True :=
        fun hrel => ⟨(c.resolve hrel hf).1, fun _ _ => trivial⟩
      refine .query hresolve (fun hrel => c.resolve_error hrel hf) fun found _ => ?_
      cases found with
      | none => exact .fault hshown
      | some function => exact simulates_requireUnary hf
  | list items =>
    refine (simulates_lambdaOf hrecur hf).bind_silent fun form hform => ?_
    rw [← Log.query_silent (fun _ => Function.ofForm form)]
    exact .check (shows_of_ofForm hform) fun function _ => simulates_requireUnary hform

theorem simulates_mapOver {f items : Value} (hf : c.Good f) (hitems : c.Good items) :
    c.Simulates i (SpecialForm.mapOverLog recur log f items) c.Good
      (SpecialForm.mapOver recur f items) (SpecialForm.mapOver recur' f items) := by
  refine (simulates_mapCallee hrecur hf).bind fun callee hcallee => ?_
  refine (hrecur items hitems).bind fun v hv => ?_
  have hshown : (Fault.notAList v).Shows c.Good := Fault.shows_of_shown?_eq_some rfl rfl hv
  cases v with
  | bool b => exact .fault hshown
  | number n => exact .fault hshown
  | symbol name => exact .fault hshown
  | list elements =>
    have hcalls : ∀ element ∈ elements, c.Good (.list [callee, .quoted element]) := by
      intro element helement
      have hquoted := good_quoted ((c.good_list elements).mp hv element helement)
      exact (c.good_list _).mpr (by simpa using ⟨hcallee, hquoted⟩)
    have heach := Simulates.mapM_all fun element helement =>
      hrecur _ (hcalls element helement)
    refine heach.bind_silent fun results hresults => ?_
    exact .pure ((c.good_list results).mpr hresults)

theorem simulates_run {form : SpecialForm} {operands : List Value}
    (hkeyword : c.Good (.symbol form.keyword)) (hgood : ∀ v ∈ operands, c.Good v) :
    c.Simulates i (form.runLog recur log operands) c.Good (form.run recur operands)
      (form.run recur' operands) := by
  unfold SpecialForm.run
  split
  · exact simulates_shortCircuit hrecur false hgood
  · exact simulates_shortCircuit hrecur true hgood
  · simp only [List.forall_mem_cons] at hgood
    exact simulates_mapOver hrecur hgood.1 hgood.2.1
  · simp only [List.forall_mem_cons] at hgood
    exact .pure hgood.1
  · simp only [List.forall_mem_cons] at hgood
    exact simulates_choose hrecur hgood.1 hgood.2.1 hgood.2.2.1
  · simp only [List.forall_mem_cons] at hgood
    exact simulates_bindNew hrecur hkeyword hgood.1 hgood.2.1
  · simp only [List.forall_mem_cons] at hgood
    exact simulates_rebind hrecur hkeyword hgood.1 hgood.2.1
  · next params body =>
    refine simulates_lambdaForm ((c.good_list _).mpr ?_)
    simpa using ⟨hkeyword, by simpa using hgood⟩
  · -- These are not as many operands as the form takes.
    have hsilent : form.runLog recur log operands = .silent := by
      unfold SpecialForm.runLog
      split <;> simp_all
    rw [hsilent]
    exact .fault (shows_nothing rfl rfl)

theorem simulates_applyOperator {name : String} {op : Operator} {operands : List Value}
    (hop : Operator.named? name = some op) (hname : c.Good (.symbol name))
    (hgood : ∀ v ∈ operands, c.Good v)
    (hcomputes : ∀ p, op.action = .primitive p → c.Computes p) :
    c.Simulates i (Evaluation.applyOperatorLog recur log op operands) c.Good
      (Evaluation.applyOperator recur op operands)
      (Evaluation.applyOperator recur' op operands) := by
  unfold Evaluation.applyOperator Evaluation.applyOperatorLog
  split
  · cases haction : op.action with
    | primitive p =>
      have hoperands := Simulates.mapM_all fun v hv => hrecur v (hgood v hv)
      refine hoperands.bind_silent fun values hvalues => ?_
      exact .ofExcept (fun v => c.good_primitive (hcomputes p haction) hvalues)
        (shows_of_primitive hvalues)
    | special form =>
      rw [Operator.eq_keyword hop haction] at hname
      exact simulates_run hrecur hname hgood
  · exact .fault (shows_nothing rfl rfl)

theorem simulates_bindOperand {param : String} {operand : Value} (hgood : c.Good operand)
    (hkept : ∀ {history s t}, c.Related i history s t →
      (s.calls.model = .shared ∧ operand.isSymbol param = true ↔
        t.calls.model = .shared ∧ operand.isSymbol param = true)) :
    c.Simulates i (Evaluation.bindOperandLog log param operand) (Bound c.Good (param, operand))
      (Evaluation.bindOperand recur param operand)
      (Evaluation.bindOperand recur' param operand) := by
  intro history s t hrel hallowed
  simp only [Evaluation.bindOperand, Evaluation.bindOperandLog, Eval.outcome_bind,
    Eval.outcome_get, ← hkept hrel] at hallowed ⊢
  split
  · next h => exact Simulates.pure (.kept h.2) history s t hrel (by simp [Log.silent])
  · next h =>
    rw [if_neg h] at hallowed
    have hvalue : c.Simulates i (log operand) (Bound c.Good (param, operand))
        (recur operand >>= fun v => pure (param, some v))
        (recur' operand >>= fun v => pure (param, some v)) :=
      (hrecur operand hgood).bind_silent fun v hv => .pure (.evaluated hv)
    exact hvalue history s t hrel hallowed

end

/-! ## Calls -/

section

variable {log : List String → Value → Log}
variable (hrecur : ∀ i e, c.Good e →
  c.Simulates i (log (c.running i) e) c.Good (recur e) (recur' e))
include hrecur

/-- What a call that is allowed does first: its operands are evaluated in the context of the
caller. -/
theorem simulates_operands {i : c.Context} {key : String} {f : Function} {operands : List Value}
    (happly : c.Allowed (.apply ⟨key, f.params, operands, c.running i⟩))
    (hlength : operands.length = f.params.length) (hgood : ∀ v ∈ operands, c.Good v) :
    c.Simulates i (Evaluation.operandsLog recur log (c.running i) f operands)
      (List.Forall₂ (Bound c.Good) (f.params.zip operands))
      ((f.params.zip operands).mapM fun b => Evaluation.bindOperand recur b.1 b.2)
      ((f.params.zip operands).mapM fun b => Evaluation.bindOperand recur' b.1 b.2) := by
  refine .mapM fun b hb => ?_
  refine simulates_bindOperand (hrecur i) (hgood _ (List.of_mem_zip hb).2) fun hrel => ?_
  exact c.operand hrel happly hlength hb

theorem simulates_body {i : c.Context} {key : String} {f : Function} {operands : List Value}
    {bindings : List (String × Option Value)}
    (happly : c.Allowed (.apply ⟨key, f.params, operands, c.running i⟩))
    (hlength : operands.length = f.params.length) (hf : c.Good f.toForm)
    (hbindings : List.Forall₂ (Bound c.Good) (f.params.zip operands) bindings) :
    c.Simulates i (Evaluation.bodyLog log (c.running i) key f bindings) c.Good
      (Eval.within key bindings (recur f.body)) (Eval.within key bindings (recur' f.body)) := by
  intro history s t hrel hallowed
  -- The body goes on in a context `j` of its own, from which leaving leads back to `i`.
  obtain ⟨j, hrunning, hinside, hleave⟩ := c.enter hrel happly hlength hf hbindings
  have hbody : c.Good f.body := by
    have hparts := (c.good_list _).mp hf
    exact hparts f.body (by simp)
  unfold Evaluation.bodyLog at hallowed ⊢
  rw [← hrunning] at hallowed ⊢
  have hagree := hrecur j f.body hbody history _ _ hinside hallowed
  rw [Eval.outcome_within, Eval.outcome_within]
  generalize (recur f.body).outcome (s.enter key bindings) = left at *
  generalize (recur' f.body).outcome (t.enter key bindings) = right at *
  cases hagree with
  | ok ha hrel' => exact .ok ha (hleave hrel')
  | error hfault hrel' => exact .error hfault (hleave hrel')
  | lost hlost => exact .lost hlost

theorem simulates_served {i : c.Context} {key : String} {f : Function} {operands : List Value}
    (happly : c.Allowed (.apply ⟨key, f.params, operands, c.running i⟩))
    (hf : c.Good f.toForm) (hgood : ∀ v ∈ operands, c.Good v) :
    c.Simulates i (Evaluation.servedLog recur log (c.running i) key f operands) c.Good
      (Evaluation.call recur key f operands) (Evaluation.call recur' key f operands) := by
  unfold Evaluation.servedLog Evaluation.call
  refine .guard (p := operands.length ≠ f.params.length) (shows_nothing rfl rfl) fun hlength => ?_
  have hlength : operands.length = f.params.length := not_not.mp hlength
  exact (simulates_operands hrecur happly hlength hgood).bind fun bindings hbindings =>
    simulates_body hrecur happly hlength hf hbindings

theorem simulates_call {i : c.Context} {key : String} {f : Function} {operands : List Value}
    (hf : c.Good f.toForm) (hgood : ∀ v ∈ operands, c.Good v) :
    c.Simulates i (Evaluation.callLog recur log (c.running i) key f operands) c.Good
      (Evaluation.call recur key f operands) (Evaluation.call recur' key f operands) := by
  intro history s t hrel hallowed
  have happly := hallowed _ List.mem_cons_self
  have hserved := simulates_served hrecur happly hf hgood _ s t (c.apply hrel happly)
    fun event hevent => hallowed event (List.mem_cons_of_mem _ hevent)
  rw [List.append_assoc] at hserved
  exact hserved

theorem simulates_apply {i : c.Context} {head : Value} {operands : List Value}
    (hhead : c.Good head) (hgood : ∀ v ∈ operands, c.Good v)
    (hcomputes : ∀ p, head.Names p → c.Computes p) :
    c.Simulates i (Evaluation.applyLog recur log (c.running i) head operands) c.Good
      (Evaluation.apply recur head operands) (Evaluation.apply recur' head operands) := by
  cases head with
  | bool b => exact .fault (Fault.shows_of_shown?_eq_some rfl rfl hhead)
  | number n => exact .fault (Fault.shows_of_shown?_eq_some rfl rfl hhead)
  | symbol name =>
    simp only [Evaluation.apply, Evaluation.applyLog]
    cases hop : Operator.named? name with
    | some op =>
      exact simulates_applyOperator (hrecur i) hop hhead hgood
        fun p haction => hcomputes p ⟨name, op, rfl, hop, haction⟩
    | none =>
      have hresolve : ∀ {history s t}, c.Related i history s t →
          s.resolve name = t.resolve name ∧ ∀ found, s.resolve name = .ok found →
            ∀ f, found = some f → c.Good f.toForm := by
        intro history s t hrel
        obtain ⟨hsame, hform⟩ := c.resolve hrel hhead
        exact ⟨hsame, fun found hfound f hf => hform f (hf ▸ hfound)⟩
      refine .query hresolve (fun hrel => c.resolve_error hrel hhead) fun found hfound => ?_
      cases found with
      | none => exact .fault (shows_nothing rfl rfl)
      | some f => exact simulates_call hrecur (hfound f rfl) hgood
  | list items =>
    refine (simulates_lambdaOf (hrecur i) hhead).bind fun form hform => ?_
    refine .guard (Fault.shows_of_shown?_eq_some rfl rfl hhead) fun _ => ?_
    refine .check (shows_of_ofForm hform) fun f hf => ?_
    refine .check (shows_of_formKey hform) fun key _ => ?_
    obtain ⟨-, rfl⟩ := Function.ofForm_eq_ok_iff.mp hf
    exact simulates_call hrecur hform hgood

theorem simulates_step {i : c.Context} {e : Value} (he : c.Good e)
    (hcomputes : ∀ p, e.Applies p → c.Computes p) :
    c.Simulates i (Evaluation.stepLog recur log (c.running i) e) c.Good
      (Evaluation.step recur e) (Evaluation.step recur' e) := by
  cases e with
  | bool b => exact .pure he
  | number n => exact .pure he
  | symbol name =>
    have hfault : ∀ {history s t fault}, c.Related i history s t →
        s.lookup name = .error fault → fault.Shows c.Good :=
      fun _ h => Environment.shows_of_lookup h
    exact .look (fun hrel => c.lookup hrel he) hfault
  | list items =>
    cases items with
    | nil => exact .pure he
    | cons head operands =>
      have hparts := (c.good_list _).mp he
      exact simulates_apply hrecur (hparts head List.mem_cons_self)
        (fun v hv => hparts v (List.mem_cons_of_mem _ hv))
        fun p hp => hcomputes p ⟨head, operands, rfl, hp⟩

end

/-! ## Whole evaluations -/

/-- **Evaluations of one expression go on side by side**: they agree on the outcome, as long as the
first of them does what is allowed. The second may have more levels left if faults of the limit are
not compared. -/
theorem simulates_evaluate {extra : Nat}
    (hextra : extra = 0 ∨ ∀ limit, c.Lost (.depthLimit limit)) (room : Nat) {i : c.Context}
    {e : Value} (he : c.Good e) (hcomputes : ∀ p, c.Computes p := by exact fun _ => trivial) :
    c.Simulates i (Evaluation.trace room (c.running i) e) c.Good (Evaluation.evaluate room e)
      (Evaluation.evaluate (room + extra) e) := by
  induction room generalizing i e with
  | zero =>
    intro history s t hrel _
    rcases hextra with rfl | hlost
    · rcases c.limit hrel with hlost | hsimilar
      · exact .lost hlost
      · rw [Evaluation.trace, Log.silent, List.append_nil]
        exact .error hsimilar hrel
    · exact .lost (hlost s.maxDepth)
  | succ room ih =>
    rw [Nat.succ_add]
    exact simulates_step (fun i e he => ih he) he fun p _ => hcomputes p

/-- Evaluations at depths from which the second run has so many more levels left. -/
theorem agree_evaluateAt_add {i : c.Context} {s t : Environment} {depth depth' extra : Nat}
    {e : Value} (hidle : c.running i = [])
    (hextra : extra = 0 ∨ ∀ limit, c.Lost (.depthLimit limit))
    (hrel : c.Related i [] s t) (hroom : t.maxDepth - depth' = s.maxDepth - depth + extra)
    (he : c.Good e) (hallowed : ∀ event ∈ Evaluation.traceAt depth e s, c.Allowed event)
    (hcomputes : ∀ p, c.Computes p := by exact fun _ => trivial) :
    c.Agree i (Evaluation.traceAt depth e s) c.Good
      ((Evaluation.evaluateAt depth e).outcome s) ((Evaluation.evaluateAt depth' e).outcome t) := by
  unfold Evaluation.traceAt at hallowed ⊢
  rw [← hidle] at hallowed ⊢
  have hagree := simulates_evaluate hextra (s.maxDepth - depth) he hcomputes [] s t hrel hallowed
  rw [← hroom] at hagree
  exact hagree

/-- Evaluations at one depth under one limit. -/
theorem agree_evaluateAt {i : c.Context} {s t : Environment} (depth : Nat) {e : Value}
    (hidle : c.running i = []) (hrel : c.Related i [] s t) (hlimit : t.maxDepth = s.maxDepth)
    (he : c.Good e) (hallowed : ∀ event ∈ Evaluation.traceAt depth e s, c.Allowed event)
    (hcomputes : ∀ p, c.Computes p := by exact fun _ => trivial) :
    c.Agree i (Evaluation.traceAt depth e s) c.Good
      ((Evaluation.evaluateAt depth e).outcome s) ((Evaluation.evaluateAt depth e).outcome t) :=
  agree_evaluateAt_add hidle (.inl rfl) hrel (by rw [hlimit, Nat.add_zero]) he hallowed hcomputes

end Comparison

end SmallScheme
