import SmallScheme.Interpreter.Basic
import SmallScheme.Proofs.Environment.View
import SmallScheme.Proofs.Evaluation.Simulation

/-!
# The two models of calls agree where no call meets itself

In the shared model the calls of one key have one table, which is never cleared. It holds what a
frame would hold if every parameter is bound anew, if the table is not the one of a call under way,
and if what is left in it from earlier calls is bound anew as well. This is so if no operand is left
alone, if no function calls itself, and if all calls of a key have the same parameters
(`NonReentrant`). Then a session goes the same way in both models
(`Interpreter.models_agree`).

The invariant is `Calls.Mirrors`: the frames of the calls under way are the tables of their keys.
-/

namespace SmallScheme

/-! ## Use that is not reentrant -/

def Event.application? : Event → Option Application
  | apply a => some a
  | define _ => none

/-- The calls that are requested. -/
def applications (log : List Event) : List Application :=
  log.filterMap Event.application?

theorem mem_applications {log : List Event} {a : Application} (h : .apply a ∈ log) :
    a ∈ applications log :=
  List.mem_filterMap.mpr ⟨_, h, rfl⟩

structure NonReentrant (log : List Event) : Prop where
  /-- No operand is the symbol of the parameter that it is for. -/
  evaluated : ∀ a ∈ applications log, a.operands.length = a.params.length →
    ∀ b ∈ a.params.zip a.operands, b.2.isSymbol b.1 = false
  /-- No function is called while a call of its key is under way. -/
  idle : ∀ a ∈ applications log, a.key ∉ a.running
  /-- All calls of a key have the same parameters. -/
  stable : ∀ a ∈ applications log, ∀ b ∈ applications log, a.key = b.key → a.params = b.params

namespace Interpreter

/-- Evaluates expressions one after the other, behind those that fail too. Lists the result of each
and the interpreter after it. -/
def evaluateSteps (i : Interpreter) : List Value → List (Except Fault Value × Interpreter)
  | [] => []
  | e :: rest => i.evaluate e :: evaluateSteps (i.evaluate e).2 rest

/-- What happens while expressions are evaluated one after the other. -/
def stepsLog (i : Interpreter) : List Value → List Event
  | [] => []
  | e :: rest => Evaluation.traceAt 0 e i.environment ++ stepsLog (i.evaluate e).2 rest

end Interpreter

/-! ## Frames and shared tables -/

namespace Calls

/-- The frames of the calls under way are the shared tables of their keys. The tables of calls that
have ended bind no names but those that a call of their key binds anew. -/
structure Mirrors (applied : List Application) (stack : List (Table Value))
    (contexts : Table (Table Value)) (running : List String) : Prop where
  distinct : running.Nodup
  same : stack.map some = running.map contexts.get?
  names : ∀ a ∈ applied, ∀ table, contexts.get? a.key = some table →
    ∀ name, table.contains name = true → name ∈ a.params

namespace Mirrors

variable {applied : List Application} {stack : List (Table Value)}
  {contexts : Table (Table Value)} {running : List String}

theorem current (h : Mirrors applied stack contexts running) :
    (frames stack).current = (shared contexts running).current := by
  have hsame := h.same
  cases stack with
  | nil =>
    rw [List.map_nil] at hsame
    rw [List.map_eq_nil_iff.mp hsame.symm]
    rfl
  | cons top below =>
    rw [List.map_cons] at hsame
    obtain ⟨key, outer, rfl, htop, -⟩ := List.map_eq_cons_iff.mp hsame.symm
    exact htop.symm

theorem leave (h : Mirrors applied stack contexts running) :
    Mirrors applied stack.tail contexts running.tail where
  distinct := h.distinct.tail
  same := by rw [List.map_tail, List.map_tail, h.same]
  names := h.names

/-- The table that a call of some key adds to agrees with the empty one on all other names than the
parameters. -/
theorem insertAll_eq (h : Mirrors applied stack contexts running) {a : Application}
    (ha : a ∈ applied) {bound : List (String × Value)} (hbound : bound.map Prod.fst = a.params) :
    ((contexts.get? a.key).getD .empty).insertAll bound = Table.empty.insertAll bound := by
  refine Table.ext_get? fun name => Table.get?_insertAll_congr fun hname => ?_
  rw [hbound] at hname
  cases htable : contexts.get? a.key with
  | none => rfl
  | some table =>
    have hnone : table.contains name = false := by
      by_contra hcontains
      exact hname (h.names a ha table htable name (by simpa using hcontains))
    simpa [Table.contains] using hnone

theorem enter (h : Mirrors applied stack contexts running)
    (hstable : ∀ a ∈ applied, ∀ b ∈ applied, a.key = b.key → a.params = b.params)
    {a : Application} (ha : a ∈ applied) (hidle : a.key ∉ running) {bound : List (String × Value)}
    (hbound : bound.map Prod.fst = a.params) :
    Mirrors applied (Table.empty.insertAll bound :: stack)
      (contexts.insert a.key (((contexts.get? a.key).getD .empty).insertAll bound))
      (a.key :: running) := by
  rw [h.insertAll_eq ha hbound]
  constructor
  case distinct => exact List.nodup_cons.mpr ⟨hidle, h.distinct⟩
  case same =>
    -- The key is not under way, so the tables of the calls under way are untouched.
    rw [List.map_cons, List.map_cons, Table.get?_insert_self, h.same]
    refine congrArg _ (List.map_congr_left fun key hkey => ?_)
    exact (Table.get?_insert_of_ne _ (ne_of_mem_of_not_mem hkey hidle) _).symm
  case names =>
    intro b hb table htable name hname
    -- Another key keeps its table. The new table binds the parameters of its key, which are those
    -- of every other call of that key.
    by_cases hkey : b.key = a.key
    · rw [hkey, Table.get?_insert_self] at htable
      cases htable
      rw [hstable b hb a ha hkey, ← hbound]
      refine (Table.contains_insertAll hname).resolve_right ?_
      simp [Table.contains]
    · rw [Table.get?_insert_of_ne _ hkey] at htable
      exact h.names b hb table htable name hname

end Mirrors

end Calls

/-- Every parameter is bound unless its operand is left alone. -/
theorem Bound.map_fst {good : Value → Prop} {pairs : List (String × Value)}
    {bindings : List (String × Option Value)} (h : List.Forall₂ (Bound good) pairs bindings)
    (hall : ∀ b ∈ pairs, b.2.isSymbol b.1 = false) :
    (bindings.filterMap fun b => b.2.map (b.1, ·)).map Prod.fst = pairs.map Prod.fst := by
  induction h with
  | nil => rfl
  | @cons pair binding pairs bindings hbound _ ih =>
    have hrest := ih fun b hb => hall b (List.mem_cons_of_mem _ hb)
    cases hbound with
    | evaluated hv => simpa using hrest
    | kept hkept =>
      rw [hall _ List.mem_cons_self] at hkept
      cases hkept

/-! ## Sessions in both models -/

/-- An environment in the model of frames beside one in the shared model. -/
structure Environment.Mirrors (applied : List Application) (running : List String)
    (s t : Environment) : Prop where
  values : s.values = t.values
  functions : s.functions = t.functions
  maxDepth : s.maxDepth = t.maxDepth
  calls : ∃ stack contexts, s.calls = .frames stack ∧ t.calls = .shared contexts running ∧
    Calls.Mirrors applied stack contexts running

namespace Environment.Mirrors

variable {applied : List Application} {running : List String} {s t : Environment}
variable (h : Mirrors applied running s t)
include h

theorem sameView : s.SameView t := by
  obtain ⟨stack, contexts, hs, ht, hcalls⟩ := h.calls
  refine ⟨h.values, h.functions, ?_⟩
  rw [hs, ht]
  exact hcalls.current

theorem bind {name : String} {v : Value} {bound bound' : Environment}
    (hs : s.bind name v = .ok bound) (ht : t.bind name v = .ok bound') :
    Mirrors applied running bound bound' := by
  have hview := h.sameView.bind hs ht
  refine ⟨hview.values, hview.functions, ?_, ?_⟩
  · have hlimit := congrArg Config.maxDepth (config_bind hs)
    have hlimit' := congrArg Config.maxDepth (config_bind ht)
    exact (hlimit.trans h.maxDepth).trans hlimit'.symm
  · rw [calls_bind hs, calls_bind ht]
    exact h.calls

/-- Every parameter of the call has to be bound. -/
theorem enter (hstable : ∀ a ∈ applied, ∀ b ∈ applied, a.key = b.key → a.params = b.params)
    {a : Application} (ha : a ∈ applied) (hidle : a.key ∉ running)
    {bindings : List (String × Option Value)}
    (hbound : (bindings.filterMap fun b => b.2.map (b.1, ·)).map Prod.fst = a.params) :
    Mirrors applied (a.key :: running) (s.enter a.key bindings) (t.enter a.key bindings) := by
  obtain ⟨stack, contexts, hs, ht, hcalls⟩ := h.calls
  refine ⟨h.values, h.functions, h.maxDepth, _, _, ?_, ?_, hcalls.enter hstable ha hidle hbound⟩
  · rw [Environment.enter, hs, Calls.enter]
  · rw [Environment.enter, ht, Calls.enter]

theorem leave : Mirrors applied running.tail s.leave t.leave := by
  obtain ⟨stack, contexts, hs, ht, hcalls⟩ := h.calls
  refine ⟨h.values, h.functions, h.maxDepth, stack.tail, contexts, ?_, ?_, hcalls.leave⟩
  · rw [Environment.leave, hs, Calls.leave]
  · rw [Environment.leave, ht, Calls.leave]

end Environment.Mirrors

namespace Comparison

/-- A run in the model of frames beside one in the shared model. -/
def models {log : List Event} (hlog : NonReentrant log) : Comparison where
  Context := List String
  running := id
  Related running _ s t := s.Mirrors (applications log) running t
  Allowed event := event ∈ log
  limit hrel := .inr (by rw [hrel.maxDepth])
  lookup hrel _ := ⟨hrel.sameView.lookup _, fun _ _ => trivial⟩
  resolve hrel _ := ⟨hrel.sameView.resolve _, fun _ _ => trivial⟩
  isDefined hrel _ := hrel.sameView.isDefined _
  define hrel _ _ _ _ _ hs ht := hrel.bind hs ht
  assign _ _ hrel _ _ _ _ hs ht := hrel.bind hs ht
  apply hrel _ := hrel
  operand := by
    rintro running _ s t key f operands b hrel ha hlength hb
    obtain ⟨stack, contexts, hs, -, -⟩ := hrel.calls
    have hevaluated := hlog.evaluated _ (mem_applications ha) hlength b hb
    simp [hs, Calls.model, hevaluated]
  enter := by
    rintro running _ s t key f operands bindings hrel ha hlength _ hbindings
    have happlied := mem_applications ha
    have hbound := (Bound.map_fst hbindings (hlog.evaluated _ happlied hlength)).trans
      (List.map_fst_zip (Nat.le_of_eq hlength.symm))
    refine ⟨key :: running, rfl, ?_, Environment.Mirrors.leave⟩
    exact hrel.enter hlog.stable happlied (hlog.idle _ happlied) hbound

end Comparison

namespace Environment

theorem mirrors_fresh (applied : List Application) (maxDepth : Nat) :
    Mirrors applied [] (fresh ⟨.frames, maxDepth⟩) (fresh ⟨.shared, maxDepth⟩) where
  values := rfl
  functions := rfl
  maxDepth := rfl
  calls := by
    refine ⟨[], .empty, rfl, rfl, List.nodup_nil, rfl, ?_⟩
    rintro a _ table htable
    cases htable

end Environment

namespace Interpreter

/-- What is seen of a step: its result and the global bindings after it. -/
def seen (step : Except Fault Value × Interpreter) :
    Except Fault Value × Table Value × Table Function :=
  (step.1, step.2.environment.values, step.2.environment.functions)

/-- One step goes the same way in both models, and keeps the invariant. -/
theorem mirrors_evaluate {log : List Event} (hlog : NonReentrant log) {i j : Interpreter}
    (hrel : i.environment.Mirrors (applications log) [] j.environment) {e : Value}
    (hevents : ∀ event ∈ Evaluation.traceAt 0 e i.environment, event ∈ log) :
    (i.evaluate e).1 = (j.evaluate e).1 ∧
      (i.evaluate e).2.environment.Mirrors (applications log) [] (j.evaluate e).2.environment := by
  have hagree := Comparison.agree_evaluateAt (c := .models hlog) (i := []) 0 rfl hrel
    hrel.maxDepth.symm trivial hevents
  unfold evaluate
  generalize (Evaluation.evaluateAt 0 e).outcome i.environment = left at *
  generalize (Evaluation.evaluateAt 0 e).outcome j.environment = right at *
  cases hagree with
  | ok _ hafter => exact ⟨rfl, hafter⟩
  | error hfault hafter => exact ⟨congrArg Except.error hfault, hafter⟩
  | lost hlost => exact hlost.elim

theorem seen_evaluateSteps {log : List Event} (hlog : NonReentrant log) {es : List Value}
    {i j : Interpreter} (hrel : i.environment.Mirrors (applications log) [] j.environment)
    (hevents : ∀ event ∈ i.stepsLog es, event ∈ log) :
    (i.evaluateSteps es).map seen = (j.evaluateSteps es).map seen := by
  induction es generalizing i j with
  | nil => rfl
  | cons e rest ih =>
    obtain ⟨hresult, hafter⟩ := mirrors_evaluate hlog hrel fun event hevent =>
      hevents event (List.mem_append_left _ hevent)
    have hrest := ih hafter fun event hevent => hevents event (List.mem_append_right _ hevent)
    have hstep : seen (i.evaluate e) = seen (j.evaluate e) := by
      rw [seen, seen, hresult, hafter.values, hafter.functions]
    rw [evaluateSteps, evaluateSteps, List.map_cons, List.map_cons, hstep, hrest]

/-- **The two models of calls agree on use that is not reentrant**: a session whose steps leave no
operand alone, call no function while a call of its key is under way, and give all calls of a key
the same parameters, has the same results and leaves the same variables and functions after every
step in both models. -/
theorem models_agree (reader : Reader.Config) (maxDepth : Nat) (es : List Value)
    (h : NonReentrant ((fresh reader ⟨.frames, maxDepth⟩).stepsLog es)) :
    ((fresh reader ⟨.frames, maxDepth⟩).evaluateSteps es).map seen =
      ((fresh reader ⟨.shared, maxDepth⟩).evaluateSteps es).map seen :=
  seen_evaluateSteps h (Environment.mirrors_fresh _ maxDepth) fun _ => id

/-- Calls of one function in the operands and in the body of another, and behind a step that
fails. -/
theorem models_agree_nested :
    let double : Value := .list [.symbol "define", .symbol "double",
      .lambdaForm (.list [.symbol "x"]) (.list [.symbol "+", .symbol "x", .symbol "x"])]
    let quadruple : Value := .list [.symbol "define", .symbol "quadruple",
      .lambdaForm (.list [.symbol "y"])
        (.list [.symbol "double", .list [.symbol "double", .symbol "y"]])]
    let failing : Value := .list [.symbol "quadruple", .bool true]
    let call : Value := .list [.symbol "quadruple", .list [.symbol "double", .number (.integer 3)]]
    let es := [double, quadruple, failing, call]
    NonReentrant ((fresh {} ⟨.frames, 256⟩).stepsLog es) ∧
      ((fresh {} ⟨.frames, 256⟩).evaluateSteps es).map seen =
        ((fresh {} ⟨.shared, 256⟩).evaluateSteps es).map seen := by
  intro double quadruple failing call es
  have h : NonReentrant ((fresh {} ⟨.frames, 256⟩).stepsLog es) :=
    ⟨by decide, by decide, by decide⟩
  exact ⟨h, models_agree {} 256 es h⟩

end Interpreter

end SmallScheme
