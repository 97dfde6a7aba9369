import SmallScheme.Proofs.Environment.Content
import SmallScheme.Proofs.Evaluation.Content
import SmallScheme.Proofs.Evaluation.Models
import SmallScheme.Proofs.Evaluation.Start

/-!
# Which names a body sees

In the shared model the bindings of a function are known by its key and are never cleared. While a
body runs, a name is looked up first among all names that calls of that key have ever bound. These
are its own parameters only as long as the key has stood for functions with no other parameters
(`Interpreter.body_sees_parameters`). When a name is assigned another function, the parameters of the
former one are seen in the body of the new one (`Interpreter.body_sees_former_parameter`).

The invariant is `Environment.Accounted`: each name that is bound under a key is a parameter of a
call of that key.
-/

namespace SmallScheme

/-- The calls of a key that get as many operands as they have parameters. -/
def callsOf (key : String) (log : List Event) : List Application :=
  (applications log).filter fun a => a.key = key ∧ a.operands.length = a.params.length

theorem mem_callsOf {key : String} {params : List String} {operands : List Value}
    {running : List String} {log : List Event} (h : .apply ⟨key, params, operands, running⟩ ∈ log)
    (hlength : operands.length = params.length) :
    ⟨key, params, operands, running⟩ ∈ callsOf key log :=
  List.mem_filter.mpr ⟨mem_applications h, by simpa using hlength⟩

namespace Environment

/-! ## What is seen besides the globals -/

/-- The environment as it is when no call is under way. -/
def idle (env : Environment) : Environment :=
  { env with calls := .initial env.calls.model }

/-- No names but these are bound by the call under way. All others mean what they mean when no call
is under way. -/
structure SeesOnly (own : String → Prop) (env : Environment) : Prop where
  parameters : ∀ name v, env.calls.lookup? name = some v → own name
  lookup : ∀ name, ¬own name → env.lookup name = env.idle.lookup name
  resolve : ∀ name, ¬own name → env.resolve name = env.idle.resolve name

variable {own : String → Prop} {env : Environment} {log : List Event} {running : List String}

theorem lookup?_idle (env : Environment) (name : String) : env.idle.calls.lookup? name = none := by
  unfold idle
  cases env.calls <;> rfl

theorem seesOnly_of_parameters (h : ∀ name v, env.calls.lookup? name = some v → own name) :
    env.SeesOnly own := by
  have hnone : ∀ name, ¬own name → env.calls.lookup? name = none := by
    intro name hname
    by_contra hbound
    obtain ⟨v, hv⟩ := Option.ne_none_iff_exists'.mp hbound
    exact hname (h name v hv)
  refine ⟨h, fun name hname => ?_, fun name hname => ?_⟩
  · rw [Environment.lookup, Environment.lookup, hnone name hname, lookup?_idle]
    rfl
  · rw [Environment.resolve, Environment.resolve, hnone name hname, lookup?_idle]
    rfl

theorem SeesOnly.imp {other : String → Prop} (h : env.SeesOnly own)
    (himp : ∀ name, own name → other name) : env.SeesOnly other :=
  seesOnly_of_parameters fun name v hv => himp name (h.parameters name v hv)

/-! ## The invariant -/

/-- In the shared model, with calls of these keys under way, every name that is bound under a key is
a parameter of a call of that key. -/
def Accounted (log : List Event) (running : List String) (env : Environment) : Prop :=
  ∃ contexts, env.calls = .shared contexts running ∧
    contexts.Each fun key table => table.Each fun name _ => ∃ a ∈ callsOf key log, name ∈ a.params

theorem accounted_fresh (log : List Event) (maxDepth : Nat) :
    (fresh ⟨.shared, maxDepth⟩).Accounted log [] :=
  ⟨.empty, rfl, Table.each_empty⟩

namespace Accounted

variable (h : env.Accounted log running)
include h

theorem bind {name : String} {v : Value} {bound : Environment} (hbound : env.bind name v = .ok bound) :
    bound.Accounted log running := by
  unfold Accounted
  rw [calls_bind hbound]
  exact h

theorem enter {key : String} {bindings : List (String × Option Value)}
    (hbindings : ∀ b ∈ bindings, ∃ a ∈ callsOf key log, b.1 ∈ a.params) :
    (env.enter key bindings).Accounted log (key :: running) := by
  obtain ⟨contexts, hcalls, heach⟩ := h
  refine ⟨_, by rw [Environment.enter, hcalls, Calls.enter], heach.insert ?_⟩
  have hold : ((contexts.get? key).getD .empty).Each fun name _ =>
      ∃ a ∈ callsOf key log, name ∈ a.params := by
    cases htable : contexts.get? key with
    | none => exact Table.each_empty
    | some table => exact heach key table htable
  refine hold.insertAll fun b hb => ?_
  obtain ⟨binding, hbinding, hb⟩ := List.mem_filterMap.mp hb
  obtain ⟨v, -, rfl⟩ := Option.map_eq_some_iff.mp hb
  exact hbindings binding hbinding

theorem leave : env.leave.Accounted log running.tail := by
  obtain ⟨contexts, hcalls, heach⟩ := h
  exact ⟨contexts, by rw [Environment.leave, hcalls, Calls.leave], heach⟩

end Accounted

theorem Accounted.seesOnly {key : String} (h : env.Accounted log (key :: running)) :
    env.SeesOnly fun name => ∃ a ∈ callsOf key log, name ∈ a.params := by
  obtain ⟨contexts, hcalls, heach⟩ := h
  refine seesOnly_of_parameters fun name v hv => ?_
  rw [hcalls] at hv
  obtain ⟨table, htable, hname⟩ := Option.bind_eq_some_iff.mp hv
  exact heach key table htable name v hname

end Environment

theorem Environment.invariant_accounted (log : List Event) :
    Invariant (fun running env => env.Accounted log running) (· ∈ log) where
  bind hacc _ hbound := hacc.bind hbound
  enter := by
    intro running env key f operands bindings hacc happly hlength hbindings
    refine hacc.enter fun b hb => ?_
    obtain ⟨⟨pair, hpair, hname⟩, -⟩ := Bound.of_mem hbindings b hb
    exact ⟨_, mem_callsOf happly hlength, hname ▸ (List.of_mem_zip hpair).1⟩
  leave hacc := hacc.leave

/-! ## Sessions -/

namespace Interpreter

/-- In the course of a session, the body of a function is started, in some environment. -/
def StepsStart (i : Interpreter) : List Value → String → Function → Environment → Prop
  | [], _, _, _ => False
  | e :: rest, key, f, start =>
    Evaluation.Starts i.environment.maxDepth e i.environment key f start ∨
      (i.evaluate e).2.StepsStart rest key f start

variable {log : List Event} {i : Interpreter} {es : List Value} {key : String} {f : Function}
variable {start : Environment}

theorem accounted_of_stepsStart (h : i.environment.Accounted log [])
    (hevents : ∀ event ∈ i.stepsLog es, event ∈ log) (hstart : i.StepsStart es key f start) :
    (∃ a ∈ callsOf key log, a.params = f.params) ∧
      ∃ running, start.Accounted log (key :: running) := by
  have hinv := Environment.invariant_accounted log
  induction es generalizing i with
  | nil => exact hstart.elim
  | cons e rest ih =>
    obtain ⟨hfirst, hrest⟩ := List.forall_mem_append.mp hevents
    rcases hstart with hstart | hstart
    · obtain ⟨operands, outer, happly, hlength, hacc⟩ := hinv.starts hstart h hfirst
      exact ⟨⟨_, mem_callsOf happly hlength, rfl⟩, outer, hacc⟩
    · exact ih (hinv.evaluateAt h 0 hfirst) hrest hstart

/-- **A body sees the parameters of the calls of its key.** When the body of a function starts in
the course of a session in the shared model, the function has been called under its key, and no name
is bound but the parameters of functions that the session calls under that key; every other name
means what it means globally. So the body sees no parameters but its own if no function is called
under its key that has others. -/
theorem body_sees_parameters (reader : Reader.Config) (maxDepth : Nat) (es : List Value)
    (hstart : (fresh reader ⟨.shared, maxDepth⟩).StepsStart es key f start) :
    let calls := callsOf key ((fresh reader ⟨.shared, maxDepth⟩).stepsLog es)
    (∃ a ∈ calls, a.params = f.params) ∧
      start.SeesOnly (fun name => ∃ a ∈ calls, name ∈ a.params) ∧
      ((∀ a ∈ calls, ∀ name ∈ a.params, name ∈ f.params) → start.SeesOnly (· ∈ f.params)) := by
  intro calls
  obtain ⟨hcall, running, hacc⟩ := accounted_of_stepsStart
    (Environment.accounted_fresh _ maxDepth) (fun _ => id) hstart
  refine ⟨hcall, hacc.seesOnly, fun hsame => hacc.seesOnly.imp ?_⟩
  rintro name ⟨a, ha, hname⟩
  exact hsame a ha name hname

/-- The body of `f` starts in the body of `g`, whose parameter it does not see. -/
theorem body_sees_parameters_nested :
    let i := fresh {} ⟨.shared, 8⟩
    let es : List Value := [
      .list [.symbol "define", .symbol "f", .lambdaForm (.list [.symbol "x"]) (.symbol "y")],
      .list [.symbol "define", .symbol "g",
        .lambdaForm (.list [.symbol "y"]) (.list [.symbol "f", .symbol "y"])],
      .list [.symbol "g", .bool true]]
    ∃ start, i.StepsStart es "f" ⟨["x"], .symbol "y"⟩ start ∧
      (∀ a ∈ callsOf "f" (i.stepsLog es), ∀ name ∈ a.params, name ∈ ["x"]) ∧
      start.SeesOnly (· ∈ ["x"]) := by
  intro i es
  obtain ⟨start, hstart⟩ : ∃ start, i.StepsStart es "f" ⟨["x"], .symbol "y"⟩ start :=
    ⟨_, .inr (.inr (.inl (.nested (Evaluation.asks_body (.named (by decide) rfl) rfl rfl)
      (.called (.named (by decide) rfl) rfl rfl))))⟩
  have hsame : ∀ a ∈ callsOf "f" (i.stepsLog es), ∀ name ∈ a.params, name ∈ ["x"] := by decide
  exact ⟨start, hstart, hsame, (body_sees_parameters {} 8 es hstart).2.2 hsame⟩

/-- **A body sees parameters that are not its own**: a function that is assigned to a name after
another function was called under it sees the parameter of that one. -/
theorem body_sees_former_parameter :
    ¬ ∀ (reader : Reader.Config) (maxDepth : Nat) (es : List Value) (key : String) (f : Function)
      (start : Environment), (fresh reader ⟨.shared, maxDepth⟩).StepsStart es key f start →
        start.SeesOnly (· ∈ f.params) := by
  intro hall
  have hsees := hall {} 256 [
      .list [.symbol "define", .symbol "f", .lambdaForm (.list [.symbol "x"]) (.symbol "x")],
      .list [.symbol "f", .number (.integer 1)],
      .list [.symbol "set!", .symbol "f", .lambdaForm (.list [.symbol "y"]) (.symbol "x")],
      .list [.symbol "f", .number (.integer 2)]]
    "f" ⟨["y"], .symbol "x"⟩ _ (.inr (.inr (.inr (.inl (.called (.named (by decide) rfl) rfl rfl)))))
  exact absurd (hsees.parameters "x" (.number (.integer 1)) rfl) (by decide)

end Interpreter

end SmallScheme
