import SmallScheme.Proofs.Evaluation.Reached
import SmallScheme.Proofs.Interpreter.ReadBack

/-!
# Different values are written differently

What a session of texts computes and stores is made of written values (`Value.Written`), at every
step of every evaluation and not only in the replies. Different written values have different texts.
So calls of different functions never get the same key, and under the shared model they never share
a context (`Session.texts_tell_values_and_calls_apart`).
-/

namespace SmallScheme

namespace Session

open Evaluation Value

/-- In the course of a session, an expression is evaluated in some environment, with some levels
left. -/
def Reaches (s : Session) (requests : List Request) (room : Nat) (e : Value) (env : Environment) :
    Prop :=
  ∃ turn ∈ s.turns requests, Evaluation.Reaches turn.2.maxDepth turn.1 turn.2 room e env

/-- In the course of a session, a function is called under some key. -/
inductive Calls (s : Session) (requests : List Request) : String → Value → Prop
  | intro {room : Nat} {e : Value} {env before : Environment} {key : String} {f : Function}
      {operands : List Value} (hreach : s.Reaches requests (room + 1) e env)
      (hrequest : Evaluation.Requests (Evaluation.evaluate room) e env key f operands before) :
      Calls s requests key (Evaluation.callee e f)

/-- **Different values are written differently, and different callees have different keys.** In
every session of texts, the values in the replies, the values that are stored, and whatever is
evaluated, looked up or computed in between are written values: their numbers are in normal form,
and their symbols are read from their names or are the mark of a pair. Different written values have
different texts. The key of a call is the text of the name at its head or of the form that is
called, so calls with one key call the same. -/
theorem texts_tell_values_and_calls_apart (reader : Reader.Config) (config : Environment.Config)
    {requests : List Request} (htexts : ∀ request ∈ requests, request.IsText) :
    let s := start (.fresh reader config)
    ((∀ reply ∈ (s.handleAll requests).1, reply.Holds Written) ∧
      (s.handleAll requests).2.Holds reader Written ∧
      ∀ room e env, s.Reaches requests room e env →
        e.Written ∧ env.Holds Written ∧
          Leaves Written Written (fun _ => True) ((evaluate room e).outcome env)) ∧
    (∀ name, Written (.symbol name) ↔
      name = "." ∨ Reader.readOne reader name = .ok (.symbol name)) ∧
    (∀ (v w : Value) text, v.Written → w.Written → v.text? = some text → w.text? = some text →
      v = w) ∧
    (∀ key callee, s.Calls requests key callee →
      callee.Written ∧ callee.text? = some key.toList) ∧
    ∀ key callee callee', s.Calls requests key callee → s.Calls requests key callee' →
      callee = callee' := by
  intro s
  have hbrings : ∀ request ∈ requests, request.Brings reader Written :=
    fun request hrequest => (htexts request hrequest).brings reader
  have hstart : s.Holds reader Written := holds_start reader config
  have hreached : ∀ room e env, s.Reaches requests room e env →
      e.Written ∧ env.Holds Written ∧
        Leaves Written Written (fun _ => True) ((evaluate room e).outcome env) := by
    rintro room e env ⟨turn, hturn, hreach⟩
    obtain ⟨he, henv⟩ := hstart.turns inherited_written hbrings turn hturn
    exact content_of_reaches inherited_written hreach henv he
  have hdistinct : ∀ (v w : Value) text, v.Written → w.Written → v.text? = some text →
      w.text? = some text → v = w := fun v w text hv hw => hv.eq_of_text?_eq hw
  have hcalls : ∀ key callee, s.Calls requests key callee →
      callee.Written ∧ callee.text? = some key.toList := by
    rintro _ _ @⟨room, e, env, before, key, f, operands, hreach, hrequest⟩
    obtain ⟨he, henv, -⟩ := hreached _ _ _ hreach
    obtain ⟨text, htext, rfl⟩ := hrequest.key_eq
    rw [String.toList_ofList]
    exact ⟨content_callee inherited_written hrequest henv he, htext⟩
  refine ⟨⟨?_, ?_, hreached⟩, fun name => ?_, hdistinct, hcalls,
    fun key callee callee' hcall hcall' => ?_⟩
  · exact (content_handleAll inherited_written hstart hbrings).1
  · exact (content_handleAll inherited_written hstart hbrings).2
  · rw [written_symbol, Reader.readOne_eq_symbol_iff]
  · obtain ⟨hwritten, htext⟩ := hcalls key callee hcall
    obtain ⟨hwritten', htext'⟩ := hcalls key callee' hcall'
    exact hdistinct callee callee' _ hwritten hwritten' htext htext'

/-- The call of a form that is written where it is called. -/
theorem texts_tell_values_and_calls_apart_form :
    let requests := [Request.run "((lambda (x) x) 1)"]
    let s := start (.fresh {} {})
    let form := Value.lambdaForm (.list [.symbol "x"]) (.symbol "x")
    (∀ request ∈ requests, request.IsText) ∧ s.Calls requests "(lambda (x) x)" form ∧
      form.Written ∧ ∀ callee, s.Calls requests "(lambda (x) x)" callee → callee = form := by
  intro requests s form
  have htexts : ∀ request ∈ requests, request.IsText :=
    fun request hrequest => List.mem_singleton.mp hrequest ▸ trivial
  have hread : (Request.run "((lambda (x) x) 1)").expressions {}
      = [.list [form, .number (.integer 1)]] := by decide +kernel
  have hturn : (.list [form, .number (.integer 1)], Environment.fresh {}) ∈ s.turns requests :=
    List.mem_append_left _ (by rw [show s.current.reader = {} from rfl, hread]; exact .head _)
  have hrequest : Requests (evaluate 255) (.list [form, .number (.integer 1)]) (.fresh {})
      "(lambda (x) x)" ⟨["x"], .symbol "x"⟩ [.number (.integer 1)] (.fresh {}) :=
    .form rfl (by decide) (by decide)
  have hcall : s.Calls requests "(lambda (x) x)" form := .intro ⟨_, hturn, .start ..⟩ hrequest
  obtain ⟨-, -, -, hwritten, hsame⟩ := texts_tell_values_and_calls_apart {} {} htexts
  exact ⟨htexts, hcall, (hwritten _ _ hcall).1, fun callee h => hsame _ _ _ h hcall⟩

end Session

end SmallScheme
