import SmallScheme.Proofs.Evaluation.Content
import SmallScheme.Proofs.Interpreter.Turns

/-!
# What sessions come across

A request brings values into a session: those that are read from its text, or the expression that is
to be evaluated. If a property is passed on in every turn of the session, and all values that the
requests bring have it, then so do all values in the replies, those that faults show among them, all
values that the interpreters of the session hold in the end, and all that the turns start with
(`Session.Holds.handleAll`). What passes on to whatever is computed is passed on in every turn
(`Session.content_handleAll`).
-/

namespace SmallScheme

variable {reader : Reader.Config} {good : Value → Prop}

/-- All values that a request brings are of some kind. -/
def Request.Brings (reader : Reader.Config) (good : Value → Prop) : Request → Prop
  | run text | read text => ∀ v, Reader.readOne reader text = .ok v → good v
  | runAll text => ∀ vs, Reader.readAll reader text = .ok vs → ∀ v ∈ vs, good v
  | evaluate e => good e
  | bindings | query _ | config | save | restore => True

theorem Request.brings_true (request : Request) (reader : Reader.Config) :
    request.Brings reader fun _ => True := by
  cases request <;> simp [Brings]

def Failure.Shows (good : Value → Prop) : Failure → Prop
  | reading _ => True
  | evaluation fault => fault.Shows good

/-- All values in a reply are of some kind. -/
def Reply.Holds (good : Value → Prop) : Reply → Prop
  | value (.ok v) => good v
  | values (.ok vs) => ∀ v ∈ vs, good v
  | value (.error failure) | values (.error failure) => failure.Shows good
  | bindings entries => ∀ b ∈ entries, good b.2
  | binding _ v f => (∀ w ∈ v, good w) ∧ ∀ g ∈ f, good g.toForm
  | config _ | saved | restored => True

/-- An interpreter reads texts in some way, and all values in its environment are of some kind. -/
structure Interpreter.Holds (reader : Reader.Config) (good : Value → Prop) (i : Interpreter) :
    Prop where
  reader : i.reader = reader
  environment : i.environment.Holds good

/-- Both interpreters of a session hold values of some kind. -/
structure Session.Holds (reader : Reader.Config) (good : Value → Prop) (s : Session) : Prop where
  current : s.current.Holds reader good
  kept : s.kept.Holds reader good

theorem Session.holds_start (reader : Reader.Config) (config : Environment.Config) :
    (start (.fresh reader config)).Holds reader good :=
  ⟨⟨rfl, Environment.holds_fresh config⟩, ⟨rfl, Environment.holds_fresh config⟩⟩

/-! ## What turns pass on -/

/-- All values that a turn starts with are of some kind. -/
def StartsWith (good : Value → Prop) (turn : Value × Environment) : Prop :=
  good turn.1 ∧ turn.2.Holds good

/-- A turn that starts with values of some kind leaves such values behind. -/
def PassesOn (good : Value → Prop) (turn : Value × Environment) : Prop :=
  Evaluation.Passes good turn.1 turn.2 ((Evaluation.evaluateAt 0 turn.1).outcome turn.2)

/-- What is inherited is passed on in every turn. -/
theorem Value.Inherited.passesOn (h : Value.Inherited good) (turn : Value × Environment) :
    PassesOn good turn := fun he hholds =>
  Evaluation.content_evaluateAt h (Environment.keeps_true good) hholds trivial he 0

namespace Interpreter.Holds

variable {i : Interpreter} (hi : i.Holds reader good)
include hi

theorem evaluate {e : Value} (he : good e) (hpasses : PassesOn good (e, i.environment)) :
    (Reply.value ((i.evaluate e).1.mapError .evaluation)).Holds good ∧
      (i.evaluate e).2.Holds reader good := by
  have hleaves := hpasses he hi.environment
  unfold Interpreter.evaluate
  generalize (Evaluation.evaluateAt 0 e).outcome i.environment = outcome at *
  obtain ⟨result, after⟩ := outcome
  refine ⟨?_, hi.reader, hleaves.holds⟩
  cases result with
  | ok v => exact hleaves.result v rfl
  | error fault => exact hleaves.fault fault rfl

theorem evaluateEach {es : List Value} (hes : ∀ e ∈ es, good e)
    (hpasses : ∀ turn ∈ i.turns es, PassesOn good turn) :
    (Reply.values ((i.evaluateEach es).1.mapError .evaluation)).Holds good ∧
      (i.evaluateEach es).2.Holds reader good ∧ ∀ turn ∈ i.turns es, StartsWith good turn := by
  induction es generalizing i with
  | nil => exact ⟨fun v hv => (nomatch hv), hi, fun turn hturn => (nomatch hturn)⟩
  | cons e es ih =>
    obtain ⟨he, hes⟩ := List.forall_mem_cons.mp hes
    obtain ⟨hfirst, hpasses⟩ := List.forall_mem_cons.mp hpasses
    obtain ⟨hreply, hnext⟩ := hi.evaluate he hfirst
    have hstarts : StartsWith good (e, i.environment) := ⟨he, hi.environment⟩
    rw [evaluateEach_cons, turns]
    generalize i.evaluate e = outcome at *
    obtain ⟨fault | v, next⟩ := outcome
    · exact ⟨hreply, hnext, List.forall_mem_singleton.mpr hstarts⟩
    · obtain ⟨hreplies, hlast, hturns⟩ := ih hnext hes hpasses
      refine ⟨?_, hlast, List.forall_mem_cons.mpr ⟨hstarts, hturns⟩⟩
      dsimp only
      cases hrest : (next.evaluateEach es).1 with
      | error fault =>
        rw [hrest] at hreplies
        exact hreplies
      | ok vs =>
        rw [hrest] at hreplies
        have hvalues : ∀ w ∈ v :: vs, good w := List.forall_mem_cons.mpr ⟨hreply, hreplies⟩
        exact hvalues

theorem run {text : String} (hbrings : (Request.run text).Brings reader good)
    (hpasses : ∀ turn ∈ i.turns ((Request.run text).expressions reader), PassesOn good turn) :
    (Reply.value (i.run text).1).Holds good ∧ (i.run text).2.Holds reader good := by
  unfold Interpreter.run Interpreter.read
  rw [hi.reader]
  rw [Request.expressions] at hpasses
  cases hread : Reader.readOne reader text with
  | error e => exact ⟨trivial, hi⟩
  | ok e =>
    rw [hread] at hpasses
    exact hi.evaluate (hbrings e hread) (hpasses _ (.head _))

theorem runAll {text : String} (hbrings : (Request.runAll text).Brings reader good)
    (hpasses : ∀ turn ∈ i.turns ((Request.runAll text).expressions reader), PassesOn good turn) :
    (Reply.values (i.runAll text).1).Holds good ∧ (i.runAll text).2.Holds reader good := by
  unfold Interpreter.runAll
  rw [hi.reader]
  rw [Request.expressions] at hpasses
  cases hread : Reader.readAll reader text with
  | error e => exact ⟨trivial, hi⟩
  | ok es =>
    rw [hread] at hpasses
    obtain ⟨hreplies, hnext, -⟩ := hi.evaluateEach (hbrings es hread) hpasses
    exact ⟨hreplies, hnext⟩

end Interpreter.Holds

theorem Request.Brings.expressions {request : Request} (h : request.Brings reader good) :
    ∀ e ∈ request.expressions reader, good e := by
  cases request with
  | run text =>
    intro e he
    refine h e ?_
    cases hread : Reader.readOne reader text with
    | ok v =>
      obtain rfl : e = v := by simpa [Request.expressions, hread, Except.toOption] using he
      rfl
    | error fault => simp [Request.expressions, hread, Except.toOption] at he
  | runAll text =>
    intro e he
    cases hread : Reader.readAll reader text with
    | ok vs => exact h vs hread e (by simpa [Request.expressions, hread, Except.toOption] using he)
    | error fault => simp [Request.expressions, hread, Except.toOption] at he
  | evaluate e => exact List.forall_mem_singleton.mpr h
  | read text | bindings | query name | config | save | restore => exact fun e he => nomatch he

namespace Session

variable {s : Session}

/-- A request passes on what its turns pass on. -/
theorem Holds.handle (hs : s.Holds reader good) {request : Request}
    (hbrings : request.Brings reader good)
    (hpasses : ∀ turn ∈ s.current.turns (request.expressions reader), PassesOn good turn) :
    (s.handle request).1.Holds good ∧ (s.handle request).2.Holds reader good ∧
      ∀ turn ∈ s.current.turns (request.expressions reader), StartsWith good turn := by
  obtain ⟨hcurrent, hkept⟩ := hs
  obtain ⟨-, -, hturns⟩ := hcurrent.evaluateEach hbrings.expressions hpasses
  cases request with
  | run text =>
    obtain ⟨hreply, hnext⟩ := hcurrent.run hbrings hpasses
    exact ⟨hreply, ⟨hnext, hkept⟩, hturns⟩
  | runAll text =>
    obtain ⟨hreply, hnext⟩ := hcurrent.runAll hbrings hpasses
    exact ⟨hreply, ⟨hnext, hkept⟩, hturns⟩
  | read text =>
    refine ⟨?_, ⟨hcurrent, hkept⟩, hturns⟩
    simp only [Session.handle, Interpreter.read, hcurrent.reader]
    cases hread : Reader.readOne reader text with
    | error e => trivial
    | ok v => exact hbrings v hread
  | evaluate e =>
    obtain ⟨hreply, hnext⟩ := hcurrent.evaluate hbrings (hpasses _ (.head _))
    exact ⟨hreply, ⟨hnext, hkept⟩, hturns⟩
  | bindings =>
    exact ⟨fun b hb => hcurrent.environment.bindings hb, ⟨hcurrent, hkept⟩, hturns⟩
  | query name =>
    refine ⟨⟨fun v hv => ?_, fun f hf => ?_⟩, ⟨hcurrent, hkept⟩, hturns⟩
    · exact hcurrent.environment.values name v hv
    · exact hcurrent.environment.functions name f hf
  | config => exact ⟨trivial, ⟨hcurrent, hkept⟩, hturns⟩
  | save => exact ⟨trivial, ⟨hcurrent, hcurrent⟩, hturns⟩
  | restore => exact ⟨trivial, ⟨hkept, hkept⟩, hturns⟩

/-- What all turns of a session pass on holds of everything that the session comes across, if it
holds of all values that the requests bring. -/
theorem Holds.handleAll (hs : s.Holds reader good) {requests : List Request}
    (hbrings : ∀ request ∈ requests, request.Brings reader good)
    (hpasses : ∀ turn ∈ s.turns requests, PassesOn good turn) :
    (∀ reply ∈ (s.handleAll requests).1, reply.Holds good) ∧
      (s.handleAll requests).2.Holds reader good ∧
      ∀ turn ∈ s.turns requests, StartsWith good turn := by
  induction requests generalizing s with
  | nil => exact ⟨fun reply hreply => (nomatch hreply), hs, fun turn hturn => (nomatch hturn)⟩
  | cons request rest ih =>
    obtain ⟨hfirst, hrest⟩ := List.forall_mem_cons.mp hbrings
    rw [turns, hs.current.reader] at hpasses ⊢
    obtain ⟨hpasses, hpasses'⟩ := List.forall_mem_append.mp hpasses
    obtain ⟨hreply, hnext, hturns⟩ := hs.handle hfirst hpasses
    obtain ⟨hreplies, hlast, hturns'⟩ := ih hnext hrest hpasses'
    exact ⟨List.forall_mem_cons.mpr ⟨hreply, hreplies⟩, hlast,
      List.forall_mem_append.mpr ⟨hturns, hturns'⟩⟩

section

variable (h : Value.Inherited good) (hs : s.Holds reader good) {requests : List Request}
variable (hbrings : ∀ request ∈ requests, request.Brings reader good)
include h hs hbrings

/-- **What is inherited holds of everything that a session comes across**, if it holds of all values
that the requests bring. -/
theorem content_handleAll : (∀ reply ∈ (s.handleAll requests).1, reply.Holds good) ∧
    (s.handleAll requests).2.Holds reader good := by
  obtain ⟨hreplies, hlast, -⟩ := hs.handleAll hbrings fun turn _ => h.passesOn turn
  exact ⟨hreplies, hlast⟩

theorem Holds.turns : ∀ turn ∈ s.turns requests, good turn.1 ∧ turn.2.Holds good :=
  (hs.handleAll hbrings fun turn _ => h.passesOn turn).2.2

end

end Session

end SmallScheme
