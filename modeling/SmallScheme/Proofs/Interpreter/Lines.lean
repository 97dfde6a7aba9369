import SmallScheme.Proofs.Interpreter.Turns
import SmallScheme.Proofs.Reader.Increment

/-!
# Texts are evaluated line by line

To evaluate a text of several expressions is to evaluate these expressions in turn, up to the first
that fails (`Interpreter.evaluateEach_eq_inTurn`). Expressions are evaluated in two portions as they
are in one (`Interpreter.evaluateEach_append`), and a text is read in two lines as these are read
alone. So a line behind a text is evaluated as it is evaluated alone, in the interpreter that the
text before it has left.

What sets a text apart from its lines is that it is read as a whole first: when the last line cannot
be read, none of the lines before it is evaluated (`Interpreter.runAll_lines`).
-/

namespace SmallScheme

namespace Interpreter

/-- Evaluates expressions one by one, each in the interpreter that the one before it has left, up to
the first that fails. -/
def inTurn (i : Interpreter) : List Value → Except Fault (List Value) × Interpreter
  | [] => (.ok [], i)
  | e :: rest =>
    match i.evaluate e with
    | (.ok v, next) => ((next.inTurn rest).1.map (v :: ·), (next.inTurn rest).2)
    | (.error fault, next) => (.error fault, next)

/-! ## Expressions in turn -/

/-- Expressions are evaluated up to the first fault as they are evaluated one by one. -/
theorem evaluateEach_eq_inTurn (i : Interpreter) (es : List Value) :
    i.evaluateEach es = i.inTurn es := by
  induction es generalizing i with
  | nil => rfl
  | cons e rest ih =>
    rw [evaluateEach_cons, inTurn]
    rcases i.evaluate e with ⟨_ | v, next⟩
    · rfl
    · simp only [ih next]

/-- Further expressions are evaluated if those before them succeed. -/
theorem evaluateEach_append (i : Interpreter) (es fs : List Value) :
    i.evaluateEach (es ++ fs) = match i.evaluateEach es with
      | (.ok vs, next) => ((next.evaluateEach fs).1.map (vs ++ ·), (next.evaluateEach fs).2)
      | (.error fault, next) => (.error fault, next) := by
  induction es generalizing i with
  | nil =>
    have hnil : i.evaluateEach [] = (.ok [], i) := rfl
    rw [List.nil_append]
    rcases hfs : i.evaluateEach fs with ⟨_ | ws, last⟩ <;> simp [hnil, hfs, Except.map]
  | cons e rest ih =>
    rw [List.cons_append, evaluateEach_cons, evaluateEach_cons]
    rcases i.evaluate e with ⟨_ | v, next⟩
    · rfl
    · simp only [ih next]
      rcases next.evaluateEach rest with ⟨_ | vs, last⟩
      · rfl
      · rcases hfs : last.evaluateEach fs with ⟨_ | ws, final⟩ <;> simp [hfs, Except.map]

/-! ## Texts -/

section

variable {i : Interpreter} {text : String}

theorem runAll_of_readAll {es : List Value} (h : Reader.readAll i.reader text = .ok es) :
    i.runAll text = ((i.evaluateEach es).1.mapError .evaluation, (i.evaluateEach es).2) := by
  simp only [runAll, h]

theorem runAll_of_error {e : ReadError} (h : Reader.readAll i.reader text = .error e) :
    i.runAll text = (.error (.reading e), i) := by
  simp only [runAll, h]

end

section

variable {i : Interpreter} {t u : String} {vs ws : List Value}
variable (ht : Grammar.Compact t.toList) (hu : Grammar.Compact u.toList)
variable (hvs : Reader.readAll i.reader t = .ok vs)
include ht hu hvs

/-- A line that cannot be read keeps the text before it from being evaluated. -/
theorem runAll_line_of_error {e : ReadError} (he : Reader.readAll i.reader u = .error e) :
    ∃ e', i.runAll (t ++ "\n" ++ u) = (.error (.reading e'), i) ∧ e'.kind = e.kind := by
  obtain ⟨e', herror, hcause⟩ := Reader.readAll_line_of_error ht hu hvs he
  exact ⟨e', runAll_of_error herror, congrArg ReadError.Cause.kind hcause⟩

/-- A line that can be read is evaluated behind a text as it is evaluated alone, if the text is
evaluated with results. -/
theorem runAll_line_of_ok (hws : Reader.readAll i.reader u = .ok ws) :
    i.runAll (t ++ "\n" ++ u) = match i.runAll t with
      | (.ok xs, next) => ((next.runAll u).1.map (xs ++ ·), (next.runAll u).2)
      | (.error failure, next) => (.error failure, next) := by
  have hboth := Reader.readAll_line_of_ok ht hu hvs hws
  rw [runAll_of_readAll hboth, runAll_of_readAll hvs, evaluateEach_append]
  rcases hfirst : i.evaluateEach vs with ⟨_ | xs, next⟩
  · rfl
  · -- Evaluation keeps the way in which texts are read, so the line is read by `next` as by `i`.
    have hreader : next.reader = i.reader := (congrArg (·.2.reader) hfirst).symm
    rw [← hreader] at hws
    simp only [Except.mapError, runAll_of_readAll hws]
    rcases next.evaluateEach ws with ⟨_ | ys, last⟩ <;> rfl

end

/-- **Texts are read as a whole and evaluated line by line.** If a text can be read and the line
behind it cannot, both together fail as the line fails, and nothing is evaluated. If both can be
read, a fault in the text is the fault of both, and ends them where it ends the text; and behind a
text without a fault the line is evaluated as it is evaluated alone, in the interpreter that the
text has left, with its results behind those of the text. The expressions of a text are evaluated
one by one, each in the interpreter that the one before it has left, up to the first that fails. -/
theorem runAll_lines (i : Interpreter) :
    (∀ t u : String, Grammar.Compact t.toList → Grammar.Compact u.toList →
      ∀ vs, Reader.readAll i.reader t = .ok vs →
        let both := i.runAll (t ++ "\n" ++ u)
        (∀ e, Reader.readAll i.reader u = .error e →
          ∃ e', both = (.error (.reading e'), i) ∧ e'.kind = e.kind) ∧
        ∀ ws, Reader.readAll i.reader u = .ok ws →
          (∀ failure next, i.runAll t = (.error failure, next) → both = (.error failure, next)) ∧
          ∀ xs next, i.runAll t = (.ok xs, next) →
            both = ((next.runAll u).1.map (xs ++ ·), (next.runAll u).2)) ∧
    ∀ (text : String) (vs : List Value), Reader.readAll i.reader text = .ok vs →
      i.runAll text = ((i.inTurn vs).1.mapError .evaluation, (i.inTurn vs).2) := by
  constructor
  · intro t u ht hu vs hvs both
    refine ⟨fun e he => runAll_line_of_error ht hu hvs he, fun ws hws => ?_⟩
    have hboth := runAll_line_of_ok ht hu hvs hws
    constructor
    · intro failure next hfirst
      rw [hfirst] at hboth
      exact hboth
    · intro xs next hfirst
      rw [hfirst] at hboth
      exact hboth
  · intro text vs hvs
    rw [runAll_of_readAll hvs, evaluateEach_eq_inTurn]

/-- A comment stands before the end of the first line. In the next line a closing parenthesis keeps
the definition from being made, and a fault comes after it. -/
theorem runAll_lines_comment :
    let i : Interpreter := .fresh ⟨true, 128⟩ {}
    let t := "(define x 1) ; one"
    let u := "(car x) x"
    Grammar.Compact t.toList ∧ Grammar.Compact ")".toList ∧ Grammar.Compact u.toList ∧
      (∃ e', i.runAll (t ++ "\n" ++ ")") = (.error (.reading e'), i)) ∧
      ∃ xs next, i.runAll t = (.ok xs, next) ∧
        i.runAll (t ++ "\n" ++ u) = ((next.runAll u).1.map (xs ++ ·), (next.runAll u).2) := by
  intro i t u
  have ht : Grammar.Compact t.toList := by
    rintro c (hc | hc)
    · obtain rfl : '(' = c := by simpa [t] using hc
      decide
    · obtain rfl : 'e' = c := by simpa [t] using hc
      decide
  have hparen : Grammar.Compact ")".toList := by
    intro c hc
    obtain rfl : ')' = c := by simpa using hc
    decide
  have hu : Grammar.Compact u.toList := by
    rintro c (hc | hc)
    · obtain rfl : '(' = c := by simpa [u] using hc
      decide
    · obtain rfl : 'x' = c := by simpa [u] using hc
      decide
  have hvs : Reader.readAll i.reader "(define x 1) ; one"
      = .ok [.list [.symbol "define", .symbol "x", .number (.integer 1)]] := by rfl
  have hws : Reader.readAll i.reader "(car x) x"
      = .ok [.list [.symbol "car", .symbol "x"], .symbol "x"] := by rfl
  obtain ⟨e, he⟩ : ∃ e, Reader.readAll i.reader ")" = .error e := ⟨_, rfl⟩
  obtain ⟨xs, next, hfirst⟩ : ∃ xs next, i.runAll t = (.ok xs, next) := by
    rw [runAll_of_readAll hvs]
    exact ⟨_, _, rfl⟩
  obtain ⟨e', hunread, -⟩ := ((runAll_lines i).1 t ")" ht hparen _ hvs).1 e he
  exact ⟨ht, hparen, hu, ⟨e', hunread⟩, xs, next, hfirst,
    (((runAll_lines i).1 t u ht hu _ hvs).2 _ hws).2 xs next hfirst⟩

end Interpreter

end SmallScheme
