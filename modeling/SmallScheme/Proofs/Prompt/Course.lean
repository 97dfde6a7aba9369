import SmallScheme.Prompt.Transcript
import SmallScheme.Proofs.Prompt.Command

/-!
# The course of a session at the prompt

The prompt hears the lines of its input in order, up to the first one that quits. Each of them has an
output of its own (`ownOutput`), and only two kinds change the interpreter for the lines behind
them: an expression does what it evaluates, and loading a file does what the file evaluates
(`next`). `hearings` lists the lines that are heard, each with the interpreter that hears it.

A transcript is made of the outputs of these lines between the banner and the farewell
(`converse_eq`), as long as all of them can be printed. A line that breaks off (`BreaksOff`) ends the
transcript with what it has printed so far.

A line is traceless if nothing is evaluated for it (`Traceless`): such a line is no command, a
command that only prints, an expression that cannot be read, or a file that cannot be had or cannot
be read to its end. Without the line, all other lines are heard by the same interpreters
(`hearings_eraseIdx`).
-/

namespace SmallScheme

namespace Prompt

/-! ## Printing in order -/

namespace Printed

variable {a p : Printed} {ps front back : List Printed}

theorem append_of_complete (h : a.complete = true) (b : Printed) :
    a ++ b = ⟨a.text ++ b.text, b.complete⟩ :=
  if_pos h

theorem append_of_broken (h : a.complete = false) (b : Printed) : a ++ b = a :=
  if_neg (by simp [h])

theorem complete_append (a b : Printed) : (a ++ b).complete = (a.complete && b.complete) := by
  cases h : a.complete with
  | true => simp [append_of_complete h]
  | false => simp [append_of_broken h, h]

theorem nothing_append (b : Printed) : nothing ++ b = b := rfl

theorem append_nothing (a : Printed) : a ++ nothing = a := by
  obtain ⟨text, complete⟩ := a
  cases complete with
  | true => rw [append_of_complete rfl, nothing, List.append_nil]
  | false => exact append_of_broken rfl _

theorem append_assoc (a b c : Printed) : a ++ b ++ c = a ++ (b ++ c) := by
  cases ha : a.complete with
  | false => rw [append_of_broken ha, append_of_broken ha, append_of_broken ha]
  | true =>
      rw [append_of_complete ha, append_of_complete ha]
      cases hb : b.complete with
      | false => rw [append_of_broken hb, append_of_broken rfl, hb]
      | true => rw [append_of_complete hb, append_of_complete rfl, List.append_assoc]

theorem complete_concat (ps : List Printed) : (concat ps).complete = ps.all (·.complete) := by
  induction ps with
  | nil => rfl
  | cons p ps ih => rw [concat, complete_append, ih, List.all_cons]

/-- What is complete throughout is printed in full. -/
theorem text_concat_append (h : ∀ p ∈ ps, p.complete = true) (b : Printed) :
    concat ps ++ b = ⟨(ps.map (·.text)).flatten ++ b.text, b.complete⟩ := by
  induction ps with
  | nil => rfl
  | cons p ps ih =>
      have hp := h p List.mem_cons_self
      rw [concat, append_assoc, append_of_complete hp, ih fun q hq => h q (List.mem_cons_of_mem _ hq)]
      simp

/-- Nothing is printed behind what breaks off. -/
theorem concat_append_of_broken (h : ∀ q ∈ front, q.complete = true) (hp : p.complete = false)
    (b : Printed) :
    concat (front ++ p :: back) ++ b = ⟨(front.map (·.text)).flatten ++ p.text, false⟩ := by
  induction front with
  | nil =>
      rw [List.nil_append, concat, append_assoc, append_of_broken hp, ← hp]
      rfl
  | cons q front ih =>
      have hq := h q List.mem_cons_self
      rw [List.cons_append, concat, append_assoc, append_of_complete hq,
        ih fun r hr => h r (List.mem_cons_of_mem _ hr)]
      simp

theorem complete_lines (texts : List String) : (lines texts).complete = true := by
  simp [lines, complete_concat, line]

end Printed

/-! ## Lines and interpreters -/

/-- The interpreter behind a line. -/
def next (files : Files) (i : Interpreter) (line : List Char) : Interpreter :=
  match Command.ofTyped? line with
  | some (.expression text) => (i.run text).2
  | some (.load path) =>
    if path = "" then i
    else (files path).toOption.elim i fun source => (i.runAll source).2
  | _ => i

/-- The lines up to the one that quits, each with the interpreter that hears it. -/
def hearings (files : Files) (i : Interpreter) :
    List (List Char) → List (Interpreter × List Char)
  | [] => []
  | line :: rest =>
    if Command.ofTyped? line = some .quit then []
    else (i, line) :: hearings files (next files i line) rest

/-- What a line prints when an interpreter hears it. -/
def ownOutput (files : Files) (i : Interpreter) (line : List Char) : Printed :=
  match Command.ofTyped? line with
  | some command => (perform files i command).1
  | none => .broken []

variable {files : Files} {i : Interpreter} {line : List Char}

theorem perform_eq {command : Command} (h : Command.ofTyped? line = some command) :
    perform files i command = (ownOutput files i line, next files i line) := by
  simp only [ownOutput, next, h, Prod.ext_iff, true_and]
  cases command with
  | expression text =>
      simp only [perform]
      split
      · rename_i hrun
        rw [hrun]
      · rename_i hrun
        rw [hrun]
  | load path =>
      simp only [perform, load]
      split
      · rfl
      · cases files path with
        | error reason => rfl
        | ok source =>
            simp only [Except.toOption, Option.elim_some]
            split
            · rename_i hrun
              rw [hrun]
            · rename_i hrun
              rw [hrun]
  | blank | quit | help | environment => rfl

/-- What is said behind the banner. -/
theorem converse_eq (files : Files) (i : Interpreter) (lines : List (List Char)) :
    converse files i lines
      = .concat ((hearings files i lines).map fun h => ownOutput files h.1 h.2)
        ++ .lines [farewell] := by
  induction lines generalizing i with
  | nil => rfl
  | cons line rest ih =>
      simp only [converse, hearings]
      split
      · rename_i hline
        simp [Printed.concat, ownOutput, hline, Printed.append_of_broken, Printed.broken]
      · rename_i hline
        simp [hline, Printed.concat, Printed.nothing_append]
      · rename_i command hquit hline
        have hne : Command.ofTyped? line ≠ some .quit := by simpa [hline] using hquit
        rw [perform_eq hline, if_neg hne, ih, List.map_cons, Printed.concat, Printed.append_assoc]

/-! ## Lines that break off -/

/-- The result of what a line evaluates, if it evaluates anything. -/
def answer? (files : Files) (i : Interpreter) (line : List Char) :
    Option (Except Failure (List Value)) :=
  match Command.ofTyped? line with
  | some (.expression text) => some ((i.run text).1.map ([·]))
  | some (.load path) =>
    if path = "" then none
    else (files path).toOption.map fun source => (i.runAll source).1
  | _ => none

/-- A line cannot be printed to its end: its backspaces end within a character, or a value or a
fault that it shows has no text. -/
inductive BreaksOff (files : Files) (i : Interpreter) (line : List Char) : Prop where
  | unread (h : Typing.typed? line = none)
  | value {vs : List Value} {v : Value} (hanswer : answer? files i line = some (.ok vs))
      (hv : v ∈ vs) (hnone : v.text? = none)
  | fault {fault : Fault} (hanswer : answer? files i line = some (.error (.evaluation fault)))
      (hnone : fault.message? = none)
  | binding {b : String × Value} (h : Command.ofTyped? line = some .environment)
      (hb : b ∈ i.environment.bindings) (hnone : b.2.text? = none)

theorem complete_showBehind (lead : String) (v : Value) :
    (showBehind lead v).complete = v.text?.isSome := by
  cases h : v.text? with
  | none => simp [showBehind, h, Printed.broken]
  | some text => simp [showBehind, h, Printed.line]

theorem complete_showFailure (f : Failure) :
    (showFailure f).complete = (report? f).isSome := by
  cases h : report? f with
  | none => simp [showFailure, h, Printed.broken]
  | some report => simp [showFailure, h, Printed.line]

theorem complete_showGroup (title : String) (bindings : List (String × Value)) :
    (showGroup title bindings).complete = bindings.all (·.2.text?.isSome) := by
  cases bindings with
  | nil => rfl
  | cons b bindings =>
      simp [showGroup, Printed.complete_append, Printed.complete_lines, Printed.complete_concat,
        showBinding, complete_showBehind, Function.comp_def]

theorem complete_showEnvironment (env : Environment) :
    (showEnvironment env).complete = env.bindings.all (·.2.text?.isSome) := by
  simp only [showEnvironment]
  split
  · rename_i hempty
    rw [List.isEmpty_iff] at hempty
    simp [hempty, Printed.complete_lines]
  · simp only [Printed.complete_append, complete_showGroup, List.partition_eq_filter_filter]
    rw [Bool.eq_iff_iff]
    simp only [Bool.and_eq_true, List.all_eq_true, List.mem_filter]
    constructor
    · rintro ⟨hvalues, hfunctions⟩ b hb
      by_cases hf : (env.functions.get? b.1).isSome = true
      · exact hfunctions b ⟨hb, hf⟩
      · exact hvalues b ⟨hb, by simpa using hf⟩
    · exact fun h => ⟨fun b hb => h b hb.1, fun b hb => h b hb.1⟩

/-- How an answer is shown. -/
def showAnswer : Except Failure (List Value) → Printed
  | .ok vs => .concat (vs.map showValue)
  | .error failure => showFailure failure

theorem complete_showAnswer_eq_false_iff {answer : Except Failure (List Value)} :
    (showAnswer answer).complete = false ↔
      (∃ vs, answer = .ok vs ∧ ∃ v ∈ vs, v.text? = none) ∨
        ∃ fault, answer = .error (.evaluation fault) ∧ fault.message? = none := by
  cases answer with
  | ok vs => simp [showAnswer, Printed.complete_concat, showValue, complete_showBehind]
  | error failure =>
      cases failure with
      | reading e => simp [showAnswer, complete_showFailure, report?]
      | evaluation fault => simp [showAnswer, complete_showFailure, report?]

/-- A line that evaluates something prints its answer. -/
theorem ownOutput_eq_showAnswer {answer : Except Failure (List Value)}
    (h : answer? files i line = some answer) : ownOutput files i line = showAnswer answer := by
  simp only [answer?] at h
  split at h
  · rename_i text hline
    obtain rfl := Option.some.inj h
    simp only [ownOutput, hline, perform]
    split
    · rename_i v after hrun
      simp [hrun, Except.map, showAnswer, Printed.concat, Printed.append_nothing]
    · rename_i failure after hrun
      simp [hrun, Except.map, showAnswer]
  · rename_i path hline
    split at h
    · cases h
    · rename_i hpath
      cases hfile : files path with
      | error reason => simp [hfile, Except.toOption] at h
      | ok source =>
          obtain rfl : (i.runAll source).1 = answer := by simpa [hfile, Except.toOption] using h
          simp only [ownOutput, hline, perform, load, if_neg hpath, hfile]
          split
          · rename_i hrun
            simp [hrun, showAnswer]
          · rename_i hrun
            simp [hrun, showAnswer]
  · cases h

/-- A line that evaluates nothing prints fixed texts, or the bindings. -/
theorem complete_ownOutput {command : Command} (h : Command.ofTyped? line = some command)
    (hanswer : answer? files i line = none) (henvironment : command ≠ .environment) :
    (ownOutput files i line).complete = true := by
  simp only [answer?, h] at hanswer
  simp only [ownOutput, h]
  cases command with
  | blank | quit => rfl
  | help => exact Printed.complete_lines _
  | environment => exact absurd rfl henvironment
  | expression text => cases hanswer
  | load path =>
      simp only [perform, load]
      split
      · exact Printed.complete_lines _
      · rename_i hpath
        cases hfile : files path with
        | error reason => exact Printed.complete_lines _
        | ok source => simp [hpath, hfile, Except.toOption] at hanswer

theorem breaksOff_iff : BreaksOff files i line ↔ (ownOutput files i line).complete = false := by
  constructor
  · intro h
    cases h with
    | unread h => simp [ownOutput, Command.ofTyped?, h, Printed.broken]
    | value hanswer hv hnone =>
        rw [ownOutput_eq_showAnswer hanswer, complete_showAnswer_eq_false_iff]
        exact .inl ⟨_, rfl, _, hv, hnone⟩
    | fault hanswer hnone =>
        rw [ownOutput_eq_showAnswer hanswer, complete_showAnswer_eq_false_iff]
        exact .inr ⟨_, rfl, hnone⟩
    | @binding b h hb hnone =>
        rw [Bool.eq_false_iff]
        intro hcomplete
        simp only [ownOutput, h, perform, complete_showEnvironment, List.all_eq_true] at hcomplete
        simpa [hnone] using hcomplete b hb
  · intro hbroken
    cases hline : Command.ofTyped? line with
    | none => exact .unread (by simpa [Command.ofTyped?] using hline)
    | some command =>
        cases hanswer : answer? files i line with
        | some answer =>
            rw [ownOutput_eq_showAnswer hanswer, complete_showAnswer_eq_false_iff] at hbroken
            rcases hbroken with ⟨vs, rfl, v, hv, hnone⟩ | ⟨fault, rfl, hnone⟩
            · exact .value hanswer hv hnone
            · exact .fault hanswer hnone
        | none =>
            by_cases henvironment : command = .environment
            · subst henvironment
              simp only [ownOutput, hline, perform, complete_showEnvironment,
                List.all_eq_false] at hbroken
              obtain ⟨b, hb, hnone⟩ := hbroken
              exact .binding hline hb (by simpa using hnone)
            · simp [complete_ownOutput hline hanswer henvironment] at hbroken

/-! ## Lines without a trace -/

/-- Nothing is evaluated for a line. -/
inductive Traceless (files : Files) (line : List Char) : Prop where
  | silent {command : Command} (h : Command.ofTyped? line = some command)
      (hcommand : command ∈ [.blank, .help, .environment]) : Traceless files line
  | expression {text : String} {e : ReadError}
      (h : Command.ofTyped? line = some (.expression text))
      (hread : Reader.readOne ⟨true, 128⟩ text = .error e) : Traceless files line
  | noPath (h : Command.ofTyped? line = some (.load "")) : Traceless files line
  | noFile {path reason : String} (h : Command.ofTyped? line = some (.load path))
      (hfile : files path = .error reason) : Traceless files line
  | file {path source : String} {e : ReadError} (h : Command.ofTyped? line = some (.load path))
      (hfile : files path = .ok source)
      (hread : Reader.readAll ⟨true, 128⟩ source = .error e) : Traceless files line

theorem Traceless.not_quit (h : Traceless files line) : Command.ofTyped? line ≠ some .quit := by
  cases h with
  | silent h hcommand =>
      rintro hquit
      obtain rfl := Option.some.inj (h.symm.trans hquit)
      simp at hcommand
  | expression h hread => simp [h]
  | noPath h => simp [h]
  | noFile h hfile => simp [h]
  | file h hfile hread => simp [h]

theorem Traceless.next_eq (h : Traceless files line) (hreader : i.reader = ⟨true, 128⟩) :
    next files i line = i := by
  cases h with
  | silent h hcommand =>
      simp only [List.mem_cons, List.not_mem_nil, or_false] at hcommand
      rcases hcommand with rfl | rfl | rfl
      all_goals simp only [next, h]
  | expression h hread => simp [next, h, Interpreter.run, Interpreter.read, hreader, hread]
  | noPath h => simp [next, h]
  | noFile h hfile => simp [next, h, hfile, Except.toOption]
  | file h hfile hread =>
      simp [next, h, hfile, Except.toOption, Interpreter.runAll, hreader, hread]

theorem reader_run (i : Interpreter) (text : String) : (i.run text).2.reader = i.reader := by
  simp only [Interpreter.run]
  split <;> rfl

theorem reader_runAll (i : Interpreter) (text : String) : (i.runAll text).2.reader = i.reader := by
  simp only [Interpreter.runAll]
  split <;> rfl

theorem reader_next (files : Files) (i : Interpreter) (line : List Char) :
    (next files i line).reader = i.reader := by
  simp only [next]
  split
  · exact reader_run i _
  · split
    · rfl
    · cases (files _).toOption with
      | none => rfl
      | some source => exact reader_runAll i source
  · rfl

/-- Without a traceless line the others are heard as with it. -/
theorem hearings_eraseIdx {before after : List (List Char)} (h : Traceless files line)
    (hreader : i.reader = ⟨true, 128⟩) :
    hearings files i (before ++ after)
      = (hearings files i (before ++ line :: after)).eraseIdx before.length := by
  induction before generalizing i with
  | nil => simp [hearings, h.not_quit, h.next_eq hreader]
  | cons first before ih =>
      simp only [List.cons_append, hearings]
      split
      · rfl
      · rw [ih ((reader_next files i first).trans hreader)]
        rfl

/-- Nothing behind a line that quits is heard. -/
theorem hearings_of_quit {before : List (List Char)} (h : Command.ofTyped? line = some .quit)
    (after : List (List Char)) :
    hearings files i (before ++ line :: after) = hearings files i before := by
  induction before generalizing i with
  | nil => simp [hearings, h]
  | cons first before ih => simp only [List.cons_append, hearings, ih]

end Prompt

end SmallScheme
