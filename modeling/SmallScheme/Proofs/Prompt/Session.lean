import SmallScheme.Proofs.Prompt.Course

/-!
# Sessions at the prompt

The laws of a whole session, from its input to its transcript (`transcript_of_session`). They leave
no line out, and they tell a session that is printed to its end from one that breaks off. That there
are sessions of the second kind is shown by `no_farewell_after_power`: a power of a literal has no text,
and a function that holds it cannot be called by its form.
-/

namespace SmallScheme

namespace Prompt

/-- The lines of an input that are heard, each with the interpreter that hears it. -/
def heard (files : Files) (input : String) : List (Interpreter × List Char) :=
  hearings files initial (Text.lines input.toList)

/-- What the lines heard have printed, one after the other. -/
def outputs (files : Files) (heard : List (Interpreter × List Char)) : List Char :=
  (heard.map fun h => (ownOutput files h.1 h.2).text).flatten

variable {files : Files} {input : String}

theorem transcript_eq (files : Files) (input : String) :
    transcript files input = .lines banner
      ++ (.concat ((heard files input).map fun h => ownOutput files h.1 h.2)
        ++ .lines [farewell]) :=
  congrArg (Printed.lines banner ++ ·) (converse_eq ..)

theorem transcript_of_complete (h : ∀ g ∈ heard files input, ¬BreaksOff files g.1 g.2) :
    transcript files input = ⟨(Printed.lines banner).text ++ outputs files (heard files input)
      ++ (farewell ++ "\n").toList, true⟩ := by
  have hcomplete : ∀ p ∈ (heard files input).map fun h => ownOutput files h.1 h.2,
      p.complete = true := by
    intro p hp
    obtain ⟨g, hg, rfl⟩ := List.mem_map.mp hp
    simpa using mt breaksOff_iff.mpr (h g hg)
  rw [transcript_eq, Printed.append_of_complete (Printed.complete_lines _),
    Printed.text_concat_append hcomplete, List.map_map, List.append_assoc]
  rfl

theorem transcript_of_breaksOff {front back : List (Interpreter × List Char)}
    {h : Interpreter × List Char} (hheard : heard files input = front ++ h :: back)
    (hfront : ∀ g ∈ front, ¬BreaksOff files g.1 g.2) (hbreaks : BreaksOff files h.1 h.2) :
    transcript files input = ⟨(Printed.lines banner).text ++ outputs files front
      ++ (ownOutput files h.1 h.2).text, false⟩ := by
  have hcomplete : ∀ p ∈ front.map fun h => ownOutput files h.1 h.2, p.complete = true := by
    intro p hp
    obtain ⟨g, hg, rfl⟩ := List.mem_map.mp hp
    simpa using mt breaksOff_iff.mpr (hfront g hg)
  rw [transcript_eq, Printed.append_of_complete (Printed.complete_lines _), hheard, List.map_append,
    List.map_cons, Printed.concat_append_of_broken hcomplete (breaksOff_iff.mp hbreaks),
    List.map_map, List.append_assoc]
  rfl

/-- The lines before the first that breaks off, if there is one. -/
theorem exists_first_breaksOff (files : Files) (heard : List (Interpreter × List Char)) :
    (∀ g ∈ heard, ¬BreaksOff files g.1 g.2) ∨
      ∃ front h back, heard = front ++ h :: back ∧ (∀ g ∈ front, ¬BreaksOff files g.1 g.2)
        ∧ BreaksOff files h.1 h.2 := by
  induction heard with
  | nil => exact .inl (by simp)
  | cons h heard ih =>
      by_cases hbreaks : BreaksOff files h.1 h.2
      · exact .inr ⟨[], h, heard, rfl, by simp, hbreaks⟩
      rcases ih with hall | ⟨front, g, back, rfl, hfront, hg⟩
      · exact .inl (List.forall_mem_cons.mpr ⟨hbreaks, hall⟩)
      · exact .inr ⟨h :: front, g, back, rfl, List.forall_mem_cons.mpr ⟨hbreaks, hfront⟩, hg⟩

/-- **A session prints what its lines print, and lines that evaluate nothing leave no trace.** Each
line asks for one command. If no line breaks off, the transcript is the banner, the outputs of the
lines up to the first one that quits, each from the interpreter that the lines before it have left,
and the farewell. Otherwise it ends with the first line that breaks off. Without a traceless line,
the same interpreters hear all other lines. What follows a line that quits does not matter. -/
theorem transcript_of_session (files : Files) (input : String) :
    (∀ line command, Command.ofTyped? line = some command ↔
      ∃ typed, Typing.typed? line = some typed ∧ Command.Asks (Text.trim typed) command) ∧
    (((∀ g ∈ heard files input, ¬BreaksOff files g.1 g.2)
        ∧ (transcript files input).text = (Printed.lines banner).text
          ++ outputs files (heard files input) ++ (farewell ++ "\n").toList
        ∧ (transcript files input).status = 0) ∨
      ∃ front h back, heard files input = front ++ h :: back
        ∧ (∀ g ∈ front, ¬BreaksOff files g.1 g.2) ∧ BreaksOff files h.1 h.2
        ∧ (transcript files input).text = (Printed.lines banner).text
          ++ outputs files front ++ (ownOutput files h.1 h.2).text
        ∧ (transcript files input).status = 101) ∧
    (∀ input' before line after, Text.lines input.toList = before ++ line :: after →
      Text.lines input'.toList = before ++ after → Traceless files line →
      heard files input' = (heard files input).eraseIdx before.length) ∧
    ∀ input' before line after after', Text.lines input.toList = before ++ line :: after →
      Text.lines input'.toList = before ++ line :: after' →
      Command.ofTyped? line = some .quit → transcript files input' = transcript files input := by
  refine ⟨fun line command => Command.ofTyped?_eq_some_iff, ?_,
    fun input' before line after hlines hlines' hline => ?_,
    fun input' before line after after' hlines hlines' hquit => ?_⟩
  · rcases exists_first_breaksOff files (heard files input) with
      hall | ⟨front, h, back, hheard, hfront, hbreaks⟩
    · refine .inl ⟨hall, ?_⟩
      rw [transcript_of_complete hall]
      exact ⟨rfl, rfl⟩
    · refine .inr ⟨front, h, back, hheard, hfront, hbreaks, ?_⟩
      rw [transcript_of_breaksOff hheard hfront hbreaks]
      exact ⟨rfl, rfl⟩
  · rw [heard, heard, hlines, hlines']
    exact hearings_eraseIdx hline rfl
  · rw [transcript_eq, transcript_eq, heard, heard, hlines, hlines', hearings_of_quit hquit,
      hearings_of_quit hquit]

/-- A session with a file that cannot be read to its end, and with lines behind the one that quits.
-/
theorem transcript_of_session_load :
    let files : Files := fun path => if path = "a" then .ok "(define x 2) (" else .error "missing"
    let input := "(define x 1)\n:load a\nx\nquit\nx"
    Text.lines input.toList = ["(define x 1)".toList] ++ ":load a".toList
        :: ["x".toList, "quit".toList, "x".toList] ∧
      Traceless files ":load a".toList ∧
      heard files "(define x 1)\nx\nquit\nx" = (heard files input).eraseIdx 1 ∧
      Command.ofTyped? "quit".toList = some .quit ∧
      transcript files "(define x 1)\n:load a\nx\nquit\n(" = transcript files input := by
  intro files input
  have hlines : Text.lines input.toList = ["(define x 1)".toList] ++ ":load a".toList
      :: ["x".toList, "quit".toList, "x".toList] := by decide +kernel
  have hload : Traceless files ":load a".toList := by
    have hread : (Reader.readAll ⟨true, 128⟩ "(define x 2) (").toOption = none := by decide +kernel
    have hasks : Command.ofTyped? ":load a".toList = some (.load "a") := by decide +kernel
    cases h : Reader.readAll ⟨true, 128⟩ "(define x 2) (" with
    | ok vs => simp [h, Except.toOption] at hread
    | error e => exact .file hasks rfl h
  have hquit : Command.ofTyped? "quit".toList = some .quit := by decide +kernel
  obtain ⟨-, -, herase, hsame⟩ := transcript_of_session files input
  exact ⟨hlines, hload, herase _ _ _ _ hlines (by decide +kernel) hload, hquit,
    hsame _ ["(define x 1)".toList, ":load a".toList, "x".toList] _ ["x".toList] ["(".toList] hlines
      (by decide +kernel) hquit⟩

/-- **Not every session says goodbye.** The third line calls a function by its form, in which a
power of a literal stands that has no text. -/
theorem no_farewell_after_power :
    ¬∀ (files : Files) (input : String),
      (farewell ++ "\n").toList <:+ (transcript files input).text := by
  intro hall
  have hsession := hall (fun _ => .error "missing")
    ("(define p (lambda (x) (* x x x x x x x x x x x x x x x x)))\n"
      ++ "(car (list 0 (define b (p (p (p (p (p 1.0e4096))))))))\n"
      ++ "((list (quote lambda) (quote (y)) (list (quote if) #t 1 b)) 0)\n")
  revert hsession
  decide +kernel

end Prompt

end SmallScheme
