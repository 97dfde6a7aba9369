import SmallScheme.Proofs.Reader.Failure

/-!
# Semicolons before carriage returns

Where comments are skipped, a semicolon between two items begins a comment, with one exception. A
comment runs to the end of its line, and a carriage return ends no line unless a line feed is behind
it. Before such a bare carriage return a semicolon begins no comment, and as it begins no item
either, it is refused.

This is the only way in which a semicolon is refused (`semicolon_refused_iff`), at the top level and
in lists, in a text whose items are all read and where one item is asked for.
-/

namespace SmallScheme

namespace Grammar

variable {limit room : Nat} {t r : List Char} {vs : List Value} {cause : ReadError.Cause}

/-- The line that begins here runs into a carriage return without a line feed. -/
def BareReturn (t : List Char) : Prop :=
  ∃ line u, t = line ++ '\r' :: u ∧ (∀ c ∈ line, c ≠ '\r' ∧ c ≠ '\n') ∧ u.head? ≠ some '\n'

theorem lineEnds_eq_false_iff : Lexeme.lineEnds t = false ↔ BareReturn t := by
  constructor
  · intro h
    fun_induction Lexeme.lineEnds t with
    | case1 => cases h
    | case2 => cases h
    | case3 rest => exact ⟨[], rest, rfl, by simp, by simpa using h⟩
    | case4 c rest hn hr ih =>
        obtain ⟨line, u, rfl, hline, hu⟩ := ih h
        refine ⟨c :: line, u, rfl, fun d hd => ?_, hu⟩
        rcases List.mem_cons.mp hd with rfl | hd
        · exact ⟨hr, hn⟩
        · exact hline d hd
  · rintro ⟨line, u, rfl, hline, hu⟩
    induction line with
    | nil => simpa [Lexeme.lineEnds] using hu
    | cons c line ih =>
        obtain ⟨hr, hn⟩ := hline c List.mem_cons_self
        rw [List.cons_append, Lexeme.lineEnds.eq_4 _ _ hn hr]
        exact ih fun d hd => hline d (List.mem_cons_of_mem _ hd)

theorem refused_semicolon_iff :
    Refused true limit room r (.badCharacter ';') ↔ ∃ t, r = ';' :: t ∧ BareReturn t := by
  have hdigit : (';' : Char).isDigit = false := by decide
  have hletter : Text.isLetter ';' = false := by decide
  constructor
  · intro h
    cases h with
    | @character _ _ t hgap hc hnumber hsymbol =>
        refine ⟨t, rfl, lineEnds_eq_false_iff.mp ?_⟩
        exact Bool.eq_false_iff.mpr fun hends => (noGap_iff.mp hgap).2 ⟨rfl, rfl, hends⟩
  · rintro ⟨t, rfl, hreturn⟩
    refine .character (noGap_iff.mpr ⟨by decide, ?_⟩) (by decide) (by simp [BeginsNumber, hdigit])
      (by simp [BeginsSymbol, hletter])
    rintro ⟨-, -, hends⟩
    cases hends.symm.trans (lineEnds_eq_false_iff.mpr hreturn)

theorem stops_semicolon_iff :
    Stops true limit t vs (.badCharacter ';') r ↔
      ∃ room u, Place true limit t vs room (';' :: u) ∧ BareReturn u ∧ r = ';' :: u := by
  constructor
  · intro h
    cases h with
    | refused hplace h =>
        obtain ⟨u, rfl, hreturn⟩ := refused_semicolon_iff.mp h
        exact ⟨_, u, hplace, hreturn, rfl⟩
  · rintro ⟨room, u, hplace, hreturn, rfl⟩
    exact .refused hplace (refused_semicolon_iff.mpr ⟨u, rfl, hreturn⟩)

theorem stopsOne_semicolon_iff :
    StopsOne true limit t (.badCharacter ';') r ↔
      ∃ vs, Stops true limit t vs (.badCharacter ';') r ∧ vs.length < 2 := by
  constructor
  · intro h
    cases h with
    | stopped h hfew => exact ⟨_, h, hfew⟩
  · rintro ⟨vs, h, hfew⟩
    exact .stopped h hfew

end Grammar

namespace Reader

open Grammar

/-- Only a character that begins no item is an unexpected one. -/
theorem cause_eq_semicolon_iff {e : ReadError} :
    e.kind = .unexpectedCharacter ∧ e.found = some ";" ↔ e.cause = .badCharacter ';' := by
  obtain ⟨cause, offset, context⟩ := e
  cases cause with
  | badCharacter c =>
      simp only [ReadError.kind, ReadError.found, ReadError.Cause.kind, ReadError.Cause.found,
        true_and, Option.some.injEq, ReadError.Cause.badCharacter.injEq]
      exact ⟨fun h => by simpa using congrArg String.toList h, fun h => h ▸ rfl⟩
  | _ => simp [ReadError.kind, ReadError.Cause.kind]

/-- **A semicolon is refused only before a bare carriage return.** Where comments are skipped, a
semicolon is an unexpected character exactly if it stands between two items, and its line runs into
a carriage return that no line feed follows. Where one item is asked for, at most one may stand in
front. -/
theorem semicolon_refused_iff (limit : Nat) (text : String) :
    ((∃ e, readAll ⟨true, limit⟩ text = .error e ∧ e.kind = .unexpectedCharacter
        ∧ e.found = some ";") ↔
      ∃ vs room u, Place true limit (Text.trim text.toList) vs room (';' :: u) ∧ BareReturn u) ∧
    ((∃ e, readOne ⟨true, limit⟩ text = .error e ∧ e.kind = .unexpectedCharacter
        ∧ e.found = some ";") ↔
      ∃ vs room u, Place true limit (Text.trim text.toList) vs room (';' :: u) ∧ BareReturn u
        ∧ vs.length < 2) := by
  simp only [cause_eq_semicolon_iff, readAll_cause_iff, readOne_cause_iff, stopsOne_semicolon_iff,
    stops_semicolon_iff]
  refine ⟨⟨?_, ?_⟩, ?_, ?_⟩
  · rintro ⟨vs, r, room, u, hplace, hreturn, -⟩
    exact ⟨vs, room, u, hplace, hreturn⟩
  · rintro ⟨vs, room, u, hplace, hreturn⟩
    exact ⟨vs, _, room, u, hplace, hreturn, rfl⟩
  · rintro ⟨r, vs, ⟨room, u, hplace, hreturn, -⟩, hfew⟩
    exact ⟨vs, room, u, hplace, hreturn, hfew⟩
  · rintro ⟨vs, room, u, hplace, hreturn, hfew⟩
    exact ⟨_, vs, ⟨room, u, hplace, hreturn, rfl⟩, hfew⟩

/-- The line of a comment may not hold a bare carriage return, not even in front of a comment. -/
theorem semicolon_refused_before_return :
    ¬∀ (limit : Nat) (text : String) (e : ReadError),
      readOne ⟨true, limit⟩ text = .error e ∨ readAll ⟨true, limit⟩ text = .error e →
        ¬(e.kind = .unexpectedCharacter ∧ e.found = some ";") := by
  intro h
  obtain ⟨e, he, hrefused⟩ : ∃ e, readOne ⟨true, 128⟩ "1 ;a\r;b" = .error e
      ∧ e.kind = .unexpectedCharacter ∧ e.found = some ";" := ⟨_, rfl, rfl, rfl⟩
  exact h 128 "1 ;a\r;b" e (.inl he) hrefused

end Reader

end SmallScheme
