import SmallScheme.Proofs.Reader.RoundTrip

/-!
# The places where reading fails

Where a text cannot be read, and why, is said here without a reader, as the grammar says what can be
read:

- `Element comments depth t v r`: an item for `v` begins at `t`, with `r` behind it.
- `Place comments depth t vs room r`: `r` is a place between items of `t`, behind complete items for
  `vs` and then in any number of open lists, each behind complete items of its own. At this place
  lists may be nested `room` deep.
- `Refused comments limit room r cause`: what begins at `r` is no item, or a list that goes wrong.
- `Stops comments limit t vs cause r`: no item behind the items `vs` of `t` can be read, because of
  what begins at `r`.
- `StopsOne comments limit t cause r`: the same where exactly one item is asked for.

Every text has one of two endings (`ending`): it is made of items up to its end or up to a closing
parenthesis, or an item is refused at one of its places.
-/

namespace SmallScheme

namespace Grammar

/-! ## Items and places -/

/-- One item that begins at once, and what remains behind it. -/
inductive Element (comments : Bool) : Nat → List Char → Value → List Char → Prop where
  | atom {depth : Nat} {text r : List Char} {v : Value} (hatom : Atom text r)
      (hv : Denotes text v) : Element comments depth (text ++ r) v r
  | list {depth : Nat} {s r : List Char} {us : List Value}
      (hin : Items comments depth s us (')' :: r)) (hlone : ¬IsLoneComparison us) :
      Element comments (depth + 1) ('(' :: s) (.list us) r

/-- A place behind the items of a level, or in a list that is open there. -/
inductive Place (comments : Bool) : Nat → List Char → List Value → Nat → List Char → Prop where
  | here {depth : Nat} {t r : List Char} {vs : List Value} (h : Items comments depth t vs r) :
      Place comments depth t vs depth r
  | inside {depth room : Nat} {t s r : List Char} {vs us : List Value}
      (h : Items comments (depth + 1) t vs ('(' :: s)) (hin : Place comments depth s us room r) :
      Place comments (depth + 1) t vs room r

/-- Neither a blank nor a comment begins here. -/
def NoGap (comments : Bool) (t : List Char) : Prop :=
  ∀ r, Gap comments t r → r = t

/-! ## Refusals -/

/-- What begins here cannot be read as an item. An atom is at fault itself. A list is at fault when
it is one too deep, when it is never closed, or when it holds a comparison operator and nothing
else. -/
inductive Refused (comments : Bool) (limit : Nat) :
    Nat → List Char → ReadError.Cause → Prop where
  | boolean {room : Nat} {run u : List Char} (hatom : Atom ('#' :: run) u)
      (hno : ∀ v, ¬Denotes ('#' :: run) v) :
      Refused comments limit room ('#' :: run ++ u) (.badBoolean (String.ofList ('#' :: run)))
  | number {room : Nat} {text u : List Char} (hatom : Atom text u) (hbegin : BeginsNumber text)
      (hno : ∀ v, ¬Denotes text v) :
      Refused comments limit room (text ++ u) (.badNumber (String.ofList text))
  | character {room : Nat} {c : Char} {t : List Char} (hgap : NoGap comments (c :: t))
      (hc : c ∉ ['(', ')', '#']) (hnumber : ¬BeginsNumber (c :: t))
      (hsymbol : ¬BeginsSymbol (c :: t)) : Refused comments limit room (c :: t) (.badCharacter c)
  | depth (t : List Char) : Refused comments limit 0 ('(' :: t) (.tooDeep limit)
  | unclosed {room : Nat} {s : List Char} {vs : List Value} (h : Items comments room s vs []) :
      Refused comments limit (room + 1) ('(' :: s) .unclosedList
  | lone {room : Nat} {s u : List Char} {name : String}
      (h : Items comments room s [.symbol name] (')' :: u))
      (hname : name ∈ ["<", ">", "<=", ">=", "="]) :
      Refused comments limit (room + 1) ('(' :: s) (.loneOperator name)

/-- Reading all items of a text ends behind the items `vs` of the outermost level. Outside any list
a closing parenthesis stops it as well. -/
inductive Stops (comments : Bool) (limit : Nat) (t : List Char) :
    List Value → ReadError.Cause → List Char → Prop where
  | refused {room : Nat} {vs : List Value} {cause : ReadError.Cause} {r : List Char}
      (hplace : Place comments limit t vs room r) (h : Refused comments limit room r cause) :
      Stops comments limit t vs cause r
  | stray {vs : List Value} {s : List Char} (h : Items comments limit t vs (')' :: s)) :
      Stops comments limit t vs .strayClosing (')' :: s)

/-- Reading one item fails with what stops reading before a second item is complete, at the end of a
text that holds nothing, and at a second item. -/
inductive StopsOne (comments : Bool) (limit : Nat) (t : List Char) :
    ReadError.Cause → List Char → Prop where
  | stopped {vs : List Value} {cause : ReadError.Cause} {r : List Char}
      (h : Stops comments limit t vs cause r) (hfew : vs.length < 2) :
      StopsOne comments limit t cause r
  | empty (h : Gap comments t []) : StopsOne comments limit t .emptyText []
  | leftover {v w : Value} {r s : List Char} (h : Items comments limit t [v] r)
      (hmore : Element comments limit r w s) : StopsOne comments limit t .leftover r

variable {comments : Bool} {limit depth room : Nat} {t u r : List Char} {vs : List Value} {v : Value}
  {c : Char} {cause : ReadError.Cause}

theorem items_nil_iff : Items comments depth t [] r ↔ Gap comments t r :=
  ⟨fun h => by cases h; assumption, .nil⟩

theorem items_cons_iff :
    Items comments depth t (v :: vs) r ↔
      ∃ s u, Gap comments t s ∧ Element comments depth s v u ∧ Items comments depth u vs r := by
  constructor
  · intro h
    cases h with
    | atom hgap hatom hv h => exact ⟨_, _, hgap, .atom hatom hv, h⟩
    | list hgap hin hlone h => exact ⟨_, _, hgap, .list hin hlone, h⟩
  · rintro ⟨s, u, hgap, helement, h⟩
    cases helement with
    | atom hatom hv => exact .atom hgap hatom hv h
    | list hin hlone => exact .list hgap hin hlone h

/-- What may stand in front of items may stand in front of places. -/
theorem Place.of_items {f : List Value → List Value}
    (hitems : ∀ {vs s}, Items comments depth u vs s → Items comments depth t (f vs) s)
    (h : Place comments depth u vs room r) : Place comments depth t (f vs) room r := by
  cases h with
  | here h => exact .here (hitems h)
  | inside h hin => exact .inside (hitems h) hin

theorem Place.items (h : Place comments depth t vs room r) : ∃ s, Items comments depth t vs s := by
  cases h with
  | here h => exact ⟨_, h⟩
  | inside h hin => exact ⟨_, h⟩

theorem Stops.items (h : Stops comments limit t vs cause r) : ∃ s, Items comments limit t vs s := by
  cases h with
  | refused hplace h => exact hplace.items
  | stray h => exact ⟨_, h⟩

/-! ## What begins no item -/

theorem noGap_iff :
    NoGap comments (c :: t) ↔
      c ∉ [' ', '\t', '\r', '\n'] ∧ ¬Reader.CommentStarts comments c t := by
  constructor
  · refine fun h => ⟨fun hc => ?_, ?_⟩
    · have := congrArg List.length (h t (.blank hc (.nil t)))
      simp at this
    · rintro ⟨hon, rfl, hends⟩
      obtain ⟨body, r, rfl, hbody, hend⟩ := exists_of_lineEnds hends
      have := congrArg List.length (h r (.comment hon hbody hend (.nil r)))
      simp only [List.length_cons, List.length_append] at this
      omega
  · rintro ⟨hc, hno⟩ r h
    cases h with
    | nil => rfl
    | blank hblank => exact absurd hblank hc
    | comment hon hbody hend => exact absurd ⟨hon, rfl, lineEnds_append hbody hend⟩ hno

theorem isDigit_eq_false_of_not_isAtomChar (h : ¬IsAtomChar c) : c.isDigit = false :=
  Bool.eq_false_iff.mpr (mt isAtomChar_of_isDigit h)

/-- What stands behind an atom does not make it a number. -/
theorem beginsNumber_append_iff {run : List Char} (hend : EndsAtom u) :
    BeginsNumber (c :: run ++ u) ↔ BeginsNumber (c :: run) := by
  have hpoint : IsAtomChar '.' := by decide
  cases run with
  | cons d run => simp [BeginsNumber]
  | nil =>
      simp only [BeginsNumber, List.nil_append, List.cons_append, List.head?_nil, reduceCtorEq,
        false_and, exists_false, and_false, or_false, or_iff_left_iff_imp]
      rintro ⟨-, d, hd, hdigit | rfl⟩
      · exact absurd (isAtomChar_of_isDigit hdigit) (hend d hd)
      · exact absurd hpoint (hend '.' hd)

/-- No blank is a letter: the table of letters leaves out all blanks beyond ASCII. -/
theorem isLetter_eq_false_of_isBlank (h : Text.isBlank c = true) : Text.isLetter c = false := by
  have htable : ∀ range ∈ Text.letterRanges.toList, 0xa0 < range.1
      ∧ (range.2 < 0x1680 ∨ 0x1680 < range.1) ∧ (range.2 < 0x2000 ∨ 0x205f < range.1)
      ∧ (range.2 < 0x3000 ∨ 0x3000 < range.1) := by
    decide +kernel
  simp only [Text.isBlank, Bool.or_eq_true, Bool.and_eq_true, beq_iff_eq, decide_eq_true_eq] at h
  have hrange : Text.letterRanges.contains c = false := by
    rw [Text.Ranges.contains, ← Array.any_toList, List.any_eq_false]
    intro range hmem
    have := htable range hmem
    simp only [Bool.and_eq_true, decide_eq_true_eq]
    omega
  have halpha : c.isAlpha = false := by
    rw [Bool.eq_false_iff]
    intro halpha
    have hletter : (decide (c.val ≥ 'A'.val ∧ c.val ≤ 'Z'.val)
        || (decide (c.val ≥ 'a'.val) && decide (c.val ≤ 'z'.val))) = true := halpha
    simp only [Bool.or_eq_true, Bool.and_eq_true, decide_eq_true_eq, ge_iff_le,
      UInt32.le_iff_toNat_le] at hletter
    have hcode : (65 ≤ c.toNat ∧ c.toNat ≤ 90) ∨ (97 ≤ c.toNat ∧ c.toNat ≤ 122) := hletter
    omega
  simp [Text.isLetter, halpha, hrange]

/-- An atom without a value is refused as what it begins like. -/
theorem refused_of_value_eq_error {run : List Char} (hatom : Atom (c :: run) u)
    (hno : ¬Reader.CommentStarts comments c (run ++ u))
    (h : SmallScheme.Atom.value c run = .error cause) :
    Refused comments limit room (c :: run ++ u) cause := by
  have hdenotes : ∀ v, ¬Denotes (c :: run) v := by
    intro v hv
    cases h.symm.trans (value_eq_ok_iff.mpr hv)
  obtain ⟨hblank, hopen, hclose⟩ := hatom.run c List.mem_cons_self
  simp only [SmallScheme.Atom.value] at h
  split at h
  · rename_i hhash
    subst hhash
    split at h
    · cases h
    · cases h
      exact .boolean hatom hdenotes
  · rename_i hhash
    split at h
    · rename_i hbegin
      split at h
      · cases h
      · cases h
        exact .number hatom (beginsNumber_iff.mp hbegin) hdenotes
    · rename_i hnumber
      split at h
      · cases h
      · rename_i hsymbol
        cases h
        have hgap : c ∉ [' ', '\t', '\r', '\n'] := fun hc => by
          have := Text.isBlank_of_isGap (isGap_iff.mpr hc)
          simp [hblank] at this
        refine .character (noGap_iff.mpr ⟨hgap, hno⟩) (by simp [hopen, hclose, hhash]) ?_
          (mt beginsSymbol_iff.mpr hsymbol)
        exact mt (beginsNumber_append_iff hatom.maximal).mp (mt beginsNumber_iff.mpr hnumber)

theorem refused_of_strayBlank (hblank : Text.isBlank c = true)
    (hgap : c ∉ [' ', '\t', '\r', '\n']) :
    Refused comments limit room (c :: t) (.badCharacter c) := by
  have hnot {d : Char} (hd : Text.isBlank d = false) : c ≠ d := by
    rintro rfl
    simp [hblank] at hd
  have hdigit : c.isDigit = false :=
    isDigit_eq_false_of_not_isAtomChar fun h => by simp [IsAtomChar, hblank] at h
  refine .character (noGap_iff.mpr ⟨hgap, fun hstarts => ?_⟩) ?_ ?_ ?_
  · exact hnot (by decide) hstarts.2.1
  · simp [hnot (d := '(') (by decide), hnot (d := ')') (by decide), hnot (d := '#') (by decide)]
  · simp [BeginsNumber, hdigit, hnot (d := '-') (by decide)]
  · simp [BeginsSymbol, isLetter_eq_false_of_isBlank hblank, hnot (d := '+') (by decide),
      hnot (d := '-') (by decide), hnot (d := '*') (by decide), hnot (d := '/') (by decide),
      hnot (d := '<') (by decide), hnot (d := '>') (by decide), hnot (d := '=') (by decide)]

/-! ## Every text is read or refused -/

/-- A text is made of items up to its end or up to a closing parenthesis, or an item is refused at
one of its places. -/
inductive Ending (comments : Bool) (limit depth : Nat) (t : List Char) : Prop where
  | items {vs : List Value} {r : List Char} (h : Items comments depth t vs r)
      (hend : r = [] ∨ ∃ s, r = ')' :: s) : Ending comments limit depth t
  | refused {vs : List Value} {room : Nat} {r : List Char} {cause : ReadError.Cause}
      (hplace : Place comments depth t vs room r) (h : Refused comments limit room r cause) :
      Ending comments limit depth t

/-- What may stand in front of items may stand in front of a whole text. -/
theorem Ending.of_items {f : List Value → List Value}
    (hitems : ∀ {vs s}, Items comments depth u vs s → Items comments depth t (f vs) s)
    (h : Ending comments limit depth u) : Ending comments limit depth t := by
  cases h with
  | items h hend => exact .items (hitems h) hend
  | refused hplace h => exact .refused (hplace.of_items hitems) h

theorem Ending.of_element (helement : Element comments depth t v u)
    (h : Ending comments limit depth u) : Ending comments limit depth t :=
  h.of_items fun hitems => items_cons_iff.mpr ⟨_, _, .nil _, helement, hitems⟩

theorem Ending.of_refused (h : Refused comments limit depth t cause) :
    Ending comments limit depth t :=
  .refused (.here (.nil (.nil t))) h

/-- A list ends like what is in it, unless it is complete. -/
theorem Ending.opening {s : List Char} (hin : Ending comments limit depth s) :
    Ending comments limit (depth + 1) ('(' :: s) ∨
      ∃ v u, Element comments (depth + 1) ('(' :: s) v u ∧ u.length < s.length := by
  cases hin with
  | @items us r hitems hend =>
      rcases hend with rfl | ⟨u, rfl⟩
      · exact .inl (.of_refused (.unclosed hitems))
      · by_cases hlone : IsLoneComparison us
        · obtain ⟨name, hname, rfl⟩ := hlone
          exact .inl (.of_refused (.lone hitems hname))
        · have hlength := hitems.length_le
          simp only [List.length_cons] at hlength
          exact .inr ⟨_, u, .list hitems hlone, by omega⟩
  | refused hplace h => exact .inl (.refused (.inside (.nil (.nil _)) hplace) h)

theorem ending (comments : Bool) (limit depth : Nat) (t : List Char) :
    Ending comments limit depth t := by
  induction hn : t.length using Nat.strongRecOn generalizing t depth with
  | ind n ih =>
      subst hn
      cases Reader.beginning comments t with
      | nil => exact .items (.nil (.nil [])) (.inl rfl)
      | blank hc => exact (ih _ (by simp) depth _ rfl).of_items (f := id) (.of_gap (.blank hc))
      | comment hon hbody hend =>
          refine (ih _ ?_ depth _ rfl).of_items (f := id) (.of_gap (.comment hon hbody hend))
          rw [List.length_cons, List.length_append]
          omega
      | opening s =>
          cases depth with
          | zero => exact .of_refused (.depth s)
          | succ depth =>
              rcases (ih s.length (by simp) depth s rfl).opening with h | ⟨v, u, helement, hless⟩
              · exact h
              · exact .of_element helement (ih _ (by simpa using Nat.lt_succ_of_lt hless) _ u rfl)
      | closing s => exact .items (.nil (.nil _)) (.inr ⟨s, rfl⟩)
      | strayBlank s hblank hgap => exact .of_refused (refused_of_strayBlank hblank hgap)
      | @atom c run u hatom hno =>
          cases hv : SmallScheme.Atom.value c run with
          | error cause => exact .of_refused (refused_of_value_eq_error hatom hno hv)
          | ok v =>
              refine .of_element (.atom hatom (value_eq_ok_iff.mp hv)) (ih _ ?_ depth u rfl)
              rw [List.length_append, List.length_cons]
              omega

/-- A text holds items only, or reading stops in it. -/
theorem items_or_stops (comments : Bool) (limit : Nat) (t : List Char) :
    (∃ vs, Items comments limit t vs []) ∨ ∃ vs cause r, Stops comments limit t vs cause r := by
  cases ending comments limit limit t with
  | items h hend =>
      rcases hend with rfl | ⟨s, rfl⟩
      · exact .inl ⟨_, h⟩
      · exact .inr ⟨_, _, _, .stray h⟩
  | refused hplace h => exact .inr ⟨_, _, _, .refused hplace h⟩

end Grammar

end SmallScheme
