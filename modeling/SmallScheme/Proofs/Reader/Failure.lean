import SmallScheme.Proofs.Reader.Place

/-!
# Reading fails at its place

A text is read up to each of its places (`resume_of_place`), and reading stops where an item is
refused (`resume_of_refused`). As every text is either made of items or holds such a place, reading
fails exactly as the grammar says, behind the items and at the place that it names. This is said for
both ways to ask, in two steps each: what the grammar refuses is reported at that place
(`readAll_of_stops`, `readOne_of_stopsOne`), and what is reported has been refused
(`exists_stops_of_readAll`, `exists_stopsOne_of_readOne`).
-/

namespace SmallScheme

namespace Reader

open Grammar

variable {config : Config} {p : Progress} {offset depth room : Nat} {t r : List Char}
  {vs : List Value} {v : Value} {cause : ReadError.Cause} {text : String}

/-! ## Reading up to a place -/

theorem resume_of_element (h : Element config.comments depth t v r) (p : Progress) (offset : Nat)
    (hroom : p.openLists.length + depth ≤ config.maxDepth) :
    ∃ front, t = front ++ r
      ∧ resume config p offset t
        = resume config (p.deliver offset v) (offset + Text.byteLength front) r := by
  cases h with
  | @atom depth run r v hatom hv => exact ⟨run, rfl, resume_of_denotes hatom hv p offset⟩
  | @list depth s r us hin hlone =>
      obtain ⟨elements, rfl, inner, rfl, hinside⟩ :=
        resume_of_items hin { p with openLists := ⟨offset, []⟩ :: p.openLists } (offset + 1)
          (by simp only [List.length_cons]; omega)
      exact ⟨'(' :: (inner ++ [')']), by simp, resume_of_closed (by omega) hlone hinside⟩

/-- Reading gets to each place of a text, with the items in front of it. -/
theorem resume_of_place (h : Place config.comments depth t vs room r) (p : Progress) (offset : Nat)
    (hroom : p.openLists.length + depth = config.maxDepth) :
    ∃ (items : List Item) (front : List Char) (q : Progress), items.map (·.value) = vs
      ∧ t = front ++ r ∧ q.reversed = (p.deliverAll items).reversed
      ∧ q.openLists.length + room = config.maxDepth
      ∧ resume config p offset t = resume config q (offset + Text.byteLength front) r := by
  induction h generalizing p offset with
  | @here depth t r vs h =>
      obtain ⟨items, rfl, front, rfl, hrest⟩ := resume_of_items h p offset (by omega)
      exact ⟨items, front, _, rfl, rfl, rfl, by simpa using hroom, hrest⟩
  | @inside depth room t s r vs us h hin ih =>
      obtain ⟨items, rfl, front, rfl, hrest⟩ := resume_of_items h p offset (by omega)
      have hlength : (p.deliverAll items).openLists.length + (depth + 1) = config.maxDepth := by
        simpa using hroom
      obtain ⟨elements, inner, q, -, rfl, hreversed, hq, hin⟩ := ih
        { p.deliverAll items with
          openLists := ⟨offset + Text.byteLength front, []⟩ :: (p.deliverAll items).openLists }
        (offset + Text.byteLength front + 1) (by simp only [List.length_cons]; omega)
      rw [Progress.deliverAll_inner] at hreversed
      refine ⟨items, front ++ '(' :: inner, q, rfl, by simp, hreversed, hq, ?_⟩
      have hsize : ('(' : Char).utf8Size = 1 := by decide
      rw [hrest, resume_opening_of_lt (by omega)]
      refine hin.trans ?_
      simp only [Text.byteLength_append, Text.byteLength_cons, hsize, Nat.add_assoc]

/-! ## Reading stops where an item is refused -/

theorem value_eq_badBoolean {run : List Char} (hno : ∀ v, ¬Denotes ('#' :: run) v) :
    SmallScheme.Atom.value '#' run = .error (.badBoolean (String.ofList ('#' :: run))) := by
  cases hv : SmallScheme.Atom.value '#' run with
  | ok v => exact absurd (value_eq_ok_iff.mp hv) (hno v)
  | error cause =>
      simp only [SmallScheme.Atom.value, if_true] at hv
      split at hv
      · cases hv
      · exact hv.symm

theorem value_eq_badNumber {c : Char} {run : List Char} (hbegin : BeginsNumber (c :: run))
    (hno : ∀ v, ¬Denotes (c :: run) v) :
    SmallScheme.Atom.value c run = .error (.badNumber (String.ofList (c :: run))) := by
  have hc : c ≠ '#' := fun h => not_beginsNumber_hash (h ▸ hbegin)
  cases hv : SmallScheme.Atom.value c run with
  | ok v => exact absurd (value_eq_ok_iff.mp hv) (hno v)
  | error cause =>
      simp only [SmallScheme.Atom.value, hc, beginsNumber_iff.mpr hbegin, if_true, if_false] at hv
      split at hv
      · cases hv
      · exact hv.symm

theorem resume_of_character {c : Char} (hgap : NoGap config.comments (c :: t))
    (hc : c ∉ ['(', ')', '#']) (hnumber : ¬BeginsNumber (c :: t))
    (hsymbol : ¬BeginsSymbol (c :: t)) :
    resume config p offset (c :: t) = stopped p (.badCharacter c) offset := by
  obtain ⟨hskip, hno⟩ := noGap_iff.mp hgap
  by_cases hblank : Text.isBlank c = true
  · exact resume_strayBlank hblank hskip
  obtain ⟨hopen, hclose, hhash⟩ : c ≠ '(' ∧ c ≠ ')' ∧ c ≠ '#' := by simpa using hc
  obtain ⟨run, u, rfl, hrun, hend⟩ := exists_run t
  have hatom : Grammar.Atom (c :: run) u := by
    refine ⟨List.cons_ne_nil _ _, fun d hd => ?_, hend⟩
    rcases List.mem_cons.mp hd with rfl | hd
    · exact ⟨by simpa using hblank, hopen, hclose⟩
    · exact hrun d hd
  have hvalue : SmallScheme.Atom.value c run = .error (.badCharacter c) := by
    have hnumber' : ¬SmallScheme.Atom.beginsNumber c run = true := fun h =>
      hnumber ((beginsNumber_append_iff hend).mpr (beginsNumber_iff.mp h))
    have hsymbol' : ¬SmallScheme.Atom.beginsSymbol c = true := fun h =>
      hsymbol (beginsSymbol_iff.mp h)
    simp [SmallScheme.Atom.value, hhash, hnumber', hsymbol']
  rw [← List.cons_append, resume_atom hatom hno, hvalue]

/-- The item that begins here is to blame, whatever has been read before. -/
theorem resume_of_refused (h : Refused config.comments config.maxDepth room r cause) (p : Progress)
    (offset : Nat) (hroom : p.openLists.length + room = config.maxDepth) :
    resume config p offset r = stopped p cause offset := by
  cases h with
  | @boolean _ run u hatom hno =>
      have hstarts : ¬CommentStarts config.comments '#' (run ++ u) := by
        simp [CommentStarts]
      rw [resume_atom hatom hstarts, value_eq_badBoolean hno]
  | @number _ text u hatom hbegin hno =>
      cases text with
      | nil => exact absurd rfl hatom.nonempty
      | cons c run =>
          have hstarts : ¬CommentStarts config.comments c (run ++ u) := by
            rintro ⟨-, rfl, -⟩
            have hdigit : (';' : Char).isDigit = false := by decide
            simp [BeginsNumber, hdigit] at hbegin
          rw [resume_atom hatom hstarts, value_eq_badNumber hbegin hno]
  | character hgap hc hnumber hsymbol => exact resume_of_character hgap hc hnumber hsymbol
  | depth t =>
      have hfull : p.openList config.maxDepth offset
          = .error ⟨.tooDeep config.maxDepth, offset⟩ := if_pos (by omega)
      rw [resume_opening, hfull]
      rfl
  | @unclosed room s vs hitems =>
      obtain ⟨elements, rfl, front, rfl, hrest⟩ := resume_of_items hitems
        { p with openLists := ⟨offset, []⟩ :: p.openLists } (offset + 1)
        (by simp only [List.length_cons]; omega)
      rw [resume_opening_of_lt (by omega), hrest, resume_nil, Progress.deliverAll_inner]
      rfl
  | @lone room s u name hitems hname =>
      obtain ⟨elements, hvalues, front, rfl, hrest⟩ := resume_of_items hitems
        { p with openLists := ⟨offset, []⟩ :: p.openLists } (offset + 1)
        (by simp only [List.length_cons]; omega)
      have hclose : Progress.closeList
          ⟨p.reversed, ⟨offset, [.symbol name]⟩ :: p.openLists⟩
          (offset + 1 + Text.byteLength front) = .error ⟨.loneOperator name, offset⟩ := by
        simp [Progress.closeList, loneComparison?, comparisons, hname]
      rw [resume_opening_of_lt (by omega), hrest, Progress.deliverAll_inner, hvalues,
        resume_closing]
      simp only [List.reverse_singleton, List.append_nil, hclose]
      rfl

/-- Reading ends where it stops, with the items in front. -/
theorem resume_of_stops (h : Stops config.comments config.maxDepth t vs cause r) :
    ∃ (items : List Item) (front : List Char), items.map (·.value) = vs ∧ t = front ++ r
      ∧ resume config {} 0 t = ⟨items, some ⟨cause, Text.byteLength front⟩⟩ := by
  cases h with
  | @refused room vs cause r hplace h =>
      obtain ⟨items, front, q, hvalues, hfront, hreversed, hq, hrest⟩ :=
        resume_of_place hplace {} 0 (by simp)
      rw [Progress.deliverAll_top] at hreversed
      refine ⟨items, front, hvalues, hfront, ?_⟩
      rw [hrest, resume_of_refused h q _ hq, stopped, hreversed]
      simp
  | @stray vs s h =>
      obtain ⟨items, hvalues, front, hfront, hrest⟩ := resume_of_items h {} 0 (by simp)
      refine ⟨items, front, hvalues, hfront, ?_⟩
      rw [hrest, Progress.deliverAll_top, resume_closing]
      simp [Progress.closeList]

/-! ## The two ways to ask -/

theorem readAll_of_stops
    (h : Stops config.comments config.maxDepth (Text.trim text.toList) vs cause r) :
    ∃ front, Text.trim text.toList = front ++ r
      ∧ readAll config text
        = .error (.inText (Text.trim text.toList) cause (Text.byteLength front)) := by
  obtain ⟨items, front, -, hfront, hread⟩ := resume_of_stops h
  exact ⟨front, hfront, readAll_eq_error_iff.mpr ⟨items, _, rfl, hread⟩⟩

theorem exists_stops_of_readAll {e : ReadError} (h : readAll config text = .error e) :
    ∃ vs cause r, Stops config.comments config.maxDepth (Text.trim text.toList) vs cause r := by
  rcases items_or_stops config.comments config.maxDepth (Text.trim text.toList) with
    ⟨vs, hitems⟩ | hstops
  · cases h.symm.trans (readAll_of_items hitems)
  · exact hstops

theorem readOne_of_stopsOne
    (h : StopsOne config.comments config.maxDepth (Text.trim text.toList) cause r) :
    ∃ front, Text.trim text.toList = front ++ r
      ∧ readOne config text
        = .error (.inText (Text.trim text.toList) cause (Text.byteLength front)) := by
  simp only [readOne, reading_eq_resume]
  cases h with
  | @stopped vs cause r h hfew =>
      obtain ⟨items, front, rfl, hfront, hread⟩ := resume_of_stops h
      refine ⟨front, hfront, ?_⟩
      rw [hread]
      rcases items with _ | ⟨first, _ | ⟨second, rest⟩⟩
      · rfl
      · rfl
      · simp only [List.map_cons, List.length_cons] at hfew
        omega
  | empty h =>
      obtain ⟨front, hfront, hread⟩ := resume_of_gap h 0
      refine ⟨Text.trim text.toList, by simp, ?_⟩
      rw [hread, resume_nil]
      rfl
  | @leftover v w r s h hmore =>
      obtain ⟨items, hvalues, front, hfront, hfirst⟩ := resume_of_items h {} 0 (by simp)
      obtain ⟨between, -, hsecond⟩ := resume_of_element hmore (Progress.deliverAll {} items)
        (0 + Text.byteLength front) (by simp)
      obtain ⟨item, rfl, -⟩ : ∃ item, items = [item] ∧ item.value = v := by simpa using hvalues
      refine ⟨front, hfront, ?_⟩
      -- Whatever is read behind the second item, the two remain the first ones.
      have hkept := prefix_items_resume config
        ((Progress.deliverAll {} [item]).deliver (0 + Text.byteLength front) w)
        (0 + Text.byteLength front + Text.byteLength between) s
      rw [← hsecond, ← hfirst] at hkept
      generalize resume config {} 0 (Text.trim text.toList) = outcome at hkept ⊢
      obtain ⟨items, failure⟩ := outcome
      obtain ⟨more, hmore⟩ := hkept
      simp only [Progress.deliverAll, Progress.deliver, List.foldl_cons, List.foldl_nil,
        List.reverse_cons, List.reverse_nil, List.nil_append, List.cons_append] at hmore
      rw [← hmore]
      simp

/-- Where two items can be read, the second one is left over. -/
theorem stopsOne_of_items {w : Value} (h : Items config.comments config.maxDepth t (v :: w :: vs) r) :
    ∃ r, StopsOne config.comments config.maxDepth t .leftover r := by
  obtain ⟨s, u, hgap, helement, hrest⟩ := items_cons_iff.mp h
  obtain ⟨s', u', hgap', hsecond, -⟩ := items_cons_iff.mp hrest
  have hfirst : Items config.comments config.maxDepth t [v] s' :=
    items_cons_iff.mpr ⟨s, u, hgap, helement, .nil hgap'⟩
  exact ⟨s', .leftover hfirst hsecond⟩

theorem exists_stopsOne_of_readOne {e : ReadError} (h : readOne config text = .error e) :
    ∃ cause r, StopsOne config.comments config.maxDepth (Text.trim text.toList) cause r := by
  rcases items_or_stops config.comments config.maxDepth (Text.trim text.toList) with
    ⟨vs, hitems⟩ | ⟨vs, cause, r, hstops⟩
  · match vs with
    | [] => exact ⟨_, _, .empty (items_nil_iff.mp hitems)⟩
    | [v] => cases h.symm.trans (readOne_eq_ok_iff.mpr (readAll_of_items hitems))
    | v :: w :: vs =>
        obtain ⟨r, hleftover⟩ := stopsOne_of_items hitems
        exact ⟨_, r, hleftover⟩
  · obtain ⟨s, hitems⟩ := hstops.items
    match vs with
    | [] => exact ⟨cause, r, .stopped hstops (by simp)⟩
    | [v] => exact ⟨cause, r, .stopped hstops (by simp)⟩
    | v :: w :: vs =>
        obtain ⟨r, hleftover⟩ := stopsOne_of_items hitems
        exact ⟨_, r, hleftover⟩

/-- The causes with which all items of a text are refused are those with which the grammar stops. -/
theorem readAll_cause_iff (config : Config) (text : String) (cause : ReadError.Cause) :
    (∃ e, readAll config text = .error e ∧ e.cause = cause) ↔
      ∃ vs r, Stops config.comments config.maxDepth (Text.trim text.toList) vs cause r := by
  constructor
  · rintro ⟨e, he, rfl⟩
    obtain ⟨vs, cause, r, hstops⟩ := exists_stops_of_readAll he
    obtain ⟨front, -, hread⟩ := readAll_of_stops hstops
    obtain rfl := Except.error.inj (hread.symm.trans he)
    exact ⟨vs, r, hstops⟩
  · rintro ⟨vs, r, hstops⟩
    obtain ⟨front, -, hread⟩ := readAll_of_stops hstops
    exact ⟨_, hread, rfl⟩

theorem readOne_cause_iff (config : Config) (text : String) (cause : ReadError.Cause) :
    (∃ e, readOne config text = .error e ∧ e.cause = cause) ↔
      ∃ r, StopsOne config.comments config.maxDepth (Text.trim text.toList) cause r := by
  constructor
  · rintro ⟨e, he, rfl⟩
    obtain ⟨cause, r, hstops⟩ := exists_stopsOne_of_readOne he
    obtain ⟨front, -, hread⟩ := readOne_of_stopsOne hstops
    obtain rfl := Except.error.inj (hread.symm.trans he)
    exact ⟨r, hstops⟩
  · rintro ⟨r, hstops⟩
    obtain ⟨front, -, hread⟩ := readOne_of_stopsOne hstops
    exact ⟨_, hread, rfl⟩

end Reader

end SmallScheme
