import SmallScheme.Proofs.Reader.RoundTrip

/-!
# Reading a text and then more of it

What is read of a text does not depend on the lines behind it. Either reading gets through the text,
and goes on with whatever the next line holds, or it stops in the text, for a cause that no further
line removes (`passage`, by induction on the beginnings of the text). Only a list that is still open
where the text is over leaves the matter undecided, and such a text can always be completed: an atom
and the missing parentheses will do (`exists_completion`).

Behind a text that has been read as a whole, the next line is read as it is read alone
(`resume_behind`). Together this says how texts are read line by line (`readAll_incremental`).
-/

namespace SmallScheme

namespace Grammar

variable {t : List Char}

/-! ## A text with a line behind it -/

theorem getLast?_ne_of_append {c : Char} {s : List Char} (h : (s ++ t).getLast? ≠ some c) :
    t.getLast? ≠ some c := by
  intro ht
  rw [List.getLast?_append, ht] at h
  exact h rfl

theorem lineEnds_append_lineFeed (h : t.getLast? ≠ some '\r') (w : List Char) :
    Lexeme.lineEnds (t ++ '\n' :: w) = Lexeme.lineEnds t := by
  fun_induction Lexeme.lineEnds t with
  | case1 => rfl
  | case2 rest => rfl
  | case3 rest =>
      cases rest with
      | nil => exact absurd rfl h
      | cons c rest => rfl
  | case4 c rest hn hr ih =>
      rw [List.cons_append, Lexeme.lineEnds.eq_4 _ _ hn hr]
      exact ih (getLast?_ne_of_append (s := [c]) h)

theorem LineEnd.append_lineFeed (h : LineEnd t) (w : List Char) : LineEnd (t ++ '\n' :: w) := by
  cases h with
  | text => exact .lineFeed w
  | lineFeed t => exact .lineFeed _
  | both t => exact .both _

theorem Atom.append_lineFeed {text : List Char} (h : Atom text t) (w : List Char) :
    Atom text (t ++ '\n' :: w) where
  nonempty := h.nonempty
  run := h.run
  maximal := by
    intro c hc
    cases t with
    | nil =>
        obtain rfl : '\n' = c := Option.some.inj hc
        decide
    | cons d t => exact h.maximal c hc

/-! ## Texts without blanks at their ends -/

theorem trimEnd_append (t r : List Char) :
    Text.trimEnd (t ++ r)
      = if Text.trimEnd r = [] then Text.trimEnd t else t ++ Text.trimEnd r := by
  simp only [Text.trimEnd, Text.trimStart, List.reverse_append, List.dropWhile_append,
    List.reverse_eq_nil_iff, List.isEmpty_iff]
  split
  · rfl
  · rw [List.reverse_append, List.reverse_reverse]

theorem Compact.getLast?_ne (h : Compact t) : t.getLast? ≠ some '\r' := by
  intro hlast
  have := h '\r' (.inr hlast)
  revert this
  decide

/-- Of a compact text and a line behind it, the blanks at the end of the line are taken away, and
the line end with them if the line is all blanks. -/
theorem Compact.trim_append_lineFeed (h : Compact t) (hne : t ≠ []) (w : List Char) :
    Text.trim (t ++ '\n' :: w)
      = if Text.trimEnd w = [] then t else t ++ '\n' :: Text.trimEnd w := by
  have hstart : Text.trimStart (t ++ '\n' :: w) = t ++ '\n' :: w := by
    refine trimStart_eq_self fun c hc => h c (.inl ?_)
    rwa [List.head?_append_of_ne_nil _ hne] at hc
  have hline : Text.trimEnd ('\n' :: w)
      = if Text.trimEnd w = [] then [] else '\n' :: Text.trimEnd w :=
    trimEnd_append ['\n'] w
  rw [Text.trim, hstart, trimEnd_append, hline, h.trimEnd_eq]
  split <;> simp

end Grammar

namespace Reader

open Grammar

variable {config : Config} {p q : Progress} {offset : Nat} {t : List Char}

/-! ## Every text is read through, or reading stops in it -/

/-- What becomes of a text that is read between two items. -/
inductive Passage (config : Config) (p : Progress) (offset : Nat) (t : List Char) : Prop where
  /-- Reading gets through the text, and goes on in the line behind it. -/
  | through (next : Progress)
      (hend : resume config p offset t = ⟨next.reversed.reverse, next.finish⟩)
      (hmore : ∀ w, ∃ behind,
        resume config p offset (t ++ '\n' :: w) = resume config next behind w)
  /-- Reading stops in the text, and not because the text is over. -/
  | stopped (items : List Item) (failure : Failure)
      (hcause : failure.cause.kind ≠ .misformedExpression)
      (hend : resume config p offset t = ⟨items, some failure⟩)
      (hmore : ∀ w, resume config p offset (t ++ '\n' :: w) = ⟨items, some failure⟩)

/-- What is behind a beginning decides, if reading gets to it with a line behind it and without. -/
theorem Passage.step {next : Progress} {behind : Nat} {s : List Char}
    (h : Passage config next behind s)
    (hend : resume config p offset t = resume config next behind s)
    (hmore : ∀ w, resume config p offset (t ++ '\n' :: w)
      = resume config next behind (s ++ '\n' :: w)) : Passage config p offset t := by
  cases h with
  | through last hlast hgo =>
      refine .through last (hend.trans hlast) fun w => ?_
      obtain ⟨place, hplace⟩ := hgo w
      exact ⟨place, (hmore w).trans hplace⟩
  | stopped items failure hcause hlast hgo =>
      exact .stopped items failure hcause (hend.trans hlast) fun w => (hmore w).trans (hgo w)

theorem kind_of_value_error {first : Char} {rest : List Char} {cause : ReadError.Cause}
    (h : SmallScheme.Atom.value first rest = .error cause) : cause.kind ≠ .misformedExpression := by
  simp only [SmallScheme.Atom.value] at h
  repeat' split at h
  all_goals cases h
  all_goals simp [ReadError.Cause.kind]

theorem kind_of_closeList_error {failure : Failure} (h : p.closeList offset = .error failure) :
    failure.cause.kind ≠ .misformedExpression := by
  obtain ⟨reversed, openLists⟩ := p
  cases openLists with
  | nil =>
      cases h
      simp [ReadError.Cause.kind]
  | cons inner outer =>
      cases hlone : loneComparison? inner.reversed.reverse with
      | none => simp [Progress.closeList, hlone] at h
      | some name =>
          obtain rfl : ⟨.loneOperator name, inner.start⟩ = failure := by
            simpa [Progress.closeList, hlone] using h
          simp [ReadError.Cause.kind]

theorem kind_of_openList_error {failure : Failure} {maxDepth : Nat}
    (h : p.openList maxDepth offset = .error failure) :
    failure.cause.kind ≠ .misformedExpression := by
  unfold Progress.openList at h
  split at h
  · cases h
    simp [ReadError.Cause.kind]
  · cases h

/-- Every text is read through, or reading stops in it, if it does not end in the middle of a line
end. -/
theorem passage (config : Config) (p : Progress) (offset : Nat) (t : List Char)
    (hlast : t.getLast? ≠ some '\r') : Passage config p offset t := by
  induction t using induction_on_beginning config.comments generalizing p offset with
  | nil =>
      refine .through p resume_nil fun w => ⟨offset + ('\n' : Char).utf8Size, ?_⟩
      exact resume_blank (by simp)
  | @blank c t hc ih =>
      refine (ih p (offset + c.utf8Size) (getLast?_ne_of_append (s := [c]) hlast)).step
        (resume_blank hc) fun w => ?_
      exact resume_blank hc
  | @comment body t hon hbody hend ih =>
      have hrest := getLast?_ne_of_append (s := ';' :: body) hlast
      refine (ih p (offset + 1 + Text.byteLength body) hrest).step
        (resume_comment hon hbody hend) fun w => ?_
      rw [List.cons_append, List.append_assoc]
      exact resume_comment hon hbody (hend.append_lineFeed w)
  | @opening t ih =>
      have hrest := getLast?_ne_of_append (s := ['(']) hlast
      cases hopen : p.openList config.maxDepth offset with
      | ok next =>
          refine (ih next (offset + 1) hrest).step ?_ fun w => ?_
          · rw [resume_opening, hopen]
          · rw [List.cons_append, resume_opening, hopen]
      | error failure =>
          refine .stopped p.reversed.reverse failure (kind_of_openList_error hopen) ?_ fun w => ?_
          · rw [resume_opening, hopen]
          · rw [List.cons_append, resume_opening, hopen]
  | @closing t ih =>
      have hrest := getLast?_ne_of_append (s := [')']) hlast
      cases hclose : p.closeList offset with
      | ok next =>
          refine (ih next (offset + 1) hrest).step ?_ fun w => ?_
          · rw [resume_closing, hclose]
          · rw [List.cons_append, resume_closing, hclose]
      | error failure =>
          refine .stopped p.reversed.reverse failure (kind_of_closeList_error hclose) ?_ fun w => ?_
          · rw [resume_closing, hclose]
          · rw [List.cons_append, resume_closing, hclose]
  | @strayBlank c t hblank hgap =>
      refine .stopped p.reversed.reverse ⟨.badCharacter c, offset⟩ (by simp [ReadError.Cause.kind])
        (resume_strayBlank hblank hgap) fun w => ?_
      exact resume_strayBlank hblank hgap
  | @atom c run t hatom hno ih =>
      have hrest := getLast?_ne_of_append (s := c :: run) hlast
      -- A comment starts with the line behind the text exactly if it starts without.
      have hno' : ∀ w, ¬CommentStarts config.comments c (run ++ (t ++ '\n' :: w)) := by
        rintro w ⟨hon, rfl, hends⟩
        rw [← List.append_assoc, lineEnds_append_lineFeed] at hends
        · exact hno ⟨hon, rfl, hends⟩
        · exact getLast?_ne_of_append (s := [';']) hlast
      cases hv : SmallScheme.Atom.value c run with
      | ok v =>
          refine (ih (p.deliver offset v) (offset + Text.byteLength (c :: run)) hrest).step ?_
            fun w => ?_
          · rw [resume_atom hatom hno, hv]
          · rw [List.append_assoc, resume_atom (hatom.append_lineFeed w) (hno' w), hv]
      | error cause =>
          refine .stopped p.reversed.reverse ⟨cause, offset⟩ (kind_of_value_error hv) ?_ fun w => ?_
          · rw [resume_atom hatom hno, hv]
            rfl
          · rw [List.append_assoc, resume_atom (hatom.append_lineFeed w) (hno' w), hv]
            rfl

/-! ## Reading behind what has been read -/

/-- The same lists are open, and more items have been read before them: items for the values `vs`.
Places may differ. -/
structure Progress.Behind (vs : List Value) (p q : Progress) : Prop where
  items : q.reversed.map (·.value) = p.reversed.map (·.value) ++ vs.reverse
  openLists : q.openLists.map (·.reversed) = p.openLists.map (·.reversed)

/-- The same has been read, behind items for the values `vs`. -/
structure Reading.Behind (vs : List Value) (r s : Reading) : Prop where
  items : s.items.map (·.value) = vs ++ r.items.map (·.value)
  failure : s.failure.map (·.cause) = r.failure.map (·.cause)

/-- Steps that behave alike whatever has been read before: both go on, or both fail for one
cause. -/
inductive Alike (vs : List Value) : Except Failure Progress → Except Failure Progress → Prop where
  | ok {p q : Progress} (h : p.Behind vs q) : Alike vs (.ok p) (.ok q)
  | error {f g : Failure} (h : g.cause = f.cause) : Alike vs (.error f) (.error g)

namespace Progress.Behind

variable {vs : List Value}

theorem ended (h : p.Behind vs q) {f g : Option Failure}
    (hfailure : g.map (·.cause) = f.map (·.cause)) :
    Reading.Behind vs ⟨p.reversed.reverse, f⟩ ⟨q.reversed.reverse, g⟩ where
  items := by simp [h.items]
  failure := hfailure

theorem finish (h : p.Behind vs q) : q.finish.map (·.cause) = p.finish.map (·.cause) := by
  have hlists := congrArg List.head? h.openLists
  obtain ⟨reversed, openLists⟩ := p
  obtain ⟨reversed', openLists'⟩ := q
  cases openLists <;> cases openLists' <;> simp [Progress.finish] at hlists ⊢

theorem deliver (h : p.Behind vs q) (start start' : Nat) (v : Value) :
    (p.deliver start v).Behind vs (q.deliver start' v) := by
  obtain ⟨items, openLists⟩ := h
  obtain ⟨reversed, lists⟩ := p
  obtain ⟨reversed', lists'⟩ := q
  cases lists with
  | nil =>
      obtain rfl : lists' = [] := by simpa using openLists
      exact ⟨by simpa [Progress.deliver] using items, rfl⟩
  | cons inner outer =>
      cases lists' with
      | nil => cases openLists
      | cons inner' outer' =>
          obtain ⟨hinner, houter⟩ := List.cons.inj openLists
          exact ⟨items, by simp [Progress.deliver, hinner, houter]⟩

theorem openList (h : p.Behind vs q) (maxDepth start start' : Nat) :
    Alike vs (p.openList maxDepth start) (q.openList maxDepth start') := by
  have hlength : q.openLists.length = p.openLists.length := by
    simpa using congrArg List.length h.openLists
  unfold Progress.openList
  rw [hlength]
  split
  · exact .error rfl
  · exact .ok ⟨h.items, by simp [h.openLists]⟩

theorem closeList (h : p.Behind vs q) (start start' : Nat) :
    Alike vs (p.closeList start) (q.closeList start') := by
  obtain ⟨items, openLists⟩ := h
  obtain ⟨reversed, lists⟩ := p
  obtain ⟨reversed', lists'⟩ := q
  cases lists with
  | nil =>
      obtain rfl : lists' = [] := by simpa using openLists
      exact .error rfl
  | cons inner outer =>
      cases lists' with
      | nil => cases openLists
      | cons inner' outer' =>
          obtain ⟨hinner, houter⟩ := List.cons.inj openLists
          have hbehind : Progress.Behind vs ⟨reversed, outer⟩ ⟨reversed', outer'⟩ := ⟨items, houter⟩
          simp only [Progress.closeList, hinner]
          cases loneComparison? inner.reversed.reverse with
          | some name => exact .error rfl
          | none => exact .ok (hbehind.deliver _ _ _)

end Progress.Behind

/-- A text is read alike whatever has been read before it, and wherever it stands. -/
theorem resume_behind {vs : List Value} (h : p.Behind vs q) (offset offset' : Nat) :
    (resume config p offset t).Behind vs (resume config q offset' t) := by
  induction t using induction_on_beginning config.comments generalizing p q offset offset' with
  | nil => exact h.ended h.finish
  | blank hc ih =>
      rw [resume_blank hc, resume_blank hc]
      exact ih h _ _
  | comment hon hbody hend ih =>
      rw [resume_comment hon hbody hend, resume_comment hon hbody hend]
      exact ih h _ _
  | opening ih =>
      rw [resume_opening, resume_opening]
      have hopen := h.openList config.maxDepth offset offset'
      generalize p.openList config.maxDepth offset = x at hopen ⊢
      generalize q.openList config.maxDepth offset' = y at hopen ⊢
      cases hopen with
      | ok hnext => exact ih hnext _ _
      | error hcause => exact h.ended (congrArg some hcause)
  | closing ih =>
      rw [resume_closing, resume_closing]
      have hclose := h.closeList offset offset'
      generalize p.closeList offset = x at hclose ⊢
      generalize q.closeList offset' = y at hclose ⊢
      cases hclose with
      | ok hnext => exact ih hnext _ _
      | error hcause => exact h.ended (congrArg some hcause)
  | strayBlank hblank hgap =>
      rw [resume_strayBlank hblank hgap, resume_strayBlank hblank hgap]
      exact h.ended rfl
  | @atom c run t hatom hno ih =>
      rw [resume_atom hatom hno, resume_atom hatom hno]
      cases SmallScheme.Atom.value c run with
      | ok v => exact ih (h.deliver _ _ v) _ _
      | error cause => exact h.ended rfl

/-! ## Every text that is read through can be completed -/

/-- The innermost open list can be closed. -/
def Progress.Closable (p : Progress) : Prop :=
  ∀ inner, p.openLists.head? = some inner → ¬IsLoneComparison inner.reversed.reverse

/-- Behind a value that is no symbol, a list is not a lone comparison symbol. -/
theorem Progress.closable_deliver {v : Value} (hv : ∀ name, v ≠ .symbol name) (start : Nat) :
    (p.deliver start v).Closable := by
  obtain ⟨reversed, openLists⟩ := p
  cases openLists with
  | nil => exact fun inner hinner => by cases hinner
  | cons first outer =>
      rintro inner hinner ⟨name, -, hlone⟩
      obtain rfl := Option.some.inj hinner
      have hsymbol : v = .symbol name ∧ first.reversed = [] := by
        simpa using congrArg List.reverse hlone
      exact hv name hsymbol.1

/-- As many parentheses as there are open lists close all of them, when the first of them closes
the innermost one. -/
theorem resume_closings (config : Config) (h : p.Closable) (offset : Nat) :
    ∃ items, resume config p offset (List.replicate p.openLists.length ')') = ⟨items, none⟩ := by
  induction hn : p.openLists.length generalizing p offset with
  | zero =>
      obtain ⟨reversed, openLists⟩ := p
      obtain rfl := List.length_eq_zero_iff.mp hn
      exact ⟨_, resume_nil⟩
  | succ n ih =>
      obtain ⟨reversed, openLists⟩ := p
      cases openLists with
      | nil => cases hn
      | cons inner outer =>
          have hclose : Progress.closeList ⟨reversed, inner :: outer⟩ offset
              = .ok (Progress.deliver ⟨reversed, outer⟩ inner.start
                  (.list inner.reversed.reverse)) := by
            simp [Progress.closeList, loneComparison?_eq_none.mpr (h inner rfl)]
          obtain ⟨items, hrest⟩ := ih
            (Progress.closable_deliver (p := ⟨reversed, outer⟩)
              (v := .list inner.reversed.reverse) (by simp) inner.start)
            (offset + 1) (by simpa using hn)
          refine ⟨items, ?_⟩
          rw [List.replicate_succ, resume_closing, hclose]
          exact hrest

/-- The atom `0` and the missing parentheses complete a text in the middle of a list. -/
theorem exists_completion (config : Config) (p : Progress) (offset : Nat) :
    ∃ items, resume config p offset ('0' :: List.replicate p.openLists.length ')')
      = ⟨items, none⟩ := by
  have hdigit : IsAtomChar '0' := by decide
  have hclose : ¬IsAtomChar ')' := by decide
  have hatom : Grammar.Atom ['0'] (List.replicate p.openLists.length ')') := by
    refine ⟨by simp, by simpa using hdigit, fun c hc => ?_⟩
    obtain rfl : c = ')' := List.eq_of_mem_replicate (List.mem_of_head? hc)
    exact hclose
  have hno : ¬CommentStarts config.comments '0' ([] ++ List.replicate p.openLists.length ')') := by
    rintro ⟨-, hsemicolon, -⟩
    revert hsemicolon
    decide
  have hzero : SmallScheme.Atom.value '0' [] = .ok (.number (.integer 0)) := by rfl
  have hclosable : (p.deliver offset (.number (.integer 0))).Closable :=
    Progress.closable_deliver (by simp) offset
  obtain ⟨items, hrest⟩ := resume_closings config hclosable (offset + Text.byteLength ['0'])
  rw [Progress.length_openLists_deliver] at hrest
  have hread : resume config p offset ('0' :: List.replicate p.openLists.length ')') = _ :=
    resume_atom hatom hno
  rw [hzero] at hread
  exact ⟨items, hread.trans hrest⟩

/-! ## Texts read line by line -/

variable {vs ws : List Value}

theorem toList_lines (t u : String) : (t ++ "\n" ++ u).toList = t.toList ++ '\n' :: u.toList := by
  simp

/-- Behind a text that is read as some values, a line is read as it is read alone, with these values
before. -/
theorem behind_of_readAll {t u : String} (ht : Compact t.toList) (hu : Compact u.toList)
    (h : readAll config t = .ok vs) :
    (resume config {} 0 u.toList).Behind vs
      (resume config {} 0 (Text.trim (t ++ "\n" ++ u).toList)) := by
  obtain ⟨items, rfl, hread⟩ := readAll_eq_ok_iff_reading.mp h
  rw [ht.trim_eq] at hread
  rw [toList_lines]
  by_cases hne : t.toList = []
  · have hline : Text.trim ('\n' :: u.toList) = u.toList := hu.trim_eq
    rw [hne, resume_nil] at hread
    obtain ⟨rfl, -⟩ := Reading.mk.inj hread
    rw [hne, List.nil_append, hline]
    exact ⟨rfl, rfl⟩
  rw [ht.trim_append_lineFeed hne, hu.trimEnd_eq]
  split
  · rename_i hempty
    rw [hempty, hread, resume_nil]
    exact ⟨by simp, rfl⟩
  · cases passage config {} 0 t.toList ht.getLast?_ne with
    | stopped items failure hcause hend hmore => cases hread.symm.trans hend
    | through next hend hmore =>
        obtain ⟨hitems, hfinish⟩ := Reading.mk.inj (hread.symm.trans hend)
        obtain ⟨place, hplace⟩ := hmore u.toList
        rw [hplace]
        refine resume_behind ⟨by simp [hitems], ?_⟩ 0 place
        -- No list is open where a successful reading ends.
        simpa [Progress.finish] using hfinish.symm

theorem readAll_line_of_ok {t u : String} (ht : Compact t.toList) (hu : Compact u.toList)
    (h : readAll config t = .ok vs) (hline : readAll config u = .ok ws) :
    readAll config (t ++ "\n" ++ u) = .ok (vs ++ ws) := by
  have hbehind := behind_of_readAll ht hu h
  obtain ⟨items, rfl, hread⟩ := readAll_eq_ok_iff_reading.mp hline
  rw [hu.trim_eq] at hread
  rw [hread] at hbehind
  generalize hboth : resume config {} 0 (Text.trim (t ++ "\n" ++ u).toList) = r at hbehind
  obtain ⟨items', failure'⟩ := r
  obtain rfl : failure' = none := by simpa using hbehind.failure
  exact readAll_eq_ok_iff_reading.mpr ⟨items', hbehind.items, hboth⟩

theorem readAll_line_of_error {t u : String} {e : ReadError} (ht : Compact t.toList)
    (hu : Compact u.toList) (h : readAll config t = .ok vs) (hline : readAll config u = .error e) :
    ∃ e', readAll config (t ++ "\n" ++ u) = .error e' ∧ e'.cause = e.cause := by
  have hbehind := behind_of_readAll ht hu h
  obtain ⟨items, failure, rfl, hread⟩ := readAll_eq_error_iff.mp hline
  rw [hu.trim_eq] at hread
  rw [hread] at hbehind
  generalize hboth : resume config {} 0 (Text.trim (t ++ "\n" ++ u).toList) = r at hbehind
  obtain ⟨items', failure'⟩ := r
  obtain ⟨failure', rfl, hcause⟩ := Option.map_eq_some_iff.mp hbehind.failure
  exact ⟨_, readAll_eq_error_iff.mpr ⟨items', failure', rfl, hboth⟩, hcause⟩

/-- What stops reading stops it with any lines behind. -/
theorem readAll_of_stopped {t : String} {items : List Item} {failure : Failure}
    (ht : Compact t.toList) (hend : resume config {} 0 t.toList = ⟨items, some failure⟩)
    (hmore : ∀ w, resume config {} 0 (t.toList ++ '\n' :: w) = ⟨items, some failure⟩)
    (w : String) :
    ∃ e, readAll config (t ++ "\n" ++ w) = .error e ∧ e.cause = failure.cause := by
  have hne : t.toList ≠ [] := by
    intro hnil
    rw [hnil, resume_nil] at hend
    cases hend
  refine ⟨_, readAll_eq_error_iff.mpr ⟨items, failure, rfl, ?_⟩, rfl⟩
  rw [toList_lines, ht.trim_append_lineFeed hne]
  split
  · exact hend
  · exact hmore _

/-- What is read through up to the middle of a list can be completed in the next line. -/
theorem exists_line {t : String} {next : Progress} (ht : Compact t.toList) (hne : t.toList ≠ [])
    (hmore : ∀ w, ∃ behind,
      resume config {} 0 (t.toList ++ '\n' :: w) = resume config next behind w) :
    ∃ w vs, readAll config (t ++ "\n" ++ w) = .ok vs := by
  obtain ⟨w, hw⟩ : ∃ w, w = '0' :: List.replicate next.openLists.length ')' := ⟨_, rfl⟩
  have hcompact : Compact w := by
    have hchars : ∀ c ∈ w, Text.isBlank c = false := by
      intro c hc
      rw [hw, List.mem_cons] at hc
      obtain rfl | hc := hc
      · decide
      · obtain rfl := List.eq_of_mem_replicate hc
        decide
    rintro c (hc | hc)
    · exact hchars c (List.mem_of_head? hc)
    · exact hchars c (List.mem_of_getLast? hc)
  have hnonempty : w ≠ [] := by simp [hw]
  obtain ⟨place, hplace⟩ := hmore w
  obtain ⟨items, hitems⟩ := exists_completion config next place
  refine ⟨String.ofList w, _, readAll_eq_ok_iff_reading.mpr ⟨items, rfl, ?_⟩⟩
  rw [toList_lines, String.toList_ofList, ht.trim_append_lineFeed hne, hcompact.trimEnd_eq,
    if_neg hnonempty, hplace, hw]
  exact hitems

/-- **Texts are read line by line.** Behind a text that is read, the next line adds the values that
it has alone, or fails as it fails alone. A text that cannot be read fails in the same way whatever
stands behind it, apart from a list that is still open at its end, and then some line completes
it. -/
theorem readAll_incremental (config : Config) (t u : String) (ht : Compact t.toList)
    (hu : Compact u.toList) :
    (∀ vs, readAll config t = .ok vs →
      (∀ ws, readAll config u = .ok ws → readAll config (t ++ "\n" ++ u) = .ok (vs ++ ws))
        ∧ ∀ e, readAll config u = .error e →
          ∃ e', readAll config (t ++ "\n" ++ u) = .error e' ∧ e'.kind = e.kind
            ∧ e'.found = e.found)
      ∧ ∀ e, readAll config t = .error e →
        (e.kind = .misformedExpression → ∃ w vs, readAll config (t ++ "\n" ++ w) = .ok vs)
          ∧ (e.kind ≠ .misformedExpression →
            ∀ w, ∃ e', readAll config (t ++ "\n" ++ w) = .error e' ∧ e'.kind = e.kind
              ∧ e'.found = e.found) := by
  refine ⟨fun vs hvs => ⟨fun ws hws => readAll_line_of_ok ht hu hvs hws, fun e he => ?_⟩,
    fun e he => ?_⟩
  · obtain ⟨e', herror, hcause⟩ := readAll_line_of_error ht hu hvs he
    exact ⟨e', herror, congrArg ReadError.Cause.kind hcause, congrArg ReadError.Cause.found hcause⟩
  · obtain ⟨items, failure, rfl, hread⟩ := readAll_eq_error_iff.mp he
    rw [ht.trim_eq] at hread
    have hne : t.toList ≠ [] := by
      intro hnil
      rw [hnil, resume_nil] at hread
      cases hread
    cases passage config {} 0 t.toList ht.getLast?_ne with
    | through next hend hmore =>
        obtain ⟨-, hfinish⟩ := Reading.mk.inj (hread.symm.trans hend)
        obtain ⟨inner, -, rfl⟩ := Option.map_eq_some_iff.mp hfinish.symm
        exact ⟨fun _ => exists_line ht hne hmore, fun hkind => absurd rfl hkind⟩
    | stopped items' failure' hcause hend hmore =>
        obtain ⟨rfl, hfailure⟩ := Reading.mk.inj (hread.symm.trans hend)
        obtain rfl := Option.some.inj hfailure
        refine ⟨fun hkind => absurd hkind hcause, fun _ w => ?_⟩
        obtain ⟨e, herror, hsame⟩ := readAll_of_stopped ht hend hmore w
        exact ⟨e, herror, congrArg ReadError.Cause.kind hsame,
          congrArg ReadError.Cause.found hsame⟩

/-- A comparison symbol in a list that is still open, with a comment behind it, can be completed
although no list may be opened in this one. -/
theorem readAll_incremental_open_list :
    Compact "(< ;".toList ∧ Compact "1".toList
      ∧ (∃ e, readAll ⟨true, 1⟩ "(< ;" = .error e ∧ e.kind = .misformedExpression)
      ∧ ∃ w vs, readAll ⟨true, 1⟩ ("(< ;" ++ "\n" ++ w) = .ok vs := by
  have ht : Compact "(< ;".toList := by
    rintro c (hc | hc)
    · obtain rfl : '(' = c := by simpa using hc
      decide
    · obtain rfl : ';' = c := by simpa using hc
      decide
  have hu : Compact "1".toList := by
    intro c hc
    obtain rfl : '1' = c := by simpa using hc
    decide
  obtain ⟨e, he, hkind⟩ :
      ∃ e, readAll ⟨true, 1⟩ "(< ;" = .error e ∧ e.kind = .misformedExpression := ⟨_, rfl, rfl⟩
  exact ⟨ht, hu, ⟨e, he, hkind⟩,
    ((readAll_incremental ⟨true, 1⟩ "(< ;" "1" ht hu).2 e he).1 hkind⟩

end Reader

end SmallScheme
