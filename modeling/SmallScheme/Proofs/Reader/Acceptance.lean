import SmallScheme.Proofs.Reader.Resume

/-!
# The reader accepts its grammar

A text is read successfully exactly when the grammar derives it, and then the values read are those
of the derivation (`readAll_eq_ok_iff_items`).

From reading to derivation, one induction on how much text is left reads off the items up to the
place where the innermost list is closed, or where reading fails (`items_of_resume`). What is behind
that place is the business of the enclosing lists, and `Settles` says what reading makes of it. The
induction is used twice at an opening parenthesis: for the elements of the list, and for what
follows the list.

From derivation to reading, the induction is on the derivation (`resume_of_items`): a derived phrase
is passed over, whatever stands behind it, and its values are delivered in order.
-/

namespace SmallScheme

namespace Reader

open Grammar

variable {config : Config} {p : Progress} {offset depth : Nat} {t r : List Char}
  {vs : List Value}

/-! ## From reading to derivation -/

/-- What becomes of the items `vs` that the innermost level still gets, and of the text `r` behind
them. At the top level they are the last items that are read, and the text is over if reading
succeeds. In a list, reading either fails before the list is closed, with no item more, or the list
is closed here and reading goes on behind it. -/
def Settles (config : Config) (outcome : Reading) (p : Progress) (vs : List Value)
    (r : List Char) : Prop :=
  match p.openLists with
  | [] => outcome.items.map (·.value) = p.pending ++ vs ∧ (outcome.failure = none → r = [])
  | inner :: outer => (outcome.items = p.reversed.reverse ∧ outcome.failure ≠ none)
      ∨ ∃ s offset, r = ')' :: s ∧ ¬IsLoneComparison (p.pending ++ vs)
        ∧ resume config (({ p with openLists := outer } : Progress).deliver inner.start
            (.list (p.pending ++ vs))) offset s = outcome

variable {outcome : Reading}

theorem Settles.of_deliver {start : Nat} {v : Value}
    (h : Settles config outcome (p.deliver start v) vs r) :
    Settles config outcome p (v :: vs) r := by
  obtain ⟨reversed, openLists⟩ := p
  cases openLists with
  | nil => simpa [Settles, Progress.deliver, Progress.pending] using h
  | cons inner outer => simpa [Settles, Progress.deliver, Progress.pending] using h

theorem Settles.of_failed (hitems : outcome.items = p.reversed.reverse)
    (hfailure : outcome.failure ≠ none) : Settles config outcome p [] r := by
  obtain ⟨reversed, openLists⟩ := p
  cases openLists with
  | nil => exact ⟨by simp [hitems, Progress.pending], fun h => absurd h hfailure⟩
  | cons inner outer => exact .inl ⟨hitems, hfailure⟩

/-- Reading has found items up to where the innermost level ends, or up to the first place where it
finds none. -/
theorem items_of_resume (config : Config) (p : Progress) (offset : Nat) (t : List Char) :
    ∃ vs r, Items config.comments (config.maxDepth - p.openLists.length) t vs r
      ∧ Settles config (resume config p offset t) p vs r := by
  induction hn : t.length using Nat.strongRecOn generalizing t p offset with
  | ind n ih =>
      subst hn
      cases beginning config.comments t with
      | nil =>
          obtain ⟨reversed, openLists⟩ := p
          refine ⟨[], [], .nil (.nil _), ?_⟩
          rw [resume_nil]
          cases openLists with
          | nil => exact ⟨by simp [Progress.pending], fun _ => rfl⟩
          | cons inner outer => exact .of_failed rfl (by simp [Progress.finish])
      | @blank c s hc =>
          rw [resume_blank hc]
          obtain ⟨vs, r, hitems, hsettles⟩ := ih s.length (by simp) p _ s rfl
          exact ⟨vs, r, hitems.of_gap (.blank hc), hsettles⟩
      | @comment body s hon hbody hend =>
          rw [resume_comment hon hbody hend]
          have hless : s.length < (';' :: (body ++ s)).length := by
            rw [List.length_cons, List.length_append]
            omega
          obtain ⟨vs, r, hitems, hsettles⟩ := ih _ hless p _ _ rfl
          exact ⟨vs, r, hitems.of_gap (.comment hon hbody hend), hsettles⟩
      | opening s =>
          rw [resume_opening, Progress.openList]
          split
          · rename_i next hopen
            split at hopen
            · cases hopen
            rename_i hroom
            obtain rfl := Except.ok.inj hopen
            obtain ⟨us, u, hin, hsettles⟩ :=
              ih _ (by simp) { p with openLists := ⟨offset, []⟩ :: p.openLists } (offset + 1) s rfl
            rcases hsettles with ⟨hitems, hfailure⟩ | ⟨s', offset', rfl, hlone, hrest⟩
            · exact ⟨[], _, .nil (.nil _), .of_failed hitems hfailure⟩
            have hlen := hin.length_le
            rw [← hrest]
            obtain ⟨vs, r, hitems, hsettles⟩ :=
              ih s'.length (by simp only [List.length_cons] at hlen ⊢; omega)
                (p.deliver offset (.list us)) offset' s' rfl
            have hdepth : config.maxDepth - p.openLists.length
                = config.maxDepth - (p.openLists.length + 1) + 1 := by omega
            refine ⟨.list us :: vs, r, ?_, hsettles.of_deliver⟩
            rw [hdepth]
            refine .list (.nil _) hin hlone ?_
            rw [← hdepth]
            simpa using hitems
          · exact ⟨[], _, .nil (.nil _), .of_failed rfl (by simp)⟩
      | closing s =>
          obtain ⟨reversed, openLists⟩ := p
          rw [resume_closing, Progress.closeList]
          cases openLists with
          | nil => exact ⟨[], _, .nil (.nil _), .of_failed rfl (by simp)⟩
          | cons inner outer =>
              cases hlone : loneComparison? inner.reversed.reverse with
              | some name =>
                  simp only [hlone]
                  exact ⟨[], _, .nil (.nil _), .of_failed rfl (by simp)⟩
              | none =>
                  simp only [hlone]
                  refine ⟨[], ')' :: s, .nil (.nil _), .inr ⟨s, offset + 1, rfl, ?_, ?_⟩⟩
                  · simpa [Progress.pending] using loneComparison?_eq_none.mp hlone
                  · simp [Progress.pending]
      | strayBlank s hblank hgap =>
          rw [resume_strayBlank hblank hgap]
          exact ⟨[], _, .nil (.nil _), .of_failed rfl (by simp [stopped])⟩
      | @atom c run u hatom hno =>
          rw [resume_atom hatom hno]
          cases hv : SmallScheme.Atom.value c run with
          | error cause => exact ⟨[], _, .nil (.nil _), .of_failed rfl (by simp [stopped])⟩
          | ok v =>
              have hless : u.length < (c :: run ++ u).length := by
                rw [List.length_append, List.length_cons]
                omega
              obtain ⟨vs, r, hitems, hsettles⟩ := ih _ hless (p.deliver offset v) _ _ rfl
              refine ⟨v :: vs, r, ?_, hsettles.of_deliver⟩
              exact .atom (.nil _) hatom (value_eq_ok_iff.mp hv) (by simpa using hitems)

/-! ## From derivation to reading -/

/-- A gap is passed over. -/
theorem resume_of_gap (h : Gap config.comments t r) (offset : Nat) :
    ∃ front, t = front ++ r ∧
      ∀ p, resume config p offset t = resume config p (offset + Text.byteLength front) r := by
  induction h generalizing offset with
  | nil t => exact ⟨[], rfl, fun p => rfl⟩
  | @blank c t r hc h ih =>
      obtain ⟨front, rfl, hrest⟩ := ih (offset + c.utf8Size)
      refine ⟨c :: front, rfl, fun p => ?_⟩
      rw [resume_blank hc, hrest, Text.byteLength_cons, Nat.add_assoc]
  | @comment body t r hon hbody hend h ih =>
      obtain ⟨front, rfl, hrest⟩ := ih (offset + 1 + Text.byteLength body)
      have hsize : (';' : Char).utf8Size = 1 := by decide
      refine ⟨';' :: (body ++ front), by simp, fun p => ?_⟩
      rw [resume_comment hon hbody hend, hrest, Text.byteLength_cons, Text.byteLength_append, hsize]
      simp only [Nat.add_assoc]

namespace Progress

def deliverAll (p : Progress) (items : List Item) : Progress :=
  items.foldl (fun p i => p.deliver i.start i.value) p

theorem deliverAll_inner (reversed : List Item) (start : Nat) (elements : List Value)
    (outer : List OpenList) (items : List Item) :
    deliverAll ⟨reversed, ⟨start, elements⟩ :: outer⟩ items
      = ⟨reversed, ⟨start, (items.map (·.value)).reverse ++ elements⟩ :: outer⟩ := by
  induction items generalizing elements with
  | nil => rfl
  | cons i items ih =>
      have hstep : deliverAll ⟨reversed, ⟨start, elements⟩ :: outer⟩ (i :: items)
          = deliverAll ⟨reversed, ⟨start, i.value :: elements⟩ :: outer⟩ items := rfl
      rw [hstep, ih]
      simp

theorem deliverAll_top (reversed items : List Item) :
    deliverAll ⟨reversed, []⟩ items = ⟨items.reverse ++ reversed, []⟩ := by
  induction items generalizing reversed with
  | nil => rfl
  | cons i items ih =>
      have hstep : deliverAll ⟨reversed, []⟩ (i :: items) = deliverAll ⟨i :: reversed, []⟩ items :=
        rfl
      rw [hstep, ih]
      simp

@[simp] theorem length_openLists_deliverAll (p : Progress) (items : List Item) :
    (p.deliverAll items).openLists.length = p.openLists.length := by
  induction items generalizing p with
  | nil => rfl
  | cons i items ih => exact (ih (p.deliver i.start i.value)).trans (length_openLists_deliver ..)

/-- A list that is opened, filled and closed is delivered as a whole. -/
theorem closeList_deliverAll (start : Nat) (items : List Item)
    (hlone : ¬IsLoneComparison (items.map (·.value))) :
    closeList (deliverAll { p with openLists := ⟨start, []⟩ :: p.openLists } items) offset
      = .ok (p.deliver start (.list (items.map (·.value)))) := by
  rw [deliverAll_inner]
  simp [closeList, loneComparison?_eq_none.mpr hlone]

end Progress

theorem ne_semicolon_of_denotes {c : Char} {v : Value} (h : Denotes (c :: t) v) : c ≠ ';' := by
  have hdigit : (';' : Char).isDigit = false := by decide
  have hletter : Text.isLetter ';' = false := by decide
  rintro rfl
  cases h with
  | true h => simp at h
  | false h => simp at h
  | number hbegin hchars hn => simp [BeginsNumber, hdigit] at hbegin
  | symbol hbegin hnot => simp [BeginsSymbol, hletter] at hbegin

/-- An atom that stands for a value is passed over, and the value is delivered. -/
theorem resume_of_denotes {text u : List Char} {v : Value} (hatom : Grammar.Atom text u)
    (hv : Denotes text v) (p : Progress) (offset : Nat) :
    resume config p offset (text ++ u)
      = resume config (p.deliver offset v) (offset + Text.byteLength text) u := by
  cases text with
  | nil => exact absurd rfl hatom.nonempty
  | cons c run =>
      have hno : ¬CommentStarts config.comments c (run ++ u) := fun hcomment =>
        ne_semicolon_of_denotes hv hcomment.2.1
      rw [resume_atom hatom hno, value_eq_ok_iff.mpr hv]

/-- A list is passed over and delivered if its elements are passed over up to its end. -/
theorem resume_of_closed {s front u : List Char} {elements : List Item}
    (hroom : p.openLists.length < config.maxDepth)
    (hlone : ¬IsLoneComparison (elements.map (·.value)))
    (hin : resume config { p with openLists := ⟨offset, []⟩ :: p.openLists } (offset + 1) s
      = resume config (Progress.deliverAll { p with openLists := ⟨offset, []⟩ :: p.openLists } elements)
          (offset + 1 + Text.byteLength front) (')' :: u)) :
    resume config p offset ('(' :: s)
      = resume config (p.deliver offset (.list (elements.map (·.value))))
          (offset + Text.byteLength ('(' :: (front ++ [')']))) u := by
  have hsize : Text.byteLength ('(' :: (front ++ [')'])) = 1 + Text.byteLength front + 1 := by
    rw [Text.byteLength_cons, Text.byteLength_append]
    rfl
  rw [resume_opening_of_lt hroom, hin, resume_closing,
    Progress.closeList_deliverAll offset elements hlone, hsize]
  simp only [Nat.add_assoc]

/-- Derived items are passed over and delivered. -/
theorem resume_of_items (h : Items config.comments depth t vs r) (p : Progress) (offset : Nat)
    (hroom : p.openLists.length + depth ≤ config.maxDepth) :
    ∃ items : List Item, items.map (·.value) = vs ∧ ∃ front, t = front ++ r
      ∧ resume config p offset t
        = resume config (p.deliverAll items) (offset + Text.byteLength front) r := by
  induction h generalizing p offset with
  | nil hgap =>
      obtain ⟨front, rfl, hskip⟩ := resume_of_gap hgap offset
      exact ⟨[], rfl, front, rfl, hskip p⟩
  | @atom depth t text u r v vs hgap hatom hv h ih =>
      obtain ⟨gap, rfl, hskip⟩ := resume_of_gap hgap offset
      obtain ⟨items, rfl, front, rfl, hrest⟩ := ih (p.deliver (offset + Text.byteLength gap) v)
        (offset + Text.byteLength gap + Text.byteLength text) (by simpa using hroom)
      refine ⟨⟨offset + Text.byteLength gap, v⟩ :: items, rfl, gap ++ text ++ front, by simp, ?_⟩
      rw [hskip, resume_of_denotes hatom hv, hrest]
      simp only [Text.byteLength_append, Nat.add_assoc]
      rfl
  | @list depth t s u r us vs hgap hin hlone h ih₁ ih₂ =>
      obtain ⟨gap, rfl, hskip⟩ := resume_of_gap hgap offset
      generalize hstart : offset + Text.byteLength gap = start at hskip
      obtain ⟨elements, rfl, inner, rfl, hinside⟩ :=
        ih₁ { p with openLists := ⟨start, []⟩ :: p.openLists } (start + 1)
          (by simp only [List.length_cons]; omega)
      obtain ⟨items, rfl, front, rfl, hrest⟩ :=
        ih₂ (p.deliver start (.list (elements.map (·.value))))
          (start + Text.byteLength ('(' :: (inner ++ [')']))) (by simpa using hroom)
      refine ⟨⟨start, .list (elements.map (·.value))⟩ :: items, rfl,
        gap ++ '(' :: (inner ++ [')']) ++ front, by simp, ?_⟩
      rw [hskip, resume_of_closed (by omega) hlone hinside, hrest, ← hstart]
      simp only [Text.byteLength_append, Nat.add_assoc]
      rfl

/-! ## Acceptance -/

theorem readAll_eq_ok_iff_reading {text : String} :
    readAll config text = .ok vs ↔
      ∃ items : List Item, items.map (·.value) = vs
        ∧ resume config {} 0 (Text.trim text.toList) = ⟨items, none⟩ := by
  simp only [readAll, reading_eq_resume]
  generalize resume config {} 0 (Text.trim text.toList) = reading
  obtain ⟨items, failure⟩ := reading
  cases failure with
  | none => simp
  | some failure => simp

theorem readAll_eq_error_iff {text : String} {e : ReadError} :
    readAll config text = .error e ↔
      ∃ items failure, failure.inText (Text.trim text.toList) = e
        ∧ resume config {} 0 (Text.trim text.toList) = ⟨items, some failure⟩ := by
  simp only [readAll, reading_eq_resume]
  generalize resume config {} 0 (Text.trim text.toList) = reading
  obtain ⟨items, failure⟩ := reading
  cases failure with
  | none => simp
  | some failure => simp

/-- One item is read alone exactly when it is all that is read. -/
theorem readOne_eq_ok_iff {text : String} {v : Value} :
    readOne config text = .ok v ↔ readAll config text = .ok [v] := by
  simp only [readOne, readAll]
  generalize reading config (Text.trim text.toList) = reading
  obtain ⟨items, failure⟩ := reading
  cases failure with
  | none =>
      match items with
      | [] => simp
      | [item] => simp
      | _ :: _ :: _ => simp
  | some failure =>
      match items with
      | [] => simp
      | [item] => simp
      | _ :: _ :: _ => simp

theorem items_of_readAll {text : String} (h : readAll config text = .ok vs) :
    Items config.comments config.maxDepth (Text.trim text.toList) vs [] := by
  obtain ⟨items, rfl, hresume⟩ := readAll_eq_ok_iff_reading.mp h
  obtain ⟨vs, r, hitems, hsettles⟩ := items_of_resume config {} 0 (Text.trim text.toList)
  rw [hresume] at hsettles
  obtain ⟨hvalues, hend⟩ := hsettles
  obtain rfl := hend rfl
  rw [hvalues]
  exact hitems

theorem readAll_of_items {text : String}
    (h : Items config.comments config.maxDepth (Text.trim text.toList) vs []) :
    readAll config text = .ok vs := by
  obtain ⟨items, rfl, front, -, hresume⟩ := resume_of_items h {} 0 (by simp)
  refine readAll_eq_ok_iff_reading.mpr ⟨items, rfl, ?_⟩
  rw [hresume, resume_nil, Progress.deliverAll_top]
  simp [Progress.finish]

/-- **The reader accepts exactly its grammar.** A text is read as some values if and only if, without
the blanks at its ends, it is a gap and items for these values, each with a gap behind it. -/
theorem readAll_eq_ok_iff_items (config : Config) (text : String) (vs : List Value) :
    readAll config text = .ok vs ↔
      Items config.comments config.maxDepth (Text.trim text.toList) vs [] :=
  ⟨items_of_readAll, readAll_of_items⟩

end Reader

end SmallScheme
