import SmallScheme.Proofs.Reader.Acceptance

/-!
# One item and all items

Where one item is asked for, a text is read as where all are asked for, and the answers differ in
what they make of the number of items. One item and nothing else is the answer in both. No item is
too few and a second item is one too many.

When reading fails, it depends on how many items stand in front of the place where it does. This is
said without a reader: they are the items that the grammar derives at the beginning of the text, up
to a place where it derives no further one (`Grammar.Leading`). The reader takes in exactly these
(`map_items_of_leading`). With none or one of them the failure itself is reported, and with two or
more the second one is, as in a text that can be read (`readOne_follows_readAll`).
-/

namespace SmallScheme

/-- The items at the beginning of a text, up to the first place where there is no further one. -/
structure Grammar.Leading (comments : Bool) (depth : Nat) (t : List Char) (vs : List Value)
    (r : List Char) : Prop where
  items : Items comments depth t vs r
  stops : ∀ v us s, ¬Items comments depth r (v :: us) s

namespace Reader

open Grammar

variable {config : Config} {text : String} {t r : List Char} {vs : List Value}

/-! ## The items in front of a failure -/

theorem map_items_of_leading (h : Leading config.comments config.maxDepth t vs r) :
    (reading config t).items.map (·.value) = vs := by
  obtain ⟨items, rfl, front, -, hresume⟩ := resume_of_items h.items {} 0 (by simp)
  rw [Progress.deliverAll_top] at hresume
  obtain ⟨ws, s, hitems, hvalues, -⟩ :=
    items_of_resume config ⟨items.reverse ++ [], []⟩ (0 + Text.byteLength front) r
  cases ws with
  | nil =>
      rw [reading_eq_resume, hresume, hvalues]
      simp [Progress.pending]
  | cons v us => exact absurd hitems (h.stops v us s)

theorem exists_leading (config : Config) (t : List Char) :
    ∃ vs r, Leading config.comments config.maxDepth t vs r := by
  obtain ⟨vs, r, hitems, hvalues, -⟩ := items_of_resume config {} 0 t
  refine ⟨vs, r, hitems, fun v us s hmore => ?_⟩
  -- A further item would be read as well, behind all that have been read.
  obtain ⟨front, rfl, before, -, hfront⟩ := resume_of_items hitems {} 0 (by simp)
  rw [Progress.deliverAll_top] at hfront
  obtain ⟨back, hback, between, -, hrest⟩ :=
    resume_of_items hmore ⟨front.reverse ++ [], []⟩ (0 + Text.byteLength before) (by simp)
  rw [Progress.deliverAll_top] at hrest
  have hread : (front ++ back).length ≤ (resume config {} 0 t).items.length := by
    have hkept := prefix_items_resume config ⟨back.reverse ++ (front.reverse ++ []), []⟩
      (0 + Text.byteLength before + Text.byteLength between) s
    rw [hfront, hrest]
    simpa using hkept.length_le
  have hfew := congrArg List.length hvalues
  have hnew := congrArg List.length hback
  simp only [Progress.pending, List.length_map, List.length_append, List.length_cons,
    List.length_reverse, List.length_nil] at hread hfew hnew
  omega

/-! ## The two answers -/

theorem readOne_of_readAll_nil (h : readAll config text = .ok []) :
    ∃ e, readOne config text = .error e ∧ e.kind = .misformedExpression := by
  obtain ⟨items, hitems, hresume⟩ := readAll_eq_ok_iff_reading.mp h
  obtain rfl := List.map_eq_nil_iff.mp hitems
  simp only [readOne, reading_eq_resume, hresume]
  exact ⟨_, rfl, rfl⟩

/-- A second item is left over, whatever comes behind it. -/
theorem readOne_of_two_le (h : 2 ≤ (reading config (Text.trim text.toList)).items.length) :
    ∃ e, readOne config text = .error e ∧ e.kind = .unexpectedDataAfterParse := by
  simp only [readOne]
  generalize reading config (Text.trim text.toList) = outcome at h ⊢
  obtain ⟨items, failure⟩ := outcome
  rcases items with _ | ⟨first, _ | ⟨second, rest⟩⟩
  · simp at h
  · simp at h
  · exact ⟨_, rfl, rfl⟩

theorem readOne_of_readAll_two_le (h : readAll config text = .ok vs) (hlength : 2 ≤ vs.length) :
    ∃ e, readOne config text = .error e ∧ e.kind = .unexpectedDataAfterParse := by
  obtain ⟨items, rfl, hresume⟩ := readAll_eq_ok_iff_reading.mp h
  refine readOne_of_two_le ?_
  rw [reading_eq_resume, hresume]
  simpa using hlength

/-- What goes wrong in the first or the second item is reported in its own right. -/
theorem readOne_of_readAll_error {e : ReadError} (h : readAll config text = .error e)
    (hfew : (reading config (Text.trim text.toList)).items.length < 2) :
    readOne config text = .error e := by
  simp only [readOne]
  simp only [readAll] at h
  generalize reading config (Text.trim text.toList) = outcome at h hfew ⊢
  obtain ⟨items, failure⟩ := outcome
  cases failure with
  | none => cases h
  | some failure =>
      rcases items with _ | ⟨first, _ | ⟨second, rest⟩⟩
      · simpa using h
      · simpa using h
      · simp only [List.length_cons] at hfew
        omega

/-- **One item is read as all items are.** It is the answer exactly if it is all that the text
holds. A text of no item is misformed, and of a text with more items the second one is unexpected.
If reading fails, the one answer is the other as long as less than two items stand in front of the
place, and again the second item is unexpected if there are more. -/
theorem readOne_follows_readAll (config : Config) (text : String) :
    (∀ v, readOne config text = .ok v ↔ readAll config text = .ok [v]) ∧
    (readAll config text = .ok [] →
      ∃ e, readOne config text = .error e ∧ e.kind = .misformedExpression) ∧
    (∀ vs, readAll config text = .ok vs → 2 ≤ vs.length →
      ∃ e, readOne config text = .error e ∧ e.kind = .unexpectedDataAfterParse) ∧
    ∀ e, readAll config text = .error e →
      (∃ vs r, Leading config.comments config.maxDepth (Text.trim text.toList) vs r) ∧
      ∀ vs r, Leading config.comments config.maxDepth (Text.trim text.toList) vs r →
        (vs.length < 2 → readOne config text = .error e) ∧
        (2 ≤ vs.length →
          ∃ e', readOne config text = .error e' ∧ e'.kind = .unexpectedDataAfterParse) := by
  refine ⟨fun v => readOne_eq_ok_iff, readOne_of_readAll_nil, fun vs => readOne_of_readAll_two_le,
    fun e he => ⟨exists_leading config _, fun vs r hleading => ?_⟩⟩
  have hlength : (reading config (Text.trim text.toList)).items.length = vs.length := by
    rw [← map_items_of_leading hleading, List.length_map]
  exact ⟨fun hfew => readOne_of_readAll_error he (by omega),
    fun hmany => readOne_of_two_le (by omega)⟩

/-- No item begins with a closing parenthesis. -/
theorem not_items_stray {comments : Bool} {depth : Nat} (v : Value) (us : List Value)
    (s : List Char) : ¬Items comments depth [')'] (v :: us) s := by
  intro h
  have hgap : ∀ {u}, Gap comments [')'] u → u = [')'] := by
    intro u hu
    cases hu with
    | nil => rfl
    | blank hc => simp at hc
  cases h with
  | @atom _ _ run _ _ _ _ hrun hatom =>
      have htext := hgap hrun
      cases run with
      | nil => exact hatom.nonempty rfl
      | cons c run =>
          obtain rfl := (List.cons.inj htext).1
          exact (hatom.run ')' List.mem_cons_self).2.2 rfl
  | list hlist => cases hgap hlist

/-- Behind one item a stray parenthesis is reported, and behind two items the second of them is,
which is what happens without the parenthesis as well. -/
theorem readOne_follows_readAll_stray :
    (∃ e, readAll {} "() )" = .error e ∧
      Leading false 128 (Text.trim "() )".toList) [.list []] [')'] ∧
      readOne {} "() )" = .error e) ∧
    (∃ e, readAll {} "() () )" = .error e ∧
      Leading false 128 (Text.trim "() () )".toList) [.list [], .list []] [')'] ∧
      ∃ e', readOne {} "() () )" = .error e' ∧ e'.kind = .unexpectedDataAfterParse) ∧
    readAll {} "() ()" = .ok [.list [], .list []] ∧
    ∃ e, readOne {} "() ()" = .error e ∧ e.kind = .unexpectedDataAfterParse := by
  have hlone : ¬IsLoneComparison [] := by simp [IsLoneComparison]
  have hspace {t : List Char} : Gap false (' ' :: t) t := .blank (by simp) (.nil t)
  have hone : Leading false 128 (Text.trim "() )".toList) [.list []] [')'] := by
    have htext : Text.trim "() )".toList = ['(', ')', ' ', ')'] := by decide
    rw [htext]
    exact ⟨.list (.nil _) (.nil (.nil _)) hlone (.nil hspace), not_items_stray⟩
  have htwo : Leading false 128 (Text.trim "() () )".toList) [.list [], .list []] [')'] := by
    have htext : Text.trim "() () )".toList = ['(', ')', ' ', '(', ')', ' ', ')'] := by decide
    rw [htext]
    exact ⟨.list (.nil _) (.nil (.nil _)) hlone
      (.list hspace (.nil (.nil _)) hlone (.nil hspace)), not_items_stray⟩
  obtain ⟨e, he⟩ : ∃ e, readAll {} "() )" = .error e := ⟨_, rfl⟩
  obtain ⟨e', he'⟩ : ∃ e, readAll {} "() () )" = .error e := ⟨_, rfl⟩
  have hall : readAll {} "() ()" = .ok [.list [], .list []] := rfl
  obtain ⟨-, -, -, hfirst⟩ := readOne_follows_readAll {} "() )"
  obtain ⟨-, -, -, hsecond⟩ := readOne_follows_readAll {} "() () )"
  obtain ⟨-, -, hmany, -⟩ := readOne_follows_readAll {} "() ()"
  exact ⟨⟨e, he, hone, ((hfirst e he).2 _ _ hone).1 (by decide)⟩,
    ⟨e', he', htwo, ((hsecond e' he').2 _ _ htwo).2 (by decide)⟩, hall, hmany _ hall (by decide)⟩

end Reader

end SmallScheme
