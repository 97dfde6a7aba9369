import SmallScheme.Proofs.Reader.RoundTrip

/-!
# Reading with less allowed

A configuration allows less than another one if its depth limit is smaller, or if it knows no
comments. Less is read then, and nothing is read differently: both readings go the same way until
the stricter one meets what it does not allow, and it stops there (`Reading.Cut`). An answer that
is not the refusal of that one thing is therefore the answer of the more liberal configuration too
(`Reading.Cut.readAll_eq`, `Reading.Cut.readOne_eq`).

A smaller depth limit refuses a list that would be one too deep. As this depends on the values
alone, a text that is read under the larger limit is read under the smaller one exactly if its
values are not nested deeper than that (`depth_limit_cuts_off`). Without comments a semicolon is
refused where an item could begin, and everywhere else, inside atoms, it is a character like others
(`comments_extend`).
-/

namespace SmallScheme

namespace Reader

open Grammar

/-! ## Readings that are cut off -/

/-- Two readings that are the same, unless the first one stops for a cause. The other one may then
go on in any way. -/
inductive Reading.Cut (cause : ReadError.Cause) : Reading → Reading → Prop
  | same (r : Reading) : Cut cause r r
  | stopped {items : List Item} {offset : Nat} {r : Reading} (h : items <+: r.items) :
      Cut cause ⟨items, some ⟨cause, offset⟩⟩ r

namespace Reading.Cut

variable {cause : ReadError.Cause} {strict liberal : Config} {text : String}
variable (h : Reading.Cut cause (reading strict (Text.trim text.toList))
  (reading liberal (Text.trim text.toList)))
include h

/-- The answer with less allowed is the answer with more allowed, or the refusal. -/
theorem readAll_eq : readAll liberal text = readAll strict text ∨
    ∃ e, readAll strict text = .error e ∧ e.cause = cause := by
  simp only [readAll]
  generalize reading strict (Text.trim text.toList) = r at h ⊢
  generalize reading liberal (Text.trim text.toList) = s at h ⊢
  cases h with
  | same => exact .inl rfl
  | stopped => exact .inr ⟨_, rfl, rfl⟩

theorem readOne_eq : readOne liberal text = readOne strict text ∨
    ∃ e, readOne strict text = .error e ∧ e.cause = cause := by
  simp only [readOne]
  generalize reading strict (Text.trim text.toList) = r at h ⊢
  generalize reading liberal (Text.trim text.toList) = s at h ⊢
  cases h with
  | same => exact .inl rfl
  | @stopped items offset s hitems =>
      obtain ⟨more, hmore⟩ := hitems
      rcases items with _ | ⟨first, _ | ⟨second, rest⟩⟩
      · exact .inr ⟨_, rfl, rfl⟩
      · exact .inr ⟨_, rfl, rfl⟩
      · -- The second item is left over before the readings part.
        refine .inl ?_
        rw [← hmore]
        rfl

end Reading.Cut

/-! ## The depth limit -/

variable {comments : Bool} {limit limit' : Nat}

/-- A larger limit makes a difference to one lexeme only, the opening parenthesis of a list that is
too deep under the smaller one. -/
theorem Progress.feed_of_le (h : limit ≤ limit') (p : Progress) (l : Lexeme.Located) :
    p.feed limit' l = p.feed limit l ∨ p.feed limit l = .error ⟨.tooDeep limit, l.offset⟩ := by
  cases hl : l.lexeme with
  | opening =>
      by_cases hroom : limit ≤ p.openLists.length
      · exact .inr (by simp [feed, hl, openList, hroom])
      · have hroom' : ¬limit' ≤ p.openLists.length := by omega
        exact .inl (by simp [feed, hl, openList, hroom, hroom'])
  | closing | atom | strayBlank => exact .inl (by simp only [feed, hl])

theorem cut_of_le (h : limit ≤ limit') (p : Progress) (ls : List Lexeme.Located) :
    Reading.Cut (.tooDeep limit) (consume limit p ls) (consume limit' p ls) := by
  induction ls generalizing p with
  | nil => exact .same _
  | cons l ls ih =>
      rcases p.feed_of_le h l with hsame | hdeep
      · rw [consume, consume, hsame]
        split
        · exact ih _
        · exact .same _
      · have hkept := prefix_items_consume limit' p (l :: ls)
        rw [consume, hdeep]
        exact .stopped hkept

/-- What is derived is derived under any limit that its values keep. -/
theorem items_of_nestingAll_le {depth depth' : Nat} {t r : List Char} {vs : List Value}
    (h : Items comments depth' t vs r) (hnesting : Value.nestingAll vs ≤ depth) :
    Items comments depth t vs r := by
  induction h generalizing depth with
  | nil hgap => exact .nil hgap
  | atom hgap hatom hv h ih =>
      rw [Value.nestingAll, Nat.max_le] at hnesting
      exact .atom hgap hatom hv (ih hnesting.2)
  | list hgap hin hlone h ih₁ ih₂ =>
      rw [Value.nestingAll, Nat.max_le, Value.nesting_list] at hnesting
      cases depth with
      | zero => omega
      | succ depth => exact .list hgap (ih₁ (by omega)) hlone (ih₂ hnesting.2)

/-- An answer under a limit, and the answer `larger` under a limit that is at least as large. Only
what is nested too deeply is refused under the smaller limit, and all else is the same. -/
structure CutsOff {α : Type} (nesting : α → Nat) (limit : Nat)
    (smaller larger : Except ReadError α) : Prop where
  kept : (∀ e, smaller = .error e → e.kind ≠ .tooDeeplyNested) → larger = smaller
  read : ∀ a, larger = .ok a → nesting a ≤ limit → smaller = .ok a
  refused : ∀ a, larger = .ok a → limit < nesting a →
    ∃ e, smaller = .error e ∧ e.kind = .tooDeeplyNested

/-- Answers that part at what is too deep only, if what can be read under the smaller limit is known
by its nesting. -/
theorem CutsOff.of_eq_or {α : Type} {nesting : α → Nat} {smaller larger : Except ReadError α}
    (h : larger = smaller ∨ ∃ e, smaller = .error e ∧ e.cause = .tooDeep limit)
    (hread : ∀ a, larger = .ok a → nesting a ≤ limit → smaller = .ok a)
    (hnesting : ∀ a, smaller = .ok a → nesting a ≤ limit) :
    CutsOff nesting limit smaller larger where
  kept hkind := by
    rcases h with hsame | ⟨e, he, hcause⟩
    · exact hsame
    · exact absurd (congrArg ReadError.Cause.kind hcause) (hkind e he)
  read := hread
  refused a ha hdeep := by
    rcases h with hsame | ⟨e, he, hcause⟩
    · have := hnesting a (hsame.symm.trans ha)
      omega
    · exact ⟨e, he, congrArg ReadError.Cause.kind hcause⟩

theorem readAll_of_nestingAll_le {text : String} {vs : List Value}
    (h : readAll ⟨comments, limit'⟩ text = .ok vs) (hnesting : Value.nestingAll vs ≤ limit) :
    readAll ⟨comments, limit⟩ text = .ok vs := by
  have hitems := items_of_readAll h
  exact readAll_of_items (items_of_nestingAll_le hitems hnesting)

theorem nestingAll_le_of_readAll {text : String} {vs : List Value}
    (h : readAll ⟨comments, limit⟩ text = .ok vs) : Value.nestingAll vs ≤ limit :=
  Value.nestingAll_le_iff.mpr fun v hv => (readable_of_items (items_of_readAll h) v hv).nesting

/-- **The depth limit only cuts reading off.** What is answered under a limit, other than that lists
are nested too deeply, is answered under every larger limit. What is read under the larger limit is
read under the smaller one if it is not nested deeper than that, and is refused as too deep
otherwise. -/
theorem depth_limit_cuts_off (comments : Bool) {limit limit' : Nat} (h : limit ≤ limit')
    (text : String) :
    CutsOff Value.nesting limit (readOne ⟨comments, limit⟩ text) (readOne ⟨comments, limit'⟩ text) ∧
    CutsOff Value.nestingAll limit (readAll ⟨comments, limit⟩ text)
      (readAll ⟨comments, limit'⟩ text) := by
  have hcut : Reading.Cut (.tooDeep limit) (reading ⟨comments, limit⟩ (Text.trim text.toList))
      (reading ⟨comments, limit'⟩ (Text.trim text.toList)) := cut_of_le h _ _
  refine ⟨.of_eq_or hcut.readOne_eq (fun v hv hnesting => ?_) fun v hv => ?_,
    .of_eq_or hcut.readAll_eq (fun vs => readAll_of_nestingAll_le) fun vs =>
      nestingAll_le_of_readAll⟩
  · rw [readOne_eq_ok_iff] at hv ⊢
    exact readAll_of_nestingAll_le hv (by simpa [Value.nestingAll] using hnesting)
  · exact (readable_of_readOne hv).nesting

/-- A flat list, a nested one and a stray parenthesis, where no list may stand in a list. -/
theorem depth_limit_cuts_off_nested :
    1 ≤ 2 ∧ readAll ⟨false, 2⟩ "() (())" = .ok [.list [], .list [.list []]] ∧
      (∃ e, readAll ⟨false, 1⟩ "() (())" = .error e ∧ e.kind = .tooDeeplyNested) ∧
      readOne ⟨false, 2⟩ "()" = .ok (.list []) ∧ readOne ⟨false, 1⟩ "()" = .ok (.list []) ∧
      ∃ e, readOne ⟨false, 1⟩ ")" = .error e ∧ e.kind ≠ .tooDeeplyNested ∧
        readOne ⟨false, 2⟩ ")" = .error e := by
  have hle : 1 ≤ 2 := by decide
  have hall : readAll ⟨false, 2⟩ "() (())" = .ok [.list [], .list [.list []]] := rfl
  have hone : readOne ⟨false, 2⟩ "()" = .ok (.list []) := rfl
  obtain ⟨e, hstray, hkind⟩ :
      ∃ e, readOne ⟨false, 1⟩ ")" = .error e ∧ e.kind ≠ .tooDeeplyNested :=
    ⟨_, rfl, by decide⟩
  have hdeep : 1 < Value.nestingAll [.list [], .list [.list []]] := by
    simp [Value.nestingAll]
  have hflat : (Value.list []).nesting ≤ 1 := by simp [Value.nestingAll]
  have hsame : readOne ⟨false, 2⟩ ")" = readOne ⟨false, 1⟩ ")" := by
    refine (depth_limit_cuts_off false hle ")").1.kept fun e' he' => ?_
    obtain rfl := Except.error.inj (hstray.symm.trans he')
    exact hkind
  exact ⟨hle, hall, (depth_limit_cuts_off false hle "() (())").2.refused _ hall hdeep, hone,
    (depth_limit_cuts_off false hle "()").1.read _ hone hflat, e, hstray, hkind,
    hsame.trans hstray⟩

/-! ## Comments -/

theorem value_semicolon (run : List Char) :
    SmallScheme.Atom.value ';' run = .error (.badCharacter ';') := by
  have hnumber : SmallScheme.Atom.beginsNumber ';' run = false := by
    simp [SmallScheme.Atom.beginsNumber, Char.isDigit]
  have hsymbol : SmallScheme.Atom.beginsSymbol ';' = false := by decide
  simp [SmallScheme.Atom.value, hnumber, hsymbol]

/-- Where comments are skipped, a text is read as where they are not, up to the first semicolon that
could begin an item. The induction goes by what a text begins with where there are no comments. -/
theorem cut_of_comments (limit : Nat) (p : Progress) (offset : Nat) (t : List Char) :
    Reading.Cut (.badCharacter ';') (resume ⟨false, limit⟩ p offset t)
      (resume ⟨true, limit⟩ p offset t) := by
  induction t using induction_on_beginning false generalizing p offset with
  | nil => exact .same _
  | blank hc ih =>
      rw [resume_blank hc, resume_blank hc]
      exact ih _ _
  | comment hon => cases hon
  | opening ih =>
      rw [resume_opening, resume_opening]
      dsimp only
      split
      · exact ih _ _
      · exact .same _
  | closing ih =>
      rw [resume_closing, resume_closing]
      split
      · exact ih _ _
      · exact .same _
  | strayBlank hblank hgap =>
      rw [resume_strayBlank hblank hgap, resume_strayBlank hblank hgap]
      exact .same _
  | @atom c run t hatom hno ih =>
      by_cases hstarts : CommentStarts true c (run ++ t)
      · obtain rfl := hstarts.2.1
        have hkept := prefix_items_resume ⟨true, limit⟩ p offset (';' :: run ++ t)
        rw [resume_atom hatom hno, value_semicolon]
        exact .stopped hkept
      · rw [resume_atom hatom hno, resume_atom hatom hstarts]
        split
        · exact ih _ _
        · exact .same _

/-- **Comments extend the language and change nothing in it.** Without comments a text is refused
for a semicolon, or its answer is the same where comments are skipped, values and errors alike. -/
theorem comments_extend (limit : Nat) (text : String) :
    ((∃ e, readOne ⟨false, limit⟩ text = .error e ∧ e.kind = .unexpectedCharacter ∧
        e.found = some ";") ∨
      readOne ⟨true, limit⟩ text = readOne ⟨false, limit⟩ text) ∧
    ((∃ e, readAll ⟨false, limit⟩ text = .error e ∧ e.kind = .unexpectedCharacter ∧
        e.found = some ";") ∨
      readAll ⟨true, limit⟩ text = readAll ⟨false, limit⟩ text) := by
  have hcut : Reading.Cut (.badCharacter ';') (reading ⟨false, limit⟩ (Text.trim text.toList))
      (reading ⟨true, limit⟩ (Text.trim text.toList)) := cut_of_comments limit {} 0 _
  have hrefusal : ∀ {e : ReadError}, e.cause = .badCharacter ';' →
      e.kind = .unexpectedCharacter ∧ e.found = some ";" := fun h =>
    ⟨congrArg ReadError.Cause.kind h, congrArg ReadError.Cause.found h⟩
  refine ⟨hcut.readOne_eq.symm.imp_left ?_, hcut.readAll_eq.symm.imp_left ?_⟩
  all_goals
    rintro ⟨e, he, hcause⟩
    exact ⟨e, he, hrefusal hcause⟩

end Reader

end SmallScheme
