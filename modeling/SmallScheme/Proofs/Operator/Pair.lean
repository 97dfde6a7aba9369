import SmallScheme.Operator.Primitive

/-!
# Pairs and their sides

A pair is a list of three elements, the second of which is the mark `Value.dot`. So `cons` puts its
first operand in front of what spells the second one (`Value.spelling`), and `cdr` reads that back
(`Value.ofSpelling`). All values but some are read back as themselves: a list that begins with the
mark and goes on with one value is spelled as that value behind the mark is
(`Value.ofSpelling_spelling_iff`). This is where `cdr` does not undo `cons`, and `car` always does
(`Primitive.selectors_invert_iff`).
-/

namespace SmallScheme

namespace Value

/-- What stands behind the left side of a pair to spell the right side: the elements of a list, and
the mark in front of any other value. -/
def spelling : Value → List Value
  | .list items => items
  | v => [.dot, v]

/-- The right side that elements behind the left side of a pair spell. -/
def ofSpelling : List Value → Value
  | [mark, right] => if mark = .dot then right else .list [mark, right]
  | items => .list items

/-- A list of the mark and one value more, which looks like the right half of a pair. -/
def IsMarked (v : Value) : Prop :=
  ∃ right, v = .list [.dot, right]

theorem ofSpelling_of_not_isMarked {items : List Value} (h : ¬(Value.list items).IsMarked) :
    ofSpelling items = .list items := by
  unfold ofSpelling
  split
  · next mark right =>
    rw [if_neg]
    rintro rfl
    exact h ⟨right, rfl⟩
  · rfl

/-- A value is larger than its parts, so a marked list does not end in itself. -/
theorem ne_marked (v : Value) : v ≠ .list [.dot, v] := by
  intro h
  have hsize := congrArg sizeOf h
  simp at hsize
  omega

/-- A value is what it is spelled as unless it is a marked list. -/
theorem ofSpelling_spelling_iff (v : Value) : ofSpelling v.spelling = v ↔ ¬v.IsMarked := by
  constructor
  · rintro h ⟨right, rfl⟩
    exact ne_marked right h
  · intro h
    cases v with
    | list items => exact ofSpelling_of_not_isMarked h
    | bool b => rfl
    | number n => rfl
    | symbol name => rfl

end Value

namespace Primitive

theorem apply_cons (a b : Value) : cons.apply [a, b] = .ok (.list (a :: b.spelling)) := by
  cases b <;> rfl

theorem apply_cdr (head : Value) (items : List Value) :
    cdr.apply [.list (head :: items)] = .ok (.ofSpelling items) := by
  match items with
  | [] => rfl
  | [_] => rfl
  | [_, _] => rfl
  | _ :: _ :: _ :: _ => rfl

/-- **The selectors undo `cons`, except on marked lists.** What `cons` makes of two values has the
first one as its `car`, and the second one as its `cdr` unless that is a list of the mark and one
value more, which is then the `cdr` instead. -/
theorem selectors_invert_iff (a b : Value) :
    ∃ pair, cons.apply [a, b] = .ok pair ∧ car.apply [pair] = .ok a ∧
      (cdr.apply [pair] = .ok b ↔ ¬b.IsMarked) ∧
      ∀ right, b = .list [.dot, right] → cdr.apply [pair] = .ok right := by
  refine ⟨.list (a :: b.spelling), apply_cons a b, rfl, ?_, ?_⟩
  · rw [apply_cdr, Except.ok.injEq]
    exact b.ofSpelling_spelling_iff
  · rintro right rfl
    rw [apply_cdr, Value.spelling, Value.ofSpelling, if_pos rfl]

/-- A marked list behind a number is the pair of the number and what is marked. -/
theorem selectors_invert_iff_marked :
    let a : Value := .number (.integer 0)
    let right : Value := .number (.integer 3)
    let b : Value := .list [.dot, right]
    b = .list [.dot, right] ∧ ∃ pair, cons.apply [a, b] = .ok pair ∧
      cons.apply [a, right] = .ok pair ∧ cdr.apply [pair] = .ok right := by
  intro a right b
  obtain ⟨pair, hcons, -, -, hmarked⟩ := selectors_invert_iff a b
  cases hcons
  exact ⟨rfl, _, rfl, rfl, hmarked right rfl⟩

/-- **`cdr` does not undo `cons` on every value**: it takes a marked list for the right half of a
pair. -/
theorem marked_list_lost :
    ¬ ∀ a b pair, cons.apply [a, b] = .ok pair → cdr.apply [pair] = .ok b := by
  intro hinverse
  let marked : Value := .list [.dot, .number (.integer 3)]
  have hlost := hinverse (.number (.integer 0)) marked _ (apply_cons ..)
  rw [apply_cdr, Except.ok.injEq, Value.ofSpelling_spelling_iff] at hlost
  exact hlost ⟨_, rfl⟩

end Primitive

end SmallScheme
