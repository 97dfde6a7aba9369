/-!
# Lines

The lines of a text are what its line feeds end. Characters behind the last line feed are a line
too, but no line begins where nothing follows.
-/

namespace SmallScheme.Text

/-- The lines of a text without their line feeds. -/
def lines : List Char → List (List Char)
  | [] => []
  | c :: rest =>
    if c = '\n' then [] :: lines rest
    else
      match lines rest with
      | [] => [[c]]
      | line :: later => (c :: line) :: later

@[simp] theorem lines_nil : lines [] = [] := rfl

/-- A text that has no line feed and is not empty is a line of its own. -/
theorem lines_of_not_mem {text : List Char} (h : '\n' ∉ text) (hne : text ≠ []) :
    lines text = [text] := by
  induction text with
  | nil => exact absurd rfl hne
  | cons c rest ih =>
    have hc : c ≠ '\n' := fun e => h (by simp [e])
    by_cases hr : rest = []
    · simp [lines, hc, hr]
    · simp [lines, hc, ih (fun m => h (List.mem_cons_of_mem _ m)) hr]

/-- A line feed ends the first line. -/
theorem lines_append_cons {front : List Char} (h : '\n' ∉ front) (back : List Char) :
    lines (front ++ '\n' :: back) = front :: lines back := by
  induction front with
  | nil => simp [lines]
  | cons c rest ih =>
    have hc : c ≠ '\n' := fun e => h (by simp [e])
    simp [lines, hc, ih fun m => h (List.mem_cons_of_mem _ m)]

end SmallScheme.Text
