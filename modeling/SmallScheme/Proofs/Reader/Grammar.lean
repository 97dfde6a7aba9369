import SmallScheme.Reader.Reading

/-!
# The grammar of programs

What the texts of programs look like, said without a reader. Each relation speaks of a text `t` and
of what remains of it behind a phrase, so that a phrase can ask for what must follow it:

- `Gap comments t r`: between `t` and `r` stand blanks and, where they are allowed, comments. A
  comment needs an end of its line behind it.
- `Atom text r`: `text` is a run of atom characters that ends where it stands before `r`.
- `Denotes text v`: the atom `text` is written for the value `v`.
- `Items comments depth t vs r`: between `t` and `r` stands a gap, and behind it items for the values
  `vs` with a gap behind each, with lists nested at most `depth` deep.

The conditions on characters are restated here as propositions. The bridges to the tests that the
reader makes are `isDelimiter_iff`, `lineEnds_append`, `loneComparison?_eq_none` and, for whole
atoms, `value_eq_ok_iff`.
-/

namespace SmallScheme

namespace Grammar

/-! ## Gaps -/

/-- A line ends here: with the text, a line feed, or a carriage return before a line feed. -/
inductive LineEnd : List Char → Prop where
  | text : LineEnd []
  | lineFeed (t : List Char) : LineEnd ('\n' :: t)
  | both (t : List Char) : LineEnd ('\r' :: '\n' :: t)

/-- Blanks and comments between a text and what remains of it. -/
inductive Gap (comments : Bool) : List Char → List Char → Prop where
  | nil (t : List Char) : Gap comments t t
  | blank {c : Char} {t r : List Char} (hc : c ∈ [' ', '\t', '\r', '\n'])
      (h : Gap comments t r) : Gap comments (c :: t) r
  | comment {body t r : List Char} (hon : comments = true)
      (hbody : ∀ c ∈ body, c ≠ '\r' ∧ c ≠ '\n') (hend : LineEnd t)
      (h : Gap comments t r) : Gap comments (';' :: (body ++ t)) r

/-! ## Atoms -/

/-- Neither a blank nor a parenthesis. -/
def IsAtomChar (c : Char) : Prop :=
  Text.isBlank c = false ∧ c ≠ '(' ∧ c ≠ ')'

instance (c : Char) : Decidable (IsAtomChar c) :=
  inferInstanceAs (Decidable (_ ∧ _ ∧ _))

def EndsAtom (r : List Char) : Prop :=
  ∀ c, r.head? = some c → ¬IsAtomChar c

/-- A maximal run of atom characters before what remains. -/
structure Atom (text r : List Char) : Prop where
  nonempty : text ≠ []
  run : ∀ c ∈ text, IsAtomChar c
  maximal : EndsAtom r

/-- A digit, or a minus sign before a digit or a point. -/
def BeginsNumber : List Char → Prop
  | [] => False
  | c :: t => c.isDigit = true
      ∨ (c = '-' ∧ ∃ d, t.head? = some d ∧ (d.isDigit = true ∨ d = '.'))

/-- A letter or an operator character. -/
def BeginsSymbol : List Char → Prop
  | [] => False
  | c :: _ => Text.isLetter c = true ∨ c ∈ ['+', '-', '*', '/', '<', '>', '=']

/-- What the atom of a text stands for. -/
inductive Denotes : List Char → Value → Prop where
  | true {text : List Char} (h : text ∈ [['#', 't'], ['#', 'T']]) : Denotes text (.bool true)
  | false {text : List Char} (h : text ∈ [['#', 'f'], ['#', 'F']]) : Denotes text (.bool false)
  | number {text : List Char} {n : Number} (hbegin : BeginsNumber text)
      (hchars : ∀ c ∈ text, c.isDigit = true ∨ c ∈ ['.', 'e', 'E', '-'])
      (hn : Number.ofText? text = some n) : Denotes text (.number n)
  | symbol {text : List Char} (hbegin : BeginsSymbol text) (hnot : ¬BeginsNumber text) :
      Denotes text (.symbol (String.ofList text))

/-! ## Items -/

def IsLoneComparison (vs : List Value) : Prop :=
  ∃ name ∈ ["<", ">", "<=", ">=", "="], vs = [.symbol name]

/-- A gap and any number of items, each with a gap behind it. -/
inductive Items (comments : Bool) : Nat → List Char → List Value → List Char → Prop where
  | nil {depth : Nat} {t r : List Char} (hgap : Gap comments t r) : Items comments depth t [] r
  | atom {depth : Nat} {t text u r : List Char} {v : Value} {vs : List Value}
      (hgap : Gap comments t (text ++ u)) (hatom : Atom text u) (hv : Denotes text v)
      (h : Items comments depth u vs r) : Items comments depth t (v :: vs) r
  | list {depth : Nat} {t s u r : List Char} {us vs : List Value}
      (hgap : Gap comments t ('(' :: s)) (hin : Items comments depth s us (')' :: u))
      (hlone : ¬IsLoneComparison us) (h : Items comments (depth + 1) u vs r) :
      Items comments (depth + 1) t (.list us :: vs) r

variable {comments : Bool} {depth : Nat} {t u r : List Char} {vs : List Value}

theorem Gap.length_le (h : Gap comments t r) : r.length ≤ t.length := by
  induction h with
  | nil t => exact Nat.le_refl _
  | blank hc h ih => simpa using Nat.le_succ_of_le ih
  | comment hon hbody hend h ih =>
      simp only [List.length_cons, List.length_append]
      omega

theorem Items.length_le (h : Items comments depth t vs r) : r.length ≤ t.length := by
  induction h with
  | nil hgap => exact hgap.length_le
  | atom hgap hatom hv h ih =>
      have := hgap.length_le
      simp only [List.length_append] at this
      omega
  | list hgap hin hlone h ih₁ ih₂ =>
      have := hgap.length_le
      simp only [List.length_cons] at this ih₁
      omega

theorem Items.of_gap (hgap : ∀ {s}, Gap comments u s → Gap comments t s)
    (h : Items comments depth u vs r) : Items comments depth t vs r := by
  cases h with
  | nil hg => exact .nil (hgap hg)
  | atom hg hatom hv h => exact .atom (hgap hg) hatom hv h
  | list hg hin hlone h => exact .list (hgap hg) hin hlone h

/-! ## The tests that the reader makes -/

theorem isGap_iff {c : Char} : Text.isGap c = true ↔ c ∈ [' ', '\t', '\r', '\n'] := by
  simp [Text.isGap, or_assoc]

theorem isDelimiter_iff {c : Char} : Lexeme.isDelimiter c = true ↔ ¬IsAtomChar c := by
  simp only [Lexeme.isDelimiter, Lexeme.isParenthesis, IsAtomChar, Bool.or_eq_true, beq_iff_eq]
  cases hb : Text.isBlank c with
  | true => simp
  | false =>
      simp only [Bool.false_eq_true, false_or, true_and, ne_eq, not_and, Classical.not_not]
      exact Decidable.or_iff_not_imp_left

theorem isDelimiter_eq_false_iff {c : Char} : Lexeme.isDelimiter c = false ↔ IsAtomChar c := by
  rw [← Bool.not_eq_true, isDelimiter_iff, Classical.not_not]

/-- The line of a comment ends where the characters that end lines begin. -/
theorem lineEnds_append {body : List Char} (hbody : ∀ c ∈ body, c ≠ '\r' ∧ c ≠ '\n')
    (hend : LineEnd t) : Lexeme.lineEnds (body ++ t) = true := by
  induction body with
  | nil => cases hend <;> simp [Lexeme.lineEnds]
  | cons c body ih =>
      obtain ⟨hr, hn⟩ := hbody c (List.mem_cons_self ..)
      rw [List.cons_append, Lexeme.lineEnds.eq_4 _ _ hn hr]
      exact ih fun d hd => hbody d (List.mem_cons_of_mem _ hd)

/-- A line that ends properly is what stands before such an end. -/
theorem exists_of_lineEnds (h : Lexeme.lineEnds t = true) :
    ∃ body r, t = body ++ r ∧ (∀ c ∈ body, c ≠ '\r' ∧ c ≠ '\n') ∧ LineEnd r := by
  fun_induction Lexeme.lineEnds t with
  | case1 => exact ⟨[], [], rfl, by simp, .text⟩
  | case2 rest => exact ⟨[], _, rfl, by simp, .lineFeed rest⟩
  | case3 rest =>
      cases rest with
      | nil => simp at h
      | cons c rest =>
          obtain rfl : c = '\n' := by simpa using h
          exact ⟨[], _, rfl, by simp, .both rest⟩
  | case4 c rest hn hr ih =>
      obtain ⟨body, r, rfl, hbody, hend⟩ := ih h
      refine ⟨c :: body, r, rfl, fun d hd => ?_, hend⟩
      rcases List.mem_cons.mp hd with rfl | hd
      · exact ⟨hr, hn⟩
      · exact hbody d hd

theorem loneComparison?_eq_none : Reader.loneComparison? vs = none ↔ ¬IsLoneComparison vs := by
  fun_cases Reader.loneComparison? vs with
  | case1 name h =>
      simp only [reduceCtorEq, false_iff, Classical.not_not]
      exact ⟨name, h, rfl⟩
  | case2 name h =>
      simp only [true_iff]
      rintro ⟨name', hmem, heq⟩
      obtain rfl : name = name' := by simpa using heq
      exact h hmem
  | case3 =>
      rename_i hne
      simp only [true_iff]
      rintro ⟨name, -, rfl⟩
      exact hne name rfl

/-! ## What atoms stand for -/

theorem beginsNumber_iff {c : Char} : Atom.beginsNumber c t = true ↔ BeginsNumber (c :: t) := by
  cases t <;> simp [Atom.beginsNumber, BeginsNumber]

theorem beginsSymbol_iff {c : Char} : Atom.beginsSymbol c = true ↔ BeginsSymbol (c :: t) := by
  simp [Atom.beginsSymbol, Atom.isOperatorChar, BeginsSymbol, or_assoc]

theorem isNumberChar_iff {c : Char} :
    Atom.isNumberChar c = true ↔ c.isDigit = true ∨ c ∈ ['.', 'e', 'E', '-'] := by
  simp only [Atom.isNumberChar, Bool.or_eq_true, beq_iff_eq, List.mem_cons, List.not_mem_nil]
  grind

theorem number?_eq_some_iff {n : Number} :
    Atom.number? t = some n ↔
      (∀ c ∈ t, c.isDigit = true ∨ c ∈ ['.', 'e', 'E', '-']) ∧ Number.ofText? t = some n := by
  simp only [Atom.number?, ← isNumberChar_iff, ← List.all_eq_true]
  split
  · rename_i h
    simp [h]
  · rename_i h
    simp [h]

theorem boolean?_eq_some_iff {b : Bool} :
    Atom.boolean? t = some b ↔
      (b = true ∧ t ∈ [['t'], ['T']]) ∨ (b = false ∧ t ∈ [['f'], ['F']]) := by
  fun_cases Atom.boolean? t with
  | case1 => cases b <;> simp
  | case2 => cases b <;> simp
  | case3 => cases b <;> simp
  | case4 => cases b <;> simp
  | case5 =>
      cases b <;> simp_all

theorem isDigit_hash : ('#' : Char).isDigit = false := by decide

theorem not_beginsNumber_hash : ¬BeginsNumber ('#' :: t) := by
  simp [BeginsNumber, isDigit_hash]

theorem not_beginsSymbol_hash : ¬BeginsSymbol ('#' :: t) := by
  have h : Text.isLetter '#' = false := by decide
  simp [BeginsSymbol, h]

theorem value_eq_ok_iff {c : Char} {v : Value} :
    Atom.value c t = .ok v ↔ Denotes (c :: t) v := by
  constructor
  · intro h
    simp only [Atom.value] at h
    split at h
    · rename_i hc
      subst hc
      split at h
      · rename_i b hb
        obtain rfl := Except.ok.inj h
        rcases boolean?_eq_some_iff.mp hb with ⟨rfl, htext⟩ | ⟨rfl, htext⟩
        · exact .true (by simpa using htext)
        · exact .false (by simpa using htext)
      · cases h
    · split at h
      · rename_i hbegin
        split at h
        · rename_i n hn
          obtain rfl := Except.ok.inj h
          obtain ⟨hchars, hn⟩ := number?_eq_some_iff.mp hn
          exact .number (beginsNumber_iff.mp hbegin) hchars hn
        · cases h
      · rename_i hnot
        split at h
        · rename_i hbegin
          obtain rfl := Except.ok.inj h
          exact .symbol (beginsSymbol_iff.mp hbegin) (mt beginsNumber_iff.mpr hnot)
        · cases h
  · intro h
    generalize htext : c :: t = text at h
    cases h with
    | true h =>
        obtain ⟨rfl, rfl⟩ | ⟨rfl, rfl⟩ : (c = '#' ∧ t = ['t']) ∨ (c = '#' ∧ t = ['T']) := by
          simpa [← htext] using h
        all_goals rfl
    | false h =>
        obtain ⟨rfl, rfl⟩ | ⟨rfl, rfl⟩ : (c = '#' ∧ t = ['f']) ∨ (c = '#' ∧ t = ['F']) := by
          simpa [← htext] using h
        all_goals rfl
    | number hbegin hchars hn =>
        subst htext
        have hc : c ≠ '#' := fun h => not_beginsNumber_hash (h ▸ hbegin)
        simp [Atom.value, hc, beginsNumber_iff.mpr hbegin, number?_eq_some_iff.mpr ⟨hchars, hn⟩]
    | symbol hbegin hnot =>
        subst htext
        have hc : c ≠ '#' := fun h => not_beginsSymbol_hash (h ▸ hbegin)
        simp [Atom.value, hc, mt beginsNumber_iff.mp hnot, beginsSymbol_iff.mpr hbegin]

end Grammar

end SmallScheme
