import Mathlib.Data.List.Forall2
import SmallScheme.Proofs.Number.Spelling
import SmallScheme.Proofs.Reader.Acceptance
import SmallScheme.Proofs.Value.Parts
import SmallScheme.Value.Printer

/-!
# Reading what was written

`Value.Readable depth v` says which values can be read back from their texts: the symbols in them
are texts of symbols, the decimals have scales that literals may have, no list in them is a lone
comparison symbol, and lists are nested at most `depth` deep.

Nothing else is ever read (`readable_of_readOne`), by induction on the derivation of the text. And
every readable value is read back: by induction on the value, its text derives it in front of
anything that ends an atom (`exists_derives`), and what a text derives is read from it
(`readOne_of_derives`).
-/

namespace SmallScheme

open Grammar

/-- The texts of symbols: atom characters, of which the first is a letter or an operator character,
and which do not begin like a number. -/
structure Grammar.IsSymbolText (text : List Char) : Prop where
  begins : BeginsSymbol text
  run : ∀ c ∈ text, IsAtomChar c
  notNumber : ¬BeginsNumber text

/-- The values that can be read back from their texts. -/
structure Value.Readable (depth : Nat) (v : Value) : Prop where
  symbols : ∀ name, .symbol name ∈ v.parts → IsSymbolText name.toList
  decimals : ∀ d, .number (.decimal d) ∈ v.parts → d.scale.natAbs ≤ 4096
  lists : ∀ items, .list items ∈ v.parts → ¬IsLoneComparison items
  nesting : v.nesting ≤ depth

namespace Value

variable {depth : Nat} {items : List Value}

theorem Readable.element (h : Readable (depth + 1) (.list items)) {v : Value} (hv : v ∈ items) :
    Readable depth v where
  symbols name hname := h.symbols name (mem_parts_list.mpr (.inr ⟨v, hv, hname⟩))
  decimals d hd := h.decimals d (mem_parts_list.mpr (.inr ⟨v, hv, hd⟩))
  lists us hus := h.lists us (mem_parts_list.mpr (.inr ⟨v, hv, hus⟩))
  nesting := by
    have hnesting := h.nesting
    rw [nesting_list] at hnesting
    exact nestingAll_le_iff.mp (by omega) v hv

theorem readable_list (hlone : ¬IsLoneComparison items)
    (hitems : ∀ v ∈ items, Readable depth v) : Readable (depth + 1) (.list items) where
  symbols name hname := by
    obtain h | ⟨v, hv, hname⟩ := mem_parts_list.mp hname
    · cases h
    · exact (hitems v hv).symbols name hname
  decimals d hd := by
    obtain h | ⟨v, hv, hd⟩ := mem_parts_list.mp hd
    · cases h
    · exact (hitems v hv).decimals d hd
  lists us hus := by
    obtain h | ⟨v, hv, hus⟩ := mem_parts_list.mp hus
    · obtain rfl := Value.list.inj h
      exact hlone
    · exact (hitems v hv).lists us hus
  nesting := by
    rw [nesting_list]
    have := nestingAll_le_iff.mpr fun v hv => (hitems v hv).nesting
    omega

end Value

namespace Value

theorem exists_renderAll? {P : List Char → Value → Prop} {items : List Value}
    (h : ∀ v ∈ items, ∃ text, v.text? = some text ∧ P text v) :
    ∃ texts, renderAll? .plain items = some texts ∧ List.Forall₂ P texts items := by
  induction items with
  | nil => exact ⟨[], by rw [renderAll?], .nil⟩
  | cons v items ih =>
      obtain ⟨text, htext, hv⟩ := h v (List.mem_cons_self ..)
      obtain ⟨texts, htexts, hall⟩ := ih fun w hw => h w (List.mem_cons_of_mem _ hw)
      rw [text?] at htext
      exact ⟨text :: texts, by simp [renderAll?, htext, htexts], .cons hv hall⟩

end Value

namespace Grammar

variable {comments : Bool} {depth : Nat} {t r : List Char} {vs : List Value}

/-! ## Only readable values are read -/

theorem readable_of_denotes {v : Value} (hrun : ∀ c ∈ t, IsAtomChar c) (h : Denotes t v) :
    v.Readable depth := by
  cases h with
  | true h => exact ⟨by simp, by simp, by simp, by simp [Value.nesting]⟩
  | false h => exact ⟨by simp, by simp, by simp, by simp [Value.nesting]⟩
  | number hbegin hchars hn =>
      refine ⟨by simp, fun d hd => ?_, by simp, by simp [Value.nesting]⟩
      rw [Value.parts_number, List.mem_singleton, Value.number.injEq] at hd
      exact (Number.isLiteral_of_ofText? hn).2 d hd.symm
  | symbol hbegin hnot =>
      refine ⟨fun name hname => ?_, by simp, by simp, by simp [Value.nesting]⟩
      obtain rfl : name = String.ofList t := by simpa using hname
      rw [String.toList_ofList]
      exact ⟨hbegin, hrun, hnot⟩

theorem readable_of_items (h : Items comments depth t vs r) : ∀ v ∈ vs, v.Readable depth := by
  induction h with
  | nil hgap => exact fun v hv => absurd hv List.not_mem_nil
  | atom hgap hatom hv h ih =>
      intro v' hv'
      rcases List.mem_cons.mp hv' with rfl | hv'
      · exact readable_of_denotes hatom.run hv
      · exact ih v' hv'
  | list hgap hin hlone h ih₁ ih₂ =>
      intro v' hv'
      rcases List.mem_cons.mp hv' with rfl | hv'
      · exact Value.readable_list hlone ih₁
      · exact ih₂ v' hv'

/-- A number is read from a literal of at most so many characters. -/
def ReadWithin (length : Nat) (n : Number) : Prop :=
  ∃ literal : List Char, literal.length ≤ length ∧ Number.ofText? literal = some n

theorem ReadWithin.mono {k m : Nat} {n : Number} (h : ReadWithin k n) (hle : k ≤ m) :
    ReadWithin m n := by
  obtain ⟨literal, hshort, hread⟩ := h
  exact ⟨literal, hshort.trans hle, hread⟩

/-- A number in an item is read from a literal that stands in the text. -/
theorem readWithin_of_items (h : Items comments depth t vs r) :
    ∀ v ∈ vs, v.Numbers (ReadWithin t.length) := by
  induction h with
  | nil hgap => exact fun v hv => absurd hv List.not_mem_nil
  | @atom depth t text u r v vs hgap hatom hv h ih =>
      have hlength := hgap.length_le
      rw [List.length_append] at hlength
      refine List.forall_mem_cons.mpr ⟨?_, fun w hw => (ih w hw).imp fun n hn => ?_⟩
      · cases hv with
        | number hbegin hchars hn => exact Value.numbers_number.mpr ⟨text, by omega, hn⟩
        | true | false | symbol => simp [Value.Numbers]
      · exact hn.mono (by omega)
  | list hgap hin hlone h ih₁ ih₂ =>
      have hlength := hgap.length_le
      have hrest := hin.length_le
      rw [List.length_cons] at hlength hrest
      refine List.forall_mem_cons.mpr ⟨Value.numbers_list.mpr fun w hw => ?_, fun w hw => ?_⟩
      · exact (ih₁ w hw).imp fun n hn => hn.mono (by omega)
      · exact (ih₂ w hw).imp fun n hn => hn.mono (by omega)

theorem isNormal_of_items (h : Items comments depth t vs r) : ∀ v ∈ vs, v.IsNormal := by
  intro v hv n hn
  obtain ⟨literal, -, hread⟩ := readWithin_of_items h v hv n hn
  exact (Number.isLiteral_of_ofText? hread).1

/-! ## Every readable value is read -/

/-- A text begins and ends with what is not a blank. -/
def Compact (text : List Char) : Prop :=
  ∀ c, text.head? = some c ∨ text.getLast? = some c → Text.isBlank c = false

theorem trimStart_eq_self (h : ∀ c, t.head? = some c → Text.isBlank c = false) :
    Text.trimStart t = t := by
  cases t with
  | nil => rfl
  | cons c t => simp [Text.trimStart, h c rfl]

theorem Compact.trimEnd_eq (h : Compact t) : Text.trimEnd t = t := by
  rw [Text.trimEnd, trimStart_eq_self fun c hc => h c (.inr ?_), List.reverse_reverse]
  rwa [List.head?_reverse] at hc

theorem Compact.trim_eq (h : Compact t) : Text.trim t = t := by
  rw [Text.trim, trimStart_eq_self fun c hc => h c (.inl hc), h.trimEnd_eq]

/-- A text derives a value by itself, in front of anything that ends an atom. -/
structure Derives (comments : Bool) (depth : Nat) (text : List Char) (v : Value) : Prop where
  compact : Compact text
  items : ∀ {u vs r}, EndsAtom u → Items comments depth u vs r →
    Items comments depth (text ++ u) (v :: vs) r

theorem derives_of_denotes {text : List Char} {v : Value} (hne : text ≠ [])
    (hrun : ∀ c ∈ text, IsAtomChar c) (h : Denotes text v) : Derives comments depth text v where
  compact c hc := by
    rcases hc with hc | hc
    · exact (hrun c (List.mem_of_head? hc)).1
    · exact (hrun c (List.mem_of_getLast? hc)).1
  items hend hitems := .atom (.nil _) ⟨hne, hrun, hend⟩ h hitems

theorem isAtomChar_of_isDigit {c : Char} (h : c.isDigit = true) : IsAtomChar c := by
  simp only [Char.isDigit, Bool.and_eq_true, decide_eq_true_eq, ge_iff_le, UInt32.le_iff_toNat_le]
    at h
  have hlow : 48 ≤ c.toNat := h.1
  have hhigh : c.toNat ≤ 57 := h.2
  refine ⟨?_, ?_, ?_⟩
  · simp only [Text.isBlank, Bool.or_eq_false_iff, Bool.and_eq_false_iff, beq_eq_false_iff_ne,
      decide_eq_false_iff_not]
    omega
  · rintro rfl
    revert hlow
    decide
  · rintro rfl
    revert hlow
    decide

/-- The text of a number begins like one. It is made of digits, points and minus signs. -/
theorem beginsNumber_of_text? {n : Number} {text : List Char} (htext : n.text? = some text) :
    BeginsNumber text ∧ ∀ c ∈ text, c.isDigit = true ∨ c = '-' ∨ c = '.' := by
  obtain ⟨sign, c, rest, rfl, hsign, hc, hrest⟩ := Number.exists_digit_of_text? htext
  refine ⟨?_, fun d hd => ?_⟩
  · rcases hsign with rfl | rfl
    · exact .inl hc
    · exact .inr ⟨rfl, c, rfl, .inl hc⟩
  · rcases List.mem_append.mp hd with hd | hd
    · rcases hsign with rfl | rfl
      · cases hd
      · exact .inr (.inl (List.mem_singleton.mp hd))
    · rcases List.mem_cons.mp hd with rfl | hd
      · exact .inl hc
      · exact (hrest d hd).imp_right .inr

theorem isAtomChar_of_text? {n : Number} {text : List Char} (htext : n.text? = some text) :
    ∀ c ∈ text, IsAtomChar c := by
  intro c hc
  rcases (beginsNumber_of_text? htext).2 c hc with h | rfl | rfl
  · exact isAtomChar_of_isDigit h
  · decide
  · decide

theorem BeginsNumber.ne_nil {text : List Char} (h : BeginsNumber text) : text ≠ [] := by
  rintro rfl
  exact h

theorem BeginsSymbol.ne_nil {text : List Char} (h : BeginsSymbol text) : text ≠ [] := by
  rintro rfl
  exact h

theorem derives_number {n : Number} (h : n.IsLiteral) {text : List Char}
    (htext : n.text? = some text) : Derives comments depth text (.number n) := by
  obtain ⟨text', htext', hread⟩ := Number.exists_text?_ofText? h
  obtain rfl : text' = text := Option.some.inj (htext'.symm.trans htext)
  obtain ⟨hbegin, hchars⟩ := beginsNumber_of_text? htext
  refine derives_of_denotes hbegin.ne_nil (isAtomChar_of_text? htext) (.number hbegin ?_ hread)
  intro c hc
  rcases hchars c hc with h | rfl | rfl <;> simp [*]

theorem derives_bool (b : Bool) :
    Derives comments depth (if b then ['#', 't'] else ['#', 'f']) (.bool b) := by
  have hhash : IsAtomChar '#' := by decide
  have htrue : IsAtomChar 't' := by decide
  have hfalse : IsAtomChar 'f' := by decide
  cases b with
  | true =>
      have hrun : ∀ c ∈ ['#', 't'], IsAtomChar c := by simp [hhash, htrue]
      exact derives_of_denotes (by simp) hrun (.true (by simp))
  | false =>
      have hrun : ∀ c ∈ ['#', 'f'], IsAtomChar c := by simp [hhash, hfalse]
      exact derives_of_denotes (by simp) hrun (.false (by simp))

theorem derives_symbol {name : String} (h : IsSymbolText name.toList) :
    Derives comments depth name.toList (.symbol name) := by
  have hdenotes := Denotes.symbol h.begins h.notNumber
  rw [String.ofList_toList] at hdenotes
  exact derives_of_denotes h.begins.ne_nil h.run hdenotes

/-- Texts with spaces between them derive the values one after the other. -/
theorem items_intercalate {texts : List (List Char)} {items : List Value}
    (h : List.Forall₂ (fun text v => Derives comments depth text v) texts items)
    {u : List Char} :
    Items comments depth (List.intercalate [' '] texts ++ ')' :: u) items (')' :: u) := by
  have hclose : ¬IsAtomChar ')' := fun h => h.2.2 rfl
  have hspace : ¬IsAtomChar ' ' := fun h => by
    have := h.1
    revert this
    decide
  induction h with
  | nil => exact .nil (.nil _)
  | @cons text v texts items hv h ih =>
      cases h with
      | nil =>
          have hend : EndsAtom (')' :: u) := fun c hc => Option.some.inj hc ▸ hclose
          simpa using hv.items hend (.nil (.nil _))
      | @cons text' v' texts items hv' h =>
          have hend : EndsAtom (' ' :: (List.intercalate [' '] (text' :: texts) ++ ')' :: u)) :=
            fun c hc => Option.some.inj hc ▸ hspace
          have hrest := ih.of_gap (t := ' ' :: _) (fun hgap => .blank (by simp) hgap)
          have htext : List.intercalate [' '] (text :: text' :: texts) ++ ')' :: u
              = text ++ ' ' :: (List.intercalate [' '] (text' :: texts) ++ ')' :: u) := by
            simp [List.intercalate]
          rw [htext]
          exact hv.items hend hrest

theorem derives_list {texts : List (List Char)} {items : List Value}
    (hlone : ¬IsLoneComparison items)
    (h : List.Forall₂ (fun text v => Derives comments depth text v) texts items) :
    Derives comments (depth + 1) ('(' :: List.intercalate [' '] texts ++ [')'])
      (.list items) where
  compact c hc := by
    rcases hc with hc | hc
    · obtain rfl : '(' = c := Option.some.inj hc
      decide
    · rw [List.getLast?_concat] at hc
      obtain rfl := Option.some.inj hc
      decide
  items hend hitems := by
    refine .list (.nil _) ?_ hlone hitems
    simpa using items_intercalate h

/-- A readable value has a text, and the text derives it. -/
theorem exists_derives (v : Value) (hnormal : v.IsNormal) (h : v.Readable depth) :
    ∃ text, v.text? = some text ∧ Derives comments depth text v := by
  induction v using Value.induction_on generalizing depth with
  | bool b => exact ⟨_, Value.text?_bool b, derives_bool b⟩
  | number n =>
      have hn : n.IsLiteral := ⟨hnormal n (by simp), fun d hd => h.decimals d (by simp [hd])⟩
      obtain ⟨text, htext, -⟩ := Number.exists_text?_ofText? hn
      exact ⟨text, by rw [Value.text?_number, htext], derives_number hn htext⟩
  | symbol name => exact ⟨_, Value.text?_symbol name, derives_symbol (h.symbols name (by simp))⟩
  | list items ih =>
      cases depth with
      | zero =>
          have := h.nesting
          simp at this
      | succ depth =>
          obtain ⟨texts, htexts, hall⟩ := Value.exists_renderAll? fun v hv =>
            ih v hv (hnormal.element hv) (h.element hv)
          refine ⟨_, by rw [Value.text?_list, htexts, Option.map_some],
            derives_list (h.lists items (by simp)) hall⟩

end Grammar

namespace Reader

/-! ## Writing and reading -/

variable {config : Config}

theorem readable_of_readOne {text : String} {v : Value} (h : readOne config text = .ok v) :
    v.Readable config.maxDepth :=
  readable_of_items (items_of_readAll (readOne_eq_ok_iff.mp h)) v (List.mem_singleton.mpr rfl)

theorem isNormal_of_readOne {text : String} {v : Value} (h : readOne config text = .ok v) :
    v.IsNormal :=
  isNormal_of_items (items_of_readAll (readOne_eq_ok_iff.mp h)) v (List.mem_singleton.mpr rfl)

theorem readOne_of_derives {text : List Char} {v : Value}
    (h : Derives config.comments config.maxDepth text v) :
    readOne config (String.ofList text) = .ok v := by
  have hitems := h.items (u := []) (fun c hc => by cases hc) (.nil (.nil _))
  rw [List.append_nil] at hitems
  refine readOne_eq_ok_iff.mpr (readAll_of_items ?_)
  rw [String.toList_ofList, h.compact.trim_eq]
  exact hitems

/-- **Writing and reading are inverse.** A value with its decimals in normal form is read back from
its text if and only if it is readable, and whatever is read from any text is readable, with its
decimals in normal form. -/
theorem readOne_text?_iff_readable (config : Config) :
    (∀ v : Value, v.IsNormal →
      ((∃ text, v.text? = some text ∧ readOne config (String.ofList text) = .ok v) ↔
        v.Readable config.maxDepth))
      ∧ ∀ (text : String) (v : Value), readOne config text = .ok v →
        v.Readable config.maxDepth ∧ v.IsNormal := by
  refine ⟨fun v hnormal => ⟨?_, fun h => ?_⟩, fun text v h => ?_⟩
  · rintro ⟨text, -, hread⟩
    exact readable_of_readOne hread
  · have hwritten : ∃ text, v.text? = some text ∧
        Derives config.comments config.maxDepth text v := exists_derives v hnormal h
    obtain ⟨text, htext, hderives⟩ := hwritten
    exact ⟨text, htext, readOne_of_derives hderives⟩
  · exact ⟨readable_of_readOne h, isNormal_of_readOne h⟩

/-- A nested list with a semicolon inside a symbol is read back where comments are skipped. -/
theorem readOne_text?_nested :
    ∃ v, v = Value.list [.symbol "-a;", .number (.decimal ⟨-5, 1⟩), .list []] ∧ v.IsNormal
      ∧ v.Readable 2 ∧ readOne ⟨true, 2⟩ "(-a; -0.5 ())" = .ok v := by
  have hminus : IsAtomChar '-' := by decide
  have ha : IsAtomChar 'a' := by decide
  have hsemicolon : IsAtomChar ';' := by decide
  have hdigit : ('a' : Char).isDigit = false := by decide
  have hsymbol : IsSymbolText "-a;".toList :=
    ⟨by simp [BeginsSymbol], by simp [hminus, ha, hsemicolon], by simp [BeginsNumber, hdigit]⟩
  obtain ⟨v, hv⟩ : ∃ v, v = Value.list [.symbol "-a;", .number (.decimal ⟨-5, 1⟩), .list []] :=
    ⟨_, rfl⟩
  have hnormal : v.IsNormal := by
    simp [hv, Value.IsNormal, Number.IsNormal, Decimal.IsNormal]
  have hreadable : v.Readable 2 := by
    subst hv
    refine ⟨fun name hname => ?_, by simp, by simp [IsLoneComparison],
      by simp [Value.nestingAll, Value.nesting]⟩
    obtain rfl : name = "-a;" := by simpa using hname
    exact hsymbol
  obtain ⟨text, htext, hread⟩ := ((readOne_text?_iff_readable ⟨true, 2⟩).1 v hnormal).mpr hreadable
  have hwritten : v.text? = some "(-a; -0.5 ())".toList := by
    subst hv
    decide
  obtain rfl : text = _ := Option.some.inj (htext.symm.trans hwritten)
  exact ⟨v, hv, hnormal, hreadable, by simpa using hread⟩

end Reader

end SmallScheme
