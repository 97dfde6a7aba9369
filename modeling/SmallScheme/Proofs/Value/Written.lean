import SmallScheme.Proofs.Reader.RoundTrip

/-!
# Written values and their texts

`Value.Written v` says that the numbers in a value are in normal form, and that its symbols are
texts of symbols or the mark between the two sides of a pair. Not all of these values can be read
back from their texts, but different ones are always written differently (`Written.eq_of_text?_eq`).

The proof is by induction on the value, and the induction speaks of texts with something behind them
(`TellsApart`): an atom is the longest run of atom characters in front of it, and the elements of a
list end where a space or a parenthesis follows. Atoms of different kinds begin differently
(`Written.kind`).
-/

namespace SmallScheme

open Grammar

/-- The texts of symbols are those that are read as symbols, under every configuration. -/
theorem Reader.readOne_eq_symbol_iff {config : Config} {name : String} :
    readOne config name = .ok (.symbol name) ↔ IsSymbolText name.toList := by
  constructor
  · exact fun h => (readable_of_readOne h).symbols name (Value.mem_parts_self _)
  · intro h
    have hread := @readOne_of_derives config _ _ (derives_symbol h)
    rwa [String.ofList_toList] at hread

namespace Value

/-- Numbers are in normal form, and symbols are marks of pairs or texts of symbols. -/
structure Written (v : Value) : Prop where
  normal : v.IsNormal
  symbols : ∀ name, .symbol name ∈ v.parts → name = "." ∨ IsSymbolText name.toList

theorem written_list {items : List Value} :
    Written (.list items) ↔ ∀ v ∈ items, v.Written := by
  constructor
  · intro h v hv
    refine ⟨h.normal.element hv, fun name hname => ?_⟩
    exact h.symbols name (mem_parts_list.mpr (.inr ⟨v, hv, hname⟩))
  · intro h
    constructor
    · intro n hn
      obtain heq | ⟨v, hv, hn⟩ := mem_parts_list.mp hn
      · cases heq
      · exact (h v hv).normal n hn
    · intro name hname
      obtain heq | ⟨v, hv, hname⟩ := mem_parts_list.mp hname
      · cases heq
      · exact (h v hv).symbols name hname

theorem written_number {n : Number} : Written (.number n) ↔ n.IsNormal := by
  constructor
  · exact fun h => h.normal n (mem_parts_self _)
  · intro h
    refine ⟨fun m hm => ?_, by simp⟩
    obtain rfl : m = n := by simpa using hm
    exact h

theorem written_symbol {name : String} :
    Written (.symbol name) ↔ name = "." ∨ IsSymbolText name.toList := by
  constructor
  · exact fun h => h.symbols name (mem_parts_self _)
  · intro h
    refine ⟨by simp [IsNormal], fun name' hname => ?_⟩
    obtain rfl : name' = name := by simpa using hname
    exact h

theorem Readable.written {depth : Nat} {v : Value} (h : v.Readable depth) (hnormal : v.IsNormal) :
    v.Written :=
  ⟨hnormal, fun name hname => .inr (h.symbols name hname)⟩

/-! ## Atoms -/

/-- The values that are no lists. -/
def IsAtom : Value → Prop
  | .list _ => False
  | _ => True

variable {v w : Value} {t u r s : List Char}

/-- An atom is written as a run of atom characters. -/
theorem Written.atom (hv : v.Written) (hatom : v.IsAtom) (ht : v.text? = some t) (hr : EndsAtom r) :
    Grammar.Atom t r := by
  have hdot : IsAtomChar '.' := by decide
  have hhash : IsAtomChar '#' := by decide
  have htrue : IsAtomChar 't' := by decide
  have hfalse : IsAtomChar 'f' := by decide
  cases v with
  | bool b =>
      obtain rfl := Option.some.inj ((text?_bool b).symm.trans ht)
      cases b
      · exact ⟨by simp, by simp [hhash, hfalse], hr⟩
      · exact ⟨by simp, by simp [hhash, htrue], hr⟩
  | number n =>
      rw [text?_number] at ht
      exact ⟨(beginsNumber_of_text? ht).1.ne_nil, isAtomChar_of_text? ht, hr⟩
  | symbol name =>
      obtain rfl := Option.some.inj ((text?_symbol name).symm.trans ht)
      rcases written_symbol.mp hv with rfl | hsymbol
      · exact ⟨by simp, by simp [hdot], hr⟩
      · exact ⟨hsymbol.begins.ne_nil, hsymbol.run, hr⟩
  | list items => exact hatom.elim

end Value

/-- A text is cut into an atom and the remainder in one way only. -/
theorem Grammar.Atom.append_inj {t u r s : List Char} (ht : Atom t r) (hu : Atom u s)
    (h : t ++ r = u ++ s) : t = u ∧ r = s := by
  have hcut : ∀ {text remainder}, Atom text remainder →
      (text ++ remainder).takeWhile (fun c => decide (IsAtomChar c)) = text ∧
        (text ++ remainder).dropWhile (fun c => decide (IsAtomChar c)) = remainder := by
    intro text remainder hatom
    exact Number.cut_iff.mpr ⟨rfl, fun c hc => decide_eq_true (hatom.run c hc),
      fun c hc => decide_eq_false (hatom.maximal c hc)⟩
  obtain ⟨ht, hr⟩ := hcut ht
  obtain ⟨hu, hs⟩ := hcut hu
  rw [h] at ht hr
  exact ⟨ht.symm.trans hu, hr.symm.trans hs⟩

namespace Value

variable {v w : Value} {t u r s : List Char}

theorem Written.not_beginsNumber {name : String} (h : Written (.symbol name)) :
    ¬BeginsNumber name.toList := by
  have hdigit : ('.' : Char).isDigit = false := by decide
  rcases written_symbol.mp h with rfl | hsymbol
  · simp [BeginsNumber, hdigit]
  · exact hsymbol.notNumber

theorem Written.head?_ne_hash {name : String} (h : Written (.symbol name)) :
    name.toList.head? ≠ some '#' := by
  rcases written_symbol.mp h with rfl | hsymbol
  · decide
  · intro hhash
    obtain ⟨text, htext⟩ := List.head?_eq_some_iff.mp hhash
    exact not_beginsSymbol_hash (htext ▸ hsymbol.begins)

/-- The kind of an atom shows in how its text begins. -/
theorem Written.kind (hv : v.Written) (hatom : v.IsAtom) (ht : v.text? = some t) :
    (t.head? = some '#' ↔ ∃ b, v = .bool b) ∧ (BeginsNumber t ↔ ∃ n, v = .number n) := by
  cases v with
  | bool b =>
      obtain rfl := Option.some.inj ((text?_bool b).symm.trans ht)
      cases b <;> simp [not_beginsNumber_hash]
  | number n =>
      rw [text?_number] at ht
      have hbegins := (beginsNumber_of_text? ht).1
      refine ⟨⟨fun hhash => ?_, nofun⟩, fun _ => ⟨n, rfl⟩, fun _ => hbegins⟩
      obtain ⟨text, rfl⟩ := List.head?_eq_some_iff.mp hhash
      exact absurd hbegins not_beginsNumber_hash
  | symbol name =>
      obtain rfl := Option.some.inj ((text?_symbol name).symm.trans ht)
      simp [hv.not_beginsNumber, hv.head?_ne_hash]
  | list items => exact hatom.elim

/-- Different atoms are written differently. -/
theorem Written.eq_of_isAtom (hv : v.Written) (hw : w.Written) (hvatom : v.IsAtom)
    (hwatom : w.IsAtom) (ht : v.text? = some t) (hu : w.text? = some t) : v = w := by
  obtain ⟨hbool, hnumber⟩ := hv.kind hvatom ht
  obtain ⟨hbool', hnumber'⟩ := hw.kind hwatom hu
  have htext := ht.trans hu.symm
  cases v with
  | bool b =>
      obtain ⟨b', rfl⟩ := hbool'.mp (hbool.mpr ⟨b, rfl⟩)
      rw [text?_bool, text?_bool, Option.some.injEq] at htext
      cases b <;> cases b' <;> simp at htext ⊢
  | number n =>
      obtain ⟨m, rfl⟩ := hnumber'.mp (hnumber.mpr ⟨n, rfl⟩)
      rw [text?_number] at ht hu
      exact congrArg _ (Number.eq_of_text?_eq (written_number.mp hv) (written_number.mp hw) ht hu)
  | symbol name =>
      cases w with
      | symbol name' =>
          rw [text?_symbol, text?_symbol, Option.some.injEq] at htext
          exact congrArg _ (String.toList_injective htext)
      | bool b => simpa using hbool.mp (hbool'.mpr ⟨b, rfl⟩)
      | number n => simpa using hnumber.mp (hnumber'.mpr ⟨n, rfl⟩)
      | list items => exact hwatom.elim
  | list items => exact hvatom.elim

/-! ## Lists -/

theorem renderAll?_eq_some_iff {items : List Value} {texts : List (List Char)} :
    renderAll? .plain items = some texts ↔
      List.Forall₂ (fun v text => v.text? = some text) items texts := by
  induction items generalizing texts with
  | nil => simp [renderAll?, eq_comm]
  | cons v items ih =>
      simp only [List.forall₂_cons_left_iff, renderAll?, Option.bind_eq_bind,
        Option.bind_eq_some_iff, Option.pure_def, Option.some.injEq, ih]
      constructor
      · rintro ⟨text, htext, texts, htexts, rfl⟩
        exact ⟨text, texts, htext, htexts, rfl⟩
      · rintro ⟨text, texts, htext, htexts, rfl⟩
        exact ⟨text, htext, texts, htexts, rfl⟩

/-- Some texts with a space in front of each, and the parenthesis behind them. -/
def spaced (texts : List (List Char)) (r : List Char) : List Char :=
  texts.flatMap (' ' :: ·) ++ ')' :: r

theorem spaced_cons (text : List Char) (texts : List (List Char)) :
    spaced (text :: texts) r = ' ' :: (text ++ spaced texts r) := by
  simp [spaced]

theorem intercalate_cons (text : List Char) (texts : List (List Char)) :
    List.intercalate [' '] (text :: texts) ++ ')' :: r = text ++ spaced texts r := by
  induction texts generalizing text with
  | nil => simp [spaced, List.intercalate]
  | cons text' texts ih => rw [spaced_cons, ← ih, List.intercalate_cons_cons]; simp

theorem endsAtom_spaced {texts : List (List Char)} : EndsAtom (spaced texts r) := by
  have hspace : ¬IsAtomChar ' ' := by decide
  have hclose : ¬IsAtomChar ')' := by decide
  intro c hc
  cases texts with
  | nil => exact Option.some.inj hc ▸ hclose
  | cons text texts => exact Option.some.inj hc ▸ hspace

/-- Whatever stands behind the text of a value, the text tells it apart from other values. -/
def TellsApart (v : Value) : Prop :=
  ∀ {w t u r s}, v.Written → w.Written → v.text? = some t → w.text? = some u →
    EndsAtom r → EndsAtom s → t ++ r = u ++ s → v = w ∧ r = s

theorem eq_of_spaced_eq {vs ws : List Value} {texts texts' : List (List Char)}
    (happart : ∀ v ∈ vs, v.TellsApart) (hvs : ∀ v ∈ vs, v.Written) (hws : ∀ w ∈ ws, w.Written)
    (htexts : List.Forall₂ (fun v text => v.text? = some text) vs texts)
    (htexts' : List.Forall₂ (fun w text => w.text? = some text) ws texts')
    (h : spaced texts r = spaced texts' s) : vs = ws ∧ r = s := by
  induction htexts generalizing ws texts' with
  | nil =>
      cases htexts' with
      | nil => exact ⟨rfl, (List.cons.inj h).2⟩
      | cons hw htexts' => simp [spaced] at h
  | @cons v text vs texts hv htexts ih =>
      cases htexts' with
      | nil => simp [spaced] at h
      | @cons w text' ws texts' hw htexts' =>
          rw [List.forall_mem_cons] at happart hvs hws
          rw [spaced_cons, spaced_cons, List.cons.injEq] at h
          obtain ⟨rfl, hrest⟩ :=
            happart.1 hvs.1 hws.1 hv hw endsAtom_spaced endsAtom_spaced h.2
          obtain ⟨rfl, hr⟩ := ih happart.2 hvs.2 hws.2 htexts' hrest
          exact ⟨rfl, hr⟩

/-- The text of a list begins with a parenthesis, and ends in front of what stands behind it. -/
theorem exists_text?_list {items : List Value} (h : (list items).text? = some t) :
    ∃ texts, List.Forall₂ (fun v text => v.text? = some text) items texts ∧
      ∀ r, t ++ r = '(' :: (List.intercalate [' '] texts ++ ')' :: r) := by
  rw [text?_list] at h
  obtain ⟨texts, htexts, rfl⟩ := Option.map_eq_some_iff.mp h
  exact ⟨texts, renderAll?_eq_some_iff.mp htexts, by simp⟩

theorem Written.exists_head (hv : v.Written) (hatom : v.IsAtom) (ht : v.text? = some t) :
    ∃ c text, t = c :: text ∧ IsAtomChar c := by
  have hempty : EndsAtom [] := nofun
  obtain ⟨hne, hrun, -⟩ := hv.atom hatom ht hempty
  cases t with
  | nil => exact absurd rfl hne
  | cons c text => exact ⟨c, text, rfl, hrun c (List.mem_cons_self ..)⟩

/-- No text begins with the parenthesis behind the last element. -/
theorem Written.append_ne_close (hv : v.Written) (ht : v.text? = some t) : t ++ r ≠ ')' :: s := by
  intro h
  cases v with
  | bool b | number n | symbol name =>
      obtain ⟨c, text, rfl, hc⟩ := hv.exists_head trivial ht
      exact hc.2.2 (List.cons.inj h).1
  | list items =>
      obtain ⟨texts, -, htext⟩ := exists_text?_list ht
      rw [htext] at h
      simp at h

theorem Written.append_ne_list {items : List Value} (hv : v.Written) (hatom : v.IsAtom)
    (ht : v.text? = some t) (hu : (list items).text? = some u) : t ++ r ≠ u ++ s := by
  obtain ⟨c, text, rfl, hc⟩ := hv.exists_head hatom ht
  obtain ⟨texts, -, htext⟩ := exists_text?_list hu
  rw [htext]
  exact fun h => hc.2.1 (List.cons.inj h).1

theorem tellsApart_of_isAtom (hatom : v.IsAtom) : v.TellsApart := by
  intro w t u r s hv hw ht hu hr hs h
  cases w with
  | bool b | number n | symbol name =>
      obtain ⟨rfl, hrest⟩ := (hv.atom hatom ht hr).append_inj (hw.atom trivial hu hs) h
      exact ⟨hv.eq_of_isAtom hw hatom trivial ht hu, hrest⟩
  | list items => exact absurd h (hv.append_ne_list hatom ht hu)

theorem tellsApart_list {items : List Value} (happart : ∀ v ∈ items, v.TellsApart) :
    (list items).TellsApart := by
  intro w t u r s hv hw ht hu hr hs h
  cases w with
  | bool b | number n | symbol name => exact absurd h.symm (hw.append_ne_list trivial hu ht)
  | list items' =>
      rw [written_list] at hv hw
      obtain ⟨texts, htexts, ht⟩ := exists_text?_list ht
      obtain ⟨texts', htexts', hu⟩ := exists_text?_list hu
      rw [ht, hu, List.cons.injEq] at h
      obtain ⟨-, h⟩ := h
      cases htexts with
      | nil =>
          cases htexts' with
          | nil => exact ⟨rfl, (List.cons.inj h).2⟩
          | cons hfirst htexts' =>
              rw [intercalate_cons] at h
              exact absurd h.symm ((hw _ (List.mem_cons_self ..)).append_ne_close hfirst)
      | cons hfirst htexts =>
          cases htexts' with
          | nil =>
              rw [intercalate_cons] at h
              exact absurd h ((hv _ (List.mem_cons_self ..)).append_ne_close hfirst)
          | cons hfirst' htexts' =>
              rw [intercalate_cons, intercalate_cons] at h
              obtain ⟨hitems, hrest⟩ := eq_of_spaced_eq happart hv hw (.cons hfirst htexts)
                (.cons hfirst' htexts') (by rw [spaced_cons, spaced_cons, h])
              exact ⟨congrArg list hitems, hrest⟩

theorem tellsApart (v : Value) : v.TellsApart := by
  induction v using induction_on with
  | bool b | number n | symbol name => exact tellsApart_of_isAtom (by trivial)
  | list items ih => exact tellsApart_list ih

/-- Different written values are written differently. -/
theorem Written.eq_of_text?_eq (hv : v.Written) (hw : w.Written) (ht : v.text? = some t)
    (hu : w.text? = some t) : v = w :=
  have hempty : EndsAtom [] := nofun
  (tellsApart v hv hw ht hu hempty hempty rfl).1

end Value

end SmallScheme
