import SmallScheme.Table

/-!
# What tables bind

The entries of a table and what names are bound to in it are two views of the same
(`Table.mem_toList_iff`). Changes at different names do not interfere with each other.

Bindings may be added to a table all together (`Table.insertAll`). What a name is bound to
afterwards depends on the table only if the name is not among those bindings
(`Table.get?_insertAll_congr`).
-/

namespace SmallScheme

namespace Table

variable {α : Type} {name other : String}

/-! ## Entries and names -/

theorem mem_of_find? {name : String} {a : α} {entries : List (String × α)}
    (h : find? name entries = some a) : (name, a) ∈ entries := by
  induction entries with
  | nil => cases h
  | cons e rest ih =>
    rw [find?] at h
    split at h
    · next hname =>
      obtain rfl := Option.some.inj h
      obtain rfl := hname
      exact List.mem_cons_self
    · exact List.mem_cons_of_mem _ (ih h)

theorem find?_of_mem {entries : List (String × α)} {e : String × α}
    (h : entries.Pairwise fun a b => a.1 < b.1) (he : e ∈ entries) :
    find? e.1 entries = some e.2 := by
  induction entries with
  | nil => exact absurd he List.not_mem_nil
  | cons first rest ih =>
    obtain ⟨hfirst, hrest⟩ := List.pairwise_cons.mp h
    rcases List.mem_cons.mp he with rfl | he
    · simp [find?]
    · have hne : first.1 ≠ e.1 := fun heq => String.lt_irrefl e.1 (heq ▸ hfirst e he)
      rw [find?, if_neg hne]
      exact ih hrest he

theorem mem_toList_iff {t : Table α} {name : String} {a : α} :
    (name, a) ∈ t.toList ↔ t.get? name = some a :=
  ⟨find?_of_mem t.ascending, mem_of_find?⟩

/-- Ascending entries are determined by which they are. -/
theorem eq_of_perm {as bs : List (String × α)} (ha : as.Pairwise fun a b => a.1 < b.1)
    (hb : bs.Pairwise fun a b => a.1 < b.1) (h : as.Perm bs) : as = bs :=
  h.eq_of_pairwise (fun _ _ _ _ hab hba => absurd hab (String.lt_asymm hba)) ha hb

/-- The entries of a table are that of a name, if it has one, and the others. -/
theorem perm_erase (t : Table α) (name : String) :
    t.entries.Perm (((t.get? name).map (name, ·)).toList ++ (t.erase name).entries) := by
  obtain ⟨entries, hascending⟩ := t
  simp only [get?, erase]
  induction entries with
  | nil => exact .nil
  | cons e rest ih =>
    obtain ⟨n, v⟩ := e
    obtain ⟨hlt, hrest⟩ := List.pairwise_cons.mp hascending
    by_cases hname : n = name
    · subst hname
      have hothers : rest.filter (·.1 ≠ n) = rest :=
        List.filter_eq_self.mpr fun e he => by
          simpa using fun heq : e.1 = n => String.lt_irrefl n (by simpa [heq] using hlt e he)
      rw [find?, if_pos rfl, List.filter_cons_of_neg (by simp), hothers]
      exact .refl _
    · rw [find?, if_neg hname, List.filter_cons_of_pos (by simpa using hname)]
      exact ((ih hrest).cons _).trans List.perm_middle.symm

/-! ## Changes at different names -/

theorem contains_insert (t : Table α) (name other : String) (a : α) :
    (t.insert name a).contains other = (decide (other = name) || t.contains other) := by
  by_cases hother : other = name
  · subst hother
    simp [contains]
  · simp [contains, get?_insert_of_ne t hother, hother]

theorem contains_erase (t : Table α) (name other : String) :
    (t.erase name).contains other = (!decide (other = name) && t.contains other) := by
  by_cases hother : other = name
  · subst hother
    simp [contains]
  · simp [contains, get?_erase_of_ne t hother, hother]

theorem insert_insert_of_ne (t : Table α) (h : name ≠ other) (a b : α) :
    (t.insert name a).insert other b = (t.insert other b).insert name a := by
  refine ext_get? fun key => ?_
  by_cases hother : key = other
  · subst hother
    rw [get?_insert_self, get?_insert_of_ne _ h.symm, get?_insert_self]
  · by_cases hname : key = name
    · subst hname
      rw [get?_insert_of_ne _ hother, get?_insert_self, get?_insert_self]
    · simp only [get?_insert_of_ne _ hother, get?_insert_of_ne _ hname]

theorem erase_eq_self {t : Table α} (h : t.get? name = none) : t.erase name = t := by
  refine ext_get? fun key => ?_
  by_cases hname : key = name
  · rw [hname, get?_erase_self, h]
  · exact get?_erase_of_ne t hname

theorem erase_insert_of_ne (t : Table α) (h : name ≠ other) (a : α) :
    (t.insert name a).erase other = (t.erase other).insert name a := by
  refine ext_get? fun key => ?_
  by_cases hother : key = other
  · subst hother
    rw [get?_erase_self, get?_insert_of_ne _ h.symm, get?_erase_self]
  · by_cases hname : key = name
    · subst hname
      rw [get?_erase_of_ne _ hother, get?_insert_self, get?_insert_self]
    · simp only [get?_erase_of_ne _ hother, get?_insert_of_ne _ hname]

theorem erase_insert_self (t : Table α) (name : String) (a : α) :
    (t.insert name a).erase name = t.erase name := by
  refine ext_get? fun key => ?_
  by_cases hname : key = name
  · rw [hname, get?_erase_self, get?_erase_self]
  · rw [get?_erase_of_ne _ hname, get?_erase_of_ne _ hname, get?_insert_of_ne _ hname]

/-! ## More bindings -/

section

variable {bindings : List (String × α)}

theorem get?_insertAll_congr {s t : Table α}
    (h : name ∉ bindings.map Prod.fst → s.get? name = t.get? name) :
    (s.insertAll bindings).get? name = (t.insertAll bindings).get? name := by
  induction bindings generalizing s t with
  | nil => exact h List.not_mem_nil
  | cons b rest ih =>
    refine ih fun hrest => ?_
    by_cases hb : name = b.1
    · rw [hb, get?_insert_self, get?_insert_self]
    · rw [get?_insert_of_ne _ hb, get?_insert_of_ne _ hb]
      refine h ?_
      rw [List.map_cons, List.mem_cons, not_or]
      exact ⟨hb, hrest⟩

theorem get?_insertAll_of_notMem (h : name ∉ bindings.map Prod.fst) (t : Table α) :
    (t.insertAll bindings).get? name = t.get? name := by
  induction bindings generalizing t with
  | nil => rfl
  | cons b rest ih =>
    simp only [List.map_cons, List.mem_cons, not_or] at h
    calc ((t.insert b.1 b.2).insertAll rest).get? name
        = (t.insert b.1 b.2).get? name := ih h.2 _
      _ = t.get? name := get?_insert_of_ne t h.1 b.2

/-- Of bindings with distinct names each is found. -/
theorem get?_insertAll_of_mem (hnodup : (bindings.map Prod.fst).Nodup) {value : α}
    (h : (name, value) ∈ bindings) (t : Table α) :
    (t.insertAll bindings).get? name = some value := by
  induction bindings generalizing t with
  | nil => cases h
  | cons b rest ih =>
    rw [List.map_cons, List.nodup_cons] at hnodup
    rcases List.mem_cons.mp h with rfl | h
    · calc ((t.insert name value).insertAll rest).get? name
          = (t.insert name value).get? name := get?_insertAll_of_notMem hnodup.1 _
        _ = some value := get?_insert_self t name value
    · exact ih hnodup.2 h _

theorem contains_insertAll {t : Table α} (h : (t.insertAll bindings).contains name = true) :
    name ∈ bindings.map Prod.fst ∨ t.contains name = true := by
  by_cases hname : name ∈ bindings.map Prod.fst
  · exact .inl hname
  · rw [contains, get?_insertAll_of_notMem hname] at h
    exact .inr h

end

end Table

end SmallScheme
