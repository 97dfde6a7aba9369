/-!
# Tables

A table binds names to data. Its entries are kept in ascending order of their names, which is the
order in which bindings are listed, and which makes a table determined by what it answers: two
tables that agree on every name are equal (`Table.ext_get?`).
-/

namespace SmallScheme

/-- Entries in ascending order of their names, no name twice. -/
@[ext] structure Table (α : Type) where
  entries : List (String × α)
  ascending : entries.Pairwise fun a b => a.1 < b.1

namespace Table

variable {α : Type}

/-! ## Operations on entries -/

def find? (name : String) : List (String × α) → Option α
  | [] => none
  | (n, v) :: rest => if n = name then some v else find? name rest

/-- Puts an entry in its place, instead of the one with the same name if there is one. -/
def put (name : String) (value : α) : List (String × α) → List (String × α)
  | [] => [(name, value)]
  | (n, v) :: rest =>
    if name < n then (name, value) :: (n, v) :: rest
    else if name = n then (name, value) :: rest
    else (n, v) :: put name value rest

theorem mem_put {name : String} {value : α} {e : String × α} {entries : List (String × α)}
    (h : e ∈ put name value entries) : e = (name, value) ∨ e ∈ entries := by
  fun_induction put name value entries with
  | case1 => exact .inl (by simpa using h)
  | case2 => simpa using h
  | case3 =>
    rcases List.mem_cons.mp h with rfl | h
    · exact .inl rfl
    · exact .inr (List.mem_cons_of_mem _ h)
  | case4 n v rest _ _ ih =>
    rcases List.mem_cons.mp h with rfl | h
    · exact .inr List.mem_cons_self
    · exact (ih h).imp_right (List.mem_cons_of_mem _)

theorem put_ascending {name : String} {value : α} {entries : List (String × α)}
    (h : entries.Pairwise fun a b => a.1 < b.1) :
    (put name value entries).Pairwise fun a b => a.1 < b.1 := by
  fun_induction put name value entries with
  | case1 => simp
  | case2 n v rest hlt =>
    refine List.pairwise_cons.mpr ⟨fun e he => ?_, h⟩
    rcases List.mem_cons.mp he with rfl | he
    · exact hlt
    · exact String.lt_trans hlt ((List.pairwise_cons.mp h).1 e he)
  | case3 v rest _ => exact List.pairwise_cons.mpr (List.pairwise_cons.mp h)
  | case4 n v rest hlt hne ih =>
    obtain ⟨hhead, htail⟩ := List.pairwise_cons.mp h
    refine List.pairwise_cons.mpr ⟨fun e he => ?_, ih htail⟩
    rcases mem_put he with rfl | he
    · have hle : n ≤ name := String.not_lt.mp hlt
      exact Decidable.byContradiction fun hn =>
        hne (String.le_antisymm (String.not_lt.mp hn) hle)
    · exact hhead e he

theorem find?_put_self (name : String) (value : α) (entries : List (String × α)) :
    find? name (put name value entries) = some value := by
  fun_induction put name value entries with
  | case1 | case2 | case3 => simp [find?]
  | case4 n v rest _ hne ih => simp [find?, Ne.symm hne, ih]

theorem find?_put_of_ne {name other : String} (h : other ≠ name) (value : α)
    (entries : List (String × α)) : find? other (put name value entries) = find? other entries := by
  fun_induction put name value entries with
  | case1 | case2 | case3 => simp [find?, Ne.symm h]
  | case4 n v rest _ _ ih => simp [find?, ih]

theorem find?_eq_none {name : String} {entries : List (String × α)}
    (h : ∀ e ∈ entries, e.1 ≠ name) : find? name entries = none := by
  induction entries with
  | nil => rfl
  | cons e rest ih =>
    simp [find?, h e List.mem_cons_self, ih fun e he => h e (List.mem_cons_of_mem _ he)]

theorem find?_filter_of_ne {name other : String} (h : other ≠ name)
    (entries : List (String × α)) :
    find? other (entries.filter (·.1 ≠ name)) = find? other entries := by
  induction entries with
  | nil => rfl
  | cons e rest ih =>
    obtain ⟨n, v⟩ := e
    rw [List.filter_cons]
    by_cases hn : n = name
    · subst hn
      simpa [find?, Ne.symm h] using ih
    · simpa [hn, find?] using congrArg (if n = other then some v else ·) ih

/-! ## Operations on tables -/

def empty : Table α := ⟨[], .nil⟩

instance : Inhabited (Table α) := ⟨empty⟩

def get? (t : Table α) (name : String) : Option α :=
  find? name t.entries

/-- What a name is bound to, or else a default. -/
def getD (t : Table α) (name : String) (default : α) : α :=
  (t.get? name).getD default

def contains (t : Table α) (name : String) : Bool :=
  (t.get? name).isSome

/-- Binds a name, in place of its earlier binding if there is one. -/
def insert (t : Table α) (name : String) (value : α) : Table α :=
  ⟨put name value t.entries, put_ascending t.ascending⟩

def erase (t : Table α) (name : String) : Table α :=
  ⟨t.entries.filter (·.1 ≠ name), t.ascending.filter _⟩

def insertAll (t : Table α) (bindings : List (String × α)) : Table α :=
  bindings.foldl (fun t b => t.insert b.1 b.2) t

def toList (t : Table α) : List (String × α) := t.entries

/-! ## What a name is bound to -/

@[simp] theorem get?_empty (name : String) : (empty : Table α).get? name = none := rfl

@[simp] theorem get?_insert_self (t : Table α) (name : String) (value : α) :
    (t.insert name value).get? name = some value :=
  find?_put_self name value t.entries

theorem get?_insert_of_ne (t : Table α) {name other : String} (h : other ≠ name) (value : α) :
    (t.insert name value).get? other = t.get? other :=
  find?_put_of_ne h value t.entries

@[simp] theorem get?_erase_self (t : Table α) (name : String) : (t.erase name).get? name = none :=
  find?_eq_none fun e he => by simpa using (List.mem_filter.mp he).2

theorem get?_erase_of_ne (t : Table α) {name other : String} (h : other ≠ name) :
    (t.erase name).get? other = t.get? other :=
  find?_filter_of_ne h t.entries

@[simp] theorem getD_insert_self (t : Table α) (name : String) (value default : α) :
    (t.insert name value).getD name default = value := by
  simp [getD]

theorem getD_insert_of_ne (t : Table α) {name other : String} (h : other ≠ name)
    (value default : α) : (t.insert name value).getD other default = t.getD other default := by
  rw [getD, get?_insert_of_ne t h, getD]

@[simp] theorem getD_erase_self (t : Table α) (name : String) (default : α) :
    (t.erase name).getD name default = default := by
  simp [getD]

theorem getD_erase_of_ne (t : Table α) {name other : String} (h : other ≠ name) (default : α) :
    (t.erase name).getD other default = t.getD other default := by
  rw [getD, get?_erase_of_ne t h, getD]

/-- The head of ascending entries is the only entry of its name. -/
theorem find?_tail_eq_none {name : String} {value : α} {rest : List (String × α)}
    (h : List.Pairwise (fun a b : String × α => a.1 < b.1) ((name, value) :: rest)) :
    find? name rest = none :=
  find?_eq_none fun e he heq =>
    String.lt_irrefl name (by simpa [heq] using (List.pairwise_cons.mp h).1 e he)

/-- A name before the head of ascending entries has no entry. -/
theorem find?_eq_none_of_lt {name n : String} {value : α} {rest : List (String × α)}
    (hlt : name < n)
    (h : List.Pairwise (fun a b : String × α => a.1 < b.1) ((n, value) :: rest)) :
    find? name ((n, value) :: rest) = none := by
  refine find?_eq_none fun e he heq => ?_
  have hle : name < e.1 := by
    rcases List.mem_cons.mp he with rfl | he
    · exact hlt
    · exact String.lt_trans hlt ((List.pairwise_cons.mp h).1 e he)
  exact String.lt_irrefl name (heq ▸ hle)

theorem entries_eq_of_find?_eq {as bs : List (String × α)}
    (ha : as.Pairwise fun a b => a.1 < b.1) (hb : bs.Pairwise fun a b => a.1 < b.1)
    (h : ∀ name, find? name as = find? name bs) : as = bs := by
  induction as generalizing bs with
  | nil =>
    cases bs with
    | nil => rfl
    | cons b rest => simpa [find?] using h b.1
  | cons a as ih =>
    obtain ⟨n, v⟩ := a
    cases bs with
    | nil => simpa [find?] using h n
    | cons b bs =>
      obtain ⟨m, w⟩ := b
      have hnm : n = m := by
        refine String.le_antisymm (String.not_lt.mp fun hlt => ?_)
          (String.not_lt.mp fun hlt => ?_)
        · have := h m
          rw [find?_eq_none_of_lt hlt ha] at this
          simp [find?] at this
        · have := h n
          rw [find?_eq_none_of_lt hlt hb] at this
          simp [find?] at this
      subst hnm
      have hvw : v = w := by simpa [find?] using h n
      subst hvw
      rw [ih ha.of_cons hb.of_cons fun name => ?_]
      by_cases hn : n = name
      · subst hn
        rw [find?_tail_eq_none ha, find?_tail_eq_none hb]
      · simpa [find?, hn] using h name

/-- Tables that bind every name alike are equal. -/
theorem ext_get? {s t : Table α} (h : ∀ name, s.get? name = t.get? name) : s = t :=
  Table.ext (entries_eq_of_find?_eq s.ascending t.ascending h)

end Table

end SmallScheme
