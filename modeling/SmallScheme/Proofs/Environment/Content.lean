import SmallScheme.Proofs.Environment.View
import SmallScheme.Proofs.Fault

/-!
# What an environment holds

The values in an environment are those of its variables, the forms of its functions, and what
parameters are bound to, in the calls under way and in what calls of the shared model have left. An
environment holds values of some kind (`Environment.Holds`) if all of these are of that kind. Then
so is every value that it yields, and binding a name to such a value and calling a function with
such values keep it so.
-/

namespace SmallScheme

/-! ## Tables -/

namespace Table

variable {α : Type} {p : String → α → Prop} {t : Table α} {name : String} {a : α}

/-- Every entry of a table is of some kind. -/
def Each (p : String → α → Prop) (t : Table α) : Prop :=
  ∀ name a, t.get? name = some a → p name a

theorem each_empty : (empty : Table α).Each p := by
  intro name a h
  cases h

theorem Each.insert (h : t.Each p) (ha : p name a) : (t.insert name a).Each p := by
  intro other b hb
  by_cases heq : other = name
  · subst heq
    obtain rfl : a = b := by simpa using hb
    exact ha
  · rw [get?_insert_of_ne t heq] at hb
    exact h other b hb

theorem Each.erase (h : t.Each p) (name : String) : (t.erase name).Each p := by
  intro other b hb
  by_cases heq : other = name
  · subst heq
    simp at hb
  · rw [get?_erase_of_ne t heq] at hb
    exact h other b hb

theorem Each.insertAll (h : t.Each p) {bindings : List (String × α)}
    (hbindings : ∀ b ∈ bindings, p b.1 b.2) : (t.insertAll bindings).Each p := by
  induction bindings generalizing t with
  | nil => exact h
  | cons b rest ih =>
    have hinsert := h.insert (hbindings b List.mem_cons_self)
    exact ih hinsert fun b hb => hbindings b (List.mem_cons_of_mem _ hb)

theorem Each.of_mem_toList (h : t.Each p) {e : String × α} (he : e ∈ t.toList) : p e.1 e.2 :=
  h e.1 e.2 (find?_of_mem t.ascending he)

end Table

/-! ## Calls -/

namespace Calls

variable {q : Table Value → Prop} {calls : Calls}

/-- Every table of bindings is of some kind: those of the calls under way, and those that calls of
the shared model have left. -/
def Every (q : Table Value → Prop) : Calls → Prop
  | frames stack => ∀ table ∈ stack, q table
  | shared contexts _ => contexts.Each fun _ => q

theorem every_initial (model : CallModel) : (initial model).Every q := by
  cases model with
  | frames => exact fun table htable => absurd htable List.not_mem_nil
  | shared => exact Table.each_empty

theorem Every.current (h : calls.Every q) {table : Table Value}
    (htable : calls.current = some table) : q table := by
  cases calls with
  | frames stack => exact h table (List.mem_of_head? htable)
  | shared contexts active =>
    obtain ⟨key, -, hkey⟩ := Option.bind_eq_some_iff.mp htable
    exact h key table hkey

/-- Starting a call adds its bindings to some table, or to the empty one. -/
theorem Every.enter (h : calls.Every q) {key : String} {bindings : List (String × Option Value)}
    (hempty : q .empty)
    (hadd : ∀ table, q table →
      q (table.insertAll (bindings.filterMap fun b => b.2.map (b.1, ·)))) :
    (calls.enter key bindings).Every q := by
  cases calls with
  | frames stack => exact List.forall_mem_cons.mpr ⟨hadd _ hempty, h⟩
  | shared contexts active =>
    refine Table.Each.insert h (hadd _ ?_)
    cases htable : contexts.get? key with
    | none => exact hempty
    | some table => exact h key table htable

theorem Every.leave (h : calls.Every q) : calls.leave.Every q := by
  cases calls with
  | frames stack => exact fun table htable => h table (List.mem_of_mem_tail htable)
  | shared contexts active => exact h

end Calls

/-! ## Environments -/

namespace Environment

variable {good : Value → Prop} {env : Environment} {name : String} {v : Value}

/-- All values in an environment are of some kind. -/
structure Holds (good : Value → Prop) (env : Environment) : Prop where
  values : env.values.Each fun _ => good
  functions : env.functions.Each fun _ f => good f.toForm
  parameters : env.calls.Every (Table.Each fun _ => good)

theorem holds_fresh (config : Config) : (fresh config).Holds good :=
  ⟨Table.each_empty, Table.each_empty, Calls.every_initial config.model⟩

theorem holds_of_forall (h : ∀ v, good v) (env : Environment) : env.Holds good where
  values _ v _ := h v
  functions _ f _ := h f.toForm
  parameters := by
    cases env.calls with
    | frames => exact fun _ _ _ v _ => h v
    | shared => exact fun _ _ _ _ v _ => h v

namespace Holds

theorem parameter (h : env.Holds good) (hv : env.calls.lookup? name = some v) : good v := by
  obtain ⟨table, htable, hv⟩ := Option.bind_eq_some_iff.mp hv
  exact h.parameters.current htable name v hv

theorem lookup (h : env.Holds good) (hnil : good .nil) (hv : env.lookup name = .ok v) :
    good v := by
  unfold Environment.lookup at hv
  split at hv
  · cases hv
    exact hnil
  split at hv
  · next hparam =>
    cases hv
    exact h.parameter hparam
  split at hv
  · next hvalue =>
    cases hv
    exact h.values name _ hvalue
  split at hv
  · next f hf =>
    cases hv
    exact h.functions name f hf
  · cases hv

theorem resolve (h : env.Holds good) {f : Function} (hf : env.resolve name = .ok (some f)) :
    good f.toForm := by
  unfold Environment.resolve at hf
  split at hf
  · next form hform =>
    have hparam := h.parameter (Option.filter_eq_some_iff.mp hform).1
    cases hread : Function.ofForm form with
    | error fault =>
      rw [hread] at hf
      cases hf
    | ok g =>
      rw [hread] at hf
      cases hf
      rwa [← (Function.ofForm_eq_ok_iff.mp hread).2]
  · exact h.functions name f (Except.ok.inj hf)

theorem resolve_error (h : env.Holds good)
    (hlist : ∀ items, good (.list items) → ∀ v ∈ items, good v) {fault : Fault}
    (hfault : env.resolve name = .error fault) : fault.Shows good := by
  obtain ⟨form, hform, hshown⟩ := shows_of_resolve hfault
  exact hshown.imp fun u hu => Value.of_mem_parts hlist (h.parameter hform) hu

theorem bind (h : env.Holds good) (hv : good v) {bound : Environment}
    (hbound : env.bind name v = .ok bound) : bound.Holds good := by
  rcases bind_cases hbound with ⟨f, -, rfl, rfl⟩ | ⟨-, rfl⟩
  · exact ⟨h.values.erase name, h.functions.insert hv, h.parameters⟩
  · exact ⟨h.values.insert hv, h.functions.erase name, h.parameters⟩

theorem enter (h : env.Holds good) (key : String) {bindings : List (String × Option Value)}
    (hbindings : ∀ b ∈ bindings, ∀ v ∈ b.2, good v) : (env.enter key bindings).Holds good := by
  refine ⟨h.values, h.functions, h.parameters.enter Table.each_empty fun table htable => ?_⟩
  refine htable.insertAll fun b hb => ?_
  obtain ⟨binding, hbinding, hb⟩ := List.mem_filterMap.mp hb
  obtain ⟨v, hv, rfl⟩ := Option.map_eq_some_iff.mp hb
  exact hbindings binding hbinding v hv

/-- Every binding that is listed is of that kind. -/
theorem bindings (h : env.Holds good) {b : String × Value} (hb : b ∈ env.bindings) : good b.2 := by
  rw [Environment.bindings, List.mem_mergeSort, List.mem_append] at hb
  rcases hb with hb | hb
  · exact h.values.of_mem_toList hb
  · obtain ⟨entry, hentry, rfl⟩ := List.mem_map.mp hb
    exact h.functions.of_mem_toList hentry

theorem leave (h : env.Holds good) : env.leave.Holds good :=
  ⟨h.values, h.functions, h.parameters.leave⟩

end Holds

end Environment

end SmallScheme
