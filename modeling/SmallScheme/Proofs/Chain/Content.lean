import SmallScheme.Chain.Basic
import SmallScheme.Proofs.Chain.Memory

/-!
# What chains hold

A chain denotes a list if its link leads to the elements of the list and it carries their number.

* `Chain.Denotes.readsAs`: whatever is asked of a chain has the answer that the list gives, among
  it the number of cells and what a cursor counts as left at each step.
* `Chain.yields_tail`, `Chain.yields_append` and the like: each operation on chains is defined, and
  makes a chain that denotes the list which the same operation on lists makes. The links held
  elsewhere go on to lead to what they led to.
-/

namespace SmallScheme

variable {α β : Type} {m : Memory α}

/-- The elements, each with the number of those behind it. -/
def steps : List α → List (α × Nat)
  | [] => []
  | a :: rest => (a, rest.length) :: steps rest

theorem map_fst_steps (xs : List α) : (steps xs).map Prod.fst = xs := by
  induction xs with
  | nil => rfl
  | cons a rest ih => rw [steps, List.map_cons, ih]

/-! ## Cursors -/

namespace Cursor

/-- The elements from the cursor on are those of a list, and are all counted as left. -/
structure At (m : Memory α) (c : Cursor) (xs : List α) : Prop where
  held : m.Holds c.link xs
  remaining_eq : c.remaining = xs.length

variable {c : Cursor} {xs : List α}

theorem gather_of_next?_end (h : c.next? m = some none) (f : β → α × Nat → β) (start : β) :
    c.gather m f start = some start := by
  rw [gather]
  split
  · next hnone => cases h.symm.trans hnone
  · rfl
  · next hnext => cases h.symm.trans hnext

theorem gather_of_next? {a : α} {behind : Cursor} (h : c.next? m = some (some (a, behind)))
    (f : β → α × Nat → β) (start : β) :
    c.gather m f start = behind.gather m f (f start (a, behind.remaining)) := by
  rw [gather]
  split
  · next hnone => cases h.symm.trans hnone
  · next hend => cases h.symm.trans hend
  · next hnext =>
    cases h.symm.trans hnext
    rfl

theorem beq_of_next?_end [BEq α] (h : c.next? m = some none) (d : Cursor) :
    c.beq m d = (d.next? m).map Option.isNone := by
  rw [beq]
  split
  · next hnone => cases h.symm.trans hnone
  · rfl
  · next hnext => cases h.symm.trans hnext

theorem beq_of_next? [BEq α] {a : α} {behind : Cursor} (h : c.next? m = some (some (a, behind)))
    (d : Cursor) :
    c.beq m d = match d.next? m with
      | none => none
      | some none => some false
      | some (some (b, d)) => if a == b then behind.beq m d else some false := by
  rw [beq]
  split
  · next hnone => cases h.symm.trans hnone
  · next hend => cases h.symm.trans hend
  · next hnext =>
    cases h.symm.trans hnext
    rfl

theorem At.next?_nil (h : c.At m []) : c.next? m = some none := by
  obtain ⟨link, remaining⟩ := c
  cases h.held
  rfl

theorem At.next?_cons {x : α} (h : c.At m (x :: xs)) :
    ∃ behind, c.next? m = some (some (x, behind)) ∧ behind.At m xs := by
  obtain ⟨link, remaining⟩ := c
  obtain ⟨hheld, hremaining⟩ := h
  obtain rfl : remaining = xs.length + 1 := hremaining
  obtain _ | @⟨address, cell, _, hcell, hrest⟩ := hheld
  exact ⟨⟨cell.next, xs.length⟩, by simp [next?, hcell, countDown], hrest, rfl⟩

/-- **Going to the end** meets every element with the number of those behind it. -/
theorem At.gather (h : c.At m xs) (f : β → α × Nat → β) (start : β) :
    c.gather m f start = some ((steps xs).foldl f start) := by
  induction xs generalizing c start with
  | nil => rw [gather_of_next?_end h.next?_nil, steps, List.foldl_nil]
  | cons x xs ih =>
    obtain ⟨behind, hnext, hbehind⟩ := h.next?_cons
    rw [gather_of_next? hnext, ih hbehind, hbehind.remaining_eq, steps, List.foldl_cons]

theorem At.get? (h : c.At m xs) (n : Nat) : c.get? m n = some xs[n]? := by
  induction n generalizing c xs with
  | zero =>
    cases xs with
    | nil => simp [Cursor.get?, h.next?_nil]
    | cons x xs =>
      obtain ⟨behind, hnext, _⟩ := h.next?_cons
      simp [Cursor.get?, hnext]
  | succ n ih =>
    cases xs with
    | nil => simp [Cursor.get?, h.next?_nil]
    | cons x xs =>
      obtain ⟨behind, hnext, hbehind⟩ := h.next?_cons
      simp [Cursor.get?, hnext, ih hbehind]

theorem At.beq [BEq α] {d : Cursor} {ys : List α} (hc : c.At m xs) (hd : d.At m ys) :
    c.beq m d = some (xs == ys) := by
  induction xs generalizing c d ys with
  | nil =>
    rw [beq_of_next?_end hc.next?_nil]
    cases ys with
    | nil => simp [hd.next?_nil]
    | cons y ys =>
      obtain ⟨_, hnext, _⟩ := hd.next?_cons
      simp [hnext]
  | cons x xs ih =>
    obtain ⟨c', hnext, hc'⟩ := hc.next?_cons
    rw [beq_of_next? hnext]
    cases ys with
    | nil => simp [hd.next?_nil]
    | cons y ys =>
      obtain ⟨d', hnext', hd'⟩ := hd.next?_cons
      simp only [hnext', ih hc' hd', List.cons_beq_cons]
      cases x == y <;> rfl

end Cursor

/-! ## What a chain is asked -/

namespace Chain

/-- The cells of a chain hold the elements of a list, and the chain carries their number. -/
structure Denotes (c : Chain) (m : Memory α) (xs : List α) : Prop where
  held : m.Holds c.first xs
  length_eq : c.length = xs.length

/-- Every question about a chain has the answer that a list gives. -/
structure ReadsAs (c : Chain) (m : Memory α) (xs : List α) : Prop where
  /-- The length that the chain carries is the number of cells that it reaches. -/
  cells : {address | m.Reaches c.first address}.encard = c.length
  length : c.length = xs.length
  isEmpty : c.isEmpty = xs.isEmpty
  head? : c.head? m = some xs.head?
  get? : ∀ n, c.get? n m = some xs[n]?
  fold : ∀ {β : Type} (f : β → α → β) (start : β), c.fold f start m = some (xs.foldl f start)
  toList : c.toList m = some xs
  iterate : c.iterate m = some (steps xs)

variable {c d : Chain} {xs ys : List α}

namespace Denotes

theorem cursor (h : c.Denotes m xs) : c.cursor.At m xs :=
  ⟨h.held, h.length_eq⟩

theorem isEmpty (h : c.Denotes m xs) : c.isEmpty = xs.isEmpty := by
  obtain ⟨first, length⟩ := c
  cases h.held <;> rfl

theorem head? (h : c.Denotes m xs) : c.head? m = some xs.head? := by
  obtain ⟨first, length⟩ := c
  obtain _ | ⟨hcell, _⟩ := h.held
  · rfl
  · simp [Chain.head?, hcell]

theorem fold (h : c.Denotes m xs) (f : β → α → β) (start : β) :
    c.fold f start m = some (xs.foldl f start) := by
  rw [Chain.fold, h.cursor.gather, ← List.foldl_map, map_fst_steps]

theorem toList (h : c.Denotes m xs) : c.toList m = some xs := by
  simp [Chain.toList, h.fold]

theorem iterate (h : c.Denotes m xs) : c.iterate m = some (steps xs) := by
  simp [Chain.iterate, h.cursor.gather]

theorem beq [BEq α] (hc : c.Denotes m xs) (hd : d.Denotes m ys) :
    c.beq d m = some (xs == ys) := by
  rw [Chain.beq, hc.length_eq, hd.length_eq]
  split
  · exact hc.cursor.beq hd.cursor
  · next hlength =>
    rw [Bool.eq_false_iff.mpr fun hequal => hlength (List.length_eq_of_beq hequal)]

/-- **A chain reads as the list that it denotes.** -/
theorem readsAs (h : c.Denotes m xs) : c.ReadsAs m xs where
  cells := by rw [h.held.encard_reaches, h.length_eq]
  length := h.length_eq
  isEmpty := h.isEmpty
  head? := h.head?
  get? := h.cursor.get?
  fold := h.fold
  toList := h.toList
  iterate := h.iterate

end Denotes

/-! ## New chains -/

theorem denotes_nil : nil.Denotes m [] :=
  ⟨.nil, rfl⟩

/-- A chain of some elements has been made, and `roots` lead to what they led to before. -/
structure Made (m : Memory α) (roots : List Link) (xs : List α) (c : Chain) (after : Memory α) :
    Prop where
  sound : after.Sound (c.first :: roots)
  denotes : c.Denotes after xs
  keeps : m.Keeps roots after

variable {roots : List Link}

theorem Made.trans {between after : Memory α} (hfirst : m.Keeps roots between)
    (hsecond : Made between roots xs c after) : Made m roots xs c after :=
  ⟨hsecond.sound, hsecond.denotes, hfirst.trans hsecond.keeps⟩

theorem yields_release (hsound : m.Sound (c.first :: roots)) (h : c.Denotes m xs) :
    c.release.Yields m fun _ after => after.Sound roots ∧ m.Keeps roots after :=
  Memory.yields_release hsound h.held

theorem yields_nil (hsound : m.Sound roots) : Storing.Yields (pure nil) m (Made m roots []) :=
  Storing.yields_pure ⟨hsound.of_count (by simp [nil]), denotes_nil, fun _ _ _ h => h⟩

theorem yields_copy (hsound : m.Sound roots) (h : c.Denotes m xs) :
    c.copy.Yields m (Made m roots xs) := by
  refine .bind ((Memory.yields_share hsound h.held).imp fun _ after ⟨hafter, hkeeps⟩ => ?_)
  refine Storing.yields_pure ⟨hafter, ⟨?_, h.length_eq⟩, hkeeps roots⟩
  exact hkeeps [c.first] _ List.mem_cons_self xs h.held

theorem yields_prepend (hsound : m.Sound roots) (h : c.Denotes m xs) (a : α) :
    (c.prepend a).Yields m (Made m roots (a :: xs)) := by
  refine .bind ((Memory.yields_share hsound h.held).imp fun _ shared ⟨hshared, hkeeps⟩ => ?_)
  have hheld := hkeeps [c.first] _ List.mem_cons_self xs h.held
  refine .bind ((Memory.yields_allocate hshared hheld a).imp
    fun first after ⟨hafter, hfirst, hkeeps'⟩ => Storing.yields_pure ?_)
  exact ⟨hafter, ⟨hfirst, congrArg Nat.succ h.length_eq⟩, (hkeeps roots).trans (hkeeps' roots)⟩

theorem yields_singleton (hsound : m.Sound roots) (a : α) :
    (singleton a).Yields m (Made m roots [a]) :=
  yields_prepend hsound denotes_nil a

/-- The chain that is given up keeps its cells, since the new one leads to them. -/
theorem yields_extend (hsound : m.Sound (c.first :: roots)) (h : c.Denotes m xs) (a : α) :
    (extend a c).Yields m (Made m roots (a :: xs)) := by
  refine .bind ((yields_prepend hsound h a).imp fun longer between hmade => ?_)
  have hheld := hmade.keeps c.first List.mem_cons_self xs h.held
  have hsound' : between.Sound (c.first :: longer.first :: roots) :=
    hmade.sound.of_count fun _ => (List.Perm.swap _ _ _).count_eq _
  refine .bind ((yields_release hsound' ⟨hheld, h.length_eq⟩).imp
    fun _ after ⟨hafter, hkeeps⟩ => Storing.yields_pure ?_)
  refine ⟨hafter, ⟨?_, hmade.denotes.length_eq⟩, ?_⟩
  · exact hkeeps longer.first List.mem_cons_self _ hmade.denotes.held
  · intro link hlink ys hys
    exact hkeeps link (List.mem_cons_of_mem _ hlink) ys
      (hmade.keeps link (List.mem_cons_of_mem _ hlink) ys hys)

/-- Elements are put in front of a chain one after another, the last of them first. -/
theorem yields_foldrM_extend (hsound : m.Sound (c.first :: roots)) (h : c.Denotes m xs)
    (items : List α) : Storing.Yields (items.foldrM extend c) m (Made m roots (items ++ xs)) := by
  induction items with
  | nil =>
    exact Storing.yields_pure ⟨hsound, h, fun _ _ _ h => h⟩
  | cons a items ih =>
    rw [List.foldrM_cons]
    refine .bind (ih.imp fun c' between hmade => ?_)
    exact (yields_extend hmade.sound hmade.denotes a).imp fun _ _ => .trans hmade.keeps

theorem yields_ofList (hsound : m.Sound roots) (items : List α) :
    (ofList items : Storing α Chain).Yields m (Made m roots items) := by
  have hnil : m.Sound (nil.first :: roots) := hsound.of_count (by simp [nil])
  have hmade := yields_foldrM_extend hnil denotes_nil items
  rwa [List.append_nil] at hmade

theorem yields_tail (hsound : m.Sound roots) (h : c.Denotes m xs) :
    c.tail.Yields m (Made m roots xs.tail) := by
  obtain ⟨first, length⟩ := c
  obtain ⟨hheld, rfl⟩ := h
  obtain _ | @⟨address, cell, rest, hcell, hrest⟩ := hheld
  · exact yields_nil hsound
  · refine .bind (Storing.yields_look hcell ?_)
    refine .bind ((Memory.yields_share hsound hrest).imp fun _ after ⟨hafter, hkeeps⟩ => ?_)
    refine Storing.yields_pure ⟨hafter, ⟨?_, rfl⟩, hkeeps roots⟩
    exact hkeeps [cell.next] _ List.mem_cons_self rest hrest

theorem yields_append (hsound : m.Sound roots) (h : c.Denotes m xs) (a : α) :
    (c.append a).Yields m (Made m roots (xs ++ [a])) := by
  refine .bind (Storing.yields_look h.toList ?_)
  refine .bind ((yields_singleton hsound a).imp fun last between hmade => ?_)
  exact (yields_foldrM_extend hmade.sound hmade.denotes xs).imp fun _ _ => .trans hmade.keeps

theorem yields_map (hsound : m.Sound roots) (h : c.Denotes m xs) (f : α → α) :
    (c.map f).Yields m (Made m roots (xs.map f)) :=
  .bind (Storing.yields_look h.toList (yields_ofList hsound (xs.map f)))

end Chain

end SmallScheme
