import Mathlib.Data.Set.Card
import SmallScheme.Chain.Memory

/-!
# Memories that keep count

Links into a memory are held outside of it, by chains, and inside of it, by its cells. What links
outside lead to stays as it is as long as every cell counts both kinds.

* `Memory.Holds`: what a link leads to. It is one list, with one cell for each of its elements
  (`Memory.Holds.encard_reaches`).
* `Memory.Sound`: every cell counts the links to it, those of given roots and those of the cells,
  and leads on to an older cell.
* `Memory.yields_share`, `Memory.yields_allocate`, `Memory.yields_release`: in a sound memory the
  three operations are defined, and leave a sound memory in which every other root leads to what it
  led to before.
* `Memory.Sound.exists_root`: the cells of a sound memory are those that a root leads to.
-/

namespace SmallScheme

variable {α β γ : Type}

/-! ## Computations that are defined -/

/-- The computation is defined on a memory, with a result and a memory of some kind. -/
def Storing.Yields (x : Storing α β) (m : Memory α) (post : β → Memory α → Prop) : Prop :=
  ∃ b after, x.run m = some (b, after) ∧ post b after

namespace Storing

variable {m : Memory α} {post : β → Memory α → Prop}

theorem yields_pure {b : β} (h : post b m) : Yields (pure b) m post :=
  ⟨b, m, rfl, h⟩

theorem yields_look {f : Memory α → Option β} {b : β} (hf : f m = some b) (h : post b m) :
    Yields (Memory.look f) m post :=
  ⟨b, m, by simp [Memory.look, StateT.run, hf], h⟩

theorem yields_modify {f : Memory α → Memory α} {post : Unit → Memory α → Prop}
    (h : post () (f m)) : Yields (modify f) m post :=
  ⟨(), f m, rfl, h⟩

theorem Yields.bind {x : Storing α γ} {f : γ → Storing α β}
    (hx : Yields x m fun c between => Yields (f c) between post) : Yields (x >>= f) m post := by
  obtain ⟨c, between, hrun, b, after, hrest, hpost⟩ := hx
  exact ⟨b, after, by rw [StateT.run_bind, hrun]; exact hrest, hpost⟩

theorem Yields.imp {x : Storing α β} {post' : β → Memory α → Prop} (hx : Yields x m post)
    (h : ∀ b after, post b after → post' b after) : Yields x m post' := by
  obtain ⟨b, after, hrun, hpost⟩ := hx
  exact ⟨b, after, hrun, h b after hpost⟩

end Storing

namespace Memory

variable {m : Memory α}

/-! ## Cells by their addresses -/

theorem lt_size_of_cell? {address : Nat} {cell : Cell α} (h : m.cell? address = some cell) :
    address < m.slots.size :=
  (exists_getElem_of_cell? h).1

theorem cell?_put_self {address : Nat} {cell : Cell α} (h : m.cell? address = some cell)
    (slot : Option (Cell α)) : (m.put address slot).cell? address = slot := by
  simp [cell?, put, lt_size_of_cell? h]

theorem cell?_put_of_ne {address other : Nat} (h : other ≠ address) (slot : Option (Cell α)) :
    (m.put address slot).cell? other = m.cell? other := by
  simp [cell?, put, h.symm]

/-- A cell behind a change at an address is the new one or one from before. -/
theorem of_cell?_put {address other : Nat} {cell found : Cell α} {slot : Option (Cell α)}
    (h : m.cell? address = some cell) (hput : (m.put address slot).cell? other = some found) :
    other = address ∧ slot = some found ∨ m.cell? other = some found := by
  by_cases hother : other = address
  · subst hother
    exact .inl ⟨rfl, (cell?_put_self h slot).symm.trans hput⟩
  · exact .inr ((cell?_put_of_ne hother slot).symm.trans hput)

@[simp] theorem cell?_push_self (cell : Cell α) : (m.push cell).cell? m.slots.size = some cell := by
  simp [cell?, push]

theorem cell?_push_of_ne {address : Nat} (h : address ≠ m.slots.size) (cell : Cell α) :
    (m.push cell).cell? address = m.cell? address := by
  simp [cell?, push, Array.getElem?_push, h]

theorem of_cell?_push {other : Nat} {cell found : Cell α}
    (hpush : (m.push cell).cell? other = some found) :
    other = m.slots.size ∧ cell = found ∨ m.cell? other = some found := by
  by_cases hother : other = m.slots.size
  · subst hother
    exact .inl ⟨rfl, Option.some.inj ((cell?_push_self cell).symm.trans hpush)⟩
  · exact .inr ((cell?_push_of_ne hother cell).symm.trans hpush)

/-! ## What a link leads to -/

/-- The elements of the cells to which a link leads, in order. -/
inductive Holds (m : Memory α) : Link → List α → Prop where
  | nil : Holds m none []
  | cons {address : Nat} {cell : Cell α} {rest : List α} :
      m.cell? address = some cell → Holds m cell.next rest →
        Holds m (some address) (cell.element :: rest)

/-- A link leads to a cell, directly or through other cells. -/
inductive Reaches (m : Memory α) : Link → Nat → Prop where
  | here {address : Nat} {cell : Cell α} :
      m.cell? address = some cell → Reaches m (some address) address
  | behind {address target : Nat} {cell : Cell α} :
      m.cell? address = some cell → Reaches m cell.next target → Reaches m (some address) target

theorem Holds.unique {link : Link} {xs ys : List α} (hx : m.Holds link xs)
    (hy : m.Holds link ys) : xs = ys := by
  induction hx generalizing ys with
  | nil => cases hy; rfl
  | cons hcell _ ih =>
    cases hy with
    | cons hcell' hrest =>
      obtain rfl := Option.some.inj (hcell.symm.trans hcell')
      rw [ih hrest]

/-- A cell that is reached holds an end of what is held. -/
theorem Holds.of_reaches {link : Link} {xs : List α} {target : Nat} (h : m.Holds link xs)
    (hreaches : m.Reaches link target) :
    ∃ ys, m.Holds (some target) ys ∧ ys.length ≤ xs.length := by
  induction hreaches generalizing xs with
  | here => exact ⟨xs, h, Nat.le_refl _⟩
  | behind hcell _ ih =>
    cases h with
    | cons hcell' hrest =>
      obtain rfl := Option.some.inj (hcell.symm.trans hcell')
      obtain ⟨ys, hys, hle⟩ := ih hrest
      exact ⟨ys, hys, Nat.le_succ_of_le hle⟩

/-- No way leads from behind a cell back to it. -/
theorem Holds.not_reaches {address : Nat} {cell : Cell α} {rest : List α}
    (hcell : m.cell? address = some cell) (hrest : m.Holds cell.next rest) :
    ¬ m.Reaches cell.next address := by
  intro hreaches
  obtain ⟨ys, hys, hle⟩ := hrest.of_reaches hreaches
  obtain rfl := hys.unique (.cons hcell hrest)
  exact Nat.not_succ_le_self _ hle

theorem setOf_reaches_none : {target | m.Reaches none target} = ∅ :=
  Set.eq_empty_of_forall_notMem fun _ h => nomatch h

theorem setOf_reaches_some {address : Nat} {cell : Cell α} (h : m.cell? address = some cell) :
    {target | m.Reaches (some address) target}
      = insert address {target | m.Reaches cell.next target} := by
  ext target
  constructor
  · rintro (_ | ⟨hcell, hreaches⟩)
    · exact Set.mem_insert _ _
    · obtain rfl := Option.some.inj (h.symm.trans hcell)
      exact Set.mem_insert_of_mem _ hreaches
  · rintro (rfl | hreaches)
    · exact .here h
    · exact .behind h hreaches

/-- **A link that leads to a list reaches as many cells as the list has elements.** -/
theorem Holds.encard_reaches {link : Link} {xs : List α} (h : m.Holds link xs) :
    {target | m.Reaches link target}.encard = xs.length := by
  induction h with
  | nil => simp [setOf_reaches_none]
  | @cons address cell rest hcell hrest ih =>
    have hnew : address ∉ {target | m.Reaches cell.next target} := hrest.not_reaches hcell
    rw [setOf_reaches_some hcell, Set.encard_insert_of_notMem hnew, ih]
    rfl

theorem Reaches.step {link : Link} {address target : Nat} {cell : Cell α}
    (h : m.Reaches link address) (hcell : m.cell? address = some cell)
    (hnext : m.Reaches cell.next target) : m.Reaches link target := by
  induction h with
  | here => exact .behind hcell hnext
  | behind hfirst _ ih => exact .behind hfirst (ih hcell)

theorem Reaches.exists_cell {link : Link} {address : Nat} (h : m.Reaches link address) :
    ∃ cell, m.cell? address = some cell := by
  induction h with
  | here hcell => exact ⟨_, hcell⟩
  | behind _ _ ih => exact ih

/-- What a link leads to depends on elements and links only. -/
theorem Holds.imp {after : Memory α} {link : Link} {xs : List α} (h : m.Holds link xs)
    (hcells : ∀ {address cell}, m.cell? address = some cell →
      ∃ owners, after.cell? address = some { cell with owners := owners }) :
    after.Holds link xs := by
  induction h with
  | nil => exact .nil
  | cons hcell _ ih =>
    obtain ⟨owners, hafter⟩ := hcells hcell
    have hheld := Holds.cons hafter ih
    exact hheld

theorem Holds.put_owners {address : Nat} {cell : Cell α} {link : Link} {xs : List α}
    (h : m.Holds link xs) (hcell : m.cell? address = some cell) (owners : Nat) :
    (m.put address (some { cell with owners := owners })).Holds link xs := by
  refine h.imp fun {other found} hfound => ?_
  by_cases hother : other = address
  · subst hother
    obtain rfl := Option.some.inj (hcell.symm.trans hfound)
    exact ⟨owners, cell?_put_self hcell _⟩
  · exact ⟨found.owners, (cell?_put_of_ne hother _).trans hfound⟩

theorem Holds.push {link : Link} {xs : List α} (h : m.Holds link xs) (cell : Cell α) :
    (m.push cell).Holds link xs := by
  refine h.imp fun {address found} hfound => ⟨found.owners, ?_⟩
  exact (cell?_push_of_ne (lt_size_of_cell? hfound).ne cell).trans hfound

/-- A cell to which no link leads may go. -/
theorem Holds.put_none {address : Nat} {link : Link} {xs : List α} (h : m.Holds link xs)
    (hlink : link ≠ some address)
    (hcells : ∀ {other cell}, m.cell? other = some cell → cell.next ≠ some address) :
    (m.put address none).Holds link xs := by
  induction h with
  | nil => exact .nil
  | cons hcell _ ih =>
    have hne := fun heq => hlink (congrArg some heq)
    exact .cons ((cell?_put_of_ne hne none).trans hcell) (ih (hcells hcell))

/-! ## Counting links -/

/-- How many cells lead on to an address. -/
def inward (m : Memory α) (address : Nat) : Nat :=
  m.slots.countP fun slot => slot.bind Cell.next == some address

/-- How many links the cell at an address counts. -/
def owners (m : Memory α) (address : Nat) : Nat :=
  (m.cell? address).elim 0 Cell.owners

theorem owners_of_cell? {address : Nat} {cell : Cell α} (h : m.cell? address = some cell) :
    m.owners address = cell.owners := by
  simp [owners, h]

theorem exists_cell_of_owners_pos {address : Nat} (h : 0 < m.owners address) :
    ∃ cell, m.cell? address = some cell := by
  cases hcell : m.cell? address with
  | none => simp [owners, hcell] at h
  | some cell => exact ⟨cell, rfl⟩

theorem inward_pos_iff {address : Nat} :
    0 < m.inward address ↔ ∃ other cell, m.cell? other = some cell ∧ cell.next = some address := by
  rw [inward, Array.countP_pos_iff]
  constructor
  · rintro ⟨slot, hslot, hnext⟩
    obtain ⟨other, hlt, rfl⟩ := Array.mem_iff_getElem.mp hslot
    obtain ⟨cell, hcell, hnext⟩ := Option.bind_eq_some_iff.mp (eq_of_beq hnext)
    exact ⟨other, cell, by simp [cell?, hlt, hcell], hnext⟩
  · rintro ⟨other, cell, hcell, hnext⟩
    obtain ⟨_, hslot⟩ := exists_getElem_of_cell? hcell
    exact ⟨some cell, Array.mem_of_getElem hslot, by simp [hnext]⟩

theorem inward_put {address : Nat} {cell : Cell α} (h : m.cell? address = some cell)
    (slot : Option (Cell α)) (target : Nat) :
    (m.put address slot).inward target + [cell.next].count (some target)
      = m.inward target + [slot.bind Cell.next].count (some target) := by
  have hcounted : [cell.next].count (some target) ≤ m.inward target := by
    by_cases hnext : cell.next = some target
    · simpa [hnext] using Nat.one_le_iff_ne_zero.mpr
        (inward_pos_iff.mpr ⟨address, cell, h, hnext⟩).ne'
    · simp [hnext]
  obtain ⟨hlt, hslot⟩ := exists_getElem_of_cell? h
  rw [List.count_singleton, inward] at hcounted
  rw [List.count_singleton, List.count_singleton, inward, inward, put, Array.setIfInBounds,
    dif_pos hlt, Array.countP_set, hslot, Option.bind_some]
  omega

theorem inward_put_owners {address : Nat} {cell : Cell α} (h : m.cell? address = some cell)
    (owners target : Nat) :
    (m.put address (some { cell with owners := owners })).inward target = m.inward target :=
  Nat.add_right_cancel (inward_put h (some { cell with owners := owners }) target)

theorem inward_put_none {address : Nat} {cell : Cell α} (h : m.cell? address = some cell)
    (target : Nat) :
    (m.put address none).inward target + [cell.next].count (some target) = m.inward target := by
  simpa using inward_put h none target

theorem inward_push (element : α) (next : Link) (owners target : Nat) :
    (m.push ⟨element, next, owners⟩).inward target
      = m.inward target + [next].count (some target) := by
  simp [inward, push, Array.countP_push, List.count_singleton]

/-! ## Memories in which every link is counted -/

/-- Every cell counts the links that lead to it, with `roots` for those held outside of the memory,
and leads on to a cell that is older. -/
structure Sound (m : Memory α) (roots : List Link) : Prop where
  counted : ∀ address, m.owners address = roots.count (some address) + m.inward address
  owned : ∀ {address cell}, m.cell? address = some cell → 0 < cell.owners
  older : ∀ {address cell target}, m.cell? address = some cell → cell.next = some target →
    target < address

/-- Some links lead in a second memory to what they lead to in the first. -/
def Keeps (m : Memory α) (links : List Link) (after : Memory α) : Prop :=
  ∀ link ∈ links, ∀ xs, m.Holds link xs → after.Holds link xs

theorem Keeps.trans {links : List Link} {between after : Memory α} (hfirst : m.Keeps links between)
    (hsecond : between.Keeps links after) : m.Keeps links after :=
  fun link hlink xs h => hsecond link hlink xs (hfirst link hlink xs h)

theorem sound_empty : (empty : Memory α).Sound [] where
  counted address := by simp [owners, inward, cell?, empty]
  owned h := by simp [cell?, empty] at h
  older h := by simp [cell?, empty] at h

namespace Sound

variable {roots : List Link}

/-- How often each cell is a root is all that counts. -/
theorem of_count {roots' : List Link} (h : m.Sound roots)
    (hcount : ∀ address : Nat, roots'.count (some address) = roots.count (some address)) :
    m.Sound roots' where
  counted address := by rw [hcount, h.counted]
  owned := h.owned
  older := h.older

theorem exists_cell_of_mem {address : Nat} (h : m.Sound roots) (hmem : some address ∈ roots) :
    ∃ cell, m.cell? address = some cell := by
  have hpos : 0 < roots.count (some address) := List.count_pos_iff.mpr hmem
  exact exists_cell_of_owners_pos (by rw [h.counted]; omega)

/-- A cell may count links that are made or given up outside of the memory. -/
theorem put_owners {roots' : List Link} {address : Nat} {cell : Cell α} {owners : Nat}
    (h : m.Sound roots) (hcell : m.cell? address = some cell) (howners : 0 < owners)
    (hself : roots'.count (some address) + cell.owners = roots.count (some address) + owners)
    (hother : ∀ other, other ≠ address →
      roots'.count (some other) = roots.count (some other)) :
    (m.put address (some { cell with owners := owners })).Sound roots' where
  counted target := by
    have hcounted := h.counted target
    rw [inward_put_owners hcell]
    by_cases htarget : target = address
    · subst htarget
      have hafter : (m.put target (some { cell with owners := owners })).owners target = owners :=
        owners_of_cell? (cell?_put_self hcell _)
      rw [owners_of_cell? hcell] at hcounted
      omega
    · rw [Memory.owners, cell?_put_of_ne htarget, ← Memory.owners, hother target htarget, hcounted]
  owned hput := by
    obtain ⟨rfl, hfound⟩ | hfound := of_cell?_put hcell hput
    · obtain rfl := Option.some.inj hfound
      exact howners
    · exact h.owned hfound
  older hput hnext := by
    obtain ⟨rfl, hfound⟩ | hfound := of_cell?_put hcell hput
    · obtain rfl := Option.some.inj hfound
      exact h.older hcell hnext
    · exact h.older hfound hnext

/-- A cell that counts one link, which is a root, is led to from nowhere else. -/
theorem sole_link {address : Nat} {cell : Cell α} (h : m.Sound (some address :: roots))
    (hcell : m.cell? address = some cell) (hone : cell.owners = 1) :
    some address ∉ roots ∧ ∀ {other cell'}, m.cell? other = some cell' →
      cell'.next ≠ some address := by
  have hcounted := h.counted address
  rw [owners_of_cell? hcell, hone, List.count_cons_self] at hcounted
  refine ⟨fun hmem => ?_, fun hother hnext => ?_⟩
  · have := List.count_pos_iff.mpr hmem
    omega
  · have := inward_pos_iff.mpr ⟨_, _, hother, hnext⟩
    omega

/-- Where the only link to a cell is given up, the cell may go and leave its own link. -/
theorem put_none {address : Nat} {cell : Cell α} (h : m.Sound (some address :: roots))
    (hcell : m.cell? address = some cell) (hone : cell.owners = 1) :
    (m.put address none).Sound (cell.next :: roots) where
  counted target := by
    have hinward := inward_put_none hcell target
    have hcounted := h.counted target
    rw [List.count_singleton] at hinward
    rw [List.count_cons]
    by_cases htarget : target = address
    · subst htarget
      rw [owners_of_cell? hcell, hone, List.count_cons_self] at hcounted
      rw [Memory.owners, cell?_put_self hcell, Option.elim_none]
      omega
    · rw [List.count_cons_of_ne (by simpa using Ne.symm htarget)] at hcounted
      rw [Memory.owners, cell?_put_of_ne htarget, ← Memory.owners]
      omega
  owned hput := by
    obtain ⟨_, hfound⟩ | hfound := of_cell?_put hcell hput
    · cases hfound
    · exact h.owned hfound
  older hput hnext := by
    obtain ⟨_, hfound⟩ | hfound := of_cell?_put hcell hput
    · cases hfound
    · exact h.older hfound hnext

/-- A new cell takes over a root, and is a root itself. -/
theorem push {next : Link} (h : m.Sound (next :: roots)) (element : α) :
    (m.push ⟨element, next, 1⟩).Sound (some m.slots.size :: roots) where
  counted target := by
    have hcounted := h.counted target
    rw [List.count_cons] at hcounted
    rw [inward_push, List.count_singleton]
    by_cases htarget : target = m.slots.size
    · subst htarget
      have hbefore : m.owners m.slots.size = 0 := by simp [Memory.owners, cell?]
      have hafter : (m.push ⟨element, next, 1⟩).owners m.slots.size = 1 :=
        owners_of_cell? (cell?_push_self _)
      rw [hafter, List.count_cons_self]
      omega
    · rw [Memory.owners, cell?_push_of_ne htarget, ← Memory.owners,
        List.count_cons_of_ne (by simpa using Ne.symm htarget)]
      omega
  owned hpush := by
    obtain ⟨_, rfl⟩ | hfound := of_cell?_push hpush
    · exact Nat.one_pos
    · exact h.owned hfound
  older {_ _ target} hpush hnext := by
    obtain ⟨rfl, rfl⟩ | hfound := of_cell?_push hpush
    · obtain rfl : next = some target := hnext
      obtain ⟨cell, hcell⟩ := h.exists_cell_of_mem List.mem_cons_self
      exact lt_size_of_cell? hcell
    · exact h.older hfound hnext

/-- **No cell is kept for nothing**: a root leads to every cell of the memory. -/
theorem exists_root {address : Nat} {cell : Cell α} (h : m.Sound roots)
    (hcell : m.cell? address = some cell) : ∃ link ∈ roots, m.Reaches link address := by
  -- Whoever leads to a cell has a higher address, and the addresses in use are bounded.
  induction hroom : m.slots.size - address using Nat.strong_induction_on
    generalizing address cell with
  | _ room ih =>
    have hcounted := h.counted address
    have howned := h.owned hcell
    rw [owners_of_cell? hcell] at hcounted
    by_cases hroot : some address ∈ roots
    · exact ⟨some address, hroot, .here hcell⟩
    · rw [List.count_eq_zero_of_not_mem hroot] at hcounted
      obtain ⟨other, cell', hcell', hnext⟩ := inward_pos_iff.mp (by omega : 0 < m.inward address)
      have hlt := h.older hcell' hnext
      have hsize := lt_size_of_cell? hcell'
      obtain ⟨link, hlink, hreaches⟩ := ih _ (by omega) hcell' rfl
      exact ⟨link, hlink, hreaches.step hcell' (hnext ▸ .here hcell)⟩

end Sound

/-! ## The three operations -/

section

variable {roots : List Link} {link : Link} {xs : List α}

/-- **A link may be shared** where it leads to cells. -/
theorem yields_share (hsound : m.Sound roots) (hlink : m.Holds link xs) :
    (share link).Yields m fun _ after =>
      after.Sound (link :: roots) ∧ ∀ links, m.Keeps links after := by
  cases hlink with
  | nil => exact Storing.yields_pure ⟨hsound.of_count (by simp), fun _ _ _ _ h => h⟩
  | @cons address cell rest hcell hrest =>
    refine .bind (Storing.yields_look hcell (Storing.yields_modify ⟨?_, ?_⟩))
    · refine hsound.put_owners hcell (Nat.succ_pos _) ?_ fun other hother => ?_
      · rw [List.count_cons_self]
        omega
      · rw [List.count_cons_of_ne (by simpa using hother.symm)]
    · exact fun _ _ _ _ h => h.put_owners hcell _

/-- **A new cell leads on** to what its link led to. -/
theorem yields_allocate (hsound : m.Sound (link :: roots)) (hlink : m.Holds link xs) (element : α) :
    (allocate element link).Yields m fun made after =>
      after.Sound (made :: roots) ∧ after.Holds made (element :: xs) ∧
        ∀ links, m.Keeps links after := by
  refine .bind (Storing.yields_look rfl (.bind (Storing.yields_modify (Storing.yields_pure ?_))))
  refine ⟨hsound.push element, ?_, fun _ _ _ _ h => h.push _⟩
  exact .cons (cell?_push_self _) (hlink.push _)

theorem released?_of_owners_eq_one {address : Nat} {cell : Cell α}
    (hcell : m.cell? address = some cell) (hone : cell.owners = 1) :
    m.released? (some address) = (m.put address none).released? cell.next := by
  rw [released?]
  split
  · next hnone => cases hcell.symm.trans hnone
  · next found hfound =>
    obtain rfl := Option.some.inj (hcell.symm.trans hfound)
    rw [hone]

theorem released?_of_owners_eq_add {address : Nat} {cell : Cell α} {others : Nat}
    (hcell : m.cell? address = some cell) (howners : cell.owners = others + 2) :
    m.released? (some address)
      = some (m.put address (some { cell with owners := others + 1 })) := by
  rw [released?]
  split
  · next hnone => cases hcell.symm.trans hnone
  · next found hfound =>
    obtain rfl := Option.some.inj (hcell.symm.trans hfound)
    rw [howners]

/-- **Giving up a link** leaves what the others lead to. -/
theorem exists_released (hsound : m.Sound (link :: roots)) (hlink : m.Holds link xs) :
    ∃ after, m.released? link = some after ∧ after.Sound roots ∧ m.Keeps roots after := by
  -- On what the link leads to: where a cell goes, its own link is the next to be given up.
  induction xs generalizing m link with
  | nil =>
    cases hlink
    exact ⟨m, by rw [released?], hsound.of_count (by simp), fun _ _ _ h => h⟩
  | cons x xs ih =>
    obtain _ | @⟨address, cell, _, hcell, hrest⟩ := hlink
    have hpos := hsound.owned hcell
    rcases howners : cell.owners with _ | _ | others
    · omega
    · obtain ⟨hroots, hcells⟩ := hsound.sole_link hcell howners
      have hnext : (m.put address none).Holds cell.next xs :=
        hrest.put_none (hcells hcell) hcells
      obtain ⟨after, hreleased, hafter, hkeeps⟩ := ih (hsound.put_none hcell howners) hnext
      refine ⟨after, (released?_of_owners_eq_one hcell howners).trans hreleased, hafter, ?_⟩
      intro other hother ys h
      exact hkeeps other hother ys (h.put_none (fun heq => hroots (heq ▸ hother)) hcells)
    · refine ⟨_, released?_of_owners_eq_add hcell howners, ?_, fun _ _ _ h => h.put_owners hcell _⟩
      refine hsound.put_owners hcell (Nat.succ_pos _) ?_ fun other hother => ?_
      · rw [List.count_cons_self]
        omega
      · rw [List.count_cons_of_ne (by simpa using hother.symm)]

theorem yields_release (hsound : m.Sound (link :: roots)) (hlink : m.Holds link xs) :
    (release link).Yields m fun _ after => after.Sound roots ∧ m.Keeps roots after := by
  obtain ⟨after, hreleased, hafter⟩ := exists_released hsound hlink
  exact ⟨(), after, by simp [release, StateT.run, hreleased], hafter⟩

end

end Memory

end SmallScheme
