/-!
# Cells in memory

The elements of chains stand in cells, and every cell leads to the one behind it by a link. Several
links may lead to one cell, so that chains share their ends. A cell counts the links that lead to
it, and goes when the last of them is given up.

What is done with a memory is undefined where a link leads to no cell and where a number would fall
below zero.
-/

namespace SmallScheme

/-- The address of a cell, or nothing at the end of a chain. -/
abbrev Link := Option Nat

structure Cell (α : Type) where
  element : α
  next : Link
  /-- How many links lead to the cell. -/
  owners : Nat
deriving DecidableEq, Repr

/-- Cells by their addresses. No address is used for a second cell. -/
structure Memory (α : Type) where
  slots : Array (Option (Cell α))

/-- A computation that reads and changes a memory. -/
abbrev Storing (α : Type) := StateT (Memory α) Option

namespace Memory

variable {α β : Type}

def empty : Memory α := ⟨#[]⟩

def cell? (m : Memory α) (address : Nat) : Option (Cell α) :=
  m.slots[address]?.join

/-- Puts a cell, or none, at an address that is in use. -/
def put (m : Memory α) (address : Nat) (slot : Option (Cell α)) : Memory α :=
  ⟨m.slots.setIfInBounds address slot⟩

/-- Puts a cell at an address that has not been used. -/
def push (m : Memory α) (cell : Cell α) : Memory α :=
  ⟨m.slots.push (some cell)⟩

/-- Finds something out about the memory. -/
def look (f : Memory α → Option β) : Storing α β :=
  fun m => (f m).map (·, m)

/-- Makes a second link like a given one. -/
def share (link : Link) : Storing α Unit := do
  match link with
  | none => return
  | some address =>
    let cell ← look (·.cell? address)
    modify (·.put address (some { cell with owners := cell.owners + 1 }))

/-- Makes a new cell and a link to it. The cell takes over the link that leads on from it. -/
def allocate (element : α) (next : Link) : Storing α Link := do
  let address ← look (some ·.slots.size)
  modify (·.push ⟨element, next, 1⟩)
  return some address

theorem exists_getElem_of_cell? {m : Memory α} {address : Nat} {cell : Cell α}
    (h : m.cell? address = some cell) :
    ∃ _ : address < m.slots.size, m.slots[address] = some cell :=
  Array.getElem?_eq_some_iff.mp (Option.join_eq_some_iff.mp h)

/-- The number of cells. -/
def size (m : Memory α) : Nat :=
  m.slots.countP Option.isSome

theorem size_put_none_lt {m : Memory α} {address : Nat} {cell : Cell α}
    (h : m.cell? address = some cell) : (m.put address none).size < m.size := by
  obtain ⟨hlt, hslot⟩ := exists_getElem_of_cell? h
  have hpos : 0 < m.slots.countP Option.isSome :=
    Array.countP_pos_iff.mpr ⟨some cell, Array.mem_of_getElem hslot, rfl⟩
  rw [size, size, put, Array.setIfInBounds, dif_pos hlt, Array.countP_set, hslot]
  simp only [Option.isSome_some, Option.isSome_none, if_true, Bool.false_eq_true, if_false]
  omega

/-- The memory after a link has been given up. A cell to which no other link leads goes, and gives
up its own link in turn; the first cell to which another link leads stays, with all cells behind
it. -/
def released? (m : Memory α) : Link → Option (Memory α)
  | none => some m
  | some address =>
    match h : m.cell? address with
    | none => none
    | some cell =>
      match cell.owners with
      | 0 => none
      | 1 =>
        have := size_put_none_lt h
        (m.put address none).released? cell.next
      | owners + 2 => some (m.put address (some { cell with owners := owners + 1 }))
termination_by m.size

/-- Gives up a link. -/
def release (link : Link) : Storing α Unit :=
  fun m => (m.released? link).map ((), ·)

end Memory

end SmallScheme
