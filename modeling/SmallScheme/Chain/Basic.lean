import SmallScheme.Chain.Memory

/-!
# Chains

A chain is a link to the first of its cells with the number of them, so that the length is known
without counting. Chains are never changed: every operation answers with a new chain, which may
share cells with others. Each operation keeps the number of cells on its own account, and equality
and the cursors that go along a chain rely on it.
-/

namespace SmallScheme

/-- A number less one. -/
def countDown : Nat → Option Nat
  | 0 => none
  | n + 1 => some n

/-- A place on the way along a chain, with the number of elements that are counted as left. -/
structure Cursor where
  link : Link
  remaining : Nat
deriving DecidableEq, Repr

namespace Cursor

variable {α β : Type}

/-- The element at a cursor and the cursor behind it, or nothing at the end. -/
def next? (m : Memory α) (c : Cursor) : Option (Option (α × Cursor)) := do
  match c.link with
  | none => return none
  | some address =>
    let cell ← m.cell? address
    return some (cell.element, ⟨cell.next, ← countDown c.remaining⟩)

theorem remaining_lt_of_next? {m : Memory α} {c behind : Cursor} {a : α}
    (h : c.next? m = some (some (a, behind))) : behind.remaining < c.remaining := by
  obtain ⟨link, remaining⟩ := c
  cases link with
  | none => cases h
  | some address =>
    cases hcell : m.cell? address with
    | none => simp [next?, hcell] at h
    | some cell =>
      cases remaining with
      | zero => simp [next?, hcell, countDown] at h
      | succ n =>
        simp only [next?, hcell, countDown] at h
        cases h
        exact Nat.lt_succ_self n

/-- Goes to the end, and gathers every element with the number of those left behind it. -/
def gather (m : Memory α) (f : β → α × Nat → β) (start : β) (c : Cursor) : Option β :=
  match h : c.next? m with
  | none => none
  | some none => some start
  | some (some (a, behind)) =>
    have := remaining_lt_of_next? h
    behind.gather m f (f start (a, behind.remaining))
termination_by c.remaining

/-- The element at a distance from the cursor. -/
def get? (m : Memory α) : Nat → Cursor → Option (Option α)
  | 0, c => return (← c.next? m).map Prod.fst
  | n + 1, c => do
    match ← c.next? m with
    | none => return none
    | some (_, behind) => behind.get? m n

/-- Whether two cursors go along equal elements and end together. -/
def beq [BEq α] (m : Memory α) (c d : Cursor) : Option Bool :=
  match h : c.next? m with
  | none => none
  | some none => (d.next? m).map Option.isNone
  | some (some (a, behind)) =>
    have := remaining_lt_of_next? h
    match d.next? m with
    | none => none
    | some none => some false
    | some (some (b, d)) => if a == b then behind.beq m d else some false
termination_by c.remaining

end Cursor

/-- A link to the first cell, and how many cells there are. -/
structure Chain where
  first : Link
  length : Nat
deriving DecidableEq, Repr, Inhabited

namespace Chain

variable {α β : Type}

/-! ## What a chain holds -/

def cursor (c : Chain) : Cursor := ⟨c.first, c.length⟩

def isEmpty (c : Chain) : Bool := c.first.isNone

def head? (c : Chain) (m : Memory α) : Option (Option α) := do
  match c.first with
  | none => return none
  | some address => return some (← m.cell? address).element

def get? (c : Chain) (n : Nat) (m : Memory α) : Option (Option α) :=
  c.cursor.get? m n

def fold (c : Chain) (f : β → α → β) (start : β) (m : Memory α) : Option β :=
  c.cursor.gather m (fun b step => f b step.1) start

def toList (c : Chain) (m : Memory α) : Option (List α) :=
  (c.fold Array.push #[] m).map Array.toList

/-- The elements, each with what a cursor counts as left behind it. -/
def iterate (c : Chain) (m : Memory α) : Option (List (α × Nat)) :=
  (c.cursor.gather m Array.push #[]).map Array.toList

/-- Equal lengths and equal elements in order. -/
def beq [BEq α] (c d : Chain) (m : Memory α) : Option Bool :=
  if c.length = d.length then c.cursor.beq m d.cursor else some false

/-! ## New chains -/

def nil : Chain := ⟨none, 0⟩

/-- Gives up a chain. -/
def release (c : Chain) : Storing α Unit :=
  Memory.release c.first

/-- A second chain of the same cells. -/
def copy (c : Chain) : Storing α Chain := do
  Memory.share c.first
  return c

/-- A chain with one element more in front, which shares all cells of the given one. -/
def prepend (c : Chain) (a : α) : Storing α Chain := do
  Memory.share c.first
  return ⟨← Memory.allocate a c.first, c.length + 1⟩

def singleton (a : α) : Storing α Chain :=
  nil.prepend a

/-- One element more in front of a chain that is given up for it. -/
def extend (a : α) (c : Chain) : Storing α Chain := do
  let longer ← c.prepend a
  c.release
  return longer

/-- The chain of the elements of a list, built from its end. -/
def ofList (items : List α) : Storing α Chain :=
  items.foldrM extend nil

/-- The chain without its first element; nothing is left of an empty chain. -/
def tail (c : Chain) : Storing α Chain := do
  match c.first with
  | none => return nil
  | some address =>
    let cell ← Memory.look (·.cell? address)
    Memory.share cell.next
    return ⟨cell.next, ← countDown c.length⟩

/-- A chain with an element behind the last one. All cells are new. -/
def append (c : Chain) (a : α) : Storing α Chain := do
  let items ← Memory.look c.toList
  items.foldrM extend (← singleton a)

def map (c : Chain) (f : α → α) : Storing α Chain := do
  let items ← Memory.look c.toList
  ofList (items.map f)

end Chain

end SmallScheme
