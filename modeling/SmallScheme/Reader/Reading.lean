import SmallScheme.Reader.Atom
import SmallScheme.Reader.Lexeme

/-!
# Reading

A text without the blanks at its ends is read lexeme by lexeme. The state is what has been read at
the top level and the lists that are still open. Reading stops at the first failure, with the items
before it.

There are two ways to ask. `readAll` answers with every item of the text. `readOne` wants exactly
one item; when there are more, a failure in the second item is reported before the item itself is.
-/

namespace SmallScheme

namespace Reader

/-- Whether comments are skipped, and how deeply lists may be nested. -/
structure Config where
  comments : Bool := false
  maxDepth : Nat := 128
deriving DecidableEq, Repr, Inhabited

def comparisons : List String := ["<", ">", "<=", ">=", "="]

/-- The comparison symbol, if there is nothing else among the elements of a list. -/
def loneComparison? : List Value → Option String
  | [.symbol name] => if name ∈ comparisons then some name else none
  | _ => none

/-- A list that is still open: where it began, and its elements so far, the last one first. -/
structure OpenList where
  start : Nat
  reversed : List Value

structure Item where
  start : Nat
  value : Value

structure Failure where
  cause : ReadError.Cause
  offset : Nat
deriving DecidableEq, Repr

/-- How far reading has come: the items, the last one first, and the open lists, the innermost
first. -/
structure Progress where
  reversed : List Item := []
  openLists : List OpenList := []

namespace Progress

/-- Adds a complete value to the innermost open list, or to the items when there is none. -/
def deliver (p : Progress) (start : Nat) (v : Value) : Progress :=
  match p.openLists with
  | [] => { p with reversed := ⟨start, v⟩ :: p.reversed }
  | inner :: outer => { p with openLists := { inner with reversed := v :: inner.reversed } :: outer }

/-- Opens a list, unless as many as are allowed are open already. -/
def openList (maxDepth : Nat) (p : Progress) (offset : Nat) : Except Failure Progress :=
  if maxDepth ≤ p.openLists.length then .error ⟨.tooDeep maxDepth, offset⟩
  else .ok { p with openLists := ⟨offset, []⟩ :: p.openLists }

def closeList (p : Progress) (offset : Nat) : Except Failure Progress :=
  match p.openLists with
  | [] => .error ⟨.strayClosing, offset⟩
  | inner :: outer =>
    let elements := inner.reversed.reverse
    match loneComparison? elements with
    | some name => .error ⟨.loneOperator name, inner.start⟩
    | none => .ok ({ p with openLists := outer }.deliver inner.start (.list elements))

def feed (maxDepth : Nat) (p : Progress) (l : Lexeme.Located) : Except Failure Progress :=
  match l.lexeme with
  | .opening => p.openList maxDepth l.offset
  | .closing => p.closeList l.offset
  | .strayBlank c => .error ⟨.badCharacter c, l.offset⟩
  | .atom first rest =>
    match Atom.value first rest with
    | .ok v => .ok (p.deliver l.offset v)
    | .error cause => .error ⟨cause, l.offset⟩

/-- The failure of a text that ends here. -/
def finish (p : Progress) : Option Failure :=
  p.openLists.head?.map fun inner => ⟨.unclosedList, inner.start⟩

end Progress

/-- The outcome of reading: the items in order, and the failure that ended it, if any. -/
structure Reading where
  items : List Item
  failure : Option Failure

/-- Takes in lexemes up to the first failure. -/
def consume (maxDepth : Nat) : Progress → List Lexeme.Located → Reading
  | p, [] => ⟨p.reversed.reverse, p.finish⟩
  | p, l :: rest =>
    match p.feed maxDepth l with
    | .ok next => consume maxDepth next rest
    | .error failure => ⟨p.reversed.reverse, some failure⟩

/-- Reads a text that has no blanks at its ends. -/
def reading (config : Config) (text : List Char) : Reading :=
  consume config.maxDepth {} (Lexeme.ofText config.comments text)

def Failure.inText (text : List Char) (f : Failure) : ReadError :=
  ReadError.inText text f.cause f.offset

def readAll (config : Config) (text : String) : Except ReadError (List Value) :=
  let text := Text.trim text.toList
  let r := reading config text
  match r.failure with
  | some failure => .error (failure.inText text)
  | none => .ok (r.items.map (·.value))

def readOne (config : Config) (text : String) : Except ReadError Value :=
  let text := Text.trim text.toList
  let r := reading config text
  match r.items, r.failure with
  | [item], none => .ok item.value
  | _ :: second :: _, _ => .error (.inText text .leftover second.start)
  | _, some failure => .error (failure.inText text)
  | [], none => .error (.inText text .emptyText (Text.byteLength text))

end Reader

end SmallScheme
