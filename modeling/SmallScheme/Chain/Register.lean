import SmallScheme.Chain.Basic
import SmallScheme.Table

/-!
# Programs over registers

A program works on named registers that hold chains, with cells in one memory. A register that holds
nothing reads as the empty chain. An instruction either stores a new chain in a register, whose
former chain is given up, or empties a register, or asks something of the chains that are there.
-/

namespace SmallScheme

/-- Chains by the names of their registers, and the memory of their cells. -/
structure Registers (α : Type) where
  chains : Table Chain
  memory : Memory α

namespace Registers

variable {α : Type}

/-- A chain that is built from those in the registers. -/
inductive Source (α : Type) where
  | nil
  | singleton (value : α)
  | items (values : List α)
  | prepend (register : String) (value : α)
  | append (register : String) (value : α)
  | tail (register : String)
  | copy (register : String)
  | map (register : String) (f : α → α)

inductive Question where
  | head (register : String)
  | get (register : String) (index : Nat)
  | length (register : String)
  | fold (register : String)
  | toList (register : String)
  | iterate (register : String)
  | equal (register other : String)
  | text (register : String)
deriving DecidableEq, Repr

/-- One step of a program. -/
inductive Instruction (α : Type) where
  | store (register : String) (source : Source α)
  | drop (register : String)
  | ask (question : Question)

inductive Answer (α : Type) where
  | stored (length : Nat) (head : Option α) (elements : List α)
  | dropped (existed : Bool)
  | element (value : Option α)
  | length (count : Nat) (isEmpty : Bool)
  | folded (text : String)
  | elements (values : List α)
  | iterated (count : Nat) (steps : List (α × Nat))
  | equal (result : Bool)
  | texts (spaced listed : String)
deriving DecidableEq, Repr

section

variable [ToString α]

/-- The elements between parentheses, separated by spaces. -/
def spacedText (items : List α) : String :=
  "(" ++ String.intercalate " " (items.map toString) ++ ")"

/-- The elements between brackets, separated by commas. -/
def listedText (items : List α) : String :=
  "[" ++ String.intercalate ", " (items.map toString) ++ "]"

/-- A step of a fold that shows the order in which elements come. -/
def foldedText (text : String) (a : α) : String :=
  "(" ++ text ++ " " ++ toString a ++ ")"

end

def build (chains : Table Chain) : Source α → Storing α Chain
  | .nil => return .nil
  | .singleton value => Chain.singleton value
  | .items values => Chain.ofList values
  | .prepend register value => (chains.getD register .nil).prepend value
  | .append register value => (chains.getD register .nil).append value
  | .tail register => (chains.getD register .nil).tail
  | .copy register => (chains.getD register .nil).copy
  | .map register f => (chains.getD register .nil).map f

section

variable [BEq α] [ToString α]

def answer (chains : Table Chain) (m : Memory α) : Question → Option (Answer α)
  | .head register => return .element (← (chains.getD register .nil).head? m)
  | .get register index => return .element (← (chains.getD register .nil).get? index m)
  | .length register => do
    let chain := chains.getD register .nil
    return .length chain.length chain.isEmpty
  | .fold register => return .folded (← (chains.getD register .nil).fold foldedText "nil" m)
  | .toList register => return .elements (← (chains.getD register .nil).toList m)
  | .iterate register => do
    let chain := chains.getD register .nil
    return .iterated chain.length (← chain.iterate m)
  | .equal register other =>
    return .equal (← (chains.getD register .nil).beq (chains.getD other .nil) m)
  | .text register => do
    let items ← (chains.getD register .nil).toList m
    return .texts (spacedText items) (listedText items)

def execute : Registers α → Instruction α → Option (Answer α × Registers α)
  | ⟨chains, m⟩, .store register source => do
    let (chain, m) ← (build chains source).run m
    let (_, m) ← (chains.getD register .nil).release.run m
    return (.stored chain.length (← chain.head? m) (← chain.toList m),
      ⟨chains.insert register chain, m⟩)
  | ⟨chains, m⟩, .drop register => do
    let (_, m) ← (chains.getD register .nil).release.run m
    return (.dropped (chains.contains register), ⟨chains.erase register, m⟩)
  | ⟨chains, m⟩, .ask question => return (← answer chains m question, ⟨chains, m⟩)

def executeAll (r : Registers α) : List (Instruction α) → Option (List (Answer α) × Registers α)
  | [] => some ([], r)
  | instruction :: rest => do
    let (first, next) ← r.execute instruction
    let (later, last) ← next.executeAll rest
    return (first :: later, last)

end

def empty : Registers α := ⟨.empty, .empty⟩

end Registers

end SmallScheme
