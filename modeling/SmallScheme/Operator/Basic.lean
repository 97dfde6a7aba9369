/-!
# Operators

An operator is a name that the evaluator knows by itself. A primitive computes a result from the
values of its operands. A special form gets its operands as they are written, and decides which of
them to evaluate. Every operator says how many operands it takes. The registry lists the operators
in the order in which they are shown.
-/

namespace SmallScheme

/-- How many operands an operator takes. -/
inductive Arity where
  | exact (count : Nat)
  | atLeast (least : Nat)
  | range (least most : Nat)
deriving DecidableEq, Repr

def Arity.admits : Arity → Nat → Bool
  | exact n, count => count == n
  | atLeast least, count => least ≤ count
  | range least most, count => least ≤ count && count ≤ most

/-- The operators that compute a result from values. -/
inductive Primitive where
  | not
  | equal
  | less
  | lessOrEqual
  | greater
  | greaterOrEqual
  | add
  | subtract
  | multiply
  | divide
  | cons
  | car
  | cdr
  | list
deriving DecidableEq, Repr

/-- The operators that get their operands as they are written. -/
inductive SpecialForm where
  | and
  | or
  | map
  | quote
  | conditional
  | define
  | assign
  | lambda
deriving DecidableEq, Repr

inductive Action where
  | primitive (p : Primitive)
  | special (form : SpecialForm)
deriving DecidableEq, Repr

def Action.isSpecial : Action → Bool
  | primitive _ => false
  | special _ => true

/-- A name with what it does and how many operands it takes. -/
structure Operator where
  name : String
  arity : Arity
  action : Action
deriving DecidableEq, Repr

namespace Operator

/-- All operators, in the order in which they are shown. -/
def registry : List Operator :=
  [⟨"and", .atLeast 1, .special .and⟩,
    ⟨"or", .atLeast 1, .special .or⟩,
    ⟨"not", .exact 1, .primitive .not⟩,
    ⟨"=", .atLeast 2, .primitive .equal⟩,
    ⟨"<", .atLeast 2, .primitive .less⟩,
    ⟨"<=", .atLeast 2, .primitive .lessOrEqual⟩,
    ⟨">", .atLeast 2, .primitive .greater⟩,
    ⟨">=", .atLeast 2, .primitive .greaterOrEqual⟩,
    ⟨"+", .atLeast 0, .primitive .add⟩,
    ⟨"-", .range 1 2, .primitive .subtract⟩,
    ⟨"*", .atLeast 0, .primitive .multiply⟩,
    ⟨"/", .range 1 2, .primitive .divide⟩,
    ⟨"cons", .exact 2, .primitive .cons⟩,
    ⟨"car", .exact 1, .primitive .car⟩,
    ⟨"cdr", .exact 1, .primitive .cdr⟩,
    ⟨"list", .atLeast 0, .primitive .list⟩,
    ⟨"map", .exact 2, .special .map⟩,
    ⟨"quote", .exact 1, .special .quote⟩,
    ⟨"if", .exact 3, .special .conditional⟩,
    ⟨"define", .exact 2, .special .define⟩,
    ⟨"set!", .exact 2, .special .assign⟩,
    ⟨"lambda", .exact 2, .special .lambda⟩]

def named? (name : String) : Option Operator :=
  registry.find? (·.name == name)

/-- No two operators share a name. -/
theorem registry_nodup : (registry.map (·.name)).Nodup := by decide

end Operator

end SmallScheme
