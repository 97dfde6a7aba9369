import SmallScheme.Fault
import SmallScheme.Operator.Basic

/-!
# Primitives

What the primitives compute. The numeric ones look at all of their operands first, so that an
operand that is no number is reported whatever the others are. A comparison of several numbers holds
when it holds between every two neighbours. A sum and a product take in one number after the other,
and stop at the first computation that does not fit.
-/

namespace SmallScheme.Primitive

open Number (Computation)

def numbers (operands : List Value) : Except Fault (List Number) :=
  operands.mapM Value.asNumber

/-- A relation between orders holds between every two neighbours. -/
def chained (holds : Ordering → Bool) : List Number → Bool
  | a :: b :: rest => holds (a.order b) && chained holds (b :: rest)
  | _ => true

def compareAll (holds : Ordering → Bool) (operands : List Value) : Except Fault Value := do
  let ns ← numbers operands
  return .bool (chained holds ns)

/-- Computes with one number after the other. -/
def accumulate (make : Number → Number → Computation) (start : Number) (ns : List Number) :
    Except Fault Number :=
  ns.foldlM (fun total n => (make total n).run) start

/-- The sum, from zero on. -/
def sum (ns : List Number) : Except Fault Number :=
  accumulate .add (.integer 0) ns

/-- The product, from one on. -/
def product (ns : List Number) : Except Fault Number :=
  accumulate .multiply (.integer 1) ns

/-- A number subtracted from another, or from zero if it is alone. -/
def difference : List Number → Except Fault Number
  | [n] => (Computation.negate n).run
  | [a, b] => (Computation.subtract a b).run
  | _ => .error .operandCount

/-- A number divided by another, or one divided by it if it is alone. -/
def ratio : List Number → Except Fault Number
  | [n] => n.reciprocal
  | [a, b] => a.divide b
  | _ => .error .operandCount

def negation : List Value → Except Fault Value
  | [v] => do
    let b ← v.asBool
    return .bool (!b)
  | _ => .error .operandCount

/-- A value in front of a list, or a pair of two values. -/
def construct : List Value → Except Fault Value
  | [head, .list tail] => .ok (.list (head :: tail))
  | [left, right] => .ok (.list [left, .dot, right])
  | _ => .error .operandCount

def first : List Value → Except Fault Value
  | [.list (head :: _)] => .ok head
  | [v] => .error (.notACons v)
  | _ => .error .operandCount

/-- The right side of a pair, or the list without its first element. -/
def remainder : List Value → Except Fault Value
  | [.list [_, mark, right]] =>
    .ok (if mark = .dot then right else .list [mark, right])
  | [.list (_ :: tail)] => .ok (.list tail)
  | [v] => .error (.notACons v)
  | _ => .error .operandCount

def apply : Primitive → List Value → Except Fault Value
  | not, operands => negation operands
  | equal, operands => compareAll Ordering.isEq operands
  | less, operands => compareAll Ordering.isLT operands
  | lessOrEqual, operands => compareAll Ordering.isLE operands
  | greater, operands => compareAll Ordering.isGT operands
  | greaterOrEqual, operands => compareAll Ordering.isGE operands
  | add, operands => do return .number (← sum (← numbers operands))
  | subtract, operands => do return .number (← difference (← numbers operands))
  | multiply, operands => do return .number (← product (← numbers operands))
  | divide, operands => do return .number (← ratio (← numbers operands))
  | cons, operands => construct operands
  | car, operands => first operands
  | cdr, operands => remainder operands
  | list, operands => .ok (.list operands)

end SmallScheme.Primitive
