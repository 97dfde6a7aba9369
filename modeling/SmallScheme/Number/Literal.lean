import SmallScheme.Number.Basic

/-!
# Number literals

A literal with a point is a decimal, any other is an integer. Underscores may separate digits, but
none comes first. A decimal may carry an exponent behind the first `e` or `E`. Its point may stand
anywhere in the mantissa: the literal is valid when the mantissa without the point is an integer.
The scale that a decimal literal spells must be one that can be stored, and it must lie within
`maxScale` of zero after normalization.
-/

namespace SmallScheme.Number

/-- Digits, possibly separated by underscores. -/
def natural? (text : List Char) : Option Nat :=
  if text.head?.any (· ≠ '_') ∧ text.all (fun c => c.isDigit || c == '_') then
    some (Nat.ofDigitChars 10 (text.filter (· ≠ '_')) 0)
  else none

/-- A natural number under at most one sign. -/
def integer? : List Char → Option Int
  | '-' :: rest => (natural? rest).map fun n => -(n : Int)
  | '+' :: rest => (natural? rest).map fun n => (n : Int)
  | text => (natural? text).map fun n => (n : Int)

/-- One or more digits under at most one sign; an exponent has no separators. -/
def exponent? (text : List Char) : Option Int :=
  if '_' ∈ text then none else integer? text

/-- The parts of a decimal literal: what precedes the point, what follows it, and the exponent. -/
structure Mantissa where
  whole : List Char
  fraction : List Char
  exponent : Int
deriving DecidableEq, Repr

def isExponentMark (c : Char) : Bool :=
  c == 'e' || c == 'E'

/-- Cuts a text at its first exponent mark, and the part before it at its first point. -/
def Mantissa.ofText? (text : List Char) : Option Mantissa :=
  let base := text.takeWhile (!isExponentMark ·)
  let whole := base.takeWhile (· ≠ '.')
  let fraction := (base.dropWhile (· ≠ '.')).drop 1
  match text.dropWhile (!isExponentMark ·) with
  | [] => some ⟨whole, fraction, 0⟩
  | _ :: exponent => (exponent? exponent).map fun e => ⟨whole, fraction, e⟩

/-- The scale before normalization: one for each digit of the fraction, less the exponent. -/
def Mantissa.scale (m : Mantissa) : Int :=
  (m.fraction.filter (· ≠ '_')).length - m.exponent

/-- How far from zero the scale of a decimal literal may be in normal form. -/
def maxScale : Nat := 4096

/-- The decimal that a literal spells, in normal form. -/
def decimal? (text : List Char) : Option Decimal := do
  let m ← Mantissa.ofText? text
  let digits ← integer? (m.whole ++ m.fraction)
  guard (Decimal.IsScale m.scale)
  let value := Decimal.normalize ⟨digits, m.scale⟩
  guard (value.scale.natAbs ≤ maxScale)
  return value

def ofText? (text : List Char) : Option Number :=
  if '.' ∈ text then (decimal? text).map .decimal else (integer? text).map .integer

end SmallScheme.Number
