import SmallScheme.Number.Literal
import SmallScheme.Reader.Error
import SmallScheme.Text.Letter
import SmallScheme.Value.Basic

/-!
# Atoms

What an atom denotes is settled by how it begins. After `#` it must be a truth value. After a digit,
or a minus sign before a digit or a point, it must be a number, and may hold only the characters of
one. After a letter or an operator character it is the symbol of its own text.
-/

namespace SmallScheme

namespace Atom

def isOperatorChar (c : Char) : Bool :=
  c == '+' || c == '-' || c == '*' || c == '/' || c == '<' || c == '>' || c == '='

def isNumberChar (c : Char) : Bool :=
  c.isDigit || c == '-' || c == '.' || c == 'e' || c == 'E'

/-- An atom that begins like this is a number or nothing. -/
def beginsNumber (first : Char) (rest : List Char) : Bool :=
  first.isDigit || (first == '-' && rest.head?.any fun c => c.isDigit || c == '.')

/-- An atom that begins like this, and not like a number, is a symbol. -/
def beginsSymbol (first : Char) : Bool :=
  Text.isLetter first || isOperatorChar first

/-- The truth value after `#`, in either case. -/
def boolean? : List Char → Option Bool
  | ['t'] | ['T'] => some true
  | ['f'] | ['F'] => some false
  | _ => none

/-- The number that a text denotes in a program, where no sign but the minus and no underscore
may occur. -/
def number? (text : List Char) : Option Number :=
  if text.all isNumberChar then Number.ofText? text else none

/-- The value of an atom. -/
def value (first : Char) (rest : List Char) : Except ReadError.Cause Value :=
  let text := first :: rest
  if first = '#' then
    match boolean? rest with
    | some b => .ok (.bool b)
    | none => .error (.badBoolean (String.ofList text))
  else if beginsNumber first rest then
    match number? text with
    | some n => .ok (.number n)
    | none => .error (.badNumber (String.ofList text))
  else if beginsSymbol first then .ok (.symbol (String.ofList text))
  else .error (.badCharacter first)

end Atom

end SmallScheme
