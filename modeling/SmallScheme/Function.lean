import SmallScheme.Fault

/-!
# Functions and identifiers

A function is what a form `(lambda (params) body)` stands for when its parameters are distinct
symbols. It can be turned back into that form. An identifier is a name that may be bound to a value
or a function: ASCII letters, digits and underscores behind a letter, and none of the reserved words.
-/

namespace SmallScheme

/-! ## Identifiers -/

namespace Identifier

/-- The names that can never be bound. -/
def reserved : List String :=
  ["or", "not", "and", "lambda", "define", "set!", "cons", "#t", "#f", "nil", "car", "cdr", "list",
    "if", "quote", "map"]

def isIdentifierChar (c : Char) : Bool :=
  c.isAlphanum || c == '_'

/-- A letter and any letters, digits and underscores behind it. -/
def isWellFormed : List Char → Bool
  | [] => false
  | first :: rest => first.isAlpha && rest.all isIdentifierChar

/-- The names that can be bound. -/
def isValid (name : String) : Bool :=
  isWellFormed name.toList && !reserved.contains name

def ofValue : Value → Except Fault String
  | .symbol name =>
    if isValid name then .ok name else .error (.notAnIdentifier (.symbol name))
  | v => .error (.notAnIdentifier v)

end Identifier

/-! ## Functions -/

/-- Parameters and a body that is evaluated when the function is called. -/
structure Function where
  params : List String
  body : Value
deriving DecidableEq, Inhabited

namespace Function

/-- Reads further parameters behind those already read, all of them distinct symbols. -/
def readParams (read : List String) : List Value → Except Fault (List String)
  | [] => .ok read
  | .symbol name :: rest =>
    if name ∈ read then .error (.notAnIdentifier (.symbol name))
    else readParams (read ++ [name]) rest
  | v :: _ => .error (.notAnIdentifier v)

/-- The function of what stands behind the word `lambda`. -/
def ofParts : List Value → Except Fault Function
  | [.list params, body] => do
    let names ← readParams [] params
    return ⟨names, body⟩
  | [params, _] => .error (.notAParameterList params)
  | _ => .error .operandCount

def ofForm (form : Value) : Except Fault Function :=
  match form with
  | .list (head :: parts) =>
    if head.isSymbol "lambda" then ofParts parts else .error (.notAFunction form)
  | _ => .error (.notAFunction form)

def toForm (f : Function) : Value :=
  .lambdaForm (.list (f.params.map .symbol)) f.body

end Function

end SmallScheme
