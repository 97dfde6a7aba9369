import SmallScheme.Number.Basic

/-!
# Values

Programs and the results of programs are values of one type: truth values, numbers, symbols and
lists. The empty list is `nil`. A function is a list too, the form `(lambda (params) body)`, and
so is the pair of `a` and a `b` that is no list: the three elements `a`, the symbol `dot`, and `b`.
-/

namespace SmallScheme

/-- A truth value, a number, a symbol or a list of values. -/
inductive Value where
  | bool (value : Bool)
  | number (value : Number)
  | symbol (name : String)
  | list (items : List Value)
deriving Inhabited

namespace Value

/-! ## Equality -/

mutual

/-- Equality of values, decided by their structure. -/
def decEq : (a b : Value) → Decidable (a = b)
  | .bool a, .bool b => decidable_of_iff (a = b) (by simp)
  | .number a, .number b => decidable_of_iff (a = b) (by simp)
  | .symbol a, .symbol b => decidable_of_iff (a = b) (by simp)
  | .list as, .list bs =>
    match decEqAll as bs with
    | .isTrue h => .isTrue (by rw [h])
    | .isFalse h => .isFalse (by simp [h])
  | .bool _, .number _ | .bool _, .symbol _ | .bool _, .list _ => .isFalse (by simp)
  | .number _, .bool _ | .number _, .symbol _ | .number _, .list _ => .isFalse (by simp)
  | .symbol _, .bool _ | .symbol _, .number _ | .symbol _, .list _ => .isFalse (by simp)
  | .list _, .bool _ | .list _, .number _ | .list _, .symbol _ => .isFalse (by simp)

def decEqAll : (as bs : List Value) → Decidable (as = bs)
  | [], [] => .isTrue rfl
  | [], _ :: _ | _ :: _, [] => .isFalse (by simp)
  | a :: as, b :: bs =>
    match decEq a b with
    | .isFalse h => .isFalse (by simp [h])
    | .isTrue h =>
      match decEqAll as bs with
      | .isTrue hs => .isTrue (by rw [h, hs])
      | .isFalse hs => .isFalse (by simp [hs])

end

instance : DecidableEq Value := decEq

/-! ## Shapes -/

def nil : Value := .list []

/-- The symbol between the two sides of a pair. -/
def dot : Value := .symbol "."

def isNil : Value → Bool
  | .list [] => true
  | _ => false

/-- The symbol of exactly this name. -/
def isSymbol (name : String) : Value → Bool
  | .symbol s => s == name
  | _ => false

/-- A list headed by the symbol `lambda`, well formed or not. -/
def isLambdaForm : Value → Bool
  | .list (head :: _) => head.isSymbol "lambda"
  | _ => false

def lambdaForm (params body : Value) : Value :=
  .list [.symbol "lambda", params, body]

@[simp] theorem isLambdaForm_lambdaForm (params body : Value) :
    (lambdaForm params body).isLambdaForm = true := by
  simp [lambdaForm, isLambdaForm, isSymbol]

/-- The form `(quote v)`, which stands for `v` itself. -/
def quoted (v : Value) : Value :=
  .list [.symbol "quote", v]

/-! ## Depth -/

mutual

/-- How deeply lists are nested: zero for an atom, one for a flat or empty list. -/
def nesting : Value → Nat
  | .list items => nestingAll items + 1
  | _ => 0

def nestingAll : List Value → Nat
  | [] => 0
  | v :: rest => max v.nesting (nestingAll rest)

end

end Value

end SmallScheme
