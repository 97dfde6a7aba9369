import SmallScheme.Environment.Calls
import SmallScheme.Function

/-!
# Environments

An environment holds the global variables and functions, the calls under way, and how deeply
evaluation may be nested. A symbol is looked up among the parameters of the innermost call first,
then among the variables, then among the functions; `nil` is the empty list whatever is bound. A
function is bound by binding a lambda form, which moves the name from the variables to the
functions; any other value moves it back.
-/

namespace SmallScheme

namespace Environment

/-- What stays the same during the life of an environment. -/
structure Config where
  model : CallModel := .frames
  maxDepth : Nat := 256
deriving DecidableEq, Repr, Inhabited

end Environment

/-- The state of evaluation. -/
structure Environment where
  values : Table Value
  functions : Table Function
  calls : Calls
  maxDepth : Nat

namespace Environment

def fresh (config : Config) : Environment where
  values := .empty
  functions := .empty
  calls := .initial config.model
  maxDepth := config.maxDepth

instance : Inhabited Environment := ⟨fresh {}⟩

def config (env : Environment) : Config :=
  ⟨env.calls.model, env.maxDepth⟩

def isDefined (env : Environment) (name : String) : Bool :=
  env.values.contains name || env.functions.contains name

def lookup (env : Environment) (name : String) : Except Fault Value :=
  if name = "nil" then .ok .nil
  else
    match env.calls.lookup? name with
    | some v => .ok v
    | none =>
      match env.values.get? name with
      | some v => .ok v
      | none =>
        match env.functions.get? name with
        | some f => .ok f.toForm
        | none => .error (.undefinedName name)

/-- The function that a symbol calls, if any: a parameter that holds a lambda form, or a global
function. A parameter whose form is malformed is a fault. -/
def resolve (env : Environment) (name : String) : Except Fault (Option Function) :=
  match (env.calls.lookup? name).filter Value.isLambdaForm with
  | some form => (Function.ofForm form).map some
  | none => .ok (env.functions.get? name)

/-- Binds a name globally, as a function if the value is a lambda form, else as a variable. -/
def bind (env : Environment) (name : String) (v : Value) : Except Fault Environment :=
  if v.isLambdaForm then do
    let f ← Function.ofForm v
    return { env with
      values := env.values.erase name
      functions := env.functions.insert name f }
  else
    .ok { env with
      values := env.values.insert name v
      functions := env.functions.erase name }

def enter (env : Environment) (key : String) (bindings : List (String × Option Value)) :
    Environment :=
  { env with calls := env.calls.enter key bindings }

def leave (env : Environment) : Environment :=
  { env with calls := env.calls.leave }

/-- Every global binding in ascending order of the names, functions as their forms. -/
def bindings (env : Environment) : List (String × Value) :=
  (env.values.toList ++ env.functions.toList.map fun b => (b.1, b.2.toForm)).mergeSort
    fun a b => a.1 ≤ b.1

end Environment

end SmallScheme
