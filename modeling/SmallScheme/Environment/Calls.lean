import SmallScheme.Table
import SmallScheme.Value.Basic

/-!
# Calls under way

While functions run, their parameters are bound in one of two models. In the model of frames every
call has bindings of its own, and only those of the innermost call are seen. In the shared model
every function has one table of bindings, known by its key, which each of its calls overwrites and
none restores; the table of the innermost call is seen.
-/

namespace SmallScheme

/-- How parameters are bound. -/
inductive CallModel where
  | frames
  | shared
deriving DecidableEq, Repr, Inhabited

/-- The bindings of the calls under way, innermost call first. -/
inductive Calls where
  | frames (stack : List (Table Value))
  | shared (contexts : Table (Table Value)) (active : List String)

namespace Calls

/-- No call is under way, and none has been. -/
def initial : CallModel → Calls
  | .frames => frames []
  | .shared => shared .empty []

def model : Calls → CallModel
  | frames _ => .frames
  | shared _ _ => .shared

/-- The bindings that are seen. -/
def current : Calls → Option (Table Value)
  | frames stack => stack.head?
  | shared contexts active => active.head?.bind contexts.get?

def lookup? (calls : Calls) (name : String) : Option Value :=
  calls.current.bind (·.get? name)

/-- Starts a call. A parameter without a value keeps what it was bound to under the same key. -/
def enter (calls : Calls) (key : String) (bindings : List (String × Option Value)) : Calls :=
  let bound := bindings.filterMap fun b => b.2.map (b.1, ·)
  match calls with
  | frames stack => frames (Table.empty.insertAll bound :: stack)
  | shared contexts active =>
    let table := (contexts.get? key).getD .empty
    shared (contexts.insert key (table.insertAll bound)) (key :: active)

def leave : Calls → Calls
  | frames stack => frames stack.tail
  | shared contexts active => shared contexts active.tail

end Calls

end SmallScheme
