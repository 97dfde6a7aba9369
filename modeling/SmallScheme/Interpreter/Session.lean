import SmallScheme.Interpreter.Basic

/-!
# Sessions

A session answers requests one after the other. It holds the interpreter at work and the one that
was saved last, which is the fresh one at first. A failed request changes what it changed before it
failed, and no other.
-/

namespace SmallScheme

/-- What can be asked of a session. -/
inductive Request where
  /-- Read and evaluate one expression. -/
  | run (text : String)
  /-- Read all expressions, then evaluate them. -/
  | runAll (text : String)
  /-- Read one expression. -/
  | read (text : String)
  | evaluate (e : Value)
  /-- List the global bindings. -/
  | bindings
  /-- What a name is bound to globally. -/
  | query (name : String)
  | config
  | save
  /-- Go back to what was saved last. -/
  | restore

inductive Reply where
  | value (result : Except Failure Value)
  | values (result : Except Failure (List Value))
  | bindings (entries : List (String × Value))
  | binding (defined : Bool) (value : Option Value) (function : Option Function)
  | config (c : Environment.Config)
  | saved
  | restored

/-- The interpreter at work and the one saved last. -/
structure Session where
  current : Interpreter
  kept : Interpreter

namespace Session

def start (i : Interpreter) : Session := ⟨i, i⟩

def handle (s : Session) : Request → Reply × Session
  | .run text =>
    let (result, next) := s.current.run text
    (.value result, { s with current := next })
  | .runAll text =>
    let (result, next) := s.current.runAll text
    (.values result, { s with current := next })
  | .read text => (.value ((s.current.read text).mapError .reading), s)
  | .evaluate e =>
    let (result, next) := s.current.evaluate e
    (.value (result.mapError .evaluation), { s with current := next })
  | .bindings => (.bindings s.current.environment.bindings, s)
  | .query name =>
    let env := s.current.environment
    (.binding (env.isDefined name) (env.values.get? name) (env.functions.get? name), s)
  | .config => (.config s.current.environment.config, s)
  | .save => (.saved, { s with kept := s.current })
  | .restore => (.restored, { s with current := s.kept })

def handleAll (s : Session) : List Request → List Reply × Session
  | [] => ([], s)
  | request :: rest =>
    let (reply, next) := s.handle request
    let (replies, last) := next.handleAll rest
    (reply :: replies, last)

end Session

end SmallScheme
