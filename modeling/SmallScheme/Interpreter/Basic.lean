import SmallScheme.Evaluation.Depth
import SmallScheme.Reader.Reading

/-!
# Interpreters

An interpreter reads texts and evaluates what it has read in one environment. Definitions stay from
one request to the next, and nothing is taken back when a request fails. A text of several
expressions is read as a whole before any of them is evaluated.
-/

namespace SmallScheme

/-- An environment together with how texts are read. -/
structure Interpreter where
  environment : Environment
  reader : Reader.Config
deriving Inhabited

/-- Why a request fails. -/
inductive Failure where
  | reading (e : ReadError)
  | evaluation (fault : Fault)
deriving DecidableEq

namespace Interpreter

/-- The interpreter that has evaluated nothing yet. -/
def fresh (reader : Reader.Config) (config : Environment.Config) : Interpreter :=
  ⟨.fresh config, reader⟩

def read (i : Interpreter) (text : String) : Except ReadError Value :=
  Reader.readOne i.reader text

def evaluate (i : Interpreter) (e : Value) : Except Fault Value × Interpreter :=
  let (result, env) := (Evaluation.evaluateAt 0 e).outcome i.environment
  (result, { i with environment := env })

/-- Evaluates expressions in order up to the first fault. -/
def evaluateEach (i : Interpreter) (es : List Value) : Except Fault (List Value) × Interpreter :=
  let (result, env) := (es.mapM (Evaluation.evaluateAt 0)).outcome i.environment
  (result, { i with environment := env })

def run (i : Interpreter) (text : String) : Except Failure Value × Interpreter :=
  match i.read text with
  | .error e => (.error (.reading e), i)
  | .ok e =>
    let (result, after) := i.evaluate e
    (result.mapError .evaluation, after)

/-- Reads all expressions of a text, then evaluates them in order up to the first fault. -/
def runAll (i : Interpreter) (text : String) : Except Failure (List Value) × Interpreter :=
  match Reader.readAll i.reader text with
  | .error e => (.error (.reading e), i)
  | .ok es =>
    let (result, after) := i.evaluateEach es
    (result.mapError .evaluation, after)

end Interpreter

end SmallScheme
