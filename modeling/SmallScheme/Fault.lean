import SmallScheme.ErrorKind
import SmallScheme.Number.Computation
import SmallScheme.Number.Literal
import SmallScheme.Value.Printer

/-!
# Faults

A fault is the cause for which an evaluation fails, with the value or name at fault. Its message
shows that value. A value without a text makes the message fail too, so `Fault.message?` is partial,
and so is the evaluation itself where it needs the text of a form to name a call: that is the fault
`unprintable`, which has no kind and no message. Neither has `scaleOverflow`, with which arithmetic
stops where a scale cannot be stored (`Number.Computation.run`).
-/

namespace SmallScheme

/-- Why an evaluation fails. -/
inductive Fault where
  /-- A text that is no number literal. -/
  | notALiteral (text : String)
  | notANumber (v : Value)
  | notABoolean (v : Value)
  /-- What is taken apart is not a list, or has no elements. -/
  | notACons (v : Value)
  /-- What is mapped over is not a list. -/
  | notAList (v : Value)
  | notAnIdentifier (v : Value)
  | alreadyDefined (name : String)
  | notAParameterList (v : Value)
  | undefinedName (name : String)
  | divisionByZero
  | operandCount
  | notAFunction (v : Value)
  | unsupportedOperator (name : String)
  /-- A call headed by a truth value or a number. -/
  | notAnOperator (v : Value)
  /-- A call headed by a list that is no function, nor yields one. -/
  | notALambda (head : Value)
  | depthLimit (limit : Nat)
  /-- A form that is called has no text to name the call by. -/
  | unprintable (v : Value)
  /-- A scale that arithmetic comes across cannot be stored. -/
  | scaleOverflow
deriving DecidableEq

namespace Fault

def kind? : Fault → Option ErrorKind
  | notALiteral _ => some .notANumber
  | notANumber _ => some .notANumber
  | notABoolean _ => some .notABoolean
  | notACons _ => some .notACons
  | notAList _ => some .notACons
  | notAnIdentifier _ => some .invalidIdentifier
  | alreadyDefined _ => some .invalidIdentifier
  | notAParameterList _ => some .invalidIdentifier
  | undefinedName _ => some .undefinedVariable
  | divisionByZero => some .divisionByZero
  | operandCount => some .invalidNumberOfOperands
  | notAFunction _ => some .unsupportedOperator
  | unsupportedOperator _ => some .unsupportedOperator
  | notAnOperator _ => some .invalidExpression
  | notALambda _ => some .invalidImbricatedExpression
  | depthLimit _ => some .depthLimitExceeded
  | unprintable _ => none
  | scaleOverflow => none

/-- A value between two pieces of text, unless it has no text itself. -/
def around? (before : String) (v : Value) (after : String) : Option String :=
  v.text?.map fun text => before ++ String.ofList text ++ after

def message? : Fault → Option String
  | notALiteral text => some ("Not a number: " ++ text)
  | notANumber v => around? "Not a number: " v ""
  | notABoolean v => around? "Not a boolean: " v ""
  | notACons v => around? "" v " is not a cons"
  | notAList v => around? "" v " is not a list"
  | notAnIdentifier v => around? "" v " is not a valid identifier"
  | alreadyDefined name => some (name ++ " is already defined")
  | notAParameterList v => around? "" v " is not a parameter list"
  | undefinedName name => some (name ++ " is undefined")
  | divisionByZero => some "Division by zero"
  | operandCount => some "Invalid number of operands"
  | notAFunction v => around? "" v " is not a function"
  | unsupportedOperator name => some ("Unsupported operator: " ++ name)
  | notAnOperator v => around? "" v " is not an operator"
  | notALambda head => around? "Invalid imbricated expression: " head ""
  | depthLimit limit =>
    some ("Evaluation depth limit exceeded (max: " ++ toString limit ++ ")")
  | unprintable _ => none
  | scaleOverflow => none

end Fault

/-! ## Conversions and computations that may fail -/

namespace Number

def read (text : String) : Except Fault Number :=
  match ofText? text.toList with
  | some n => .ok n
  | none => .error (.notALiteral text)

/-- The result of a computation. The scales on the way to it have to be stored. -/
def Computation.run (c : Computation) : Except Fault Number :=
  if c.Fits then
    match c.result? with
    | some n => .ok n
    | none => .error .divisionByZero
  else .error .scaleOverflow

theorem Computation.run_eq_ok_iff {c : Computation} {n : Number} :
    c.run = .ok n ↔ c.Fits ∧ c.result? = some n := by
  unfold run
  by_cases hfits : c.Fits
  · rw [if_pos hfits]
    cases c.result? <;> simp [hfits]
  · simp [hfits]

theorem Computation.run_eq_error_iff {c : Computation} {fault : Fault} :
    c.run = .error fault ↔
      (¬c.Fits ∧ fault = .scaleOverflow) ∨ (c.result? = none ∧ fault = .divisionByZero) := by
  unfold run
  by_cases hfits : c.Fits
  · rw [if_pos hfits]
    cases c.result? <;> simp [hfits, eq_comm]
  · have hsome : c.result? ≠ none := fun h => hfits (fits_of_result?_eq_none h)
    simp [hfits, hsome, eq_comm]

def divide (a b : Number) : Except Fault Number :=
  (Computation.divide a b).run

def reciprocal (n : Number) : Except Fault Number :=
  divide (.integer 1) n

end Number

namespace Value

def asNumber : Value → Except Fault Number
  | .number n => .ok n
  | v => .error (.notANumber v)

def asBool : Value → Except Fault Bool
  | .bool b => .ok b
  | v => .error (.notABoolean v)

end Value

end SmallScheme
