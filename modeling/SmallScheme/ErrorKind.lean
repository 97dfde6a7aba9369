/-!
# Kinds of errors

Reading and evaluation fail in seventeen kinds. A kind says what went wrong in general; the causes,
`ReadError.Cause` and `Fault`, say where and with what.
-/

namespace SmallScheme

/-- What went wrong, in general. -/
inductive ErrorKind where
  | invalidBoolean
  | unexpectedCharacter
  | misformedExpression
  | noOpeningParenthesis
  | invalidNumberOfOperands
  | notANumber
  | notABoolean
  | notACons
  | invalidIdentifier
  | undefinedVariable
  | divisionByZero
  | invalidImbricatedExpression
  | unsupportedOperator
  | unexpectedDataAfterParse
  | invalidExpression
  | tooDeeplyNested
  | depthLimitExceeded
deriving DecidableEq, Repr

end SmallScheme
