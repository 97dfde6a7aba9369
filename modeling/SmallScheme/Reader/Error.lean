import SmallScheme.ErrorKind
import SmallScheme.Text.Excerpt

/-!
# Errors of reading

Reading fails for a cause and at a place. An error reports its message, the piece of text that was
found in that place, if the cause names one, and an excerpt of the text around it.
-/

namespace SmallScheme

namespace ReadError

/-- Why a text cannot be read. -/
inductive Cause where
  /-- There is no item in the text. -/
  | emptyText
  /-- A list is not closed. -/
  | unclosedList
  /-- A closing parenthesis outside any list. -/
  | strayClosing
  | badBoolean (found : String)
  | badNumber (found : String)
  /-- A character that begins no item. -/
  | badCharacter (found : Char)
  /-- A list of nothing but a comparison operator. -/
  | loneOperator (name : String)
  | tooDeep (limit : Nat)
  /-- A second item where one was asked for. -/
  | leftover
deriving DecidableEq, Repr

namespace Cause

def kind : Cause → ErrorKind
  | emptyText => .misformedExpression
  | unclosedList => .misformedExpression
  | strayClosing => .noOpeningParenthesis
  | badBoolean _ => .invalidBoolean
  | badNumber _ => .notANumber
  | badCharacter _ => .unexpectedCharacter
  | loneOperator _ => .invalidNumberOfOperands
  | tooDeep _ => .tooDeeplyNested
  | leftover => .unexpectedDataAfterParse

def message : Cause → String
  | emptyText => "Empty expression"
  | unclosedList => "Misformed Expression"
  | strayClosing => "No opening parenthesis!"
  | badBoolean _ => "Invalid boolean representation"
  | badNumber _ => "Not a number"
  | badCharacter c => "Unexpected character: '" ++ String.singleton c ++ "'"
  | loneOperator _ => "Invalid number of operands"
  | tooDeep limit => "Expression too deeply nested (max depth: " ++ toString limit ++ ")"
  | leftover => "Unexpected data after the expression"

/-- The piece of text that is shown as found. -/
def found : Cause → Option String
  | strayClosing => some ")"
  | badBoolean text => some text
  | badNumber text => some text
  | badCharacter c => some (String.singleton c)
  | loneOperator name => some ("(" ++ name ++ ")")
  | emptyText | unclosedList | tooDeep _ | leftover => none

end Cause

/-- A message, what was found, and an excerpt, on lines of their own. -/
def layout (message : String) (found : Option String) (context : String) : String :=
  let foundLine := match found with
    | some text => "\nFound: " ++ text
    | none => ""
  message ++ foundLine ++ "\nContext: " ++ context

end ReadError

/-- A cause with its place, in bytes from the start of the text, and an excerpt around it. -/
structure ReadError where
  cause : ReadError.Cause
  offset : Nat
  context : String
deriving DecidableEq, Repr

namespace ReadError

def inText (text : List Char) (cause : Cause) (offset : Nat) : ReadError :=
  ⟨cause, offset, Text.excerpt text offset⟩

def kind (e : ReadError) : ErrorKind := e.cause.kind

def message (e : ReadError) : String := e.cause.message

def found (e : ReadError) : Option String := e.cause.found

def report (e : ReadError) : String :=
  layout e.message e.found e.context

end ReadError

end SmallScheme
