import SmallScheme.Interpreter.Basic
import SmallScheme.Prompt.Command
import SmallScheme.Text.Lines

/-!
# Transcripts of the prompt

The prompt reads lines and prints what they ask for, until a line asks it to quit or there are no
more lines; then it says goodbye. Comments are allowed at the prompt and in files. A value that has
no text cannot be printed to its end, a fault without a message cannot be reported, and some lines
with backspaces cannot be read. There the prompt breaks off: it prints nothing more, and does not
say goodbye.
-/

namespace SmallScheme

namespace Prompt

/-! ## Fixed texts -/

def banner : List String :=
  ["minilisp - a small Scheme-like interpreter",
    "Enter S-expressions like: (+ 1 2)",
    "Type :help for more commands, or Ctrl+C to exit.",
    ""]

def farewell : String := "Goodbye!"

def usage : String := "Usage: :load <file>"

def operatorNames : String :=
  String.join (Operator.registry.map fun op => " " ++ op.name)

def help : List String :=
  ["minilisp commands:",
    "  :help        - Show this help message",
    "  :env         - Show current definitions",
    "  :load <file> - Evaluate every expression in a file",
    "  :quit        - Exit the interpreter (also :exit, quit)",
    "  Ctrl+C       - Exit the interpreter",
    "",
    "Values:",
    "  Numbers: 42, -5, 3.14, 1.5e3 (exact integers and decimals)",
    "  Booleans: #t, #f",
    "  Lists: (list 1 2 3), (quote (a b)), nil",
    "",
    "Operators:" ++ operatorNames,
    "",
    "Examples:",
    "  (+ 1 2 3)",
    "  (if (> 3 2) 1 0)",
    "  (define double (lambda (n) (* 2 n)))",
    "  (map double (list 1 2 3))",
    ""]

/-! ## Printing -/

/-- What was printed, and whether nothing failed to be printed. -/
structure Printed where
  text : List Char
  complete : Bool
deriving DecidableEq, Repr

namespace Printed

def nothing : Printed := ⟨[], true⟩

/-- The prompt breaks off behind a text. -/
def broken (text : List Char) : Printed := ⟨text, false⟩

/-- A line of its own. -/
def line (text : List Char) : Printed := ⟨text ++ ['\n'], true⟩

/-- One after the other; nothing follows what is not complete. -/
def append (a b : Printed) : Printed :=
  if a.complete then ⟨a.text ++ b.text, b.complete⟩ else a

instance : Append Printed := ⟨append⟩

def concat : List Printed → Printed
  | [] => nothing
  | p :: rest => p ++ concat rest

def lines (lines : List String) : Printed :=
  concat (lines.map fun text => line text.toList)

/-- The status with which the prompt ends: zero unless it breaks off. -/
def status (p : Printed) : Nat :=
  if p.complete then 0 else 101

end Printed

/-- A value behind a text, on a line of its own. -/
def showBehind (lead : String) (v : Value) : Printed :=
  match v.text? with
  | some text => .line (lead.toList ++ text)
  | none => .broken (lead.toList ++ v.begun)

def showValue (v : Value) : Printed :=
  showBehind "" v

def report? : Failure → Option String
  | .reading e => some e.report
  | .evaluation fault => fault.message?

/-- The report of a failure on a line of its own. A report that shows a value without a text is
given up before anything of it is printed. -/
def showFailure (f : Failure) : Printed :=
  match report? f with
  | some report => .line ("Error: " ++ report).toList
  | none => .broken []

def showBinding (b : String × Value) : Printed :=
  showBehind ("  " ++ b.1 ++ " = ") b.2

/-- Bindings under a title with their number, or nothing if there are none. -/
def showGroup (title : String) (bindings : List (String × Value)) : Printed :=
  if bindings.isEmpty then .nothing
  else
    .lines [title ++ " (" ++ toString bindings.length ++ "):"]
      ++ .concat (bindings.map showBinding)

def showEnvironment (env : Environment) : Printed :=
  let bindings := env.bindings
  if bindings.isEmpty then .lines ["Environment is empty."]
  else
    let (functions, values) := bindings.partition fun b => (env.functions.get? b.1).isSome
    showGroup "Variables" values ++ showGroup "Functions" functions

/-! ## Commands -/

/-- The texts of files by their paths, or why they cannot be had. -/
abbrev Files := String → Except String String

def load (files : Files) (i : Interpreter) (path : String) : Printed × Interpreter :=
  if path = "" then (.lines [usage], i)
  else
    match files path with
    | .error reason => (.lines ["Error: cannot read " ++ path ++ ": " ++ reason], i)
    | .ok text =>
      match i.runAll text with
      | (.ok values, next) => (.concat (values.map showValue), next)
      | (.error failure, next) => (showFailure failure, next)

/-- What a command other than quitting prints, and the interpreter behind it. -/
def perform (files : Files) (i : Interpreter) : Command → Printed × Interpreter
  | .blank | .quit => (.nothing, i)
  | .help => (.lines help, i)
  | .environment => (showEnvironment i.environment, i)
  | .load path => load files i path
  | .expression text =>
    match i.run text with
    | (.ok v, next) => (showValue v, next)
    | (.error failure, next) => (showFailure failure, next)

/-- What is printed for lines in order, up to the first that quits. -/
def converse (files : Files) (i : Interpreter) : List (List Char) → Printed
  | [] => .lines [farewell]
  | line :: rest =>
    match Command.ofTyped? line with
    | none => .broken []
    | some .quit => .lines [farewell]
    | some command =>
      let (printed, next) := perform files i command
      printed ++ converse files next rest

def initial : Interpreter :=
  .fresh ⟨true, 128⟩ {}

/-- Everything that is printed when the prompt gets a text as its input. -/
def transcript (files : Files) (input : String) : Printed :=
  .lines banner ++ converse files initial (Text.lines input.toList)

end Prompt

end SmallScheme
