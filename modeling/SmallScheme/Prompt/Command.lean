import SmallScheme.Prompt.Typing

/-!
# Commands of the prompt

A line at the prompt is a command or an expression, once its backspaces have taken effect. Blanks
around it do not matter. `:load` is a command only when it stands alone or a blank follows it.
-/

namespace SmallScheme

/-- What a line asks for. -/
inductive Command where
  | blank
  | help
  | environment
  | quit
  /-- Evaluate every expression in a file; the path may be missing. -/
  | load (path : String)
  | expression (text : String)
deriving DecidableEq, Repr

namespace Command

/-- What follows a leading text, if a text begins with it. -/
def after? : List Char → List Char → Option (List Char)
  | [], rest => some rest
  | a :: lead, b :: rest => if a = b then after? lead rest else none
  | _ :: _, [] => none

/-- The path of a `:load` command, if a line is one. -/
def loadPath? (line : List Char) : Option (List Char) :=
  match after? ":load".toList line with
  | some rest => if rest.head?.all Text.isBlank then some (Text.trim rest) else none
  | none => none

/-- The command of a line without backspaces. -/
def ofLine (line : List Char) : Command :=
  let line := Text.trim line
  let text := String.ofList line
  if line = [] then .blank
  else if text = ":help" then .help
  else if text = ":env" then .environment
  else if text ∈ [":quit", ":exit", "quit"] then .quit
  else
    match loadPath? line with
    | some path => .load (String.ofList path)
    | none => .expression text

/-- The command of a line as it is typed, if the line can be read. -/
def ofTyped? (line : List Char) : Option Command :=
  (Typing.typed? line).map ofLine

end Command

end SmallScheme
