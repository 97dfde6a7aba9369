import SmallScheme.Prompt.Transcript

/-!
# The prompt as a program

Reads lines from the standard input until one of them quits or there are no more, and prints what
each of them asks for.
-/

namespace SmallScheme

namespace Prompt

/-- Why a file cannot be read, in the words of the operating system. -/
def refusal : IO.Error → String
  | .noFileOrDirectory .. => "No such file or directory (os error 2)"
  | .permissionDenied .. => "Permission denied (os error 13)"
  | .inappropriateType _ 21 _ => "Is a directory (os error 21)"
  | .inappropriateType .. => "Not a directory (os error 20)"
  | .invalidArgument _ 22 _ => "file name contained an unexpected NUL byte"
  | .invalidArgument .. => "File name too long (os error 36)"
  | reason => toString reason

/-- The text of a file, or why it cannot be had. -/
def fileText (path : String) : IO (Except String String) := do
  try
    match String.fromUTF8? (← IO.FS.readBinFile path) with
    | some text => return .ok text
    | none => return .error "stream did not contain valid UTF-8"
  catch reason =>
    return .error (refusal reason)

/-- Prints what is to be printed, and answers with the status of the prompt. -/
def print (printed : Printed) : IO UInt32 := do
  IO.print (String.ofList printed.text)
  return printed.status.toUInt32

/-- Answers lines from the standard input, and ends with the status of the prompt. -/
partial def serve (i : Interpreter) : IO UInt32 := do
  let input ← (← IO.getStdin).getLine
  match Text.lines input.toList with
  | [] => print (.lines [farewell])
  | line :: _ =>
    match Command.ofTyped? line with
    | none => print (.broken [])
    | some .quit => print (.lines [farewell])
    | some command =>
      let file ← match command with
        | .load path => fileText path
        | _ => pure (.ok "")
      let (printed, next) := perform (fun _ => file) i command
      let status ← print printed
      if printed.complete then serve next else return status

end Prompt

end SmallScheme

def main : IO UInt32 := do
  let _ ← SmallScheme.Prompt.print (.lines SmallScheme.Prompt.banner)
  SmallScheme.Prompt.serve SmallScheme.Prompt.initial
