import SmallScheme.Text.Blank

/-!
# Lexemes

A text is cut into lexemes character by character. Between items stand gaps: the four blanks of
`isGap`, and comments where they are asked for. An atom is a maximal run of characters that are
neither blanks nor parentheses. A blank that is no gap ends an atom but may not stand between items,
so it is a lexeme of its own, which no item begins with.

A comment begins with a semicolon where an item could begin, and runs to the end of its line. The
line must end with the text, a line feed, or a carriage return and a line feed. Before a carriage
return alone a semicolon begins no comment.
-/

namespace SmallScheme

/-- What a text is cut into, apart from its gaps. -/
inductive Lexeme where
  | opening
  | closing
  | atom (first : Char) (rest : List Char)
  /-- A blank that does not belong between items. -/
  | strayBlank (c : Char)
deriving DecidableEq, Repr

namespace Lexeme

structure Located where
  offset : Nat
  lexeme : Lexeme
deriving DecidableEq, Repr

def isParenthesis (c : Char) : Bool :=
  c == '(' || c == ')'

/-- The characters that end an atom. -/
def isDelimiter (c : Char) : Bool :=
  Text.isBlank c || isParenthesis c

/-- The line that begins here ends with the text, a line feed, or both line end characters. -/
def lineEnds : List Char → Bool
  | [] => true
  | '\n' :: _ => true
  | '\r' :: rest => rest.head? == some '\n'
  | _ :: rest => lineEnds rest

/-- What the text is in the middle of. An atom under way is kept last character first. -/
inductive Mode where
  | gap
  | comment
  | atom (start : Nat) (first : Char) (reversed : List Char)
deriving DecidableEq, Repr

/-- The atom under way, if there is one. -/
def Mode.finish : Mode → List Located
  | .atom start first reversed => [⟨start, .atom first reversed.reverse⟩]
  | _ => []

/-- What a character does where an item could begin: the mode behind it and its lexeme, if any. -/
def begin (comments : Bool) (offset : Nat) (c : Char) (rest : List Char) : Mode × List Located :=
  if Text.isGap c then (.gap, [])
  else if c = '(' then (.gap, [⟨offset, .opening⟩])
  else if c = ')' then (.gap, [⟨offset, .closing⟩])
  else if Text.isBlank c then (.gap, [⟨offset, .strayBlank c⟩])
  else if comments && c == ';' && lineEnds rest then (.comment, [])
  else (.atom offset c [], [])

/-- What a character does in a mode: the mode behind it and the lexemes that it completes. -/
def advance (comments : Bool) (mode : Mode) (offset : Nat) (c : Char) (rest : List Char) :
    Mode × List Located :=
  match mode with
  | .gap => begin comments offset c rest
  | .comment => if c = '\n' ∨ c = '\r' then (.gap, []) else (.comment, [])
  | .atom start first reversed =>
    if isDelimiter c then
      let (next, done) := begin comments offset c rest
      (next, mode.finish ++ done)
    else (.atom start first (c :: reversed), [])

/-- The lexemes of a text from a place on. -/
def scan (comments : Bool) : Mode → Nat → List Char → List Located
  | mode, _, [] => mode.finish
  | mode, offset, c :: rest =>
    let (next, done) := advance comments mode offset c rest
    done ++ scan comments next (offset + c.utf8Size) rest

def ofText (comments : Bool) (text : List Char) : List Located :=
  scan comments .gap 0 text

end Lexeme

end SmallScheme
