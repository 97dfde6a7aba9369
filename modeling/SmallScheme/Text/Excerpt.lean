import SmallScheme.Text.Blank

/-!
# Excerpts

An excerpt shows the place in a text where something went wrong, on one line: from `lead` characters
before the place, at most `width` characters. Where text is left out on either side stands a mark.
The place is given in bytes. A place that is not the start of a character, nor the end of the text,
is taken for the start of the text.
-/

namespace SmallScheme.Text

/-- How many characters precede a place, if the place is between two characters. -/
def charsBefore? : List Char → Nat → Option Nat
  | _, 0 => some 0
  | [], _ + 1 => none
  | c :: rest, offset + 1 =>
    if c.utf8Size ≤ offset + 1 then (charsBefore? rest (offset + 1 - c.utf8Size)).map (· + 1)
    else none

namespace Excerpt

def lead : Nat := 20

def width : Nat := 100

/-- The mark for text that is left out. -/
def ellipsis : List Char := "[...]".toList

/-- Writes line feeds as `\n` and leaves carriage returns out. -/
def oneLine (text : List Char) : List Char :=
  text.flatMap fun c => if c = '\n' then ['\\', 'n'] else if c = '\r' then [] else [c]

/-- The excerpt from the given number of characters on. -/
def fromStart (text : List Char) (start : Nat) : List Char :=
  let before := if 0 < start then ellipsis else []
  let after := if start + width < text.length then ellipsis else []
  before ++ oneLine ((text.drop start).take width) ++ after

end Excerpt

def excerpt (text : List Char) (offset : Nat) : String :=
  let place := (charsBefore? text offset).getD 0
  String.ofList (Excerpt.fromStart text (place - Excerpt.lead))

end SmallScheme.Text
