import SmallScheme.Number.Printer
import SmallScheme.Value.Basic

/-!
# Writing values

A value is written in one of two styles. The plain style is the one that programs are written in,
and most values can be read back from it. The tagged style names the kind of every part. A value has
no text in either style when it holds a number that has none. Whoever writes such a value all the
same gets as far as that number: `begun` is what has been written by then.
-/

namespace SmallScheme

namespace Value

/-- How the parts of a value are put on paper, given the texts of what they contain. -/
structure Style where
  bool : Bool → List Char
  number : List Char → List Char
  symbol : List Char → List Char
  list : List (List Char) → List Char

/-- Elements stand between parentheses with a space between neighbours. -/
def Style.plain : Style where
  bool b := if b then ['#', 't'] else ['#', 'f']
  number text := text
  symbol text := text
  list texts := '(' :: List.intercalate [' '] texts ++ [')']

/-- Every part is preceded by the name of its kind. -/
def Style.tagged : Style where
  bool b := (if b then "Bool(true)" else "Bool(false)").toList
  number text := "Number(".toList ++ text ++ [')']
  symbol text := "Symbol(".toList ++ text ++ [')']
  list texts := "List(".toList ++ List.intercalate [',', ' '] texts ++ [')']

mutual

def render? (style : Style) : Value → Option (List Char)
  | .bool b => some (style.bool b)
  | .number n => n.text?.map style.number
  | .symbol name => some (style.symbol name.toList)
  | .list items => (renderAll? style items).map style.list

def renderAll? (style : Style) : List Value → Option (List (List Char))
  | [] => some []
  | v :: rest => do
    let text ← render? style v
    let texts ← renderAll? style rest
    return text :: texts

end

def text? (v : Value) : Option (List Char) :=
  v.render? .plain

def tagged? (v : Value) : Option (List Char) :=
  v.render? .tagged

mutual

/-- What is written of a value without a plain text before the number for which it has none. -/
def begun : Value → List Char
  | .list items => '(' :: begunAll items
  | _ => []

/-- What is written of some values, of which one has no plain text, before it breaks off. -/
def begunAll : List Value → List Char
  | [] => []
  | v :: rest =>
    match v.text? with
    | some text => text ++ ' ' :: begunAll rest
    | none => v.begun

end

@[simp] theorem text?_bool (b : Bool) :
    (bool b).text? = some (if b then ['#', 't'] else ['#', 'f']) := by
  simp [text?, render?, Style.plain]

@[simp] theorem text?_number (n : Number) : (number n).text? = n.text? := by
  cases h : n.text? <;> simp [text?, render?, Style.plain, h]

@[simp] theorem text?_symbol (name : String) : (symbol name).text? = some name.toList := by
  simp [text?, render?, Style.plain]

theorem text?_list (items : List Value) :
    (list items).text?
      = (renderAll? .plain items).map fun texts => '(' :: List.intercalate [' '] texts ++ [')'] := by
  simp [text?, render?, Style.plain]

end Value

end SmallScheme
