import Offside.Number.Text
import Offside.Value.Basic

/-!
# The text of values

Printing a value gives its content; inside a list a text is quoted, so that it
can be told from a number or a name.
-/

namespace Offside.Value

/-- A text in quotes: double ones if it holds a single quote and no double one,
otherwise single ones, with a backslash in front of each single quote inside. -/
def quote (content : String) : String :=
  let cs := content.toList
  if cs.contains '\'' && !cs.contains '"' then String.ofList ('"' :: cs ++ ['"'])
  else String.ofList ('\'' :: cs.flatMap escape ++ ['\''])
where
  /-- A character as it stands between single quotes. -/
  escape (c : Char) : List Char :=
    if c == '\'' then ['\\', c] else [c]

mutual

/-- The text of a value as an element of a list. -/
def element : Value → String
  | text content => quote content
  | number x => numberText x
  | truth b => if b then "True" else "False"
  | list [] => "[]"
  | list (v :: vs) => elementsOnto ("[" ++ element v) vs ++ "]"
  | nothing => "None"
  | function name => "<function " ++ name ++ ">"

/-- The text so far, followed by further elements, each after a comma. -/
def elementsOnto (shown : String) : List Value → String
  | [] => shown
  | v :: vs => elementsOnto (shown ++ ", " ++ element v) vs

end

/-- The text that printing a value shows: a text as it is, anything else as it
stands in a list. -/
def display : Value → String
  | text content => content
  | v => v.element

end Offside.Value
