import Offside.Text.Blank

/-!
# Nesting: quotes and brackets in raw text

A text is read from left to right while keeping track of whether the reading
stands inside a quoted part, and how many brackets are open outside of such
parts. Nothing has to be well formed: a closing bracket too many is ignored,
and a quoted part that is never closed reaches to the end.

`Nesting.level` gives the depth of a character outside quotes, where an opening
bracket and its closing one have the same depth. The functions below are told
by it where a comment starts, and whether a text is one bracketed whole.
-/

namespace Offside

/-- The characters that open and close a quoted part. -/
def isQuote (c : Char) : Bool :=
  c == '"' || c == '\''

/-- Opening brackets of every kind. -/
def isOpener (c : Char) : Bool :=
  c == '(' || c == '[' || c == '\x7b'

/-- Closing brackets of every kind. -/
def isCloser (c : Char) : Bool :=
  c == ')' || c == ']' || c == '\x7d'

/-- Where a reading from left to right stands. -/
inductive Nesting where
  /-- outside quotes, inside `depth` brackets -/
  | plain (depth : Nat)
  /-- inside a part that the character `quote` will close -/
  | quoted (quote : Char) (depth : Nat)
  /-- inside such a part, right after a backslash -/
  | escaped (quote : Char) (depth : Nat)
  deriving Repr, DecidableEq

namespace Nesting

/-- The bracket depth of the next character, if it is outside quotes. -/
def level : Nesting → Char → Option Nat
  | plain depth, c =>
    if isQuote c then none
    else if isCloser c then some (depth - 1)
    else some depth
  | quoted _ _, _ => none
  | escaped _ _, _ => none

/-- Where the reading stands after the next character. -/
def next : Nesting → Char → Nesting
  | plain depth, c =>
    if isQuote c then quoted c depth
    else if isOpener c then plain (depth + 1)
    else if isCloser c then plain (depth - 1)
    else plain depth
  | quoted quote depth, c =>
    if c == '\\' then escaped quote depth
    else if c == quote then plain depth
    else quoted quote depth
  | escaped quote depth, _ => quoted quote depth

/-- A reading starts outside quotes and brackets. -/
def start : Nesting := plain 0

end Nesting

namespace Text

/-- The text before the first number sign outside quotes, for a reading that
stands at `s`. -/
def beforeComment (s : Nesting) : Text → Text
  | [] => []
  | c :: cs =>
    if c == '#' && (s.level c).isSome then []
    else c :: beforeComment (s.next c) cs

/-- The text without its comment. -/
def stripComment (t : Text) : Text :=
  beforeComment Nesting.start t

/-- The first closing bracket at depth zero and the text after it. -/
def outerCloser (s : Nesting) : Text → Option (Char × Text)
  | [] => none
  | c :: cs =>
    if isCloser c && s.level c == some 0 then some (c, cs)
    else outerCloser (s.next c) cs

/-- The text between the two brackets, when the text opens with `opening` and
its last character is the `closing` bracket that ends what was opened. -/
def inside? (opening closing : Char) : Text → Option Text
  | [] => none
  | c :: cs =>
    if c == opening && outerCloser Nesting.start (c :: cs) == some (closing, []) then
      some cs.dropLast
    else none

/-- What brackets enclose is shorter than the text. -/
theorem length_inside?_lt {opening closing : Char} {t inner : Text}
    (h : t.inside? opening closing = some inner) : inner.length < t.length := by
  cases t with
  | nil => simp [inside?] at h
  | cons c cs =>
    rw [inside?] at h
    split at h
    · obtain rfl := Option.some.inj h
      simp only [List.length_dropLast, List.length_cons]
      omega
    · simp at h

end Text

end Offside
