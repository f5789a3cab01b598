import Offside.Text.Blank
import Offside.Text.Alphabetic
import Offside.Text.Numeric

/-!
# Identifiers

Words and identifiers. A word character is a letter, a numeral or an
underscore; an identifier is a word that starts with no numeral and is not
reserved.
-/

namespace Offside

/-- Whether a code point lies in one of some ascending ranges. -/
def inRanges (ranges : List (Nat × Nat)) (n : Nat) : Bool :=
  ranges.any fun (first, last) => first ≤ n && n ≤ last

/-- Letters: the alphabetic characters. ASCII, by far the most frequent, is
answered without the table. -/
def isLetter (c : Char) : Bool :=
  if c.toNat < 0x80 then c.isAlpha else inRanges alphabeticRanges c.toNat

/-- Letters and numerals of every script. -/
def isLetterOrNumeral (c : Char) : Bool :=
  if c.toNat < 0x80 then c.isAlphanum
  else inRanges alphabeticRanges c.toNat || inRanges numericRanges c.toNat

/-- The characters a word starts with. -/
def startsWord (c : Char) : Bool :=
  isLetter c || c == '_'

/-- The characters a word goes on with. -/
def continuesWord (c : Char) : Bool :=
  isLetterOrNumeral c || c == '_'

/-- The words that cannot name anything. -/
def reservedWords : List Text :=
  ["and", "or", "not", "in", "is", "if", "elif", "else", "for", "while", "def", "return",
    "break", "continue", "pass", "True", "False", "None", "lambda", "class", "import", "from",
    "global", "del"].map String.toList

/-- An identifier is a word that is not reserved. -/
def Text.isIdentifier : Text → Bool
  | [] => false
  | c :: cs => startsWord c && cs.all continuesWord && !reservedWords.contains (c :: cs)

end Offside
