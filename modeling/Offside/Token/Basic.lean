/-!
# Tokens

The tokens of expressions. A token keeps its text and its column; where it
stands for a name, a text or a number it also carries that.
-/

namespace Offside

/-- The kinds of tokens. `eof` marks the end of the text. -/
inductive TokenKind where
  | leftParen
  | rightParen
  | leftBracket
  | rightBracket
  | comma
  | plus
  | minus
  | percent
  | star
  | starStar
  | slash
  | slashSlash
  | equalEqual
  | bangEqual
  | less
  | lessEqual
  | greater
  | greaterEqual
  | identifier
  | string
  | template
  | number
  | andWord
  | orWord
  | notWord
  | inWord
  | trueWord
  | falseWord
  | noneWord
  | eof
  deriving Repr, DecidableEq, Inhabited

namespace TokenKind

/-- The name of a token kind, as messages give it. -/
def label : TokenKind → String
  | leftParen => "LeftParen"
  | rightParen => "RightParen"
  | leftBracket => "LeftBracket"
  | rightBracket => "RightBracket"
  | comma => "Comma"
  | plus => "Plus"
  | minus => "Minus"
  | percent => "Percent"
  | star => "Star"
  | starStar => "StarStar"
  | slash => "Slash"
  | slashSlash => "SlashSlash"
  | equalEqual => "EqualEqual"
  | bangEqual => "BangEqual"
  | less => "Less"
  | lessEqual => "LessEqual"
  | greater => "Greater"
  | greaterEqual => "GreaterEqual"
  | identifier => "Identifier"
  | string => "String"
  | template => "FString"
  | number => "Number"
  | andWord => "And"
  | orWord => "Or"
  | notWord => "Not"
  | inWord => "In"
  | trueWord => "True"
  | falseWord => "False"
  | noneWord => "None"
  | eof => "Eof"

/-- Every token kind, once. -/
def all : List TokenKind :=
  [leftParen, rightParen, leftBracket, rightBracket, comma, plus, minus, percent, star, starStar,
    slash, slashSlash, equalEqual, bangEqual, less, lessEqual, greater, greaterEqual, identifier,
    string, template, number, andWord, orWord, notWord, inWord, trueWord, falseWord, noneWord, eof]

/-- The token kind of a name. -/
def ofLabel? (name : String) : Option TokenKind :=
  all.find? (·.label == name)

end TokenKind

/-- What a token carries besides its text. -/
inductive Literal where
  | name (s : String)
  | text (s : String)
  | number (x : Float)
  deriving Repr, Inhabited

/-- A token with its text and the column of its first character. -/
structure Token where
  kind : TokenKind
  lexeme : String
  literal : Option Literal
  column : Nat
  deriving Repr, Inhabited

end Offside
