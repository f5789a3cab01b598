import Offside.Fault
import Offside.Number.Text
import Offside.Text.Identifier
import Offside.Text.Nesting

/-!
# From text to tokens

A text is read from left to right. At each character either a space is skipped
or a token starts, and the token is the longest one of its sort: `lexeme` says
how many more characters belong to it. So the tokens, in order, are cut out of
the text itself. In a quoted one, a backslash and the character after it stand for
one character if the pair is an escape, and for themselves otherwise.
-/

namespace Offside

/-- What an escaped character stands for. -/
def escaped? : Char → Option Char
  | 'n' => some '\n'
  | 't' => some '\t'
  | 'r' => some '\r'
  | '0' => some '\x00'
  | '\\' => some '\\'
  | '\'' => some '\''
  | '"' => some '"'
  | _ => none

/-- The text with its escapes resolved. -/
def Text.unescape : Text → Text
  | '\\' :: c :: cs =>
    match escaped? c with
    | some d => d :: unescape cs
    | none => '\\' :: c :: unescape cs
  | c :: cs => c :: unescape cs
  | [] => []

/-- What starts at a character. -/
inductive Lexeme where
  | space
  /-- a token that goes on for `more` characters after the first -/
  | token (kind : TokenKind) (literal : Option Literal) (more : Nat)
  deriving Repr

/-- The token of a word that is an operator or a constant. -/
def keyword? (word : String) : Option TokenKind :=
  match word with
  | "and" => some .andWord
  | "or" => some .orWord
  | "not" => some .notWord
  | "in" => some .inWord
  | "True" => some .trueWord
  | "False" => some .falseWord
  | "None" => some .noneWord
  | _ => none

/-- The token of two characters. -/
def pairSymbol? : Char → Char → Option TokenKind
  | '*', '*' => some .starStar
  | '/', '/' => some .slashSlash
  | '=', '=' => some .equalEqual
  | '!', '=' => some .bangEqual
  | '<', '=' => some .lessEqual
  | '>', '=' => some .greaterEqual
  | _, _ => none

/-- The token of one character. -/
def singleSymbol? : Char → Option TokenKind
  | '(' => some .leftParen
  | ')' => some .rightParen
  | '[' => some .leftBracket
  | ']' => some .rightBracket
  | ',' => some .comma
  | '+' => some .plus
  | '-' => some .minus
  | '%' => some .percent
  | '*' => some .star
  | '/' => some .slash
  | '<' => some .less
  | '>' => some .greater
  | _ => none

/-- The symbol that starts at a character, and how many characters follow in it. -/
def symbol? (c : Char) (cs : Text) : Option (TokenKind × Nat) :=
  match cs.head?.bind (pairSymbol? c) with
  | some kind => some (kind, 1)
  | none => (singleSymbol? c).map fun kind => (kind, 0)

/-- The characters before the quote that closes a string; a backslash takes the
character after it along. -/
def untilQuote (quote : Char) : Text → Option Text
  | '\\' :: c :: cs => (untilQuote quote cs).map fun body => '\\' :: c :: body
  | c :: cs => if c == quote then some [] else (untilQuote quote cs).map fun body => c :: body
  | [] => none

/-- The characters that go on a numeral after its first: digits with underscores
among them, a point with digits, and an exponent with digits. -/
def numeralRest (cs : Text) : Text :=
  let whole := cs.takeWhile fun c => c.isDigit || c == '_'
  let afterWhole := cs.dropWhile fun c => c.isDigit || c == '_'
  let fraction :=
    match afterWhole with
    | '.' :: ds => '.' :: ds.takeWhile Char.isDigit
    | _ => []
  let exponent :=
    match afterWhole.drop fraction.length with
    | e :: sign :: ds =>
      if e == 'e' || e == 'E' then
        if sign.isDigit then e :: (sign :: ds).takeWhile Char.isDigit
        else if sign == '+' || sign == '-' then e :: sign :: ds.takeWhile Char.isDigit
        else []
      else []
    | _ => []
  whole ++ fraction ++ exponent

/-- The number that a numeral stands for, underscores aside. -/
def numeral (t : Text) : Except LexicalCause Float :=
  let digits := t.filter (· != '_')
  match decimal? digits with
  | some d => .ok d.toFloat
  | none => .error (.badNumber (String.ofList digits))

/-- What starts at the character `c` before the characters `cs`. -/
def lexeme (c : Char) (cs : Text) : Except LexicalCause Lexeme :=
  if c == ' ' || c == '\r' || c == '\t' then .ok .space
  else
    match symbol? c cs with
    | some (kind, more) => .ok (.token kind none more)
    | none =>
      if c == '=' then .error .assignment
      else if isQuote c then
        match untilQuote c cs with
        | some body =>
          .ok (.token .string (some (.text (String.ofList (Text.unescape body))))
            (body.length + 1))
        | none => .error .unterminated
      else if (c == 'f' || c == 'F') && cs.head?.any isQuote then
        match untilQuote (cs.headD c) cs.tail with
        | some body => .ok (.token .template (some (.text (String.ofList body))) (body.length + 2))
        | none => .error .unterminated
      else if c.isDigit || (c == '.' && cs.head?.any Char.isDigit) then
        let rest := numeralRest cs
        match numeral (c :: rest) with
        | .ok x => .ok (.token .number (some (.number x)) rest.length)
        | .error cause => .error cause
      else if startsWord c then
        let rest := cs.takeWhile continuesWord
        let word := String.ofList (c :: rest)
        match keyword? word with
        | some kind => .ok (.token kind none rest.length)
        | none => .ok (.token .identifier (some (.name word)) rest.length)
      else .error (.unexpected c)

/-- The tokens of a text that starts at a column, with an end mark after them. -/
def scanFrom (column : Nat) : Text → Except LexicalFault (List Token)
  | [] => .ok [⟨.eof, "", none, column⟩]
  | c :: cs =>
    match lexeme c cs with
    | .error cause => .error ⟨cause, column⟩
    | .ok .space => scanFrom (column + 1) cs
    | .ok (.token kind literal more) =>
      match scanFrom (column + 1 + more) (cs.drop more) with
      | .error fault => .error fault
      | .ok tokens =>
        .ok (⟨kind, String.ofList (c :: cs.take more), literal, column⟩ :: tokens)
termination_by t => t.length
decreasing_by all_goals simp; try omega

/-- The tokens of a text. -/
def scan (t : Text) : Except LexicalFault (List Token) :=
  scanFrom 0 t

end Offside
