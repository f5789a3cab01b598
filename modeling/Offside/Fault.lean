import Offside.Expr.Basic
import Offside.Token.Basic
import Offside.Value.Basic

/-!
# Faults

Everything that can go wrong while a text is read and evaluated, as causes; the
wording of each cause is in one place. A fault of an expression is lexical,
syntactic, or arises from the values at run time.
-/

namespace Offside

/-- Why a character starts no token. -/
inductive LexicalCause where
  | unexpected (c : Char)
  | assignment
  | badNumber (text : String)
  | unterminated
  deriving Repr, DecidableEq

/-- A text that does not fall into tokens, and the column where that shows. -/
structure LexicalFault where
  cause : LexicalCause
  column : Nat
  deriving Repr, DecidableEq

/-- The wording of a lexical cause. -/
def LexicalCause.message : LexicalCause → String
  | unexpected c => s!"unexpected character '{c}'"
  | assignment => "assignment is not allowed inside an expression"
  | badNumber text => s!"invalid number literal '{text}'"
  | unterminated => "unterminated string"

/-- The wording of a lexical fault. -/
def LexicalFault.message (fault : LexicalFault) : String :=
  s!"{fault.cause.message} at col {fault.column}"

/-- What a closing bracket may be wanted for. -/
inductive Closing where
  | arguments
  | index
  | group
  | list
  deriving Repr, DecidableEq

/-- The token that closes. -/
def Closing.kind : Closing → TokenKind
  | arguments => .rightParen
  | index => .rightBracket
  | group => .rightParen
  | list => .rightBracket

/-- What is said when the token is missing. -/
def Closing.remark : Closing → String
  | arguments => "Expected ) after arguments."
  | index => "Expected ] after subscript"
  | group => "Expected ')' after expression."
  | list => "Expected ] after list elements."

/-- Why tokens are no expression. -/
inductive ParseFault where
  /-- a token that cannot stand where it stands -/
  | unexpected (found : TokenKind) (column : Nat)
  /-- a token in place of a closing one -/
  | unclosed (closing : Closing) (found : TokenKind) (column : Nat)
  /-- a token in place of an operand -/
  | noOperand (found : TokenKind) (column : Nat)
  /-- a call of something that is not a name -/
  | notNamed (column : Nat)
  /-- tokens that run out without an end mark -/
  | noEnd
  deriving Repr, DecidableEq

/-- The wording of a parse fault. -/
def ParseFault.message : ParseFault → String
  | unexpected found column => s!"unexpected token {found.label} at col {column}"
  | unclosed closing found column =>
    s!"expected token {closing.kind.label} but found {found.label} at col {column}: "
      ++ closing.remark
  | noOperand found column => s!"expected expression, but found token {found.label} at col {column}"
  | notNamed column => s!"only named functions can be called (col {column})"
  | noEnd => "unexpected end of the tokens"

/-- Whether the end mark is what is wrong. -/
def ParseFault.isAtEnd : ParseFault → Bool
  | unexpected found _ => found == .eof
  | unclosed _ found _ => found == .eof
  | noOperand found _ => found == .eof
  | notNamed _ => false
  | noEnd => true

/-- Why a call of a builtin function has the wrong number of arguments: what it
takes. -/
inductive Arity where
  | exactly (n : Nat)
  | between (least most : Nat)
  | atLeast (n : Nat)
  deriving Repr, DecidableEq

/-- How many arguments, in words. -/
def Arity.describe : Arity → String
  | exactly n => toString n
  | between least most => s!"{least} to {most}"
  | atLeast n => s!"at least {n}"

/-- What can go wrong with the values at run time. -/
inductive RuntimeFault where
  | unbound (name : String)
  | calledInExpression (function : String)
  | notCallable (kind : Kind)
  | badOperand (op : UnaryOp) (kind : Kind)
  | badOperands (op : ArithOp) (left right : Kind)
  | divisionByZero
  | moduloByZero
  | repeatedTooOften
  | repeatedByNonInteger (kind : Kind)
  | notComparable (operation : String) (left right : Kind)
  | notAComparison (op : ArithOp)
  | noPartOfText (kind : Kind)
  | noContainer (kind : Kind)
  | fractionalIndex
  | indexOutOfRange
  | indexNotNumber (container index : Kind)
  | notSubscriptable (kind : Kind)
  | arity (name : String) (expected : Arity) (given : Nat)
  | notNumber (name : String) (kind : Kind)
  | notInteger (name : String)
  | noLength (kind : Kind)
  | badIntegerText (text : String)
  | badNumberText (text : String)
  | emptySequence (name : String)
  | notIterable (kind : Kind)
  | zeroStep
  | rangeTooLong (count : Nat)
  | assignmentIndexOutOfRange
  | noItemAssignment (kind : Kind)
  | noAppend (kind : Kind)
  | textNotIterable (text : String)
  | tooManyArguments (name : String) (expected given : Nat)
  | tooDeep
  deriving Repr, DecidableEq

/-- The wording of a runtime fault. -/
def RuntimeFault.message : RuntimeFault → String
  | unbound name => s!"name '{name}' is not defined"
  | calledInExpression function => s!"function '{function}' can only be called as a statement"
  | notCallable kind => s!"'{kind.label}' object is not callable"
  | badOperand op kind => s!"bad operand type for unary {op.symbol}: '{kind.label}'"
  | badOperands op left right =>
    s!"unsupported operand type(s) for {op.symbol}: '{left.label}' and '{right.label}'"
  | divisionByZero => "division by zero"
  | moduloByZero => "integer division or modulo by zero"
  | repeatedTooOften => "repeated sequence is too long"
  | repeatedByNonInteger kind => s!"can't multiply sequence by non-int of type '{kind.label}'"
  | notComparable operation left right =>
    s!"'{operation}' not supported between instances of '{left.label}' and '{right.label}'"
  | notAComparison op => s!"'{op.symbol}' is not a comparison"
  | noPartOfText kind => s!"'in <string>' requires string as left operand, not {kind.label}"
  | noContainer kind => s!"argument of type '{kind.label}' is not iterable"
  | fractionalIndex => "list indices must be integers"
  | indexOutOfRange => "list index out of range"
  | indexNotNumber container index =>
    s!"{container.label} indices must be integers, not '{index.label}'"
  | notSubscriptable kind => s!"'{kind.label}' object is not subscriptable"
  | arity name expected given => s!"{name}() takes {expected.describe} argument(s) ({given} given)"
  | notNumber name kind => s!"{name}() expected a number, got '{kind.label}'"
  | notInteger name => s!"'float' object cannot be interpreted as an integer in {name}()"
  | noLength kind => s!"object of type '{kind.label}' has no len()"
  | badIntegerText text => s!"invalid literal for int() with base 10: '{text}'"
  | badNumberText text => s!"could not convert string to float: '{text}'"
  | emptySequence name => s!"{name}() arg is an empty sequence"
  | notIterable kind => s!"'{kind.label}' object is not iterable"
  | zeroStep => "range() arg 3 must not be zero"
  | rangeTooLong count => s!"range() result has too many items ({count})"
  | assignmentIndexOutOfRange => "list assignment index out of range"
  | noItemAssignment kind => s!"'{kind.label}' object does not support item assignment"
  | noAppend kind => s!"'{kind.label}' object has no attribute 'append'"
  | textNotIterable text => s!"'{text}' is not iterable"
  | tooManyArguments name expected given =>
    s!"{name}() takes {expected} positional argument(s) but {given} were given"
  | tooDeep => "maximum recursion depth exceeded"

/-- What can go wrong with an expression. -/
inductive Fault where
  | lexical (fault : LexicalFault)
  | parse (fault : ParseFault)
  | runtime (fault : RuntimeFault)
  deriving Repr, DecidableEq

/-- The wording of a fault of an expression. -/
def Fault.message : Fault → String
  | lexical fault => "lexical error: " ++ fault.message
  | parse fault => "parse error: " ++ fault.message
  | runtime fault => fault.message

end Offside
