/-!
# Expressions

The operators and the syntax trees of expressions. A node keeps the column of
the token that made it where a message may point there.
-/

namespace Offside

/-- The operators in front of one operand. -/
inductive UnaryOp where
  | minus
  | plus
  | not
  deriving Repr, DecidableEq

/-- The operators that compute a value from two operands. -/
inductive ArithOp where
  | add
  | sub
  | mul
  | pow
  | div
  | floorDiv
  | mod
  deriving Repr, DecidableEq

/-- The operators that compare two operands. -/
inductive Relation where
  | eq
  | ne
  | lt
  | le
  | gt
  | ge
  | isIn
  | notIn
  deriving Repr, DecidableEq

/-- The operators that may leave their second operand alone. -/
inductive Connective where
  | and
  | or
  deriving Repr, DecidableEq

/-- The operators between two operands that are always both evaluated. -/
inductive Operator where
  | arith (op : ArithOp)
  | relation (op : Relation)
  deriving Repr, DecidableEq

/-- How an operator is written. -/
def UnaryOp.symbol : UnaryOp → String
  | minus => "-"
  | plus => "+"
  | not => "not"

@[inherit_doc UnaryOp.symbol]
def ArithOp.symbol : ArithOp → String
  | add => "+"
  | sub => "-"
  | mul => "*"
  | pow => "**"
  | div => "/"
  | floorDiv => "//"
  | mod => "%"

@[inherit_doc UnaryOp.symbol]
def Relation.symbol : Relation → String
  | eq => "=="
  | ne => "!="
  | lt => "<"
  | le => "<="
  | gt => ">"
  | ge => ">="
  | isIn => "in"
  | notIn => "not in"

@[inherit_doc UnaryOp.symbol]
def Connective.symbol : Connective → String
  | and => "and"
  | or => "or"

@[inherit_doc UnaryOp.symbol]
def Operator.symbol : Operator → String
  | arith op => op.symbol
  | relation op => op.symbol

/-- A syntax tree. A chain of comparisons is one node, so that each operand in
the middle is evaluated once. A template is kept as it was written between its
quotes. -/
inductive Expr where
  | number (x : Float)
  | text (content : String)
  | truth (b : Bool)
  | nothing
  | template (raw : String)
  | var (name : String) (column : Nat)
  | list (elements : List Expr)
  | unary (op : UnaryOp) (column : Nat) (operand : Expr)
  | arith (op : ArithOp) (column : Nat) (left right : Expr)
  | comparison (first : Expr) (links : List (Relation × Nat × Expr))
  | logical (op : Connective) (left right : Expr)
  | call (name : String) (column : Nat) (arguments : List Expr)
  | subscript (column : Nat) (container index : Expr)
  deriving Repr, Inhabited

end Offside
