import Offside.Fault
import Offside.Token.Lexer

/-!
# From tokens to trees

Expressions by precedence, from the loosest level to the tightest:

* `or`, then `and`, each a chain that groups to the left;
* `not` in front of an operand;
* one chain of comparisons, kept flat;
* sums, then products, each a chain that groups to the left;
* a sign in front of an operand;
* a power, whose exponent may carry a sign and a power of its own;
* trailers: calls and subscripts after an operand, where only a name is called;
* primaries: constants, names, brackets and lists.

The parser reads a level from the front of the tokens and gives back what is
left, which is shorter than what it was given; that is why it ends. The tokens
hold no end mark: `stop` is the mark that follows them, and is named in messages
where a token is missing.
-/

namespace Offside

/-- The levels at which operands are joined to the left. -/
inductive Join where
  | or
  | and
  | sum
  | product
  deriving Repr, DecidableEq

/-- The levels of precedence. -/
inductive Level where
  | joined (join : Join)
  | not
  | comparison
  | signed
  | power
  | trailed
  | primary
  deriving Repr, DecidableEq

/-- How many levels are tighter. -/
def Level.rank : Level → Nat
  | primary => 0
  | trailed => 1
  | power => 2
  | signed => 3
  | joined .product => 4
  | joined .sum => 5
  | comparison => 6
  | not => 7
  | joined .and => 8
  | joined .or => 9

/-- There are ten ranks. -/
theorem Level.rank_lt (level : Level) : level.rank < 10 := by
  cases level with
  | joined join => cases join <;> decide
  | _ => decide

/-- The level of the operands that are joined. -/
def Join.operand : Join → Level
  | or => .joined .and
  | and => .not
  | sum => .joined .product
  | product => .signed

/-- The operands of a level are of a tighter one. -/
theorem Join.rank_operand_lt (j : Join) : j.operand.rank < (Level.joined j).rank := by
  cases j <;> decide

/-- What a token joins two operands to, at a level. -/
def Join.build? (j : Join) (t : Token) : Option (Expr → Expr → Expr) :=
  match j, t.kind with
  | or, .orWord => some (.logical .or)
  | and, .andWord => some (.logical .and)
  | sum, .plus => some (.arith .add t.column)
  | sum, .minus => some (.arith .sub t.column)
  | product, .star => some (.arith .mul t.column)
  | product, .slash => some (.arith .div t.column)
  | product, .slashSlash => some (.arith .floorDiv t.column)
  | product, .percent => some (.arith .mod t.column)
  | _, _ => none

/-- The comparison that the first tokens stand for, and the tokens after it. -/
def relation? : List Token → Option (Relation × Nat × List Token)
  | [] => none
  | t :: rest =>
    match t.kind with
    | .equalEqual => some (.eq, t.column, rest)
    | .bangEqual => some (.ne, t.column, rest)
    | .less => some (.lt, t.column, rest)
    | .lessEqual => some (.le, t.column, rest)
    | .greater => some (.gt, t.column, rest)
    | .greaterEqual => some (.ge, t.column, rest)
    | .inWord => some (.isIn, t.column, rest)
    | .notWord =>
      match rest with
      | [] => none
      | u :: rest => if u.kind = .inWord then some (.notIn, t.column, rest) else none
    | _ => none

/-- A relation takes a token at least. -/
theorem length_lt_of_relation? {ts rest : List Token} {op : Relation} {column : Nat}
    (h : relation? ts = some (op, column, rest)) : rest.length < ts.length := by
  unfold relation? at h
  grind

/-- The sign that a token stands for. -/
def sign? (t : Token) : Option UnaryOp :=
  match t.kind with
  | .plus => some .plus
  | .minus => some .minus
  | _ => none

/-- The expression that one token is by itself. A token that lacks what its kind
promises is out of place. -/
def atom (t : Token) : Except ParseFault Expr :=
  match t.kind, t.literal with
  | .trueWord, _ => .ok (.truth true)
  | .falseWord, _ => .ok (.truth false)
  | .noneWord, _ => .ok .nothing
  | .number, some (.number x) => .ok (.number x)
  | .string, some (.text s) => .ok (.text s)
  | .template, some (.text s) => .ok (.template s)
  | .identifier, some (.name s) => .ok (.var s t.column)
  | .number, _ => .error (.unexpected t.kind t.column)
  | .string, _ => .error (.unexpected t.kind t.column)
  | .template, _ => .error (.unexpected t.kind t.column)
  | .identifier, _ => .error (.unexpected t.kind t.column)
  | _, _ => .error (.noOperand t.kind t.column)

/-- Something read from the front of some tokens: what was read, and fewer than
`bound` tokens that are left. -/
structure Read (α : Type) (bound : Nat) where
  value : α
  rest : List Token
  short : rest.length < bound

/-- The fault of a missing closing token, in front of the tokens that are there. -/
def unclosed (stop : Token) (closing : Closing) (ts : List Token) : ParseFault :=
  let found := ts.headD stop
  .unclosed closing found.kind found.column

mutual

/-- Reads an expression of a level. -/
def parseAt (stop : Token) (level : Level) (ts : List Token) :
    Except ParseFault (Read Expr ts.length) :=
  match level with
  | .joined join =>
    have := join.rank_operand_lt
    match parseAt stop join.operand ts with
    | .error fault => .error fault
    | .ok ⟨left, rest, _⟩ =>
      match joinOnto stop join left rest with
      | .error fault => .error fault
      | .ok ⟨e, rest', _⟩ => .ok ⟨e, rest', by omega⟩
  | .not =>
    match ts with
    | [] => parseAt stop .comparison []
    | t :: rest =>
      if t.kind = .notWord then
        match parseAt stop .not rest with
        | .error fault => .error fault
        | .ok ⟨operand, rest', _⟩ =>
          .ok ⟨.unary .not t.column operand, rest', by simp only [List.length_cons]; omega⟩
      else parseAt stop .comparison (t :: rest)
  | .comparison =>
    match parseAt stop (.joined .sum) ts with
    | .error fault => .error fault
    | .ok ⟨first, rest, _⟩ =>
      match comparisons stop rest with
      | .error fault => .error fault
      | .ok ⟨[], rest', _⟩ => .ok ⟨first, rest', by omega⟩
      | .ok ⟨link :: links, rest', _⟩ => .ok ⟨.comparison first (link :: links), rest', by omega⟩
  | .signed =>
    match ts with
    | [] => parseAt stop .power []
    | t :: rest =>
      match sign? t with
      | some op =>
        match parseAt stop .signed rest with
        | .error fault => .error fault
        | .ok ⟨operand, rest', _⟩ =>
          .ok ⟨.unary op t.column operand, rest', by simp only [List.length_cons]; omega⟩
      | none => parseAt stop .power (t :: rest)
  | .power =>
    match parseAt stop .trailed ts with
    | .error fault => .error fault
    | .ok ⟨base, [], h⟩ => .ok ⟨base, [], h⟩
    | .ok ⟨base, t :: rest, h⟩ =>
      if t.kind = .starStar then
        have : rest.length < ts.length := by simp only [List.length_cons] at h; omega
        match parseAt stop .signed rest with
        | .error fault => .error fault
        | .ok ⟨exponent, rest', _⟩ => .ok ⟨.arith .pow t.column base exponent, rest', by omega⟩
      else .ok ⟨base, t :: rest, h⟩
  | .trailed =>
    match parseAt stop .primary ts with
    | .error fault => .error fault
    | .ok ⟨operand, rest, _⟩ =>
      match trailers stop operand rest with
      | .error fault => .error fault
      | .ok ⟨e, rest', _⟩ => .ok ⟨e, rest', by omega⟩
  | .primary =>
    match ts with
    | [] => .error (.noOperand stop.kind stop.column)
    | t :: rest =>
      if t.kind = .leftParen then
        match parseAt stop (.joined .or) rest with
        | .error fault => .error fault
        | .ok ⟨e, [], _⟩ => .error (unclosed stop .group [])
        | .ok ⟨e, u :: rest', h⟩ =>
          if u.kind = .rightParen then
            .ok ⟨e, rest', by simp only [List.length_cons] at h ⊢; omega⟩
          else .error (unclosed stop .group (u :: rest'))
      else if t.kind = .leftBracket then
        match sequence stop .list rest with
        | .error fault => .error fault
        | .ok ⟨elements, rest', _⟩ =>
          .ok ⟨.list elements, rest', by simp only [List.length_cons]; omega⟩
      else
        match atom t with
        | .error fault => .error fault
        | .ok e => .ok ⟨e, rest, by simp⟩
termination_by ts.length * 16 + level.rank
decreasing_by all_goals simp_all [Level.rank] <;> omega

/-- Joins further operands of a level to what was read. -/
def joinOnto (stop : Token) (join : Join) (left : Expr) (ts : List Token) :
    Except ParseFault (Read Expr (ts.length + 1)) :=
  match ts with
  | [] => .ok ⟨left, [], by simp⟩
  | t :: rest =>
    match join.build? t with
    | none => .ok ⟨left, t :: rest, by simp⟩
    | some build =>
      match parseAt stop join.operand rest with
      | .error fault => .error fault
      | .ok ⟨right, rest', _⟩ =>
        match joinOnto stop join (build left right) rest' with
        | .error fault => .error fault
        | .ok ⟨e, rest'', _⟩ => .ok ⟨e, rest'', by simp only [List.length_cons]; omega⟩
termination_by ts.length * 16 + 10
decreasing_by
  all_goals have := join.operand.rank_lt
  all_goals simp_all; omega

/-- Reads the comparisons that go on a chain. -/
def comparisons (stop : Token) (ts : List Token) :
    Except ParseFault (Read (List (Relation × Nat × Expr)) (ts.length + 1)) :=
  match h : relation? ts with
  | none => .ok ⟨[], ts, by simp⟩
  | some (op, column, rest) =>
    have := length_lt_of_relation? h
    match parseAt stop (.joined .sum) rest with
    | .error fault => .error fault
    | .ok ⟨operand, rest', _⟩ =>
      match comparisons stop rest' with
      | .error fault => .error fault
      | .ok ⟨links, rest'', _⟩ => .ok ⟨(op, column, operand) :: links, rest'', by omega⟩
termination_by ts.length * 16 + 10
decreasing_by all_goals simp_all [Level.rank]; omega

/-- Adds further calls and subscripts to an operand. -/
def trailers (stop : Token) (operand : Expr) (ts : List Token) :
    Except ParseFault (Read Expr (ts.length + 1)) :=
  match ts with
  | [] => .ok ⟨operand, [], by simp⟩
  | t :: rest =>
    if t.kind = .leftParen then
      match operand with
      | .var name column =>
        match sequence stop .arguments rest with
        | .error fault => .error fault
        | .ok ⟨arguments, rest', _⟩ =>
          match trailers stop (.call name column arguments) rest' with
          | .error fault => .error fault
          | .ok ⟨e, rest'', _⟩ => .ok ⟨e, rest'', by simp only [List.length_cons]; omega⟩
      | _ => .error (.notNamed t.column)
    else if t.kind = .leftBracket then
      match parseAt stop (.joined .or) rest with
      | .error fault => .error fault
      | .ok ⟨_, [], _⟩ => .error (unclosed stop .index [])
      | .ok ⟨index, u :: rest', h⟩ =>
        if u.kind = .rightBracket then
          have : rest'.length < rest.length := by simp only [List.length_cons] at h; omega
          match trailers stop (.subscript t.column operand index) rest' with
          | .error fault => .error fault
          | .ok ⟨e, rest'', _⟩ => .ok ⟨e, rest'', by simp only [List.length_cons]; omega⟩
        else .error (unclosed stop .index (u :: rest'))
    else .ok ⟨operand, t :: rest, by simp⟩
termination_by ts.length * 16 + 10
decreasing_by all_goals simp_all [Level.rank] <;> omega

/-- Reads expressions between commas up to the closing token, which is taken
along; a comma may stand before it. -/
def sequence (stop : Token) (closing : Closing) (ts : List Token) :
    Except ParseFault (Read (List Expr) ts.length) :=
  if h : ts.head?.any (·.kind == closing.kind) then
    .ok ⟨[], ts.tail, by cases ts <;> simp_all⟩
  else
    match parseAt stop (.joined .or) ts with
    | .error fault => .error fault
    | .ok ⟨_, [], _⟩ => .error (unclosed stop closing [])
    | .ok ⟨e, t :: rest, h⟩ =>
      have : rest.length < ts.length := by simp only [List.length_cons] at h; omega
      if t.kind = .comma then
        match sequence stop closing rest with
        | .error fault => .error fault
        | .ok ⟨es, rest', _⟩ => .ok ⟨e :: es, rest', by omega⟩
      else if t.kind = closing.kind then .ok ⟨[e], rest, this⟩
      else .error (unclosed stop closing (t :: rest))
termination_by ts.length * 16 + 11
decreasing_by all_goals simp_all [Level.rank]

end

/-- The expression that tokens without an end mark form, with the mark `stop`
after them. -/
def parseBefore (stop : Token) (ts : List Token) : Except ParseFault Expr :=
  match parseAt stop (.joined .or) ts with
  | .error fault => .error fault
  | .ok ⟨e, [], _⟩ => .ok e
  | .ok ⟨_, t :: _, _⟩ => .error (.unexpected t.kind t.column)

/-- The expression that tokens form up to the first end mark. Without an end
mark they form none, and where nothing was wrong before their end, that is what
is wrong. -/
def parse (ts : List Token) : Except ParseFault Expr :=
  let body := ts.takeWhile (·.kind != .eof)
  match ts.dropWhile (·.kind != .eof) with
  | stop :: _ => parseBefore stop body
  | [] =>
    match parseBefore ⟨.eof, "", none, 0⟩ body with
    | .ok _ => .error .noEnd
    | .error fault => .error (if fault.isAtEnd then .noEnd else fault)

/-- The expression that a text is. -/
def parseText (t : Text) : Except Fault Expr :=
  match scan t with
  | .error fault => .error (.lexical fault)
  | .ok tokens =>
    match parse tokens with
    | .error fault => .error (.parse fault)
    | .ok e => .ok e

end Offside
