import Offside.Program.Statement
import Offside.Text.Lines
import Offside.Text.Pieces

/-!
# From lines to statements

A line is tried against the forms of statements in a fixed order; the first form
that it has decides, also where the line then turns out to be faulty. A line of
no form is kept as unrecognized.

A form is a function from the text of a line that gives nothing when the line
does not have it, and otherwise the statement or what is wrong with it.
-/

namespace Offside

/-- A way to recognize lines. -/
abbrev LineForm := Text → Option (Except SyntaxFault Statement)

namespace Text

/-- The trimmed text after a keyword that the text starts with as a whole word. -/
def afterKeyword? (keyword : String) (t : Text) : Option Text :=
  match keyword.toList.isPrefixOf? t with
  | none => none
  | some [] => some []
  | some (c :: cs) => if continuesWord c then none else some (trim (c :: cs))

/-- The text before a final colon. -/
def beforeColon? (t : Text) : Option Text :=
  (List.isSuffixOf? [':'] t).map trim

/-- The text between a keyword and the colon that has to end the line. -/
def header? (keyword : String) (t : Text) : Option (Except SyntaxFault Text) :=
  (t.afterKeyword? keyword).map fun rest =>
    match rest.beforeColon? with
    | some body => .ok body
    | none => .error (.noColon keyword)

/-- Whether an equals sign after this character is the end of a comparison. -/
def endsComparison (previous : Option Char) : Bool :=
  previous == some '!' || previous == some '<' || previous == some '>'

/-- The text before and after the first assignment sign: an equals sign outside
quotes and brackets that is no half of a comparison. The reading stands at `s`,
after the character `previous`; `paired` holds if that was the first of two
equals signs that belong together. -/
def cutAtAssignment? (s : Nesting) (previous : Option Char) (paired : Bool) :
    Text → Option (Text × Text)
  | [] => none
  | c :: cs =>
    let sign := c == '=' && s.level c == some 0 && !paired
    let pair := sign && cs.head? == some '='
    if sign && !pair && !endsComparison previous then some ([], cs)
    else
      (cutAtAssignment? (s.next c) (some c) pair cs).map
        fun (before, after) => (c :: before, after)

/-- The operators an assignment sign may follow, in the order in which they are
looked for. -/
def assignmentOperators : List ArithOp :=
  [.floorDiv, .pow, .add, .sub, .mul, .div, .mod]

/-- A text without the operator at its end, and the operator. -/
def cutOperator (t : Text) : Text × Option ArithOp :=
  (assignmentOperators.findSome? fun op =>
    (op.symbol.toList.isSuffixOf? t).map fun before => (before, some op)).getD (t, none)

/-- What a text before an assignment sign names. -/
def target? (t : Text) : Option Target :=
  if t.isIdentifier then some (.name (String.ofList t))
  else
    let name := trim (t.takeWhile (· != '['))
    if name.isIdentifier then
      (inside? '[' ']' (t.dropWhile (· != '['))).map fun index =>
        .element (String.ofList name) index.trim
    else none

/-- A parameter name. -/
def parameter (t : Text) : Except SyntaxFault String :=
  if t.isIdentifier then .ok (String.ofList t)
  else if t.contains '=' then .error .defaultValue
  else .error (.badParameter (String.ofList t))

/-- Parameter names from the front, up to the first fault. -/
def parameters : List Text → Except SyntaxFault (List String)
  | [] => .ok []
  | t :: ts =>
    match parameter t with
    | .error fault => .error fault
    | .ok p =>
      match parameters ts with
      | .error fault => .error fault
      | .ok ps => .ok (p :: ps)

end Text

namespace LineForm

/-- Printing some arguments. -/
def print : LineForm := fun t =>
  match t.callForm? with
  | some (name, arguments) => if name == "print".toList then some (.ok (.print arguments)) else none
  | none => none

/-- The head of a function definition. -/
def define : LineForm := fun t =>
  (t.afterKeyword? "def").map fun rest =>
    match rest.beforeColon? with
    | none => .error .noColonAfterSignature
    | some signature =>
      match signature.callForm? with
      | none => .error .badSignature
      | some (name, parameters) =>
        match Text.parameters parameters.pieces with
        | .error fault => .error fault
        | .ok ps => .ok (.define (String.ofList name) ps)

/-- An assignment, plain or with an operator. -/
def assign : LineForm := fun t =>
  match t.cutAtAssignment? Nesting.start none false with
  | none => none
  | some (before, after) =>
    let (left, op) := before.cutOperator
    match Text.target? left.trim with
    | none => none
    | some target =>
      let value := after.trim
      if value.isEmpty then some (.error .noValue) else some (.ok (.assign target op value))

/-- A header that needs a condition. -/
def conditional (keyword : String) (build : Text → Statement) : LineForm := fun t =>
  (t.header? keyword).map fun
    | .error fault => .error fault
    | .ok condition =>
      if condition.isEmpty then .error (.noCondition keyword) else .ok (build condition)

/-- The header of a last branch. -/
def otherwise : LineForm := fun t =>
  (t.header? "else").map fun
    | .error fault => .error fault
    | .ok rest => if rest.isEmpty then .ok .otherwise else .error .elseWithCondition

/-- The header of a loop over elements. -/
def forEach : LineForm := fun t =>
  (t.header? "for").map fun
    | .error fault => .error fault
    | .ok rest =>
      match Text.cut? " in ".toList rest with
      | none => .error .noIn
      | some (before, after) =>
        let loopVariable := before.trim
        let iterable := after.trim
        if !loopVariable.isIdentifier then .error (.badLoopVariable (String.ofList loopVariable))
        else if iterable.isEmpty then .error .noIterable
        else .ok (.forEach (String.ofList loopVariable) iterable)

/-- A call. -/
def call : LineForm := fun t =>
  t.callForm?.map fun (name, arguments) => .ok (.call (String.ofList name) arguments)

/-- Leaving a function, with or without a value. -/
def leave : LineForm := fun t =>
  (t.afterKeyword? "return").map fun rest =>
    .ok (.leave (if rest.isEmpty then none else some rest))

/-- A statement of one word. -/
def word : LineForm := fun t =>
  if t == "break".toList then some (.ok .breakLoop)
  else if t == "continue".toList then some (.ok .continueLoop)
  else if t == "pass".toList then some (.ok .pass)
  else none

/-- Appending to a list. -/
def append : LineForm := fun t =>
  match Text.cut? ['.'] t with
  | none => none
  | some (before, after) =>
    let list := before.trim
    if list.isIdentifier then
      match after.trim.callForm? with
      | some (name, value) =>
        if name == "append".toList then some (.ok (.append (String.ofList list) value.trim))
        else none
      | none => none
    else none

/-- The forms in the order in which they are tried. -/
def all : List LineForm :=
  [print, define, assign, conditional "if" .ifHolds, otherwise, conditional "elif" .elseIf,
    forEach, conditional "while" .whileHolds, call, leave, word, append]

end LineForm

/-- The statement on a line that is trimmed and not blank. -/
def classify (t : Text) : Except SyntaxFault Statement :=
  (LineForm.all.findSome? fun form => form t).getD (.ok .unrecognized)

end Offside
