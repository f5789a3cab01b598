import Offside.Expr.Eval
import Offside.Text.Pieces

/-!
# Evaluation that degrades to text

A text that cannot be evaluated does not stop a program where a value is only
stored or shown: it stands for itself. In a list that is written out each
element degrades by itself, so that one bad element leaves the others alone.

Some texts are evaluated without being parsed as a whole: one string literal, a
constant, a bound name, a range, and a list in brackets.
-/

namespace Offside

/-- What evaluating a text gives: a value, or the text that takes its place. -/
inductive Evaluation where
  | value (v : Value)
  | fallback (t : Text)
  deriving Repr, Inhabited

/-- The value of an evaluation, with a text for what could not be evaluated. -/
def Evaluation.toValue : Evaluation → Value
  | value v => v
  | fallback t => .text (String.ofList t)

namespace Text

/-- The only token of a text. -/
def onlyToken? (t : Text) : Option Token :=
  match scan t with
  | .ok [token, _] => some token
  | _ => none

/-- The raw body of a template, when the whole text is one template. -/
def templateBody? (t : Text) : Option Text :=
  match t.onlyToken? with
  | some ⟨.template, _, some (.text raw), _⟩ => some raw.toList
  | _ => none

/-- The value of a string literal or a template, when the whole text is one. -/
def stringValue? (scope : Scope) (t : Text) : Option Value :=
  match t.onlyToken? with
  | some ⟨.string, _, some (.text content), _⟩ => some (.text content)
  | some ⟨.template, _, some (.text raw), _⟩ =>
    some (.text (String.ofList (interpolate scope (unescape raw.toList))))
  | _ => none

/-- The constant that a text is the word for. -/
def constant? (t : Text) : Option Value :=
  if t == "True".toList then some (.truth true)
  else if t == "False".toList then some (.truth false)
  else if t == "None".toList then some .nothing
  else none

/-- The value that a text is bound to, when it is an identifier. -/
def boundValue? (scope : Scope) (t : Text) : Option Value :=
  if t.isIdentifier then scope.get? (String.ofList t) else none

/-- The arguments of a call of `range`, when the text has that form. -/
def rangeArguments? (t : Text) : Option Text :=
  match t.callForm? with
  | some (name, arguments) => if name == "range".toList then some arguments else none
  | none => none

end Text

/-- The values of texts from the front, up to the first fault. -/
def evaluateEach (scope : Scope) : List Text → Except Fault (List Value)
  | [] => .ok []
  | t :: ts =>
    match evaluateStrict scope t with
    | .error fault => .error fault
    | .ok v =>
      match evaluateEach scope ts with
      | .error fault => .error fault
      | .ok vs => .ok (v :: vs)

/-- A range whose arguments are evaluated one by one. -/
def evaluateRange (scope : Scope) (arguments : Text) : Except Fault Value :=
  match evaluateEach scope arguments.pieces with
  | .error fault => .error fault
  | .ok vs =>
    match Builtin.range.call vs with
    | .error fault => .error (.runtime fault)
    | .ok v => .ok v

/-- The value of a text, or the text for what cannot be evaluated. -/
def evaluate (scope : Scope) (t : Text) : Evaluation :=
  let whole := t.trim
  match whole.stringValue? scope with
  | some v => .value v
  | none =>
    match whole.constant? with
    | some v => .value v
    | none =>
      match whole.boundValue? scope with
      | some v => .value v
      | none =>
        match whole.rangeArguments? with
        | some arguments =>
          match evaluateRange scope arguments with
          | .ok v => .value v
          | .error _ => .fallback whole
        | none =>
          match _h : whole.inside? '[' ']' with
          | some inner =>
            .value (.list (inner.pieces.attach.map fun ⟨piece, _⟩ => (evaluate scope piece).toValue))
          | none =>
            match evaluateStrict scope whole with
            | .ok v => .value v
            | .error _ => .fallback whole
termination_by t.length
decreasing_by
  have := Text.length_inside?_lt _h
  have := Text.length_le_of_mem_pieces ‹piece ∈ inner.pieces›
  have : whole.length ≤ t.length := Text.length_trim_le t
  omega

/-- The text that one argument of a print shows. -/
def shownArgument (scope : Scope) (t : Text) : String :=
  match t.templateBody? with
  | some body => String.ofList (Text.interpolate scope (Text.unescape body))
  | none => (evaluate scope t).toValue.display

/-- The line that printing some arguments shows. -/
def printedLine (scope : Scope) (arguments : Text) : String :=
  " ".intercalate (arguments.pieces.map (shownArgument scope))

end Offside
