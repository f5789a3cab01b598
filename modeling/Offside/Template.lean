import Offside.Bindings
import Offside.Text.Identifier
import Offside.Text.Lines
import Offside.Value.Printer

/-!
# Templates

A template is text with placeholders. A doubled brace stands for one brace, and
a name in braces for the text of the value that it is bound to; braces around
anything else stand for themselves. What is put in is not read again.
-/

namespace Offside

namespace Text

/-- What a placeholder stands for, given the text between its braces. -/
def placeholder (scope : Scope) (inner : Text) : Text :=
  let name := inner.trim
  match scope.get? (String.ofList name) with
  | some value =>
    if name.isIdentifier then value.display.toList else '\x7b' :: inner ++ ['\x7d']
  | none => '\x7b' :: inner ++ ['\x7d']

/-- The text of a template in a scope. -/
def interpolate (scope : Scope) : Text → Text
  | [] => []
  | '\x7b' :: '\x7b' :: rest => '\x7b' :: interpolate scope rest
  | '\x7d' :: '\x7d' :: rest => '\x7d' :: interpolate scope rest
  | '\x7b' :: rest =>
    match _h : cut? ['\x7d'] rest with
    | some (inner, after) => placeholder scope inner ++ interpolate scope after
    | none => '\x7b' :: rest
  | c :: rest => c :: interpolate scope rest
termination_by t => t.length
decreasing_by
  · simp only [List.length_cons]; omega
  · simp only [List.length_cons]; omega
  · have := length_of_cut? _h
    simp only [List.length_cons, List.length_nil] at this ⊢
    omega
  · simp

end Text

end Offside
