import Offside.Proofs.Access.Assigning
import Offside.Proofs.Access.Lines
import Offside.Proofs.Access.Parsing
import Offside.Proofs.Access.Placeholders
import Offside.Proofs.Access.Scanner
import Offside.Proofs.Access.Values

/-!
# No access is out of range

Everything that reads by position, together. Each reading is written once more with its
accesses checked, so that it gives nothing if one of them is out of range; here they are all
shown to give what the readings without positions give.

> `accesses_in_range`: characters and tokens at a cursor, lines and their blocks, arguments,
> elements and characters at an index, and slices of text between byte offsets.
-/

namespace Offside.Access

open Text

/-- **No access is out of range.** The tokens need an end mark somewhere, and nothing else
about them matters; what is subscripted may have up to two to the fifty-third items. Blocks
of loops and bodies of functions are lines that are run in turn, with limits, an entry and
chains of their own. -/
theorem accesses_in_range :
    (∀ source : Text, scanByPosition? source = some (scan source)) ∧
    (∀ tokens : List Token, (∃ t ∈ tokens, t.kind = .eof) →
      parseByPosition? tokens = some (parse tokens)) ∧
    (∀ (limits : Limits) (entry : Entry) (chains : Chains) (lines : List Line) (cursor : Nat)
      (m : Machine), runFrom? limits entry chains lines cursor m =
        some (Machine.runLines limits entry chains (lines.drop cursor) m)) ∧
    (∀ (b : Builtin) (arguments : List Value),
      callAt? b arguments = some (b.call arguments)) ∧
    (∀ container index : Value, itemCount container ≤ 1 <<< 53 →
      subscriptAt? container index = some (container.subscript index)) ∧
    (∀ (m : Machine) (target : Target) (value : Value),
      (∀ n index elements, target = .element n index →
        m.scope.get? n = some (.list elements) → elements.length ≤ 1 <<< 53) →
      storeAt? m target value = some (m.store target value)) ∧
    (∀ t : Text,
      bracketed? '[' ']' t = some (t.inside? '[' ']') ∧
      callParts? t = some t.callForm? ∧
      targetParts? t = some (target? t) ∧
      assignmentParts? t = some (LineForm.assign t) ∧
      piecesByOffset? t = some t.pieces ∧
      uncommented? t = some t.stripComment) ∧
    (∀ (scope : Scope) (t : Text), interpolateFrom? scope t = some (t.interpolate scope)) := by
  refine ⟨scanByPosition?_eq, fun tokens => parseByPosition?_eq, runFrom?_eq, callAt?_eq,
    subscriptAt?_eq, storeAt?_eq, fun t => ?_, interpolateFrom?_eq⟩
  exact ⟨bracketed?_eq rfl rfl (by decide) t, callParts?_eq t, targetParts?_eq t,
    assignmentParts?_eq t, piecesByOffset?_eq t, uncommented?_eq t⟩

/-- At tokens with an odd literal and more behind the end mark, at the last of three elements,
and at an element of a bound list that is assigned. -/
theorem accesses_in_range_last :
    let tokens : List Token :=
      [⟨.number, "1", none, 0⟩, ⟨.eof, "", none, 1⟩, ⟨.comma, ",", none, 2⟩]
    let elements : List Value := [.number 1, .truth true, .nothing]
    let m : Machine := ({} : Machine).bind "xs" (.list elements)
    (∃ t ∈ tokens, t.kind = .eof) ∧ itemCount (.list elements) ≤ 1 <<< 53 ∧
      parseByPosition? tokens = some (parse tokens) ∧
      subscriptAt? (.list elements) (.number (-1)) =
        some (Value.subscript (.list elements) (.number (-1))) ∧
      storeAt? m (.element "xs" ['0']) .nothing =
        some (m.store (.element "xs" ['0']) .nothing) := by
  intro tokens elements m
  obtain ⟨-, hparser, -, -, hsubscript, hstore, -⟩ := accesses_in_range
  have hend : ∃ t ∈ tokens, t.kind = .eof :=
    ⟨⟨.eof, "", none, 1⟩, List.mem_cons_of_mem _ List.mem_cons_self, rfl⟩
  have hcount : itemCount (.list elements) ≤ 1 <<< 53 := by
    show 3 ≤ 1 <<< 53
    decide
  refine ⟨hend, hcount, hparser tokens hend, hsubscript _ _ hcount, hstore m _ _ ?_⟩
  intro n index elements' htarget hvalue
  cases htarget
  cases hvalue
  exact hcount

end Offside.Access
