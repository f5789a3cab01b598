import Offside.Fault
import Offside.Number.Rounding
import Offside.Value.Basic

/-!
# Positions in sequences

An index counts from the front, or from behind where it is negative. It is a
double, and so is the length that it is compared with: lengths beyond two to the
fifty-third are rounded first, and positions have at most 64 bits.
-/

namespace Offside

/-- The position that an index has in a sequence of some length. -/
def position (length : Nat) (index : Float) : Except RuntimeFault Nat :=
  match integer? index with
  | none => .error .fractionalIndex
  | some k =>
    let kept := toDoublePrecision length
    if 0 ≤ k ∧ k < kept then .ok k.toNat
    else if k < 0 ∧ -k ≤ kept then
      .ok (min (toDoublePrecision (kept + k).toNat) (1 <<< 64 - 1))
    else .error .indexOutOfRange

/-- For a sequence of up to two to the fifty-third items a position is that of
an item, and there is one exactly for the integers from minus the length up to
below the length. -/
theorem position_eq_ok_iff {length p : Nat} {index : Float} (h : length ≤ 1 <<< 53) :
    position length index = .ok p ↔
      ∃ k : Int, integer? index = some k ∧
        (k = p ∧ p < length ∨ k < 0 ∧ (p : Int) = length + k) := by
  unfold position
  cases hk : integer? index with
  | none => simp
  | some k =>
    simp only [toDoublePrecision_of_le h, Option.some.injEq, exists_eq_left']
    split
    · simp only [Except.ok.injEq]; omega
    · split
      · rename_i _ hneg
        rw [toDoublePrecision_of_le (by omega)]
        simp only [Except.ok.injEq]; omega
      · simp only [reduceCtorEq, false_iff]; omega

/-- The position that a value has as an index into a value of a kind; only a
number is an index. -/
def Value.indexInto (kind : Kind) (length : Nat) (index : Value) : Except RuntimeFault Nat :=
  match index with
  | .number x => position length x
  | _ => .error (.indexNotNumber kind index.kind)

/-- The item of a list or the character of a text at an index. -/
def Value.subscript (container index : Value) : Except RuntimeFault Value :=
  match container with
  | .list elements =>
    match index.indexInto .list elements.length with
    | .error fault => .error fault
    | .ok p =>
      match elements[p]? with
      | some element => .ok element
      | none => .error .indexOutOfRange
  | .text content =>
    let characters := content.toList
    match index.indexInto .str characters.length with
    | .error fault => .error fault
    | .ok p =>
      match characters[p]? with
      | some c => .ok (.text (String.ofList [c]))
      | none => .error .indexOutOfRange
  | _ => .error (.notSubscriptable container.kind)

end Offside
