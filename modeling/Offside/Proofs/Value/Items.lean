import Offside.Builtin
import Offside.Proofs.Number.Exact
import Offside.Value.Position

/-!
# The items of lists and texts

A list has elements and a text has characters, and either is counted, looked up and gone through
item by item. The count is a double, and so is an index, but below two to the fifty-third both
are what they would be as integers:

> `subscript_eq_ok_iff`: a number stands for an item if it is an integer from minus the number of
> the items up to below it, and then for the one that is so far from the front or from behind.
-/

namespace Offside

variable {v w : Value} {items : List Value} {x : Float} {n p : Nat}

/-- The items of a list or a text in their order: its elements, or its characters as texts. -/
def Value.items? : Value → Option (List Value)
  | list elements => some elements
  | text content => some (content.toList.map fun c => text (String.ofList [c]))
  | _ => none

/-- The builtin function counts the items. -/
theorem Builtin.len_of_items? (h : v.items? = some items) :
    Builtin.len.call [v] = .ok (.number (Float.ofNat items.length)) := by
  cases v with
  | list elements =>
    cases h
    rfl
  | text content =>
    cases h
    rw [List.length_map, String.length_toList]
    rfl
  | _ => cases h

/-- An index is one into the items. -/
theorem Value.subscript_of_items? (h : v.items? = some items) (x : Float) :
    v.subscript (.number x) =
      match position items.length x with
      | .error fault => .error fault
      | .ok p =>
        match items[p]? with
        | some w => .ok w
        | none => .error .indexOutOfRange := by
  cases v with
  | list elements =>
    cases h
    rfl
  | text content =>
    cases h
    rw [List.length_map, subscript, indexInto]
    cases position content.toList.length x with
    | error fault => rfl
    | ok p =>
      dsimp only
      rw [List.getElem?_map]
      cases content.toList[p]? <;> rfl
  | _ => cases h

/-- A position is a place in the sequence, and its index is equal to the place or to the place
less the length. -/
theorem position_eq_ok_iff_beq (hlt : n < 2 ^ 53) :
    position n x = .ok p ↔
      p < n ∧ ((x == Float.ofInt p) = true ∨ (x == Float.ofInt (p - n)) = true) := by
  have hle : n ≤ 1 <<< 53 := Nat.le_of_lt hlt
  rw [position_eq_ok_iff hle]
  constructor
  · rintro ⟨k, hk, ⟨rfl, hp⟩ | ⟨hneg, hp⟩⟩
    · exact ⟨hp, .inl ((beq_ofInt_iff (by omega)).mpr hk)⟩
    · obtain rfl : k = p - n := by omega
      exact ⟨by omega, .inr ((beq_ofInt_iff (by omega)).mpr hk)⟩
  · rintro ⟨hp, hx | hx⟩
    · exact ⟨p, (beq_ofInt_iff (by omega)).mp hx, .inl ⟨rfl, hp⟩⟩
    · exact ⟨p - n, (beq_ofInt_iff (by omega)).mp hx, .inr ⟨by omega, by omega⟩⟩

/-- **An index counts from the front or from behind**, and there is none but those. -/
theorem Value.subscript_eq_ok_iff (hitems : v.items? = some items) (hlt : items.length < 2 ^ 53) :
    v.subscript (.number x) = .ok w ↔
      ∃ p : Nat, items[p]? = some w ∧
        ((x == Float.ofInt p) = true ∨ (x == Float.ofInt (p - items.length)) = true) := by
  rw [subscript_of_items? hitems]
  constructor
  · intro h
    split at h
    next => cases h
    next p hp =>
      split at h
      next hw =>
        cases h
        exact ⟨p, hw, ((position_eq_ok_iff_beq hlt).mp hp).2⟩
      next => cases h
  · rintro ⟨p, hw, hx⟩
    obtain ⟨hp, -⟩ := List.getElem?_eq_some_iff.mp hw
    rw [(position_eq_ok_iff_beq hlt).mpr ⟨hp, hx⟩]
    dsimp only
    rw [hw]

/-- A number is an index if it is equal to an integer from minus the length up to below it. -/
theorem Value.exists_subscript_iff (hitems : v.items? = some items)
    (hlt : items.length < 2 ^ 53) (x : Float) :
    (∃ w, v.subscript (.number x) = .ok w) ↔
      ∃ k : Int, -items.length ≤ k ∧ k < items.length ∧ (x == Float.ofInt k) = true := by
  constructor
  · rintro ⟨w, hw⟩
    obtain ⟨p, hp, hx⟩ := (subscript_eq_ok_iff hitems hlt).mp hw
    obtain ⟨hplace, -⟩ := List.getElem?_eq_some_iff.mp hp
    rcases hx with hx | hx
    · exact ⟨p, by omega, by omega, hx⟩
    · exact ⟨p - items.length, by omega, by omega, hx⟩
  · rintro ⟨k, hlow, hhigh, hx⟩
    by_cases hk : 0 ≤ k
    · obtain ⟨p, rfl⟩ := Int.eq_ofNat_of_zero_le hk
      have hp : p < items.length := by omega
      exact ⟨items[p], (subscript_eq_ok_iff hitems hlt).mpr
        ⟨p, List.getElem?_eq_getElem hp, .inl hx⟩⟩
    · obtain ⟨p, hplace⟩ := Int.eq_ofNat_of_zero_le (by omega : 0 ≤ k + items.length)
      have hp : p < items.length := by omega
      obtain rfl : k = p - items.length := by omega
      exact ⟨items[p], (subscript_eq_ok_iff hitems hlt).mpr
        ⟨p, List.getElem?_eq_getElem hp, .inr hx⟩⟩

/-- An index that is less by the length is one of the same item. -/
theorem Value.subscript_eq_subscript {y : Float} {i : Nat} (hitems : v.items? = some items)
    (hlt : items.length < 2 ^ 53) (hi : i < items.length)
    (hx : (x == Float.ofInt (i - items.length)) = true) (hy : (y == Float.ofInt i) = true) :
    v.subscript (.number x) = v.subscript (.number y) := by
  have hitem : items[i]? = some items[i] := List.getElem?_eq_getElem hi
  rw [(subscript_eq_ok_iff hitems hlt).mpr ⟨i, hitem, .inr hx⟩,
    (subscript_eq_ok_iff hitems hlt).mpr ⟨i, hitem, .inl hy⟩]

theorem Value.subscript_of_not_finite (hitems : v.items? = some items) (hx : x.isFinite = false) :
    v.subscript (.number x) = .error .fractionalIndex := by
  rw [subscript_of_items? hitems, position, integer?_of_not_finite hx]

end Offside
