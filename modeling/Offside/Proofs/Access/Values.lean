import Offside.Builtin
import Offside.Machine.Assignment

/-!
# Access to arguments and elements

Calls of builtin functions and subscripts again, with each item looked up by its position.
A builtin function looks at its first argument only after the number of arguments was
checked. A subscript looks an element or a character up at the position that its index was
turned into, and an assignment changes the element there. That position is in range because
a length of up to two to the fifty-third is exact as a double. Main results:
`callAt?_eq`, `subscriptAt?_eq` and `storeAt?_eq`.
-/

namespace Offside.Access

/-! ## Arguments -/

/-- Whether so many arguments are neither too few nor too many. -/
def admits : Arity → Nat → Bool
  | .exactly n, count => count == n
  | .between least most, count => least ≤ count && count ≤ most
  | .atLeast n, count => n ≤ count

/-- What a form does with arguments, whose number is not looked at. -/
def applyAt? : Form → List Value → Option (Except RuntimeFault Value)
  | .one f, arguments => arguments[0]?.map f
  | .upToOne f, arguments => some (f arguments[0]?)
  | .oneOrTwo f, arguments => arguments[0]?.map fun v => f v arguments[1]?
  | .upToThree f, arguments => arguments[0]?.map fun v => f v arguments[1]? arguments[2]?
  | .oneOrMore f, arguments => arguments[0]?.map fun v => f v arguments.tail

/-- Calls a builtin function, after the number of arguments was checked. -/
def callAt? (b : Builtin) (arguments : List Value) : Option (Except RuntimeFault Value) :=
  if admits b.form.arity arguments.length then applyAt? b.form arguments
  else some (.error (.arity b.name b.form.arity arguments.length))

/-- With as many arguments as it admits a builtin never looks for a missing one. -/
theorem applyAt?_eq {form : Form} {arguments : List Value}
    (h : admits form.arity arguments.length = true) :
    ∃ result, form.applyTo? arguments = some result ∧ applyAt? form arguments = some result := by
  cases form <;> match arguments with
    | [] | [v] | [v, w] | [v, w, u] | v :: w :: u :: x :: vs =>
      first
      | exact ⟨_, rfl, rfl⟩
      | cases h

theorem applyTo?_eq_none {form : Form} {arguments : List Value}
    (h : ¬admits form.arity arguments.length = true) : form.applyTo? arguments = none := by
  cases form <;> match arguments with
    | [] | [v] | [v, w] | [v, w, u] | v :: w :: u :: x :: vs =>
      first
      | rfl
      | exact absurd rfl h

/-- **The first argument is there** when a builtin function looks at it. -/
theorem callAt?_eq (b : Builtin) (arguments : List Value) :
    callAt? b arguments = some (b.call arguments) := by
  rw [callAt?, Builtin.call]
  by_cases h : admits b.form.arity arguments.length = true
  · obtain ⟨result, hresult, hat⟩ := applyAt?_eq h
    rw [if_pos h, hresult, hat]
  · rw [if_neg h, applyTo?_eq_none h]

/-! ## Elements -/

/-- How many items a value has that an index may stand for. -/
def itemCount : Value → Nat
  | .list elements => elements.length
  | .text content => content.toList.length
  | _ => 0

/-- The item of a list or the character of a text at an index. -/
def subscriptAt? (container index : Value) : Option (Except RuntimeFault Value) :=
  match container with
  | .list elements =>
    match index.indexInto .list elements.length with
    | .error fault => some (.error fault)
    | .ok p => elements[p]?.map .ok
  | .text content =>
    match index.indexInto .str content.toList.length with
    | .error fault => some (.error fault)
    | .ok p => content.toList[p]?.map fun c => .ok (.text (String.ofList [c]))
  | _ => some (.error (.notSubscriptable container.kind))

/-- A list with another element at a position. -/
def setAt? (elements : List Value) (p : Nat) (value : Value) : Option (List Value) :=
  if p < elements.length then some (elements.set p value) else none

/-- The machine with a value stored where a target says. -/
def storeAt? (m : Machine) (target : Target) (value : Value) : Option (Except Fault Machine) :=
  match target with
  | .name n => some (.ok (m.bind n value))
  | .element n index =>
    match evaluateStrict m.scope index with
    | .error fault => some (.error fault)
    | .ok i =>
      match m.scope.get? n with
      | none => some (.error (.runtime (.unbound n)))
      | some (.list elements) =>
        match Machine.assignedPosition elements.length i with
        | .error fault => some (.error (.runtime fault))
        | .ok p => (setAt? elements p value).map fun elements => .ok (m.bind n (.list elements))
      | some other => some (.error (.runtime (.noItemAssignment other.kind)))

/-- The position of an index is one of an item. -/
theorem lt_of_indexInto {kind : Kind} {length p : Nat} {index : Value} (hlength : length ≤ 1 <<< 53)
    (h : index.indexInto kind length = .ok p) : p < length := by
  cases index with
  | number x =>
    obtain ⟨k, -, ⟨-, hlt⟩ | ⟨hneg, hp⟩⟩ := (position_eq_ok_iff hlength).mp h
    · exact hlt
    · omega
  | _ => cases h

/-- A position that is assigned to is inside the list. -/
theorem lt_of_assignedPosition {length p : Nat} {index : Value} (hlength : length ≤ 1 <<< 53)
    (h : Machine.assignedPosition length index = .ok p) : p < length := by
  rw [Machine.assignedPosition] at h
  split at h
  next => cases h
  next => exact lt_of_indexInto hlength h

/-- **The item at an index is there.** -/
theorem subscriptAt?_eq (container index : Value) (h : itemCount container ≤ 1 <<< 53) :
    subscriptAt? container index = some (container.subscript index) := by
  cases container with
  | list elements =>
    rw [subscriptAt?, Value.subscript]
    cases hp : index.indexInto .list elements.length with
    | error fault => rfl
    | ok p =>
      have hlt : p < elements.length := lt_of_indexInto h hp
      dsimp only
      rw [List.getElem?_eq_getElem hlt]
      rfl
  | text content =>
    rw [subscriptAt?, Value.subscript]
    cases hp : index.indexInto .str content.toList.length with
    | error fault => rfl
    | ok p =>
      have hlt : p < content.toList.length := lt_of_indexInto h hp
      dsimp only
      rw [List.getElem?_eq_getElem hlt]
      rfl
  | _ => rfl

/-- **The element that is assigned is there.** -/
theorem storeAt?_eq (m : Machine) (target : Target) (value : Value)
    (h : ∀ n index elements, target = .element n index → m.scope.get? n = some (.list elements) →
      elements.length ≤ 1 <<< 53) :
    storeAt? m target value = some (m.store target value) := by
  cases target with
  | name n => rfl
  | element n index =>
    rw [storeAt?, Machine.store]
    cases evaluateStrict m.scope index with
    | error fault => rfl
    | ok i =>
      dsimp only
      cases hvalue : m.scope.get? n with
      | none => rfl
      | some v =>
        cases v with
        | list elements =>
          dsimp only
          cases hp : Machine.assignedPosition elements.length i with
          | error fault => rfl
          | ok p =>
            have hlt : p < elements.length :=
              lt_of_assignedPosition (h n index elements rfl hvalue) hp
            dsimp only
            rw [setAt?, if_pos hlt]
            rfl
        | _ => rfl

end Offside.Access
