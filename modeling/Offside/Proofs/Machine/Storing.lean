import Mathlib
import Offside.Proofs.Machine.Keeping

/-!
# Lines that do one thing

A line that heads no loop and enters no function runs no other line. There are many places
where it may fail: in what it reads, in its operator, in an index, in the kind of a
container. All of them stand before the one place where the machine is changed, so such a
line changes nothing or does all that it says:

> `line_alone`: a line that runs no other line and fails leaves the machine as it was; and
> an assignment or an append that succeeds changes what one name of the active scope
> stands for, in a list at most one element, or one more at its end.
-/

namespace Offside

open Machine

variable {limits : Limits} {room : Nat} {line : Line} {rest : List Line} {chains : Chains}
  {m m' : Machine} {name : String} {v : Value}

/-! ## One name bound anew -/

/-- The machines differ at most in what one name of the active scope stands for, which is
a given value in the second. -/
structure Machine.Rebound (m m' : Machine) (name : String) (v : Value) : Prop where
  output : m'.output = m.output
  functions : m'.functions = m.functions
  loopDepth : m'.loopDepth = m.loopDepth
  calls : m'.frames.length = m.frames.length
  outer : m'.frames.tail = m.frames.tail
  globals : m.frames ≠ [] → m'.globals = m.globals
  bound : m'.scope.get? name = some v
  others : ∀ other, other ≠ name → m'.scope.get? other = m.scope.get? other

/-- Binding a name changes that name and nothing else. -/
theorem rebound_bind (m : Machine) (name : String) (v : Value) :
    m.Rebound (m.bind name v) name v := by
  have hscope := scope_bind m name v
  have hbound : (m.bind name v).scope.get? name = some v := by
    rw [hscope, Bindings.get?_insert, if_pos rfl]
  have hothers : ∀ other, other ≠ name → (m.bind name v).scope.get? other = m.scope.get? other := by
    intro other hne
    rw [hscope, Bindings.get?_insert, if_neg hne]
  cases hframes : m.frames with
  | nil =>
    have hbind : m.bind name v = { m with globals := m.globals.insert name v } := by
      rw [Machine.bind, hframes]
    rw [hbind] at hbound hothers ⊢
    exact ⟨rfl, rfl, rfl, rfl, rfl, fun hne => absurd hframes hne, hbound, hothers⟩
  | cons frame outer =>
    have hbind : m.bind name v = { m with frames := frame.insert name v :: outer } := by
      rw [Machine.bind, hframes]
    rw [hbind] at hbound hothers ⊢
    exact ⟨rfl, rfl, rfl, by rw [hframes]; rfl, by rw [hframes]; rfl, fun _ => rfl, hbound, hothers⟩

/-- What a target names has become a value: the name stands for it, or for the list that
it stood for with one element, the value, in place of another. -/
inductive Machine.Stored (m m' : Machine) : Target → Value → Prop
  | name {x : String} {v : Value} (hrebound : m.Rebound m' x v) : Stored m m' (.name x) v
  | element {x : String} {index : Text} {i v : Value} {vs : List Value} {p : Nat}
      (hindex : evaluateStrict m.scope index = .ok i)
      (hlist : m.scope.get? x = some (.list vs))
      (hposition : assignedPosition vs.length i = .ok p)
      (hrebound : m.Rebound m' x (.list (vs.set p v))) : Stored m m' (.element x index) v

/-- A value that could be stored is at its target, and nothing else has changed. -/
theorem stored_of_store {target : Target} (h : m.store target v = .ok m') :
    m.Stored m' target v := by
  cases target with
  | name x =>
    cases h
    exact .name (rebound_bind m x v)
  | element x index =>
    rw [store] at h
    split at h
    next => contradiction
    next i hi =>
      split at h
      next => contradiction
      next vs hvs =>
        split at h
        next => contradiction
        next p hp =>
          cases h
          exact .element hi hvs hp (rebound_bind m x _)
      next => contradiction

/-- An assignment that succeeds stores the value that it assigns. -/
theorem stored_of_assign {target : Target} {op : Option ArithOp} {value : Text}
    (h : m.assign target op value = .ok m') :
    ∃ v, m.assignedValue target op value = .ok v ∧ m.Stored m' target v := by
  rw [assign] at h
  split at h
  next => contradiction
  next v hv => exact ⟨v, hv, stored_of_store h⟩

/-- Appending binds the list with one element more. -/
theorem rebound_of_append {list : String} {value : Text} (h : m.append list value = .ok m') :
    ∃ vs, m.scope.get? list = some (.list vs) ∧
      m.Rebound m' list (.list (vs ++ [(evaluate m.scope value).toValue])) := by
  rw [append] at h
  split at h
  next => contradiction
  next vs hvs =>
    cases h
    exact ⟨vs, hvs, rebound_bind m list _⟩
  next => contradiction

/-! ## Lines that run no other line -/

/-- The line runs no other line: it is no loop, and no call that enters a function. -/
def Line.RunsAlone (room : Nat) (m : Machine) (line : Line) : Prop :=
  match classify line.text with
  | .ok (.forEach _ _) => False
  | .ok (.whileHolds _) => False
  | .ok (.call name arguments) => ∀ q, ¬Enters room m name arguments q
  | _ => True

/-- An outcome is no failure, or the machine is as it was. -/
def Outcome.Atomic {α : Type} (m : Machine) (outcome : Outcome α) : Prop :=
  ∀ failure, outcome.2 = .error failure → outcome.1 = m

theorem atomic_of_fst {α : Type} {outcome : Outcome α} (h : outcome.1 = m) : outcome.Atomic m :=
  fun _ _ => h

theorem atomic_ok {α : Type} (a : α) : Outcome.Atomic m (m', .ok a) := nofun

/-- **A line that runs alone** has its whole effect or none. -/
theorem Line.RunsAlone.atomic (h : line.RunsAlone room m) (chains : Chains) (rest : List Line) :
    (m.runLine (context limits room rest) chains line rest).Atomic m := by
  rcases runLine_performs m (context limits room rest) chains line rest with
    ⟨_, hrun⟩ | ⟨failure, _, hrun⟩ | ⟨statement, _, hclass, hperforms⟩
  · rw [hrun]
    exact atomic_of_fst rfl
  · rw [hrun]
    exact atomic_of_fst rfl
  · rw [RunsAlone, hclass] at h
    generalize m.runLine (context limits room rest) chains line rest = outcome at hperforms ⊢
    cases hperforms with
    | fails => exact atomic_of_fst rfl
    | forEach => exact absurd h id
    | whileHolds => exact absurd h id
    | callFails hcall =>
      refine atomic_of_fst ?_
      rw [← call_of_not_enters h line.number]
      exact (congrArg Prod.fst hcall).symm
    -- what is left does not fail
    | _ => exact atomic_ok _

theorem changed_of_after {changed : Except Fault Machine} {next : Next}
    (h : m.after line chains changed = (m', .ok next)) : changed = .ok m' := by
  cases changed with
  | error fault => cases h
  | ok m'' => cases h; rfl

/-- **A line that runs no other line does one thing or nothing.** If it fails, the machine
is as it was. If an assignment succeeds, one name of the active scope stands for a new value,
or for its list with one element replaced; if an append succeeds, for its list with one more
element at the end. Nothing else differs then. -/
theorem line_alone (h : line.RunsAlone room m) (chains : Chains) (rest : List Line) :
    let outcome := m.runLine (context limits room rest) chains line rest
    (∀ m' failure, outcome = (m', .error failure) → m' = m) ∧
    (∀ target op value m' next, classify line.text = .ok (.assign target op value) →
      outcome = (m', .ok next) →
        ∃ v, m.assignedValue target op value = .ok v ∧ m.Stored m' target v) ∧
    (∀ list value m' next, classify line.text = .ok (.append list value) →
      outcome = (m', .ok next) →
        ∃ vs, m.scope.get? list = some (.list vs) ∧
          m.Rebound m' list (.list (vs ++ [(evaluate m.scope value).toValue]))) := by
  refine ⟨?_, ?_, ?_⟩
  · intro m' failure hline
    have hatomic : Outcome.Atomic m (m.runLine (context limits room rest) chains line rest) :=
      h.atomic chains rest
    rw [hline] at hatomic
    exact hatomic failure rfl
  · intro target op value m' next hclass hline
    rw [runLine_of_classify m _ chains rest hclass (by simp) rfl, perform] at hline
    exact stored_of_assign (changed_of_after hline)
  · intro list value m' next hclass hline
    rw [runLine_of_classify m _ chains rest hclass (by simp) rfl, perform] at hline
    exact rebound_of_append (changed_of_after hline)

/-- A list that a failed assignment leaves alone, and an append extends. -/
theorem line_alone_list :
    let m : Machine := { globals := .ofList [("x", .list [.nothing])] }
    let fails : Line := ⟨1, 0, "x += [y]".toList⟩
    let appends : Line := ⟨2, 0, "x.append(y)".toList⟩
    m.runLine (context {} 200 []) {} fails [] =
        (m, .error (.runtime (.runtime (.unbound "y")) 1)) ∧
      (m.runLine (context {} 200 []) {} appends []).1.scope.get? "x" =
        some (.list [.nothing, .text "y"]) := by
  intro m fails appends
  have hfails : classify fails.text = .ok (.assign (.name "x") (some .add) "[y]".toList) := rfl
  have happends : classify appends.text = .ok (.append "x" "y".toList) := rfl
  have halone : fails.RunsAlone 200 m ∧ appends.RunsAlone 200 m := by
    rw [Line.RunsAlone, Line.RunsAlone, hfails, happends]
    exact ⟨trivial, trivial⟩
  constructor
  · have hassign : m.assign (.name "x") (some .add) "[y]".toList =
        .error (.runtime (.unbound "y")) := by cbv
    have hfailed : (m.runLine (context {} 200 []) {} fails []).2 =
        .error (.runtime (.runtime (.unbound "y")) 1) := by
      rw [runLine_of_classify m _ _ _ hfails (by simp) rfl, perform, hassign]
      rfl
    have hsame := (line_alone halone.1 {} []).1 _ _ (Prod.ext rfl hfailed)
    exact Prod.ext hsame hfailed
  · have hlist : m.scope.get? "x" = some (.list [.nothing]) := rfl
    have hvalue : evaluate m.scope "y".toList = .fallback "y".toList := by cbv
    have happend : m.append "x" "y".toList = .ok (m.bind "x" (.list [.nothing, .text "y"])) := by
      rw [append, hvalue]
      rfl
    have hdone : (m.runLine (context {} 200 []) {} appends []).2 = .ok (.goOn {} 0) := by
      rw [runLine_of_classify m _ _ _ happends (by simp) rfl, perform, happend]
      rfl
    obtain ⟨m', hm'⟩ : ∃ m', m.runLine (context {} 200 []) {} appends [] =
        (m', .ok (.goOn {} 0)) := ⟨_, Prod.ext rfl hdone⟩
    obtain ⟨vs, hvs, hrebound⟩ := (line_alone halone.2 {} []).2.2 _ _ m' _ happends hm'
    have hbound := hrebound.bound
    rw [hlist] at hvs
    cases hvs
    rw [hvalue] at hbound
    rw [hm']
    exact hbound

end Offside
