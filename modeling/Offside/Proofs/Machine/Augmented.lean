import Offside.Proofs.Machine.Storing
import Offside.Proofs.Program.Targets
import Offside.Proofs.Program.Writing

/-!
# Assigning with an operator

An assignment with an operator reads its target from a text of its own, evaluates the text
behind the sign, and computes. It could as well evaluate one text, the target and the
operator in front of the value in brackets:

> `assign_desugars`: the value is that of the one text, with the same fault if there is none;
> and the value is stored where the target was read.
-/

namespace Offside

open Text Machine

variable {column : Nat} {t value : Text} {ts us : List Token} {e tree left right : Expr}
  {scope : Scope} {m m' : Machine} {op : ArithOp} {target : Target} {fault : Fault} {v : Value}

/-! ## The operator between its operands -/

/-- The token of an operator. -/
def ArithOp.kind : ArithOp → TokenKind
  | add => .plus
  | sub => .minus
  | mul => .star
  | pow => .starStar
  | div => .slash
  | floorDiv => .slashSlash
  | mod => .percent

/-- An operator between operands with trailers is an expression. -/
theorem derives_arith {t : Token} (ht : t.kind = op.kind) (hleft : Derives .trailed ts left)
    (hright : Derives .trailed us right) :
    Derives (.joined .or) (ts ++ t :: us) (.arith op t.column left right) := by
  have hleft' : Derives .signed ts left := .unsigned (.base hleft)
  have hright' : Derives .signed us right := .unsigned (.base hright)
  have hsum {e : Expr} (h : Derives (.joined .sum) (ts ++ t :: us) e) :
      Derives (.joined .or) (ts ++ t :: us) e := .operand (.operand (.compared (.single h)))
  cases op with
  | add => exact hsum (.join (.operand (.operand hleft')) (.add ht) (.operand hright'))
  | sub => exact hsum (.join (.operand (.operand hleft')) (.sub ht) (.operand hright'))
  | mul => exact hsum (.operand (.join (.operand hleft') (.mul ht) hright'))
  | div => exact hsum (.operand (.join (.operand hleft') (.div ht) hright'))
  | floorDiv => exact hsum (.operand (.join (.operand hleft') (.floorDiv ht) hright'))
  | mod => exact hsum (.operand (.join (.operand hleft') (.mod ht) hright'))
  | pow => exact hsum (.operand (.operand (.unsigned (.power hleft ht hright'))))

/-- In front of a space an operator is one token. -/
theorem scans_operator (op : ArithOp)
    (h : Scans (column + op.symbol.toList.length) (' ' :: t) ts) :
    ∃ lexeme,
      Scans column (op.symbol.toList ++ ' ' :: t) (⟨op.kind, lexeme, none, column⟩ :: ts) := by
  have hlexeme : ∃ c cs, op.symbol.toList = c :: cs ∧
      lexeme c (cs ++ ' ' :: t) = .ok (.token op.kind none cs.length) := by
    cases op <;> exact ⟨_, _, rfl, rfl⟩
  obtain ⟨c, cs, hsymbol, hlexeme⟩ := hlexeme
  rw [hsymbol] at h ⊢
  exact ⟨_, .token hlexeme (h.cast (by rw [List.length_cons]; omega))⟩

/-- The text that applies an operator to a target and a value. -/
def Target.applied (target : Target) (op : ArithOp) (value : Text) : Text :=
  target.text ++ ' ' :: (op.symbol.toList ++ ' ' :: value.parenthesized)

/-- What stands behind the target is an operator and an operand. -/
theorem scans_operand (op : ArithOp) (h : parseText value = .ok tree) (column : Nat) :
    ∃ t us f, Scans column (' ' :: (op.symbol.toList ++ ' ' :: value.parenthesized)) (t :: us) ∧
      t.kind = op.kind ∧ Derives .trailed us (tree.recolumn f) := by
  obtain ⟨ts, hts, he⟩ := parseText_eq_ok_iff.mp h
  obtain ⟨f, hmoved⟩ := hts.move (column + 1 + op.symbol.toList.length + 1 + 1)
  have hopening : TokenKind.leftParen.mark? = some '(' := rfl
  have hclosing : TokenKind.rightParen.mark? = some ')' := rfl
  have hinside := hmoved.append (delimited_cons rfl) (.of_mark hclosing .done)
  obtain ⟨lexeme, hscans⟩ := scans_operator op (.space rfl (.of_mark hopening hinside))
  exact ⟨_, _, f, .space rfl hscans, rfl, .bare (.group rfl (he.recolumn f) rfl)⟩

/-! ## The value -/

theorem evaluateStrict_of_parseText (h : parseText t = .ok e) (scope : Scope) :
    evaluateStrict scope t = (e.eval scope).mapError .runtime := by
  unfold evaluateStrict
  rw [h]
  dsimp only
  cases e.eval scope <;> rfl

theorem evaluateStrict_of_parseText_error (h : parseText t = .error fault) (scope : Scope) :
    evaluateStrict scope t = .error fault := by
  unfold evaluateStrict
  rw [h]

/-- The value of an assignment with an operator is that of the target, the operator and the
value in brackets as one text. -/
theorem assignedValue_eq (m : Machine) (htarget : target.Named) (op : ArithOp)
    (hvalue : parseText value = .ok tree) :
    m.assignedValue target (some op) value = evaluateStrict m.scope (target.applied op value) := by
  obtain ⟨t, us, f, hscans, ht, hus⟩ := scans_operand op hvalue target.text.length
  rw [assignedValue]
  rcases reads_or_stuck htarget with ⟨ts, e, hts, he, -⟩ | ⟨fault, hstuck⟩
  · have hwhole : parseText (target.applied op value) =
        .ok (.arith op t.column e (tree.recolumn f)) := by
      refine parseText_eq_ok_iff.mpr ⟨ts ++ t :: us, hts.append (delimited_cons rfl) ?_,
        derives_arith ht he hus⟩
      exact hscans.cast (Nat.zero_add _).symm
    have htext : parseText target.text = .ok e :=
      parseText_eq_ok_iff.mpr ⟨ts, hts, he.expression⟩
    rw [evaluateStrict_of_parseText hwhole, evaluateStrict_of_parseText htext,
      evaluateStrict_of_parseText hvalue, Expr.eval, Expr.eval_recolumn]
    cases e.eval m.scope with
    | error fault => rfl
    | ok current =>
      cases tree.eval m.scope with
      | error fault => rfl
      | ok operand =>
        dsimp only [Except.mapError]
        cases op.apply current operand <;> rfl
  · have hwhole : parseText (target.applied op value) = .error fault := by
      refine hstuck _ _ (delimited_cons rfl) hscans ?_
      rw [List.head?_cons, Option.map_some, ht]
      cases op <;> decide
    rw [evaluateStrict_of_parseText_error hwhole,
      evaluateStrict_of_parseText_error hstuck.parseText_eq]

/-! ## The place -/

/-- In each list of the length, the index selects the element at the position. -/
def Value.Selects (index : Value) (length position : Nat) : Prop :=
  ∀ elements : List Value, elements.length = length →
    ∃ element, elements[position]? = some element ∧
      (Value.list elements).subscript index = .ok element

/-- What a target names has become a value: the name stands for it, or for its list with the
value in the place of the element that the text of the target reads, which is the one that the
index selects. -/
inductive Machine.Updated (m m' : Machine) : Target → Value → Prop
  | name {x : String} {v : Value} (hrebound : m.Rebound m' x v) : Updated m m' (.name x) v
  | element {x : String} {index : Text} {i current v : Value} {vs : List Value} {p : Nat}
    (hlist : m.scope.get? x = some (.list vs)) (hindex : evaluateStrict m.scope index = .ok i)
    (hread : evaluateStrict m.scope (Target.element x index).text = .ok current)
    (hsubscript : (Value.list vs).subscript i = .ok current) (hselects : i.Selects vs.length p)
    (hrebound : m.Rebound m' x (.list (vs.set p v))) : Updated m m' (.element x index) v

theorem evaluated_of_assignedValue (h : m.assignedValue target (some op) value = .ok v) :
    ∃ current, evaluateStrict m.scope target.text = .ok current := by
  rw [assignedValue] at h
  split at h
  next => contradiction
  next current hcurrent => exact ⟨current, hcurrent⟩

theorem selects_of_subscript {vs : List Value} {i current : Value} {p : Nat}
    (h : (Value.list vs).subscript i = .ok current)
    (hposition : assignedPosition vs.length i = .ok p) : i.Selects vs.length p := by
  -- an assignment has its own message for an index out of range, and no other difference
  have hindex : i.indexInto .list vs.length = .ok p := by
    unfold assignedPosition at hposition
    split at hposition
    next => cases hposition
    next => exact hposition
  have hlength : p < vs.length := by
    rw [Value.subscript, hindex] at h
    dsimp only at h
    split at h
    next element helement => exact (List.getElem?_eq_some_iff.mp helement).1
    next => contradiction
  intro ws hws
  obtain ⟨w, hw⟩ : ∃ w, ws[p]? = some w :=
    ⟨ws[p], List.getElem?_eq_getElem (hws ▸ hlength)⟩
  refine ⟨w, hw, ?_⟩
  rw [Value.subscript, hws, hindex]
  dsimp only
  rw [hw]

/-- The element that is read is the one that is stored. -/
theorem updated_of_stored (htarget : target.Named) {current : Value}
    (hcurrent : evaluateStrict m.scope target.text = .ok current) (h : m.Stored m' target v) :
    m.Updated m' target v := by
  cases h with
  | name hrebound => exact .name hrebound
  | @element x index i v vs p hindex hlist hposition hrebound =>
    obtain ⟨e, hparse, heval⟩ := evaluateStrict_eq_ok_iff.mp hcurrent
    have hsubscript : (Value.list vs).subscript i = .ok current := by
      rcases reads_or_stuck htarget with ⟨ts, e', hts, he', hread⟩ | ⟨fault, hstuck⟩
      · have hparse' : parseText (Target.element x index).text = .ok e' :=
          parseText_eq_ok_iff.mpr ⟨ts, hts, he'.expression⟩
        rw [hparse] at hparse'
        cases hparse'
        cases hread with
        | element hparses =>
          rw [Expr.eval, Expr.eval, hlist] at heval
          dsimp only at heval
          split at heval
          next => contradiction
          next w hw =>
            have hsame := hparses.evaluateStrict hw
            rw [hindex] at hsame
            cases hsame
            exact heval
      · rw [hstuck.parseText_eq] at hparse
        contradiction
    exact .element hlist hindex hcurrent hsubscript (selects_of_subscript hsubscript hposition)
      hrebound

/-- **An assignment with an operator is one with the operator in the value.** Its value is that
of the target, the operator and the value in brackets as one text. If this text has no value,
the statement fails for the same reason and changes nothing. If the statement succeeds, the name
stands for the value; or for the list that it stood for, with the value in place of the one
element that the target reads. -/
theorem assign_desugars {text value' : Text} {op' : Option ArithOp}
    (htarget : classify text = .ok (.assign target op' value'))
    (hvalue : parseText value = .ok tree) (m : Machine) (op : ArithOp) (context : Context)
    (chains : Chains) (line : Line) (rest : List Line) :
    let outcome := m.perform context chains line rest (.assign target (some op) value)
    let applied := evaluateStrict m.scope (target.applied op value)
    m.assignedValue target (some op) value = applied ∧
      (∀ fault, applied = .error fault → outcome = (m, .error (.runtime fault line.number))) ∧
      ∀ m' next, outcome = (m', .ok next) → ∃ v, applied = .ok v ∧ m.Updated m' target v := by
  intro outcome applied
  have hnamed := named_of_classify htarget
  have happlied := assignedValue_eq m hnamed op hvalue
  refine ⟨happlied, fun fault hfault => ?_, fun m' next houtcome => ?_⟩
  · have hfails : m.assignedValue target (some op) value = .error fault := happlied.trans hfault
    show m.after line chains (m.assign target (some op) value) = _
    rw [assign, hfails]
    rfl
  · obtain ⟨v, hv, hstored⟩ := stored_of_assign (changed_of_after houtcome)
    obtain ⟨current, hcurrent⟩ := evaluated_of_assignedValue hv
    exact ⟨v, happlied.symm.trans hv, updated_of_stored hnamed hcurrent hstored⟩

/-- The value is in brackets, so its operators do not mix with the one of the assignment; and
what is wrong with an index is found at the same place. -/
theorem assign_desugars_brackets :
    let m : Machine := { globals := .ofList [("x", .list [.nothing])] }
    let joins : Line := ⟨1, 0, "x += [] or [True]".toList⟩
    let fails : Line := ⟨2, 0, "x[y z] += y".toList⟩
    let joining := m.perform (context {} 200 []) {} joins []
      (.assign (.name "x") (some .add) "[] or [True]".toList)
    let failing := m.perform (context {} 200 []) {} fails []
      (.assign (.element "x" "y z".toList) (some .add) "y".toList)
    evaluateStrict m.scope "x + ([] or [True])".toList = .ok (.list [.nothing, .truth true]) ∧
      joining.1.scope.get? "x" = some (.list [.nothing, .truth true]) ∧
      failing = (m, .error (.runtime (.parse (.unclosed .index .identifier 4)) 2)) := by
  intro m joins fails joining failing
  have hjoins : classify joins.text =
      .ok (.assign (.name "x") (some .add) "[] or [True]".toList) := rfl
  have hfails : classify fails.text =
      .ok (.assign (.element "x" "y z".toList) (some .add) "y".toList) := rfl
  have hlist : parseText "[] or [True]".toList =
      .ok (.logical .or (.list []) (.list [.truth true])) := by cbv
  have hname : parseText "y".toList = .ok (.var "y" 0) := by cbv
  have happlied : evaluateStrict m.scope "x + ([] or [True])".toList =
      .ok (.list [.nothing, .truth true]) := by cbv
  have hfault : evaluateStrict m.scope "x[y z] + (y)".toList =
      .error (.parse (.unclosed .index .identifier 4)) := by cbv
  have hjoining := assign_desugars hjoins hlist m .add (context {} 200 []) {} joins []
  have hfailing := assign_desugars hfails hname m .add (context {} 200 []) {} fails []
  refine ⟨happlied, ?_, hfailing.2.1 _ hfault⟩
  have hvalue : m.assignedValue (.name "x") (some .add) "[] or [True]".toList =
      .ok (.list [.nothing, .truth true]) := hjoining.1.trans happlied
  obtain ⟨m', hm'⟩ : ∃ m', joining = (m', .ok (.goOn {} 0)) := by
    refine ⟨m.bind "x" (.list [.nothing, .truth true]), ?_⟩
    show m.after joins {} (m.assign (.name "x") (some .add) "[] or [True]".toList) = _
    rw [assign, hvalue]
    rfl
  obtain ⟨v, hv, hupdated⟩ := hjoining.2.2 m' _ hm'
  cases hv.symm.trans happlied
  rw [hm']
  cases hupdated with
  | name hrebound => exact hrebound.bound

end Offside
