import Offside.Proofs.Value.Order

/-!
# The first difference of two lists

Lists are compared element by element up to the first elements that are not equal. More
values are equal than are comparable: `None` equals itself, and so does a function, but
neither has an order, and nor has a list with one of them in it. An equal pair like this in
front of the difference leaves the lists without an order too. Main result:

> `list_order_at_difference`: the first elements that differ decide, or the lengths if none
> do, exactly if all elements in front of them have an order; and so for equal lists.
-/

namespace Offside

namespace Value

variable {v w : Value} {vs ws : List Value} {k : Nat}

/-! ## Values with an order -/

mutual

/-- The value is a text, a number or a truth, or a list of such values, at every depth. -/
def isOrdered : Value → Bool
  | text _ | number _ | truth _ => true
  | list vs => isOrderedAll vs
  | nothing | function _ => false

/-- All of the values have an order. -/
def isOrderedAll : List Value → Bool
  | [] => true
  | v :: vs => isOrdered v && isOrderedAll vs

end

theorem isOrderedAll_eq_all (vs : List Value) : isOrderedAll vs = vs.all isOrdered := by
  induction vs with
  | nil => rfl
  | cons v vs ih => rw [isOrderedAll, ih, List.all_cons]

/-- Equal values that count as numbers compare as equal. -/
theorem compare?_of_equals_of_toNumber? {x y : Float} (hv : v.toNumber? = some x)
    (hw : w.toNumber? = some y) (h : v.equals w = true) : v.compare? w = some .eq := by
  obtain ⟨hcompare, hequals⟩ := compare?_equals_of_toNumber? hv hw
  rw [hcompare, compareNumbers_eq_iff, ← hequals]
  exact h

mutual

/-- Equal values are comparable if they have an order at all. -/
theorem compare?_of_equals {v w : Value} (h : v.equals w = true) :
    v.compare? w = if v.isOrdered then some .eq else none := by
  cases v with
  | text s => cases w with
    | text t =>
      have hst : s = t := eq_of_beq h
      subst hst
      exact congrArg some (Std.LawfulEqCmp.compare_eq_iff_eq.mpr rfl)
    | _ => cases h
  | list vs => cases w with
    | list ws =>
      have hlists : equalsAll vs ws = true := h
      exact compareAll?_of_equalsAll hlists
    | _ => cases h
  | number | truth => cases w with
    | number | truth => exact compare?_of_equals_of_toNumber? rfl rfl h
    | _ => cases h
  | nothing => cases w <;> rfl
  | function f => cases w <;> rfl

/-- Equal lists are comparable if all of their elements have an order. -/
theorem compareAll?_of_equalsAll {vs ws : List Value} (h : equalsAll vs ws = true) :
    compareAll? vs ws = if isOrderedAll vs then some .eq else none := by
  match vs, ws with
  | [], [] => rfl
  | [], _ :: _ => cases h
  | _ :: _, [] => cases h
  | v :: vs, w :: ws =>
    rw [equalsAll, Bool.and_eq_true] at h
    rw [compareAll?, compare?_of_equals h.1, isOrderedAll]
    cases v.isOrdered with
    | true => exact compareAll?_of_equalsAll h.2
    | false => rfl

end

/-! ## Differences -/

/-- Both lists have an element at the place, and the two are not equal. -/
def DifferAt (vs ws : List Value) (k : Nat) : Prop :=
  ∃ v w, vs[k]? = some v ∧ ws[k]? = some w ∧ v.equals w = false

/-- Behind the first elements lists differ where their rests do. -/
theorem differAt_cons_succ : DifferAt (v :: vs) (w :: ws) (k + 1) ↔ DifferAt vs ws k := by
  rw [DifferAt, DifferAt, List.getElem?_cons_succ, List.getElem?_cons_succ]

theorem not_differAt_cons_zero : ¬ DifferAt (v :: vs) (w :: ws) 0 ↔ v.equals w = true := by
  rw [← Bool.not_eq_false]
  refine not_congr ⟨?_, fun hdiffer => ⟨v, w, rfl, rfl, hdiffer⟩⟩
  rintro ⟨_, _, ⟨⟩, ⟨⟩, hdiffer⟩
  exact hdiffer

/-- Elements that are not equal decide. -/
theorem compareAll?_cons_of_differ (h : v.equals w = false) (vs ws : List Value) :
    compareAll? (v :: vs) (w :: ws) = v.compare? w := by
  rw [compareAll?]
  split
  next heq =>
    rw [(eq_iff_equals heq).mp rfl] at h
    contradiction
  next => rfl

/-- Elements that are equal leave it to those behind them, if they have an order. -/
theorem compareAll?_cons_of_equals (h : v.equals w = true) (vs ws : List Value) :
    compareAll? (v :: vs) (w :: ws) = if v.isOrdered then compareAll? vs ws else none := by
  rw [compareAll?, compare?_of_equals h]
  cases v.isOrdered <;> rfl

/-- Lists compare as their elements do at the first difference, if all elements before it have
an order. -/
theorem compareAll?_of_differ (hv : vs[k]? = some v) (hw : ws[k]? = some w)
    (hdiffer : v.equals w = false) (hfirst : ∀ i < k, ¬ DifferAt vs ws i) :
    compareAll? vs ws = if (vs.take k).all isOrdered then v.compare? w else none := by
  induction k generalizing vs ws with
  | zero =>
    match vs, ws with
    | v' :: vs, w' :: ws =>
      cases hv
      cases hw
      exact compareAll?_cons_of_differ hdiffer vs ws
  | succ k ih =>
    match vs, ws with
    | v' :: vs, w' :: ws =>
      have hequal := not_differAt_cons_zero.mp (hfirst 0 (Nat.succ_pos k))
      have hrest := ih hv hw fun i hi hdiffer =>
        hfirst (i + 1) (Nat.succ_lt_succ hi) (differAt_cons_succ.mpr hdiffer)
      rw [compareAll?_cons_of_equals hequal, hrest, List.take_succ_cons, List.all_cons]
      cases v'.isOrdered <;> rfl

/-- Lists of which one starts with the other compare by their lengths, if their common
elements all have an order, and not at all otherwise. -/
theorem compareAll?_of_prefix {vs ws : List Value} (hnone : ∀ i, ¬ DifferAt vs ws i) :
    compareAll? vs ws =
      if (vs.take ws.length).all isOrdered then some (compare vs.length ws.length) else none := by
  match vs, ws with
  | [], [] => rfl
  | [], _ :: _ => rfl
  | _ :: _, [] => rfl
  | v :: vs, w :: ws =>
    have hequal := not_differAt_cons_zero.mp (hnone 0)
    have hrest := compareAll?_of_prefix fun i hdiffer =>
      hnone (i + 1) (differAt_cons_succ.mpr hdiffer)
    have hlength : compare (v :: vs).length (w :: ws).length = compare vs.length ws.length := by
      simp only [List.length_cons, Nat.compare_eq_ite_lt, Nat.add_lt_add_iff_right]
    rw [compareAll?_cons_of_equals hequal, hrest, hlength, List.length_cons, List.take_succ_cons,
      List.all_cons]
    cases v.isOrdered <;> rfl

/-- The comparisons that take equal values, for equal lists. -/
theorem ordered_of_equals (op : Relation) {wanted : Ordering → Bool}
    (hwanted : wanted .eq = true) (h : (list vs).equals (list ws) = true) :
    op.ordered wanted (list vs) (list ws) =
      if vs.all isOrdered then .ok true else .error (.notComparable op.symbol .list .list) := by
  rw [Relation.ordered, compare?_of_equals h, isOrdered, isOrderedAll_eq_all]
  cases vs.all isOrdered with
  | true => exact congrArg Except.ok hwanted
  | false => rfl

end Value

open Value

/-- The order of two lists is that of their first elements that are not equal, or of their
lengths, if the equal elements in front of these all have an order; otherwise the lists
have none. So equal lists are `<=` and `>=` each other if all elements have an order, and
not comparable otherwise. -/
theorem list_order_at_difference (vs ws : List Value) :
    (∀ k v w, vs[k]? = some v → ws[k]? = some w → v.equals w = false →
      (∀ i < k, ¬ DifferAt vs ws i) →
      (list vs).compare? (list ws) =
        if (vs.take k).all isOrdered then v.compare? w else none) ∧
    ((∀ i, ¬ DifferAt vs ws i) →
      (list vs).compare? (list ws) =
        if (vs.take ws.length).all isOrdered then some (compare vs.length ws.length) else none) ∧
    ((list vs).equals (list ws) = true → ∀ op ∈ [Relation.le, .ge],
      op.holds (list vs) (list ws) =
        if vs.all isOrdered then .ok true else .error (.notComparable op.symbol .list .list)) := by
  refine ⟨fun k v w hv hw hdiffer hfirst => compareAll?_of_differ hv hw hdiffer hfirst,
    fun hnone => compareAll?_of_prefix hnone, fun hequal op hop => ?_⟩
  simp only [List.mem_cons, List.not_mem_nil, or_false] at hop
  rcases hop with rfl | rfl
  · exact ordered_of_equals .le rfl hequal
  · exact ordered_of_equals .ge rfl hequal

/-- An element without an order behind the difference, one in front of it, and a list that
ends first. -/
theorem list_order_at_difference_values :
    let a := Value.list [.text "a", .number 1, .nothing]
    let b := Value.list [.text "a", .number 2]
    let c := Value.list [.nothing, .text "a"]
    let d := Value.list [.nothing, .text "b"]
    a.compare? b = some .lt ∧ c.compare? d = none ∧
      (Value.list [.text "a"]).compare? b = some .lt ∧
      Relation.ge.holds c c = .error (.notComparable ">=" .list .list) := by
  intro a b c d
  have hfirst {v w : Value} {vs ws : List Value} (h : v.equals w = true) :
      ∀ i < 1, ¬ DifferAt (v :: vs) (w :: ws) i := by
    intro i hi
    rw [Nat.lt_one_iff.mp hi]
    exact not_differAt_cons_zero.mpr h
  have hab := (list_order_at_difference [.text "a", .number 1, .nothing]
    [.text "a", .number 2]).1 1 (.number 1) (.number 2) rfl rfl (by decide +kernel)
      (hfirst (by decide))
  have hcd := (list_order_at_difference [.nothing, .text "a"] [.nothing, .text "b"]).1 1
    (.text "a") (.text "b") rfl rfl (by decide) (hfirst rfl)
  have hshort := (list_order_at_difference [.text "a"] [.text "a", .number 2]).2.1 (by
    rintro (_ | i) ⟨_, _, ⟨⟩, ⟨⟩, hdiffer⟩
    cases hdiffer)
  have hsame := (list_order_at_difference [.nothing, .text "a"] [.nothing, .text "a"]).2.2
    (by decide) .ge (by decide)
  exact ⟨hab.trans (by decide +kernel), hcd, hshort, hsame⟩

/-- A list of one `None` is equal to itself, and has no order all the same. -/
theorem list_of_nothing_not_comparable :
    (Value.list [.nothing]).equals (.list [.nothing]) = true ∧
      (Value.list [.nothing]).compare? (.list [.nothing]) = none ∧
      Relation.le.holds (.list [.nothing]) (.list [.nothing]) =
        .error (.notComparable "<=" .list .list) :=
  ⟨rfl, rfl, rfl⟩

end Offside
