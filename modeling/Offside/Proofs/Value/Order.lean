import Offside.Proofs.Number.Order
import Offside.Value.Operator

/-!
# The order of values

Two values are comparable if they are texts, or numbers, or lists whose elements are comparable
up to the first that differ. Where they are, the order behaves as one would hope, however deep
the lists are nested, and also where values without an order stand further behind in them:

> `order_coherent`: turning the two values around turns the order around; comparable values
> that ascend can be put together, and are then comparable; and of two comparable values one
> is first or they are equal.

The last step goes from pairs of elements to lists along the recursion of the comparison.
-/

namespace Offside

namespace Value

variable {v w u : Value} {vs ws us : List Value} {x y : Float} {o o₁ o₂ : Ordering}

/-! ## What is comparable -/

/-- Values that count as numbers are ordered as these, and equal as these. -/
theorem compare?_equals_of_toNumber? (hv : v.toNumber? = some x) (hw : w.toNumber? = some y) :
    v.compare? w = compareNumbers x y ∧ v.equals w = (x == y) := by
  cases v with
  | number | truth => cases w with
    | number | truth =>
      cases hv
      cases hw
      exact ⟨rfl, rfl⟩
    | _ => cases hw
  | _ => cases hv

/-- Comparable values are two texts, two lists or two numbers. -/
theorem cases_of_compare? (h : v.compare? w = some o) :
    (∃ s t, v = text s ∧ w = text t ∧ compare s t = o) ∨
      (∃ vs ws, v = list vs ∧ w = list ws ∧ compareAll? vs ws = some o) ∨
      ∃ x y, v.toNumber? = some x ∧ w.toNumber? = some y ∧ compareNumbers x y = some o := by
  cases v with
  | text s => cases w with
    | text t => exact .inl ⟨s, t, rfl, rfl, Option.some.inj h⟩
    | _ => cases h
  | list vs => cases w with
    | list ws => exact .inr (.inl ⟨vs, ws, rfl, rfl, h⟩)
    | _ => cases h
  | number | truth => cases w with
    | number | truth => exact .inr (.inr ⟨_, _, rfl, rfl, h⟩)
    | _ => cases h
  | _ => cases w <;> cases h

/-! ## Turning around -/

mutual

/-- The order of two values, turned around. -/
theorem compare?_swap (v w : Value) : w.compare? v = (v.compare? w).map .swap := by
  cases v with
  | text s => cases w with
    | text t => exact congrArg some Std.OrientedOrd.eq_swap
    | _ => rfl
  | list vs => cases w with
    | list ws => exact compareAll?_swap vs ws
    | _ => rfl
  | number | truth => cases w with
    | number | truth => exact compareNumbers_swap _ _
    | _ => rfl
  | _ => cases w <;> rfl

/-- The order of two lists, turned around. -/
theorem compareAll?_swap (vs ws : List Value) :
    compareAll? ws vs = (compareAll? vs ws).map .swap := by
  match vs, ws with
  | [], [] => rfl
  | [], _ :: _ => rfl
  | _ :: _, [] => rfl
  | v :: vs, w :: ws =>
    rw [compareAll?, compareAll?, compare?_swap v w]
    cases v.compare? w with
    | none => rfl
    | some o =>
      cases o with
      | eq => exact compareAll?_swap vs ws
      | lt | gt => rfl

end

/-! ## Putting together -/

/-- Two lists that are ordered by their first elements, or by those behind them. -/
theorem compareAll?_cons_eq_some_iff :
    compareAll? (v :: vs) (w :: ws) = some o ↔
      v.compare? w = some o ∧ o ≠ .eq ∨ v.compare? w = some .eq ∧ compareAll? vs ws = some o := by
  rw [compareAll?]
  split
  next h => simp_all
  next h => grind

mutual

/-- Comparisons of values that agree can be put together. -/
theorem compare?_trans {v w u : Value} {o₁ o₂ : Ordering} (hvw : v.compare? w = some o₁)
    (hwu : w.compare? u = some o₂) (h : Agree o₁ o₂) : v.compare? u = some (o₁.then o₂) := by
  -- The value in the middle is compared twice, so both comparisons are of one kind.
  obtain ⟨s, t, rfl, rfl, rfl⟩ | ⟨vs, ws, rfl, rfl, hvws⟩ | ⟨x, y, hx, hy, hxy⟩ :=
    cases_of_compare? hvw
  · obtain ⟨_, r, ⟨⟩, rfl, rfl⟩ | ⟨_, _, ⟨⟩, -⟩ | ⟨_, _, ⟨⟩, -⟩ := cases_of_compare? hwu
    exact congrArg some (compare_trans h)
  · obtain ⟨_, _, ⟨⟩, -⟩ | ⟨_, us, ⟨⟩, rfl, hwsus⟩ | ⟨_, _, ⟨⟩, -⟩ := cases_of_compare? hwu
    exact compareAll?_trans hvws hwsus h
  · obtain ⟨_, _, rfl, -⟩ | ⟨_, _, rfl, -⟩ | ⟨y', z, hy', hz, hyz⟩ := cases_of_compare? hwu
    · cases hy
    · cases hy
    · obtain rfl : y = y' := Option.some.inj (hy.symm.trans hy')
      rw [(compare?_equals_of_toNumber? hx hz).1]
      exact compareNumbers_trans hxy hyz h

/-- Comparisons of lists that agree can be put together. -/
theorem compareAll?_trans {vs ws us : List Value} {o₁ o₂ : Ordering}
    (hvw : compareAll? vs ws = some o₁) (hwu : compareAll? ws us = some o₂) (h : Agree o₁ o₂) :
    compareAll? vs us = some (o₁.then o₂) := by
  match vs, ws, us with
  | [], [], us =>
    cases hvw
    exact hwu
  | [], _ :: _, [] =>
    cases hvw
    cases hwu
    exact absurd h (by decide)
  | [], _ :: _, _ :: _ =>
    cases hvw
    rfl
  | _ :: _, [], [] =>
    cases hvw
    cases hwu
    rfl
  | _ :: _, [], _ :: _ =>
    cases hvw
    cases hwu
    exact absurd h (by decide)
  | _ :: _, _ :: _, [] =>
    cases hwu
    rw [h.then_eq_right nofun]
    rfl
  | v :: vs, w :: ws, u :: us =>
    -- The first pair that is not equal decides, so it is asked where each order comes from.
    obtain ⟨hhead, hne⟩ | ⟨hhead, htail⟩ := compareAll?_cons_eq_some_iff.mp hvw <;>
      obtain ⟨hhead', hne'⟩ | ⟨hhead', htail'⟩ := compareAll?_cons_eq_some_iff.mp hwu
    · have hnext := compare?_trans hhead hhead' h
      rw [then_eq_left hne] at hnext ⊢
      exact compareAll?_cons_eq_some_iff.mpr (.inl ⟨hnext, hne⟩)
    · have hnext := compare?_trans hhead hhead' (.inr (.inl rfl))
      rw [then_eq_left hne] at hnext ⊢
      exact compareAll?_cons_eq_some_iff.mpr (.inl ⟨hnext, hne⟩)
    · have hnext := compare?_trans hhead hhead' (.inl rfl)
      rw [h.then_eq_right hne']
      exact compareAll?_cons_eq_some_iff.mpr (.inl ⟨hnext, hne'⟩)
    · have hnext := compare?_trans hhead hhead' (.inl rfl)
      exact compareAll?_cons_eq_some_iff.mpr (.inr ⟨hnext, compareAll?_trans htail htail' h⟩)

end

/-! ## Equality -/

mutual

/-- Comparable values are equal if neither is first. -/
theorem eq_iff_equals {v w : Value} {o : Ordering} (h : v.compare? w = some o) :
    o = .eq ↔ v.equals w = true := by
  obtain ⟨s, t, rfl, rfl, rfl⟩ | ⟨vs, ws, rfl, rfl, hvws⟩ | ⟨x, y, hx, hy, hxy⟩ :=
    cases_of_compare? h
  · show compare s t = .eq ↔ (s == t) = true
    rw [Std.LawfulEqCmp.compare_eq_iff_eq, beq_iff_eq]
  · exact eq_iff_equalsAll hvws
  · rw [(compare?_equals_of_toNumber? hx hy).2, ← compareNumbers_eq_iff, hxy, Option.some.injEq]

/-- Comparable lists are equal if neither is first. -/
theorem eq_iff_equalsAll {vs ws : List Value} {o : Ordering} (h : compareAll? vs ws = some o) :
    o = .eq ↔ equalsAll vs ws = true := by
  match vs, ws with
  | [], [] =>
    cases h
    exact iff_of_true rfl rfl
  | [], _ :: _ =>
    cases h
    exact iff_of_false nofun nofun
  | _ :: _, [] =>
    cases h
    exact iff_of_false nofun nofun
  | v :: vs, w :: ws =>
    rw [equalsAll, Bool.and_eq_true]
    obtain ⟨hhead, hne⟩ | ⟨hhead, htail⟩ := compareAll?_cons_eq_some_iff.mp h
    · exact iff_of_false hne fun hequal => hne ((eq_iff_equals hhead).mpr hequal.1)
    · have hequal : v.equals w = true := (eq_iff_equals hhead).mp rfl
      rw [eq_iff_equalsAll htail]
      exact ⟨fun hrest => ⟨hequal, hrest⟩, And.right⟩

end

end Value

/-! ## Comparing -/

open Value

variable {v w : Value} {o : Ordering}

/-- Two comparisons that want opposite orders succeed together, and give the same. -/
theorem Relation.toOption_ordered_swap (op op' : Relation) {wanted wanted' : Ordering → Bool}
    (h : ∀ o, wanted o = wanted' o.swap) (v w : Value) :
    (op.ordered wanted v w).toOption = (op'.ordered wanted' w v).toOption := by
  rw [Relation.ordered, Relation.ordered, compare?_swap v w]
  cases v.compare? w with
  | none => rfl
  | some o => exact congrArg some (h o)

/-- A comparison of comparable values that wants one order. -/
theorem Relation.ordered_eq_ok_iff (op : Relation) {wanted : Ordering → Bool}
    (h : v.compare? w = some o) : op.ordered wanted v w = .ok true ↔ wanted o = true := by
  rw [Relation.ordered, h]
  exact ⟨Except.ok.inj, congrArg Except.ok⟩

/-- The comparison that asks for one order. -/
def Relation.ofOrdering : Ordering → Relation
  | .lt => lt
  | .eq => eq
  | .gt => gt

/-- Between comparable values the comparison that asks for their order holds, and the other
two do not. -/
theorem Relation.holds_ofOrdering_iff (h : v.compare? w = some o) (o' : Ordering) :
    (ofOrdering o').holds v w = .ok true ↔ ofOrdering o' = ofOrdering o := by
  cases o' with
  | lt =>
    refine (Relation.lt.ordered_eq_ok_iff h).trans ?_
    cases o <;> decide
  | gt =>
    refine (Relation.gt.ordered_eq_ok_iff h).trans ?_
    cases o <;> decide
  | eq =>
    have hequals : (ofOrdering .eq).holds v w = .ok true ↔ v.equals w = true :=
      ⟨Except.ok.inj, congrArg Except.ok⟩
    rw [hequals, ← eq_iff_equals h]
    cases o <;> decide

/-- **The order of values is a strict weak order that fits their equality.** -/
theorem order_coherent (a b c : Value) :
    (∀ o, a.compare? b = some o ↔ b.compare? a = some o.swap) ∧
    (∀ o₁ o₂, a.compare? b = some o₁ → b.compare? c = some o₂ → o₁ ≠ .gt → o₂ ≠ .gt →
      a.compare? c = some (if o₁ = .lt ∨ o₂ = .lt then .lt else .eq)) ∧
    (∀ o, a.compare? b = some o → (o = .eq ↔ a.equals b = true)) ∧
    (Relation.lt.holds a b).toOption = (Relation.gt.holds b a).toOption ∧
    (Relation.le.holds a b).toOption = (Relation.ge.holds b a).toOption ∧
    (∀ o, a.compare? b = some o → ∃ op ∈ [Relation.lt, .eq, .gt],
      ∀ op' ∈ [Relation.lt, .eq, .gt], op'.holds a b = .ok true ↔ op' = op) := by
  refine ⟨fun o => ?_, fun o₁ o₂ hab hbc h₁ h₂ => ?_, fun o h => eq_iff_equals h, ?_, ?_,
    fun o h => ?_⟩
  · rw [compare?_swap a b, Option.map_eq_some_iff]
    constructor
    · exact fun h => ⟨o, h, rfl⟩
    · intro ⟨o', h, hswap⟩
      rwa [← Ordering.swap_inj.mp hswap]
  · obtain ⟨hagree, hthen⟩ := agree_of_ne_gt h₁ h₂
    rw [compare?_trans hab hbc hagree, hthen]
  · exact Relation.lt.toOption_ordered_swap .gt (fun o => by cases o <;> rfl) a b
  · exact Relation.le.toOption_ordered_swap .ge (fun o => by cases o <;> rfl) a b
  · have hlisted (o : Ordering) : Relation.ofOrdering o ∈ [Relation.lt, .eq, .gt] := by
      cases o <;> decide
    refine ⟨Relation.ofOrdering o, hlisted o, fun op' hop' => ?_⟩
    obtain ⟨o', rfl⟩ : ∃ o', Relation.ofOrdering o' = op' := by
      simp only [List.mem_cons, List.not_mem_nil, or_false] at hop'
      obtain rfl | rfl | rfl := hop'
      · exact ⟨.lt, rfl⟩
      · exact ⟨.eq, rfl⟩
      · exact ⟨.gt, rfl⟩
    exact Relation.holds_ofOrdering_iff h o'

/-- An element without an order behind the first difference, in lists of different lengths. -/
theorem order_coherent_lists :
    let a := Value.list [.number 0.5, .nothing]
    let b := Value.list [.truth true]
    let c := Value.list [.number 1, .text "x"]
    a.compare? b = some .lt ∧ b.compare? c = some .lt ∧ a.compare? c = some .lt ∧
      a.equals b = false := by
  intro a b c
  have hab : a.compare? b = some .lt := by decide +kernel
  have hbc : b.compare? c = some .lt := by decide +kernel
  obtain ⟨-, htrans, hequals, -⟩ := order_coherent a b c
  refine ⟨hab, hbc, htrans .lt .lt hab hbc nofun nofun, ?_⟩
  exact Bool.eq_false_iff.mpr (mt (hequals .lt hab).mpr nofun)

end Offside
