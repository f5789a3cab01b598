import Offside.Value.Order

/-!
# The order of doubles

A double that is a number has a standing among the others: first its sign and whether it is
zero, finite or infinite, then its exponent, then its mantissa. The order of two doubles is
that of their standings, read from the front, and NaN stands nowhere. So the order can be
turned around, and two comparisons that do not point in opposite ways can be put together:

> `compareNumbers_swap`, `compareNumbers_trans`.
-/

namespace Offside

/-- Two orders do not point in opposite ways. -/
def Agree (o₁ o₂ : Ordering) : Prop :=
  o₁ = .eq ∨ o₂ = .eq ∨ o₁ = o₂

instance (o₁ o₂ : Ordering) : Decidable (Agree o₁ o₂) :=
  inferInstanceAs (Decidable (_ ∨ _ ∨ _))

theorem then_eq_left {o₁ o₂ : Ordering} (hne : o₁ ≠ .eq) : o₁.then o₂ = o₁ := by
  cases o₁ with
  | eq => exact absurd rfl hne
  | lt | gt => rfl

theorem Agree.then_eq_right {o₁ o₂ : Ordering} (h : Agree o₁ o₂) (hne : o₂ ≠ .eq) :
    o₁.then o₂ = o₂ := by
  obtain rfl | rfl | rfl := h
  · rfl
  · exact absurd rfl hne
  · exact then_eq_left hne

/-- Orders that do not descend agree, and put together they ascend if one of them does. -/
theorem agree_of_ne_gt {o₁ o₂ : Ordering} (h₁ : o₁ ≠ .gt) (h₂ : o₂ ≠ .gt) :
    Agree o₁ o₂ ∧ o₁.then o₂ = if o₁ = .lt ∨ o₂ = .lt then .lt else .eq := by
  cases o₁ <;> cases o₂ <;> simp_all [Agree]

/-- Where a comparison is an order, comparisons that agree can be put together. -/
theorem compare_trans {α : Type} [Ord α] [Std.TransOrd α] {a b c : α}
    (h : Agree (compare a b) (compare b c)) :
    compare a c = (compare a b).then (compare b c) := by
  by_cases hab : compare a b = .eq
  · rw [hab, Std.TransCmp.congr_left hab]
    rfl
  · by_cases hbc : compare b c = .eq
    · rw [then_eq_left hab, Std.TransCmp.congr_right hbc]
    · have heq : compare a b = compare b c := (h.resolve_left hab).resolve_left hbc
      rw [then_eq_left hab]
      cases hab' : compare a b with
      | lt => exact Std.TransCmp.lt_trans hab' (heq ▸ hab')
      | eq => exact absurd hab' hab
      | gt => exact Std.TransCmp.gt_trans hab' (heq ▸ hab')

/-! ## Standings -/

section

open Float.Model

/-- Where a double stands among the others; below zero a greater exponent and a greater
mantissa stand lower. -/
def standingOfParts : UnpackedFloat → Option (List Int)
  | .notANumber => none
  | .infinity .negative => some [-2]
  | .finite .negative mantissa exponent _ => some [-1, -exponent, -mantissa]
  | .zero _ => some [0]
  | .finite .positive mantissa exponent _ => some [1, exponent, mantissa]
  | .infinity .positive => some [2]

/-- The order of two standings, if there are two. -/
def compareStandings : Option (List Int) → Option (List Int) → Option Ordering
  | some s, some t => some (compare s t)
  | _, _ => none

/-- Negation turns the order of integers round. -/
theorem compare_neg (a b : Int) : compare (-a) (-b) = (compare a b).swap := by
  rw [← Std.OrientedOrd.eq_swap]
  simp only [compare, compareOfLessAndEq]
  grind

theorem compare_natCast (m n : Nat) : compare (m : Int) (n : Int) = compare m n := by
  simp only [compare, compareOfLessAndEq]
  grind

/-- Finite doubles of one sign stand apart by their exponents, then by their mantissas. -/
theorem compare_finite (sign a b c d : Int) :
    compare [sign, a, b] [sign, c, d] = (compare a c).then (compare b d) := by
  have hsign : compare sign sign = .eq := Std.ReflCmp.compare_self
  show List.compareLex compare [sign, a, b] [sign, c, d] = _
  simp only [List.compareLex_cons_cons, List.compareLex_nil_nil, hsign, Ordering.eq_then,
    Ordering.then_eq]

/-- Two finite doubles are ordered as they stand. -/
theorem compare_finite_eq (s t : UnpackedFloat.Sign) {m n : Nat} (e f : Int) (hm : 0 < m)
    (hn : 0 < n) :
    (UnpackedFloat.finite s m e hm).compare (.finite t n f hn) =
      compareStandings (standingOfParts (.finite s m e hm))
        (standingOfParts (.finite t n f hn)) := by
  cases s <;> cases t
  case negative.positive => rfl
  case positive.negative => rfl
  case positive.positive =>
    show some ((compare e f).then (compare m n)) =
      some (compare [1, e, (m : Int)] [1, f, (n : Int)])
    rw [compare_finite, compare_natCast]
  case negative.negative =>
    show some ((compare e f).then (compare m n)).swap =
      some (compare [-1, -e, -(m : Int)] [-1, -f, -(n : Int)])
    rw [compare_finite, compare_neg, compare_neg, compare_natCast, Ordering.swap_then]

/-- Unpacked numbers are compared as their standings are. -/
theorem compare_eq_compareStandings (u v : UnpackedFloat) :
    u.compare v = compareStandings (standingOfParts u) (standingOfParts v) := by
  cases u with
  | notANumber => rfl
  | infinity s => cases s <;> cases v with
    | notANumber => rfl
    | infinity t | zero t | finite t => cases t <;> rfl
  | zero s => cases s <;> cases v with
    | notANumber => rfl
    | infinity t | zero t | finite t => cases t <;> rfl
  | finite s m e hm => cases v with
    | notANumber => cases s <;> rfl
    | infinity t | zero t => cases s <;> cases t <;> rfl
    | finite t n f hn => exact compare_finite_eq s t e f hm hn

/-- Standings compare the other way round from the other side. -/
theorem compareStandings_swap (s t : Option (List Int)) :
    compareStandings t s = (compareStandings s t).map .swap := by
  cases s <;> cases t
  case some.some s t => exact congrArg some Std.OrientedOrd.eq_swap
  all_goals rfl

/-- What is ordered has a standing. -/
theorem exists_of_compareStandings {s t : Option (List Int)} {o : Ordering}
    (h : compareStandings s t = some o) : ∃ k l, s = some k ∧ t = some l ∧ compare k l = o := by
  cases s <;> cases t
  case some.some k l => exact ⟨k, l, rfl, rfl, Option.some.inj h⟩
  all_goals cases h

/-- Standings that agree in their order compose. -/
theorem compareStandings_trans {s t u : Option (List Int)} {o₁ o₂ : Ordering}
    (hst : compareStandings s t = some o₁) (htu : compareStandings t u = some o₂)
    (h : Agree o₁ o₂) : compareStandings s u = some (o₁.then o₂) := by
  obtain ⟨k, l, rfl, rfl, rfl⟩ := exists_of_compareStandings hst
  obtain ⟨_, m, ⟨⟩, rfl, rfl⟩ := exists_of_compareStandings htu
  exact congrArg some (compare_trans h)

end

/-! ## Doubles -/

variable {x y z : Float} {o₁ o₂ : Ordering}

/-- The standing of a double, if it is a number. -/
def standing (x : Float) : Option (List Int) :=
  standingOfParts x.toModel.unpack

/-- A number is less than another exactly if its standing is. -/
theorem lt_iff_compareStandings (x y : Float) :
    x < y ↔ compareStandings (standing x) (standing y) = some .lt := by
  rw [standing, standing, ← compare_eq_compareStandings]
  show decide (x.toModel < y.toModel) = true ↔ _
  rw [decide_eq_true_iff]
  show (x.toModel.unpack.compare y.toModel.unpack == some .lt) = true ↔ _
  rw [beq_iff_eq]

/-- Numbers are equal exactly if their standings are. -/
theorem beq_iff_compareStandings (x y : Float) :
    (x == y) = true ↔ compareStandings (standing x) (standing y) = some .eq := by
  rw [standing, standing, ← compare_eq_compareStandings]
  show (x.toModel.unpack.compare y.toModel.unpack == some .eq) = true ↔ _
  rw [beq_iff_eq]

namespace Value

/-- Two doubles are ordered as they stand. -/
theorem compareNumbers_eq (x y : Float) :
    compareNumbers x y = compareStandings (standing x) (standing y) := by
  have hgt : y < x ↔ compareStandings (standing x) (standing y) = some .gt := by
    rw [lt_iff_compareStandings, compareStandings_swap, Option.map_eq_some_iff]
    constructor
    · intro ⟨o, ho, hswap⟩
      rwa [Ordering.swap_eq_lt.mp hswap] at ho
    · exact fun h => ⟨.gt, h, rfl⟩
  simp only [compareNumbers, lt_iff_compareStandings x y, beq_iff_compareStandings, hgt]
  cases compareStandings (standing x) (standing y) with
  | none => rfl
  | some o => cases o <;> rfl

/-- The order of two numbers, turned around. -/
theorem compareNumbers_swap (x y : Float) :
    compareNumbers y x = (compareNumbers x y).map .swap := by
  rw [compareNumbers_eq, compareNumbers_eq, compareStandings_swap]

/-- Comparisons of numbers that agree can be put together. -/
theorem compareNumbers_trans (hxy : compareNumbers x y = some o₁)
    (hyz : compareNumbers y z = some o₂) (h : Agree o₁ o₂) :
    compareNumbers x z = some (o₁.then o₂) := by
  rw [compareNumbers_eq] at hxy hyz ⊢
  exact compareStandings_trans hxy hyz h

/-- Numbers are equal if they are comparable and neither is first. -/
theorem compareNumbers_eq_iff : compareNumbers x y = some .eq ↔ (x == y) = true := by
  rw [compareNumbers_eq, beq_iff_compareStandings]

end Value

end Offside
