import Mathlib.Algebra.Group.Int.Defs
import Mathlib.Algebra.Group.Nat.Defs
import Offside.Builtin

/-!
# Ranges

How many steps lead from one integer to before another is a quotient that is rounded up. It is
the number of members of the progression, in either direction and for any bounds:

> `lt_stepCount_iff`: the members before `stop` are those below the count.

So a range has every member, in order, or is refused because it has too many. Its bounds have
64 bits, and what is computed on the way has up to 128: the count and the members are written
once more with every intermediate result checked, and shown to be the same.

> `range_progression`
-/

namespace Offside

/-- The integer has so many bits beside its sign. -/
def Fits (bits : Nat) (k : Int) : Prop :=
  -2 ^ bits ≤ k ∧ k < 2 ^ bits

instance (bits : Nat) (k : Int) : Decidable (Fits bits k) :=
  inferInstanceAs (Decidable (_ ∧ _))

/-- An integer, if it fits. -/
def fit? (bits : Nat) (k : Int) : Option Int :=
  if Fits bits k then some k else none

theorem fit?_eq {bits : Nat} {k : Int} (h : Fits bits k) : fit? bits k = some k :=
  if_pos h

/-- The value counts as an integer, which is brought into the range of 64 bits. -/
def Value.CountsAs (v : Value) (k : Int) : Prop :=
  ∃ x n, v.toNumber? = some x ∧ integer? x = some n ∧ saturate n = k

namespace Builtin

variable {start stop step : Int} {k : Nat}

/-- The progression is before `stop` after `k` steps. -/
def IsBefore (start stop step : Int) (k : Nat) : Prop :=
  if 0 < step then start + k * step < stop else stop < start + k * step

instance (start stop step : Int) (k : Nat) : Decidable (IsBefore start stop step k) :=
  inferInstanceAs (Decidable (if 0 < step then start + k * step < stop else _))

/-- Steps of one size that stay below a span are counted by a quotient. -/
theorem lt_count_iff {span size : Int} (hsize : 0 < size) (k : Nat) :
    k < (if 0 < span then ((span - 1) / size + 1).toNat else 0) ↔ k * size < span := by
  have hnonneg : 0 ≤ k * size := Int.mul_nonneg (Int.natCast_nonneg k) (Int.le_of_lt hsize)
  have hquotient : (k : Int) ≤ (span - 1) / size ↔ k * size ≤ span - 1 :=
    Int.le_ediv_iff_mul_le hsize
  split
  next hspan => omega
  next hspan => omega

/-- **The members before `stop` are those below the count.** -/
theorem lt_stepCount_iff (hstep : step ≠ 0) (k : Nat) :
    k < stepCount start stop step ↔ IsBefore start stop step k := by
  have hsize : (0 : Int) < step.natAbs := by omega
  rw [stepCount, lt_count_iff hsize, IsBefore]
  -- Going down, both the span and the size of a step are turned around.
  split
  next hpos =>
    rw [Int.natAbs_of_nonneg (Int.le_of_lt hpos)]
    omega
  next hneg =>
    rw [Int.ofNat_natAbs_of_nonpos (by omega), Int.mul_neg]
    omega

/-- A member lies between the bounds. -/
theorem fits_of_isBefore (hstart : Fits 63 start) (hstop : Fits 63 stop)
    (h : IsBefore start stop step k) : Fits 63 (start + k * step) := by
  obtain ⟨hstart, hstart'⟩ := hstart
  obtain ⟨hstop, hstop'⟩ := hstop
  unfold IsBefore at h
  split at h
  next hpos =>
    have hnonneg : 0 ≤ k * step := Int.mul_nonneg (Int.natCast_nonneg k) (Int.le_of_lt hpos)
    exact ⟨by omega, by omega⟩
  next hneg =>
    have hnonpos : k * step ≤ 0 :=
      Int.mul_nonpos_of_nonneg_of_nonpos (Int.natCast_nonneg k) (by omega)
    exact ⟨by omega, by omega⟩

/-! ## The arguments -/

/-- The bounds and the step that integral arguments give, with zero and one for those that are
left out. -/
inductive Bounds : List Value → Int → Int → Int → Prop
  | one {v : Value} {stop : Int} (hv : v.CountsAs stop) : Bounds [v] 0 stop 1
  | two {v w : Value} {start stop : Int} (hv : v.CountsAs start) (hw : w.CountsAs stop) :
      Bounds [v, w] start stop 1
  | three {v w u : Value} {start stop step : Int} (hv : v.CountsAs start) (hw : w.CountsAs stop)
      (hu : u.CountsAs step) : Bounds [v, w, u] start stop step

theorem integer_of_countsAs {v : Value} {k : Int} (h : v.CountsAs k) : range.integer v = .ok k := by
  obtain ⟨x, n, hx, hn, rfl⟩ := h
  rw [integer, number, hx]
  dsimp only
  rw [hn]

/-- With integral arguments a range is the progression that they give. -/
theorem call_of_bounds {arguments : List Value} (h : Bounds arguments start stop step) :
    range.call arguments = progression start stop step := by
  cases h with
  | one hv =>
    show rangeOf _ none none = _
    rw [rangeOf, integer_of_countsAs hv]
    rfl
  | two hv hw =>
    show rangeOf _ (some _) none = _
    rw [rangeOf, integer_of_countsAs hv, Option.map_some, integer_of_countsAs hw]
    rfl
  | three hv hw hu =>
    show rangeOf _ (some _) (some _) = _
    rw [rangeOf, integer_of_countsAs hv, Option.map_some, integer_of_countsAs hw, Option.map_some,
      integer_of_countsAs hu]

/-! ## Intermediate results -/

/-- How many steps lead from `start` to before `stop`, with every result checked. -/
def stepCount? (start stop step : Int) : Option Int := do
  let span ← fit? 127 (if 0 < step then stop - start else start - stop)
  if 0 < span then
    let last ← fit? 127 (span - 1)
    let size ← fit? 127 step.natAbs
    let quotient ← fit? 127 (last.tdiv size)
    fit? 127 (quotient + 1)
  else return 0

/-- The member after `k` steps, with every result checked; it has 64 bits. -/
def member? (start step : Int) (k : Nat) : Option Int := do
  let offset ← fit? 127 (k * step)
  let member ← fit? 127 (start + offset)
  fit? 63 member

/-- The progression from `start` to before `stop`, with every result checked. -/
def progression? (start stop step : Int) : Option (Except RuntimeFault Value) := do
  if step = 0 then return .error .zeroStep
  let count ← stepCount? start stop step
  if count ≤ maxSequenceLength then
    let members ← (List.range count.toNat).mapM (member? start step)
    return .ok (.list (members.map fun k => .number (Float.ofInt k)))
  else return .error (.rangeTooLong count.toNat)

/-- The distance of two bounds, and the quotients of it, have 65 bits at most. -/
theorem stepCount?_eq (hstart : Fits 63 start) (hstop : Fits 63 stop) (hstep : Fits 63 step) :
    stepCount? start stop step = some (stepCount start stop step : Int) := by
  obtain ⟨hstart, hstart'⟩ := hstart
  obtain ⟨hstop, hstop'⟩ := hstop
  obtain ⟨hstep, hstep'⟩ := hstep
  obtain ⟨span, hspan, hle⟩ : ∃ span, (if 0 < step then stop - start else start - stop) = span ∧
      -2 ^ 64 < span ∧ span < 2 ^ 64 := by
    split
    next => exact ⟨_, rfl, by omega, by omega⟩
    next => exact ⟨_, rfl, by omega, by omega⟩
  rw [stepCount?, stepCount, hspan, fit?_eq ⟨by omega, by omega⟩]
  dsimp only [Option.bind_eq_bind, Option.bind_some]
  split
  next hpos =>
    -- The quotient is rounded towards zero, which is down for a span that is not negative.
    have hlast : (span - 1).tdiv step.natAbs = (span - 1) / step.natAbs :=
      Int.tdiv_eq_ediv_of_nonneg (by omega)
    have hnonneg : 0 ≤ (span - 1) / step.natAbs :=
      Int.ediv_nonneg (by omega) (Int.natCast_nonneg _)
    have hself : (span - 1) / step.natAbs ≤ span - 1 := Int.ediv_le_self _ (by omega)
    rw [fit?_eq ⟨by omega, by omega⟩, Option.bind_some, fit?_eq ⟨by omega, by omega⟩,
      Option.bind_some, hlast, fit?_eq ⟨by omega, by omega⟩, Option.bind_some,
      fit?_eq ⟨by omega, by omega⟩, Int.toNat_of_nonneg (by omega)]
  next => rfl

theorem member?_eq (hstart : Fits 63 start) (hmember : Fits 63 (start + k * step)) :
    member? start step k = some (start + k * step) := by
  obtain ⟨hstart, hstart'⟩ := hstart
  obtain ⟨hlow, hhigh⟩ := id hmember
  rw [member?, fit?_eq ⟨by omega, by omega⟩]
  dsimp only [Option.bind_eq_bind, Option.bind_some]
  rw [fit?_eq ⟨by omega, by omega⟩, Option.bind_some, fit?_eq hmember]

/-- A result for each item of a list, if there is one for each. -/
theorem mapM_eq_some {α β : Type} {f : α → Option β} {g : α → β} {xs : List α}
    (h : ∀ x ∈ xs, f x = some (g x)) : xs.mapM f = some (xs.map g) := by
  induction xs with
  | nil => rfl
  | cons x xs ih =>
    rw [List.mapM_cons, h x List.mem_cons_self, ih fun y hy => h y (List.mem_cons_of_mem x hy)]
    rfl

/-- **No intermediate result is out of range.** -/
theorem progression?_eq (hstart : Fits 63 start) (hstop : Fits 63 stop) (hstep : Fits 63 step) :
    progression? start stop step = some (progression start stop step) := by
  rw [progression?, progression]
  split
  next => rfl
  next hne =>
    have hmembers : (List.range (stepCount start stop step)).mapM (member? start step) =
        some ((List.range (stepCount start stop step)).map fun k : Nat => start + k * step) :=
      mapM_eq_some fun k hk => member?_eq hstart
        (fits_of_isBefore hstart hstop ((lt_stepCount_iff hne k).mp (List.mem_range.mp hk)))
    rw [stepCount?_eq hstart hstop hstep]
    dsimp only [Option.bind_eq_bind, Option.bind_some, Int.toNat_natCast]
    rw [hmembers]
    dsimp only [Option.bind_some]
    split
    next hle =>
      rw [if_pos (Int.ofNat_le.mp hle), progressionOnto_eq, List.map_map, List.append_nil]
      rfl
    next hgt =>
      rw [if_neg fun hle => hgt (Int.ofNat_le.mpr hle)]
      rfl

end Builtin

open Builtin

/-- **A range is the whole progression before its end**, or is refused because it has too many
members. -/
theorem range_progression {start stop step : Int} (hstart : Fits 63 start) (hstop : Fits 63 stop)
    (hstep : Fits 63 step) (hne : step ≠ 0) :
    (∀ arguments, Bounds arguments start stop step →
      range.call arguments = progression start stop step) ∧
    (∃ n : Nat, (∀ k, IsBefore start stop step k ↔ k < n) ∧
      (n ≤ 2 ^ 24 → progression start stop step =
        .ok (.list ((List.range n).map fun k : Nat => .number (Float.ofInt (start + k * step))))) ∧
      (2 ^ 24 < n → progression start stop step = .error (.rangeTooLong n))) ∧
    (∀ k, IsBefore start stop step k → Fits 63 (start + k * step)) ∧
    progression? start stop step = some (progression start stop step) := by
  refine ⟨fun _ => call_of_bounds, ⟨stepCount start stop step,
    fun k => (lt_stepCount_iff hne k).symm, fun hle => ?_, fun hlt => ?_⟩,
    fun k => fits_of_isBefore hstart hstop, progression?_eq hstart hstop hstep⟩
  · have hle' : stepCount start stop step ≤ maxSequenceLength := hle
    rw [progression, if_neg hne]
    dsimp only
    rw [if_pos hle', progressionOnto_eq, List.append_nil]
  · have hlt' : ¬stepCount start stop step ≤ maxSequenceLength := Nat.not_le.mpr hlt
    rw [progression, if_neg hne]
    dsimp only
    rw [if_neg hlt']

/-- One step of the least integer over the greatest span. -/
theorem range_progression_least :
    let greatest : Int := 2 ^ 63 - 1
    let least : Int := -2 ^ 63
    let arguments : List Value :=
      [.number (Float.ofBits 0x43e0000000000000), .number (Float.ofBits 0xc3e0000000000000),
        .number (Float.ofBits 0xc3e0000000000000)]
    Bounds arguments greatest least least ∧
      range.call arguments =
        .ok (.list [.number (Float.ofInt greatest), .number (Float.ofInt (-1))]) := by
  intro greatest least arguments
  have hstop : Value.CountsAs (.number (Float.ofBits 0xc3e0000000000000)) least :=
    ⟨_, -2 ^ 63, rfl, by decide +kernel, by decide⟩
  have hbounds : Bounds arguments greatest least least :=
    .three ⟨_, 2 ^ 63, rfl, by decide +kernel, by decide⟩ hstop hstop
  have hgreatest : Fits 63 greatest := by decide
  have hleast : Fits 63 least := by decide
  obtain ⟨hcall, ⟨n, hmembers, hlist, -⟩, -⟩ :=
    range_progression hgreatest hleast hleast (by decide)
  have hone : 1 < n := (hmembers 1).mp (by decide)
  have htwo : ¬2 < n := mt (hmembers 2).mpr (by decide)
  obtain rfl : n = 2 := by omega
  exact ⟨hbounds, (hcall arguments hbounds).trans (hlist (by decide))⟩

end Offside
