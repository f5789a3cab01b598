import Offside.Builtin
import Offside.Proofs.Value.Order

/-!
# The first extreme

The least or greatest of some values is found in one pass that compares each value with the
best one so far only, and so never with those that were passed over before. It is comparable
with these all the same, because comparisons of values that agree can be put together. What
one more value preserves is that the best so far is the first extreme of those seen:

> `FirstExtreme.keep`, `FirstExtreme.replace`.

> `first_extreme`: what `min` and `max` give is the first extreme of the candidates, and it
> does not depend on their order.
-/

namespace Offside

open Value

variable {wanted o : Ordering} {v w u : Value} {vs ws arguments : List Value} {b : Builtin}

/-- What a call of `min` or `max` chooses from: the elements of a list that is the only
argument, otherwise the arguments. -/
def candidates : List Value → List Value
  | [.list elements] => elements
  | arguments => arguments

/-- A value that no other is before in an order, and the first such one: it stands among the
values at a place where it comes before all those in front of it, and before or equal to all
those behind. -/
def FirstExtreme (wanted : Ordering) (vs : List Value) (v : Value) : Prop :=
  ∃ front back, vs = front ++ v :: back ∧ (∀ w ∈ front, v.compare? w = some wanted) ∧
    ∀ w ∈ back, v.compare? w = some wanted ∨ v.compare? w = some .eq

theorem firstExtreme_singleton (wanted : Ordering) (v : Value) : FirstExtreme wanted [v] v :=
  ⟨[], [], rfl, nofun, nofun⟩

/-- A first extreme is before or equal to every other value. -/
theorem FirstExtreme.compare?_of_ne (h : FirstExtreme wanted vs v) (hw : w ∈ vs) (hne : w ≠ v) :
    v.compare? w = some wanted ∨ v.compare? w = some .eq := by
  obtain ⟨front, back, rfl, hfront, hback⟩ := h
  rcases List.mem_append.mp hw with hw | hw
  · exact .inl (hfront w hw)
  · exact hback w ((List.mem_cons.mp hw).resolve_left hne)

theorem FirstExtreme.mem (h : FirstExtreme wanted vs v) : v ∈ vs := by
  obtain ⟨front, back, rfl, -⟩ := h
  exact List.mem_append_right front List.mem_cons_self

/-! ## One more value -/

/-- A value that is not before the first extreme does not take its place. -/
theorem FirstExtreme.keep (h : FirstExtreme wanted vs v) (hwanted : wanted ≠ .eq)
    (hw : w.compare? v = some o) (ho : o ≠ wanted) : FirstExtreme wanted (vs ++ [w]) v := by
  obtain ⟨front, back, rfl, hfront, hback⟩ := h
  refine ⟨front, back ++ [w], List.append_assoc _ _ _, hfront, fun u hu => ?_⟩
  rcases List.mem_append.mp hu with hu | hu
  · exact hback u hu
  · obtain rfl := List.mem_singleton.mp hu
    -- Turned around, an order that is not the wanted one is the wanted one or equality.
    rw [compare?_swap u v, hw]
    cases wanted <;> cases o <;> simp_all

/-- A value that is before the first extreme is before all others, also those that it is not
compared with. -/
theorem FirstExtreme.replace (h : FirstExtreme wanted vs v) (hw : w.compare? v = some wanted) :
    FirstExtreme wanted (vs ++ [w]) w := by
  refine ⟨vs, [], rfl, fun u hu => ?_, nofun⟩
  by_cases huv : u = v
  · rw [huv, hw]
  · -- The value `u` was met earlier and is compared with `w` by way of `v`.
    rcases h.compare?_of_ne hu huv with hvu | hvu
    · have hthen : wanted.then wanted = wanted := by cases wanted <;> rfl
      rw [compare?_trans hw hvu (.inr (.inr rfl)), hthen]
    · have hthen : wanted.then .eq = wanted := by cases wanted <;> rfl
      rw [compare?_trans hw hvu (.inr (.inl rfl)), hthen]

/-! ## All values -/

namespace Builtin

/-- The pass over the rest of the values, after some with a first extreme. -/
theorem firstExtreme_of_extremeFrom (hwanted : wanted ≠ .eq) (h : FirstExtreme wanted vs v)
    (hrun : b.extremeFrom wanted v ws = .ok w) : FirstExtreme wanted (vs ++ ws) w := by
  induction ws generalizing vs v with
  | nil =>
    cases hrun
    rwa [List.append_nil]
  | cons u us ih =>
    rw [extremeFrom] at hrun
    split at hrun
    next => cases hrun
    next o ho =>
      rw [List.append_cons]
      split at hrun
      next heq => exact ih (h.replace (heq ▸ ho)) hrun
      next hne => exact ih (h.keep hwanted ho hne) hrun

theorem firstExtreme_of_extreme (hwanted : wanted ≠ .eq)
    (hrun : b.extreme wanted v vs = .ok w) :
    FirstExtreme wanted (candidates (v :: vs)) w := by
  unfold extreme at hrun
  split at hrun
  next => cases hrun
  next u us => exact firstExtreme_of_extremeFrom hwanted (firstExtreme_singleton wanted u) hrun
  next hempty hlist =>
    have hcandidates : candidates (v :: vs) = [v] ++ vs := by
      unfold candidates
      split
      next elements heq =>
        cases heq
        cases elements with
        | nil => exact (hempty rfl rfl).elim
        | cons u us => exact (hlist u us rfl rfl).elim
      next => rfl
    rw [hcandidates]
    exact firstExtreme_of_extremeFrom hwanted (firstExtreme_singleton wanted v) hrun

theorem firstExtreme_of_call (hform : b.form = .oneOrMore (b.extreme wanted))
    (hwanted : wanted ≠ .eq) (hrun : b.call arguments = .ok v) :
    FirstExtreme wanted (candidates arguments) v := by
  rw [call, hform] at hrun
  cases arguments with
  | nil => cases hrun
  | cons u us => exact firstExtreme_of_extreme hwanted hrun

end Builtin

/-! ## Other orders of the candidates -/

/-- A value that is comparable with itself is equal to itself. -/
theorem Value.equals_self (h : (v.compare? v).isSome = true) : v.equals v = true := by
  obtain ⟨o, ho⟩ := Option.isSome_iff_exists.mp h
  have hswap := compare?_swap v v
  rw [ho] at hswap
  have heq : o = .eq := by
    cases o with
    | eq => rfl
    | lt | gt => cases hswap
  exact (eq_iff_equals ho).mp heq

/-- Two first extremes of the same values are equal. Neither is before the other. -/
theorem FirstExtreme.equals (hv : FirstExtreme wanted vs v) (hw : FirstExtreme wanted ws w)
    (hwanted : wanted ≠ .eq) (hperm : vs.Perm ws) (hself : (v.compare? v).isSome = true) :
    v.equals w = true := by
  by_cases hne : w = v
  · rw [hne]
    exact Value.equals_self hself
  · have hvw := hv.compare?_of_ne (hperm.mem_iff.mpr hw.mem) hne
    have hwv := hw.compare?_of_ne (hperm.mem_iff.mp hv.mem) (Ne.symm hne)
    rcases hvw with hvw | hvw
    · -- If `v` were before `w`, `w` would be behind `v`.
      rw [compare?_swap v w, hvw] at hwv
      cases wanted <;> simp_all
    · exact (eq_iff_equals hvw).mp rfl

/-- **`min` and `max` give the first extreme**, whatever the order of the candidates. -/
theorem first_extreme :
    (∀ arguments v, Builtin.min.call arguments = .ok v →
      FirstExtreme .lt (candidates arguments) v) ∧
    (∀ arguments v, Builtin.max.call arguments = .ok v →
      FirstExtreme .gt (candidates arguments) v) ∧
    ∀ b ∈ [Builtin.min, .max], ∀ arguments arguments' v w, b.call arguments = .ok v →
      b.call arguments' = .ok w → (candidates arguments).Perm (candidates arguments') →
      (v.compare? v).isSome = true → v.equals w = true := by
  have hmin {arguments v} : Builtin.min.call arguments = .ok v →
      FirstExtreme .lt (candidates arguments) v := Builtin.firstExtreme_of_call rfl (by decide)
  have hmax {arguments v} : Builtin.max.call arguments = .ok v →
      FirstExtreme .gt (candidates arguments) v := Builtin.firstExtreme_of_call rfl (by decide)
  refine ⟨fun _ _ => hmin, fun _ _ => hmax, fun b hb arguments arguments' v w hv hw => ?_⟩
  simp only [List.mem_cons, List.not_mem_nil, or_false] at hb
  obtain rfl | rfl := hb
  · exact (hmin hv).equals (hmin hw) (by decide)
  · exact (hmax hv).equals (hmax hw) (by decide)

/-- A truth and the number it counts as are both least, and the first of them is given. -/
theorem first_extreme_truth :
    let v := Value.truth true
    let w := Value.number 1
    let arguments := [Value.list [.number 2, v, w]]
    let arguments' := [w, v, .number 2]
    Builtin.min.call arguments = .ok v ∧ Builtin.min.call arguments' = .ok w ∧
      FirstExtreme .lt (candidates arguments) v ∧ FirstExtreme .lt (candidates arguments') w ∧
      v.equals w = true := by
  intro v w arguments arguments'
  have hv : Builtin.min.call arguments = .ok v := by rfl
  have hw : Builtin.min.call arguments' = .ok w := by rfl
  have hperm : (candidates arguments).Perm (candidates arguments') :=
    (List.reverse_perm [Value.number 2, v, w]).symm
  have hself : (v.compare? v).isSome = true := by decide +kernel
  obtain ⟨hmin, -, hpermuted⟩ := first_extreme
  exact ⟨hv, hw, hmin _ _ hv, hmin _ _ hw,
    hpermuted .min List.mem_cons_self _ _ _ _ hv hw hperm hself⟩

end Offside
