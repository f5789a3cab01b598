import Offside.Proofs.Access.Offsets
import Offside.Proofs.Program.Parts
import Offside.Template

/-!
# Filling in templates by byte offsets

The reading of a template again, as a loop over what is left of it. Each round finds a brace,
takes the text in front of it and what is behind, and cuts off one or two braces or a whole
placeholder. Every offset is one of a brace that was found, or right behind one, and a brace
has one byte. Main result: `interpolateFrom?_eq`.
-/

namespace Offside.Access

open Text

variable {scope : Scope} {t front rest : Text} {c : Char}

/-- The characters that mean something in a template. -/
def isBrace (c : Char) : Bool :=
  c == '\x7b' || c == '\x7d'

/-- What a placeholder at the front of a text stands for, if its closing brace is at an
offset. -/
def placeholderAt? (scope : Scope) (t : Text) (close : Nat) : Option Text := do
  let inner ← byteSlice? t 1 close
  match scope.get? (String.ofList inner.trim) with
  | some value =>
    if inner.trim.isIdentifier then return value.display.toList
    else byteSlice? t 0 (close + 1)
  | none => byteSlice? t 0 (close + 1)

/-- The text of what is left of a template. -/
def interpolateFrom? (scope : Scope) (t : Text) : Option Text :=
  match findOffset? isBrace t with
  | none => some t
  | some brace => do
    let front ← byteSlice? t 0 brace
    let ⟨tail, _⟩ ← behind? t brace
    if ['\x7b', '\x7b'].isPrefixOf tail || ['\x7d', '\x7d'].isPrefixOf tail then
      let shown ← byteSlice? tail 0 1
      let ⟨rest, _⟩ ← behind? tail 2
      let more ← interpolateFrom? scope rest
      return front ++ (shown ++ more)
    else if tail.head? == some '\x7d' then
      let ⟨rest, _⟩ ← behind? tail 1
      let more ← interpolateFrom? scope rest
      return front ++ '\x7d' :: more
    else
      match findOffset? (· == '\x7d') tail with
      | none => return front ++ tail
      | some close =>
        let shown ← placeholderAt? scope tail close
        let ⟨rest, _⟩ ← behind? tail (close + 1)
        let more ← interpolateFrom? scope rest
        return front ++ (shown ++ more)
termination_by byteLength t

/-! ## The reading of characters -/

theorem interpolate_plain (hc : isBrace c = false) (rest : Text) :
    interpolate scope (c :: rest) = c :: interpolate scope rest := by
  rw [interpolate]
  all_goals
    intros
    subst_vars
    simp [isBrace] at hc

/-- A text without braces is copied. -/
theorem interpolate_append (h : ∀ c ∈ front, isBrace c = false) (rest : Text) :
    interpolate scope (front ++ rest) = front ++ interpolate scope rest := by
  induction front with
  | nil => rfl
  | cons c cs ih =>
    rw [List.cons_append, interpolate_plain (h c List.mem_cons_self),
      ih fun d hd => h d (List.mem_cons_of_mem c hd)]
    rfl

/-- A closing brace alone is copied. -/
theorem interpolate_closing (h : rest.head? ≠ some '\x7d') :
    interpolate scope ('\x7d' :: rest) = '\x7d' :: interpolate scope rest := by
  rw [interpolate]
  all_goals
    intros
    subst_vars
    simp_all

/-- An opening brace alone starts a placeholder, or ends the text if nothing closes it. -/
theorem interpolate_opening (h : rest.head? ≠ some '\x7b') :
    interpolate scope ('\x7b' :: rest) =
      match cut? ['\x7d'] rest with
      | some (inner, after) => placeholder scope inner ++ interpolate scope after
      | none => '\x7b' :: rest := by
  rw [interpolate]
  · split <;> simp_all
  · intros
    subst_vars
    simp_all

theorem cut?_eq_none (h : c ∉ t) : cut? [c] t = none := by
  induction t with
  | nil => rfl
  | cons d ds ih =>
    have hne : (c == d) = false := by
      rw [beq_eq_false_iff_ne]
      rintro rfl
      exact h List.mem_cons_self
    have hprefix : [c].isPrefixOf? (d :: ds) = none := by
      rw [List.isPrefixOf?, hne]
      rfl
    rw [cut?, hprefix, ih fun hmem => h (List.mem_cons_of_mem d hmem)]
    rfl

/-- A placeholder is closed by the first closing brace behind its opening one, or by none. -/
theorem closing_cases (t : Text) :
    (findOffset? (· == '\x7d') ('\x7b' :: t) = none ∧ cut? ['\x7d'] t = none) ∨
      ∃ inner after, t = inner ++ '\x7d' :: after ∧
        findOffset? (· == '\x7d') ('\x7b' :: t) = some (byteLength ('\x7b' :: inner)) ∧
        cut? ['\x7d'] t = some (inner, after) := by
  obtain ⟨hfind, hnone⟩ | ⟨before, d, after, ht, hd, hbefore, hfind⟩ :=
    findOffset?_cases (· == '\x7d') ('\x7b' :: t)
  · refine .inl ⟨hfind, cut?_eq_none fun hmem => ?_⟩
    have hfalse := hnone '\x7d' (List.mem_cons_of_mem _ hmem)
    cases hfalse
  · obtain rfl := beq_iff_eq.mp hd
    cases before with
    | nil => cases ht
    | cons e inner =>
      rw [List.cons_append] at ht
      obtain ⟨rfl, rfl⟩ := List.cons.inj ht
      refine .inr ⟨inner, after, rfl, hfind, cut?_append (fun hmem => ?_) [] after⟩
      have hfalse := hbefore '\x7d' (List.mem_cons_of_mem _ hmem)
      cases hfalse

/-- A placeholder is cut out between the offsets of its braces. -/
theorem placeholderAt?_eq (inner after : Text) :
    placeholderAt? scope ('\x7b' :: (inner ++ '\x7d' :: after)) (byteLength ('\x7b' :: inner)) =
      some (placeholder scope inner) := by
  have hinner : byteSlice? ('\x7b' :: (inner ++ '\x7d' :: after)) 1
      (byteLength ('\x7b' :: inner)) = some inner :=
    byteSlice?_append ['\x7b'] inner ('\x7d' :: after)
  have hwhole : byteSlice? ('\x7b' :: (inner ++ '\x7d' :: after)) 0
      (byteLength ('\x7b' :: inner) + 1) = some ('\x7b' :: inner ++ ['\x7d']) := by
    have h := byteSlice?_front ('\x7b' :: inner ++ ['\x7d']) after
    rw [byteLength_append, List.append_assoc] at h
    exact h
  rw [placeholderAt?, hinner, hwhole, placeholder]
  show (match scope.get? (String.ofList inner.trim) with
    | some value => _
    | none => _) = _
  cases scope.get? (String.ofList inner.trim) with
  | none => rfl
  | some value =>
    dsimp only
    split <;> rfl

/-- A brace that is found is an opening or a closing one, doubled or not. -/
theorem isBrace_cases (hc : isBrace c = true) (back : Text) :
    (∃ rest, back = c :: rest) ∨ (c = '\x7d' ∧ back.head? ≠ some '\x7d') ∨
      (c = '\x7b' ∧ back.head? ≠ some '\x7b') := by
  by_cases hhead : back.head? = some c
  · obtain ⟨rest, hrest⟩ := List.head?_eq_some_iff.mp hhead
    exact .inl ⟨rest, hrest⟩
  · obtain hc | hc := Bool.or_eq_true_iff.mp hc
    · obtain rfl := beq_iff_eq.mp hc
      exact .inr (.inr ⟨rfl, hhead⟩)
    · obtain rfl := beq_iff_eq.mp hc
      exact .inr (.inl ⟨rfl, hhead⟩)

/-- A doubled brace stands for one. -/
theorem interpolate_doubled (hc : isBrace c = true) (rest : Text) :
    interpolate scope (c :: c :: rest) = c :: interpolate scope rest := by
  obtain hc | hc := Bool.or_eq_true_iff.mp hc <;> obtain rfl := beq_iff_eq.mp hc <;>
    rw [interpolate]

theorem utf8Size_of_isBrace (hc : isBrace c = true) : c.utf8Size = 1 := by
  obtain hc | hc := Bool.or_eq_true_iff.mp hc <;> obtain rfl := beq_iff_eq.mp hc <;> rfl

/-- Two braces at the front are doubled if they are the same. -/
theorem isDoubled_iff (t : Text) :
    (['\x7b', '\x7b'].isPrefixOf t || ['\x7d', '\x7d'].isPrefixOf t) = true ↔
      ∃ c rest, isBrace c = true ∧ t = c :: c :: rest := by
  rw [Bool.or_eq_true_iff, List.isPrefixOf_iff_prefix, List.isPrefixOf_iff_prefix]
  constructor
  · rintro (⟨rest, rfl⟩ | ⟨rest, rfl⟩)
    · exact ⟨'\x7b', rest, rfl, rfl⟩
    · exact ⟨'\x7d', rest, rfl, rfl⟩
  · rintro ⟨c, rest, hc, rfl⟩
    obtain hc | hc := Bool.or_eq_true_iff.mp hc
    · obtain rfl := beq_iff_eq.mp hc
      exact .inl ⟨rest, rfl⟩
    · obtain rfl := beq_iff_eq.mp hc
      exact .inr ⟨rest, rfl⟩

/-- A brace that is no half of two is at the front. -/
theorem not_isDoubled (h : t.head? ≠ some c) :
    ¬(['\x7b', '\x7b'].isPrefixOf (c :: t) || ['\x7d', '\x7d'].isPrefixOf (c :: t)) = true := by
  rw [isDoubled_iff]
  rintro ⟨d, rest, -, heq⟩
  cases heq
  exact h rfl

/-- **Every slice of a template is in range.** -/
theorem interpolateFrom?_eq (scope : Scope) (t : Text) :
    interpolateFrom? scope t = some (interpolate scope t) := by
  rw [interpolateFrom?]
  obtain ⟨hfind, hplain⟩ | ⟨front, c, back, rfl, hc, hfront, hfind⟩ := findOffset?_cases isBrace t
  · have happend : interpolate scope (t ++ []) = t ++ interpolate scope [] :=
      interpolate_append hplain []
    rw [List.append_nil] at happend
    rw [hfind, happend, interpolate, List.append_nil]
  · obtain ⟨_, hbehind⟩ := behind?_eq front (c :: back) rfl rfl
    have hone : c.utf8Size = 1 := utf8Size_of_isBrace hc
    rw [hfind, interpolate_append hfront]
    dsimp only
    rw [byteSlice?_front, hbehind]
    dsimp only [Option.bind_eq_bind, Option.bind_some]
    obtain ⟨rest, rfl⟩ | ⟨rfl, hhead⟩ | ⟨rfl, hhead⟩ := isBrace_cases hc back
    · have hshown : byteSlice? (c :: c :: rest) 0 1 = some [c] := by
        rw [← hone, ← byteLength_singleton]
        exact byteSlice?_front [c] (c :: rest)
      have htwo : byteLength [c, c] = 2 := by rw [byteLength_cons, byteLength_singleton, hone]
      obtain ⟨_, hrest⟩ := behind?_eq [c, c] rest (t := c :: c :: rest) rfl htwo
      have hshorter : byteLength rest < byteLength (front ++ c :: c :: rest) := by
        rw [byteLength_append, byteLength_cons, byteLength_cons]
        omega
      rw [if_pos ((isDoubled_iff _).mpr ⟨c, rest, hc, rfl⟩), hshown, hrest, interpolate_doubled hc]
      dsimp only [Option.bind_some]
      rw [interpolateFrom?_eq scope rest]
      rfl
    · obtain ⟨_, hrest⟩ := behind?_eq ['\x7d'] back (t := '\x7d' :: back) (n := 1) rfl rfl
      have hshorter : byteLength back < byteLength (front ++ '\x7d' :: back) := by
        rw [byteLength_append, byteLength_cons]
        omega
      have hclosing : (('\x7d' :: back).head? == some '\x7d') = true := beq_self_eq_true _
      rw [if_neg (not_isDoubled hhead), if_pos hclosing, hrest, interpolate_closing hhead]
      dsimp only [Option.bind_some]
      rw [interpolateFrom?_eq scope back]
      rfl
    · have hopening : ¬(('\x7b' :: back).head? == some '\x7d') = true := by
        rw [List.head?_cons, beq_iff_eq, Option.some.injEq]
        decide
      rw [if_neg (not_isDoubled hhead), if_neg hopening, interpolate_opening hhead]
      obtain ⟨hfind, hcut⟩ | ⟨inner, after, rfl, hfind, hcut⟩ := closing_cases back
      · rw [hfind, hcut]
        rfl
      · have hparts : '\x7b' :: (inner ++ '\x7d' :: after) =
            ('\x7b' :: inner ++ ['\x7d']) ++ after := by
          rw [List.append_assoc]
          rfl
        have hlength : byteLength ('\x7b' :: inner ++ ['\x7d']) =
            byteLength ('\x7b' :: inner) + 1 := byteLength_append _ _
        obtain ⟨_, hrest⟩ := behind?_eq _ after hparts hlength
        have hshorter : byteLength after <
            byteLength (front ++ '\x7b' :: (inner ++ '\x7d' :: after)) := by
          rw [byteLength_append, hparts, byteLength_append, hlength]
          omega
        rw [hfind, hcut]
        dsimp only
        rw [placeholderAt?_eq, hrest]
        dsimp only [Option.bind_some]
        rw [interpolateFrom?_eq scope after]
        rfl
termination_by byteLength t

end Offside.Access
