import Offside.Proofs.Access.Texts

/-!
# Cutting assignments by byte offsets

The form of an assignment again, as a search through the characters outside quotes. Beside an
equals sign two bytes are looked at, the one behind it and, unless it starts the text, the one
in front of it; then the text is cut at the sign and before its operator. The search agrees
with `cutAtAssignment?` sign by sign: what it carries along is only whether the next sign is
the second of two. Main result: `assignmentParts?_eq`.
-/

namespace Offside.Access

open Text

variable {s : Nesting}

/-! ## Operators -/

/-- Subtraction that does not go below zero. -/
def difference? (a b : Nat) : Option Nat :=
  if b ≤ a then some (a - b) else none

/-- Where a text ends without the operator at its end, and the operator. -/
def operatorEnd? (t : Text) : List ArithOp → Option (Nat × Option ArithOp)
  | [] => some (byteLength t, none)
  | op :: ops =>
    if op.symbol.toList.isSuffixOf t then
      (difference? (byteLength t) (byteLength op.symbol.toList)).map (·, some op)
    else operatorEnd? t ops

/-- An operator is cut off at the offset where the text in front of it ends. -/
theorem operatorEnd?_eq (t : Text) (ops : List ArithOp) :
    ∃ front back op, t = front ++ back ∧ operatorEnd? t ops = some (byteLength front, op) ∧
      (ops.findSome? fun op => (op.symbol.toList.isSuffixOf? t).map fun before =>
        (before, some op)).getD (t, none) = (front, op) := by
  induction ops with
  | nil => exact ⟨t, [], none, (List.append_nil t).symm, rfl, rfl⟩
  | cons op ops ih =>
    rw [operatorEnd?, List.findSome?_cons]
    cases hcut : op.symbol.toList.isSuffixOf? t with
    | none =>
      have hnot : ¬op.symbol.toList.isSuffixOf t = true := by
        rw [List.isSuffixOf_iff_suffix]
        rintro ⟨front, hfront⟩
        rw [List.isSuffixOf?_eq_some_iff_append_eq.mpr hfront] at hcut
        cases hcut
      rw [if_neg hnot]
      exact ih
    | some front =>
      have ht := List.isSuffixOf?_eq_some_iff_append_eq.mp hcut
      have hsuffix : op.symbol.toList.isSuffixOf t = true :=
        List.isSuffixOf_iff_suffix.mpr ⟨front, ht⟩
      refine ⟨front, op.symbol.toList, some op, ht.symm, ?_, rfl⟩
      rw [if_pos hsuffix, difference?, ← ht, byteLength_append, if_pos (Nat.le_add_left _ _),
        Nat.add_sub_cancel]
      rfl

/-! ## Signs -/

/-- Whether the byte in front of an equals sign makes it the end of a comparison. -/
def endsComparisonAt? (t : Text) (offset : Nat) : Option Bool :=
  if 0 < offset then
    (bytes t)[offset - 1]?.map fun b => b == onlyByte '!' || b == onlyByte '<' || b == onlyByte '>'
  else some false

/-- The assignment that a text is, if its sign is at an offset. -/
def assignmentAt? (t : Text) (offset : Nat) :
    Option (Option (Except SyntaxFault Statement)) := do
  let before ← byteSlice? t 0 offset
  let (leftEnd, op) ← operatorEnd? before assignmentOperators
  let left ← byteSlice? t 0 leftEnd
  match ← targetParts? left.trim with
  | none => return none
  | some target =>
    let value ← byteSlice? t (offset + 1) (byteLength t)
    return if value.trim.isEmpty then some (.error .noValue)
      else some (.ok (.assign target op value.trim))

/-- Looks for the sign of an assignment among some characters; `skip` holds if the next equals
sign is the second of two. -/
def assignmentFrom? (t : Text) (skip : Bool) :
    List (Nat × Char × Nat) → Option (Option (Except SyntaxFault Statement))
  | [] => some none
  | (offset, c, depth) :: more =>
    if c != '=' || depth != 0 then assignmentFrom? t skip more
    else if skip then assignmentFrom? t false more
    else if (bytes t)[offset + 1]? == some (onlyByte '=') then assignmentFrom? t true more
    else do
      if ← endsComparisonAt? t offset then assignmentFrom? t false more
      else assignmentAt? t offset

/-- The assignment that a text is. -/
def assignmentParts? (t : Text) : Option (Option (Except SyntaxFault Statement)) :=
  assignmentFrom? t false (outside Nesting.start 0 t)

/-- The assignment that two sides of a sign are. -/
def assigned? (before after : Text) : Option (Except SyntaxFault Statement) :=
  match target? before.cutOperator.1.trim with
  | none => none
  | some target =>
    if after.trim.isEmpty then some (.error .noValue)
    else some (.ok (.assign target before.cutOperator.2 after.trim))

theorem assign_eq (t : Text) :
    LineForm.assign t = (cutAtAssignment? Nesting.start none false t).bind fun sides =>
      assigned? sides.1 sides.2 := by
  rw [LineForm.assign]
  cases cutAtAssignment? Nesting.start none false t <;> rfl

theorem assignmentAt?_eq (before after : Text) :
    assignmentAt? (before ++ '=' :: after) (byteLength before) =
      some (assigned? before after) := by
  obtain ⟨front, back, op, hbefore, hend, hcut⟩ := operatorEnd?_eq before assignmentOperators
  have hleft : byteSlice? (before ++ '=' :: after) 0 (byteLength front) = some front := by
    rw [hbefore, List.append_assoc]
    exact byteSlice?_front _ _
  have hvalue : byteSlice? (before ++ '=' :: after) (byteLength before + 1)
      (byteLength (before ++ '=' :: after)) = some after := by
    have h := byteSlice?_back (before ++ ['=']) after
    rw [byteLength_append before, List.append_assoc, List.singleton_append] at h
    exact h
  have hoperator : before.cutOperator = (front, op) := hcut
  rw [assignmentAt?, assigned?, byteSlice?_front, hoperator]
  dsimp only [Option.bind_eq_bind, Option.bind_some]
  rw [hend]
  dsimp only [Option.bind_some]
  rw [hleft, Option.bind_some, targetParts?_eq, Option.bind_some]
  cases target? (trim front) with
  | none => rfl
  | some target =>
    dsimp only
    rw [hvalue, Option.bind_some]
    rfl

/-! ## The search -/

/-- The byte behind an equals sign is another one if the next character is. -/
theorem byteBehind_eq (front cs : Text) :
    ((bytes (front ++ '=' :: cs))[byteLength front + 1]? == some (onlyByte '=')) =
      (cs.head? == some '=') := by
  have hoffset : byteLength front + 1 = byteLength (front ++ ['=']) := by
    rw [byteLength_append]
    rfl
  rw [hoffset, ← List.singleton_append, ← List.append_assoc, bytes_getElem?_behind,
    Bool.eq_iff_iff, beq_iff_eq, beq_iff_eq]
  exact head?_bytes cs (by decide)

theorem endsComparisonAt?_eq (front cs : Text) :
    endsComparisonAt? (front ++ cs) (byteLength front) = some (endsComparison front.getLast?) := by
  obtain rfl | ⟨front, c, rfl⟩ := List.eq_nil_or_concat front
  · rfl
  · rw [List.concat_eq_append]
    have hpos : 0 < byteLength (front ++ [c]) := by
      rw [byteLength_append, byteLength_singleton]
      exact Nat.add_pos_right _ c.utf8Size_pos
    have hbyte : ∀ d : Char, d.toNat ≤ 127 →
        ((bytes (front ++ [c])).getLast? == some (onlyByte d)) = (some c == some d) := by
      intro d hd
      rw [Bool.eq_iff_iff, beq_iff_eq, beq_iff_eq, getLast?_bytes front c hd, Option.some.injEq]
    have hne : bytes (front ++ [c]) ≠ [] := by
      rw [← List.length_pos_iff, length_bytes]
      exact hpos
    rw [endsComparisonAt?, if_pos hpos, bytes_getElem?_before _ _ (by simp), endsComparison,
      List.getLast?_concat, ← hbyte '!' (by decide), ← hbyte '<' (by decide),
      ← hbyte '>' (by decide), List.getLast?_eq_some_getLast hne]
    rfl

/-- Where an equals sign has depth zero, the reading stands outside quotes and brackets. -/
theorem plain_of_level (h : s.level '=' = some 0) : s = .plain 0 := by
  cases s with
  | plain depth =>
    cases h
    rfl
  | quoted | escaped => cases h

/-- From a character on, the search finds what the cut does. -/
def SearchAgrees (s : Nesting) (front cs : Text) (paired : Bool) : Prop :=
  assignmentFrom? (front ++ cs) paired (outside s (byteLength front) cs) =
    some ((cutAtAssignment? s front.getLast? paired cs).bind fun sides =>
      assigned? (front ++ sides.1) sides.2)

variable {c : Char} {front cs : Text} {paired : Bool}

/-- What is found behind a character has the character in front of it. -/
theorem SearchAgrees.passed (h : SearchAgrees (s.next c) (front ++ [c]) cs paired) :
    assignmentFrom? (front ++ c :: cs) paired
        (outside (s.next c) (byteLength front + c.utf8Size) cs) =
      some (((cutAtAssignment? (s.next c) (some c) paired cs).map fun sides =>
        (c :: sides.1, sides.2)).bind fun sides => assigned? (front ++ sides.1) sides.2) := by
  rw [SearchAgrees, byteLength_append, byteLength_singleton, List.getLast?_concat,
    List.append_assoc, List.singleton_append] at h
  rw [h]
  cases cutAtAssignment? (s.next c) (some c) paired cs with
  | none => rfl
  | some sides =>
    show some (assigned? (front ++ [c] ++ sides.1) sides.2) = _
    rw [List.append_assoc, List.singleton_append]
    rfl

/-- A character that is no equals sign outside quotes and brackets is passed. -/
theorem searchAgrees_plain (hsign : ¬(c = '=' ∧ s.level c = some 0))
    (hnext : SearchAgrees (s.next c) (front ++ [c]) cs false) :
    SearchAgrees s front (c :: cs) false := by
  have hplain : (c == '=' && s.level c == some 0) = false := by
    rw [Bool.and_eq_false_iff, beq_eq_false_iff_ne, beq_eq_false_iff_ne]
    exact Classical.not_and_iff_not_or_not.mp hsign
  rw [SearchAgrees, cutAtAssignment?, hplain]
  refine Eq.trans ?_ hnext.passed
  rw [outside]
  cases hlevel : s.level c with
  | none => rfl
  | some depth =>
    dsimp only
    rw [assignmentFrom?, if_pos]
    rw [hlevel] at hsign
    simpa [Classical.or_iff_not_imp_left] using hsign

/-- An equals sign is passed if it is one of two or ends a comparison; else the text is cut
there. -/
theorem searchAgrees_sign
    (hnext : ∀ pair : Bool, (pair = true → cs.head? = some '=') →
      SearchAgrees (.plain 0) (front ++ ['=']) cs pair) :
    SearchAgrees (.plain 0) front ('=' :: cs) paired := by
  have hsingle := (hnext false (absurd · Bool.false_ne_true)).passed (s := .plain 0)
  show assignmentFrom? _ paired ((_, '=', 0) :: _) = _
  rw [assignmentFrom?, cutAtAssignment?]
  rw [if_neg (show ¬('=' != '=' || (0 : Nat) != 0) = true from Bool.false_ne_true)]
  cases paired with
  | true => exact hsingle
  | false =>
    rw [if_neg Bool.false_ne_true, byteBehind_eq]
    by_cases hhead : cs.head? = some '='
    · have hmore := (hnext true fun _ => hhead).passed (s := .plain 0)
      rw [hhead]
      exact hmore
    · have hpair : (cs.head? == some '=') = false := beq_eq_false_iff_ne.mpr hhead
      rw [hpair, if_neg Bool.false_ne_true, endsComparisonAt?_eq]
      cases hends : endsComparison front.getLast? with
      | true => exact hsingle
      | false =>
        show assignmentAt? (front ++ '=' :: cs) _ = some (assigned? (front ++ []) cs)
        rw [List.append_nil]
        exact assignmentAt?_eq front cs

/-- The search goes on at a character as the cut does, with as much behind it. -/
theorem searchAgrees (s : Nesting) (front cs : Text) (paired : Bool)
    (hpaired : paired = true → s = .plain 0 ∧ cs.head? = some '=') :
    SearchAgrees s front cs paired := by
  induction cs generalizing s front paired with
  | nil => rfl
  | cons c cs ih =>
    by_cases hsign : c = '=' ∧ s.level c = some 0
    · obtain ⟨rfl, hlevel⟩ := hsign
      rw [plain_of_level hlevel]
      exact searchAgrees_sign fun pair hpair => ih _ _ pair fun h => ⟨rfl, hpair h⟩
    · have hunpaired : paired = false := by
        cases paired with
        | false => rfl
        | true =>
          obtain ⟨rfl, hhead⟩ := hpaired rfl
          obtain rfl := Option.some.inj hhead
          exact absurd ⟨rfl, rfl⟩ hsign
      rw [hunpaired]
      exact searchAgrees_plain hsign (ih _ _ false (absurd · Bool.false_ne_true))

/-- **Every slice of an assignment is in range.** -/
theorem assignmentParts?_eq (t : Text) : assignmentParts? t = some (LineForm.assign t) := by
  rw [assign_eq]
  exact searchAgrees Nesting.start [] t false (absurd · Bool.false_ne_true)

end Offside.Access
