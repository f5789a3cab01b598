import Offside.Proofs.Expr.Grammar

/-!
# Pairs of brackets

The brackets of a token list, each opening one with the one that closes it. In the tokens
of an expression every bracket has its partner:

> `Derives.paired`: an expression adds pairs of its own to those around it.

Between the partners of a pair stands what it encloses:

> `enclosing_eq`: in front of all tokens, a place is enclosed by the brackets that were
> opened before it.
-/

namespace Offside

variable {offset column : Nat} {opened ts us : List Token} {t u : Token} {e : Expr}
  {pairs : List (Nat × Nat)}

/-- The kind of bracket that closes what a token of the kind opens. -/
def TokenKind.closing? : TokenKind → Option TokenKind
  | leftParen => some .rightParen
  | leftBracket => some .rightBracket
  | _ => none

/-- The token closes a bracket. -/
def TokenKind.isClosing : TokenKind → Bool
  | rightParen | rightBracket => true
  | _ => false

/-- The columns of the partners, in the order in which they are closed. There are none
if a bracket has no partner, or one of another shape. The brackets `opened` stand in front
of the tokens, the last one first. -/
def bracketPairs? (opened : List Token) : List Token → Option (List (Nat × Nat))
  | [] => if opened.isEmpty then some [] else none
  | t :: ts =>
    if t.kind.closing?.isSome then bracketPairs? (t :: opened) ts
    else if t.kind.isClosing then
      match opened with
      | [] => none
      | o :: opened =>
        if o.kind.closing? = some t.kind then
          (bracketPairs? opened ts).map fun pairs => (o.column, t.column) :: pairs
        else none
    else bracketPairs? opened ts

/-- How many pairs a place is enclosed by. -/
def enclosing (pairs : List (Nat × Nat)) (offset : Nat) : Nat :=
  pairs.countP fun (first, last) => first < offset && offset < last

/-- The first token opens a bracket, closes the last one opened, or is no bracket. -/
theorem bracketPairs?_cons (h : bracketPairs? opened (t :: ts) = some pairs) :
    t.kind.closing?.isSome = true ∧ bracketPairs? (t :: opened) ts = some pairs ∨
    (∃ o outer rest, opened = o :: outer ∧ t.kind.isClosing = true ∧
      bracketPairs? outer ts = some rest ∧ pairs = (o.column, t.column) :: rest) ∨
    t.kind.closing? = none ∧ t.kind.isClosing = false ∧ bracketPairs? opened ts = some pairs := by
  unfold bracketPairs? at h
  split at h
  next hopening => exact .inl ⟨hopening, h⟩
  next hopening =>
  split at h
  next hclosing =>
    split at h
    next => contradiction
    next o outer =>
      split at h
      next =>
        obtain ⟨rest, hrest, rfl⟩ := Option.map_eq_some_iff.mp h
        exact .inr (.inl ⟨o, outer, rest, rfl, hclosing, hrest, rfl⟩)
      next => contradiction
  next hclosing =>
    refine .inr (.inr ⟨?_, Bool.eq_false_iff.mpr hclosing, h⟩)
    exact Option.not_isSome_iff_eq_none.mp hopening

/-- A pair more encloses the places between its brackets once more. -/
theorem enclosing_cons (first last offset : Nat) (pairs : List (Nat × Nat)) :
    enclosing ((first, last) :: pairs) offset =
      enclosing pairs offset + if first < offset ∧ offset < last then 1 else 0 := by
  simp [enclosing, List.countP_cons]

/-- A place in front of all tokens is enclosed by what was opened before it. -/
theorem enclosing_eq (h : bracketPairs? opened ts = some pairs)
    (hts : ∀ t ∈ ts, offset < t.column) :
    enclosing pairs offset = opened.countP fun o => o.column < offset := by
  induction ts generalizing opened pairs with
  | nil =>
    rw [bracketPairs?] at h
    split at h
    next hempty =>
      cases h
      rw [List.isEmpty_iff.mp hempty]
      rfl
    next => contradiction
  | cons t ts ih =>
    have ht := hts t List.mem_cons_self
    have hts' := fun u hu => hts u (List.mem_cons_of_mem t hu)
    rcases bracketPairs?_cons h with
      ⟨-, hpairs⟩ | ⟨o, outer, rest, rfl, -, hpairs, rfl⟩ | ⟨-, -, hpairs⟩
    · rw [ih hpairs hts', List.countP_cons_of_neg]
      simp only [decide_eq_true_eq]
      omega
    · rw [enclosing_cons, ih hpairs hts', List.countP_cons]
      simp only [ht, and_true, decide_eq_true_eq]
    · exact ih hpairs hts'

/-! ## The pairs of an expression -/

/-- The tokens add pairs of their own to those of the brackets around them. -/
def Paired (ts : List Token) : Prop :=
  ∃ pairs, ∀ opened us, bracketPairs? opened (ts ++ us) =
    (bracketPairs? opened us).map fun rest => pairs ++ rest

theorem paired_nil : Paired [] :=
  ⟨[], fun _ _ => Option.map_id'.symm⟩

/-- Two stretches of paired brackets are paired together. -/
theorem Paired.append (hts : Paired ts) (hus : Paired us) : Paired (ts ++ us) := by
  obtain ⟨pairs, hpairs⟩ := hts
  obtain ⟨pairs', hpairs'⟩ := hus
  refine ⟨pairs ++ pairs', fun opened vs => ?_⟩
  rw [List.append_assoc, hpairs, hpairs', Option.map_map]
  simp only [Function.comp_def, List.append_assoc]

/-- A token that is no bracket leaves the pairs as they are. -/
theorem Paired.cons (ht : t.kind.closing? = none) (hclosing : t.kind.isClosing = false)
    (hts : Paired ts) : Paired (t :: ts) := by
  obtain ⟨pairs, hpairs⟩ := hts
  refine ⟨pairs, fun opened us => ?_⟩
  rw [List.cons_append, bracketPairs?.eq_def]
  simp only [ht, hclosing, Option.isSome_none, Bool.false_eq_true, if_false, hpairs]

/-- Brackets of one shape around tokens are a pair. -/
theorem Paired.enclosed (h : t.kind.closing? = some u.kind) (hts : Paired ts) :
    Paired (t :: (ts ++ [u])) := by
  obtain ⟨pairs, hpairs⟩ := hts
  refine ⟨pairs ++ [(t.column, u.column)], fun opened us => ?_⟩
  have hclosing : u.kind.closing?.isSome = false ∧ u.kind.isClosing = true := by
    cases hkind : t.kind <;> rw [hkind] at h <;> cases h' : u.kind <;> rw [h'] at h <;>
      first | contradiction | exact ⟨rfl, rfl⟩
  have hu : bracketPairs? (t :: opened) (u :: us) =
      (bracketPairs? opened us).map fun rest => (t.column, u.column) :: rest := by
    rw [bracketPairs?.eq_def]
    simp only [hclosing, h, Bool.false_eq_true, if_false, if_true]
  rw [List.cons_append, List.append_assoc, bracketPairs?.eq_def]
  simp only [h, Option.isSome_some, if_true, List.singleton_append]
  rw [hpairs, hu, Option.map_map]
  simp only [Function.comp_def, List.append_assoc, List.singleton_append]

/-- No operator is a bracket. -/
theorem Joins.paired {join : Join} {left right : Expr} (h : Joins join t left right e)
    (hts : Paired ts) : Paired (t :: ts) := by
  cases h <;> exact hts.cons (by simp only [*]; rfl) (by simp only [*]; rfl)

theorem Compares.paired {op : Relation} (h : Compares t.kind op) (hts : Paired ts) :
    Paired (t :: ts) := by
  refine hts.cons ?_ ?_ <;> cases hkind : t.kind <;> rw [hkind] at h <;> first | rfl | cases h

theorem Signs.paired {op : UnaryOp} (h : Signs t.kind op) (hts : Paired ts) :
    Paired (t :: ts) := by
  refine hts.cons ?_ ?_ <;> cases hkind : t.kind <;> rw [hkind] at h <;> first | rfl | cases h

/-- What stands for itself is no bracket. -/
theorem Stands.paired (h : Stands t e) : Paired [t] := by
  cases h <;> exact paired_nil.cons (by simp only [*]; rfl) (by simp only [*]; rfl)

mutual

/-- **Every bracket of an expression has its partner.** -/
theorem Derives.paired {level : Level} {ts : List Token} {e : Expr} :
    Derives level ts e → Paired ts
  | .operand he | .compared he | .single he | .unsigned he | .base he | .bare he => he.paired
  | .join hleft ht hright => hleft.paired.append (ht.paired hright.paired)
  | .not ht he => he.paired.cons (by rw [ht]; rfl) (by rw [ht]; rfl)
  | .chain hfirst hlinks => hfirst.paired.append hlinks.paired
  | .sign ht he => ht.paired he.paired
  | .power hbase ht hexponent =>
    hbase.paired.append (hexponent.paired.cons (by rw [ht]; rfl) (by rw [ht]; rfl))
  | .call hcallee ht harguments hu =>
    hcallee.paired.append (harguments.paired.enclosed (by rw [ht, hu]; rfl))
  | .subscript hcontainer ht hindex hu =>
    hcontainer.paired.append (hindex.paired.enclosed (by rw [ht, hu]; rfl))
  | .stands ht => ht.paired
  | .group ht he hu => he.paired.enclosed (by rw [ht, hu]; rfl)
  | .list ht helements hu => helements.paired.enclosed (by rw [ht, hu]; rfl)

/-- The brackets in the links of a comparison are paired. -/
theorem Links.paired {ts : List Token} {links : List (Relation × Nat × Expr)} :
    Links ts links → Paired ts
  | .nil => paired_nil
  | .cons ht he hlinks => ht.paired (he.paired.append hlinks.paired)
  | .notIn ht hu he hlinks =>
    ((he.paired.append hlinks.paired).cons (by rw [hu]; rfl) (by rw [hu]; rfl)).cons
      (by rw [ht]; rfl) (by rw [ht]; rfl)

/-- The brackets in elements are paired. -/
theorem Elements.paired {ts : List Token} {es : List Expr} : Elements ts es → Paired ts
  | .nil => paired_nil
  | .last he => he.paired
  | .cons he ht hes =>
    he.paired.append (hes.paired.cons (by rw [ht]; rfl) (by rw [ht]; rfl))

end

end Offside
