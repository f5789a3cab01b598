import Offside.Proofs.Expr.Acceptance

/-!
# Expressions that open with a bracket

An expression whose tokens begin with a list, or with a name and its arguments, is
that list or that call, or it goes on behind it and is something else. So the tree
says whether the bracket reaches to the end.
-/

namespace Offside

variable {closing : Closing} {build : List Expr → Expr} {lead ts us rest : List Token}
  {t : Token} {e : Expr}

/-- What joins, compares or subscripts a first operand. -/
def Expr.isJoined : Expr → Bool
  | arith _ _ _ _ | comparison _ _ | logical _ _ _ | subscript _ _ _ => true
  | _ => false

/-- The tokens open a bracket: of a list, or of the arguments of a name. What is in
the bracket is put into a tree by `build`. -/
inductive Lead : List Token → Closing → (List Expr → Expr) → Prop
  | list {t : Token} (ht : t.kind = .leftBracket) : Lead [t] .list .list
  | call {t u : Token} {name : String} {column : Nat} (ht : Stands t (.var name column))
    (hu : u.kind = .leftParen) : Lead [t, u] .arguments (.call name column)

/-- Behind an opened bracket stand its elements, the closing token, and the rest. The
tree is what is built of the elements, unless it goes on. -/
def Opens (closing : Closing) (build : List Expr → Expr) (ts : List Token) (e : Expr) : Prop :=
  ∃ us u vs es, ts = us ++ u :: vs ∧ u.kind = closing.kind ∧ Elements us es ∧
    (vs = [] ∧ e = build es ∨ vs ≠ [] ∧ e.isJoined = true)

/-- What is opened stays open behind a token more. -/
theorem Opens.extend {left : Expr} (h : Opens closing build ts left) (he : e.isJoined = true)
    (t : Token) (us : List Token) : Opens closing build (ts ++ t :: us) e := by
  obtain ⟨xs, u, vs, es, rfl, hu, hxs, -⟩ := h
  refine ⟨xs, u, vs ++ t :: us, es, ?_, hu, hxs, .inr ⟨?_, he⟩⟩
  · rw [List.append_assoc, List.cons_append]
  · exact List.append_ne_nil_of_right_ne_nil _ (List.cons_ne_nil t us)

theorem Stands.kind_of_var {name : String} {column : Nat} (h : Stands t (.var name column)) :
    t.kind = .identifier := by
  cases h
  assumption

/-- What leads to an element starts with an opening bracket or a name. -/
theorem Lead.first (h : Lead lead closing build) (hts : t :: ts = lead ++ rest) :
    t.kind = .leftBracket ∨ t.kind = .identifier := by
  cases h with
  | list ht =>
    cases hts
    exact .inl ht
  | call ht hu =>
    cases hts
    exact .inr ht.kind_of_var

/-- Tokens in front of one that is no opening parenthesis begin with the whole lead. -/
theorem Lead.split (h : Lead lead closing build) (hts : ts ++ t :: us = lead ++ rest)
    (hne : ts ≠ []) (ht : t.kind ≠ .leftParen) :
    ∃ front, ts = lead ++ front ∧ rest = front ++ t :: us := by
  cases ts with
  | nil => exact absurd rfl hne
  | cons x xs =>
    cases h with
    | list _ =>
      cases hts
      exact ⟨xs, rfl, rfl⟩
    | call _ hu =>
      cases xs with
      | nil =>
        cases hts
        exact absurd hu ht
      | cons y ys =>
        cases hts
        exact ⟨ys, rfl, rfl⟩

/-- A variable alone opens nothing. -/
theorem Opens.not_var {name : String} {column : Nat} (hlead : Lead lead closing build)
    (h : Opens closing build ts (.var name column)) : False := by
  obtain ⟨_, _, _, _, -, -, -, ⟨-, he⟩ | ⟨-, he⟩⟩ := h
  · cases hlead <;> contradiction
  · contradiction

/-- Joined operands are joined, and not by a parenthesis. -/
theorem Joins.isJoined {join : Join} {left right joined : Expr}
    (h : Joins join t left right joined) : joined.isJoined = true ∧ t.kind ≠ .leftParen := by
  cases h <;> exact ⟨rfl, by simp only [*]; decide⟩

theorem Links.first {link : Relation × Nat × Expr} {links : List (Relation × Nat × Expr)}
    (h : Links us (link :: links)) : ∃ t ts, us = t :: ts ∧ t.kind ≠ .leftParen := by
  cases h with
  | @cons ts us t op e links ht he hlinks =>
    refine ⟨t, ts ++ us, rfl, ?_⟩
    intro hkind
    rw [hkind] at ht
    cases ht
  | notIn ht hu he hlinks =>
    refine ⟨_, _, rfl, ?_⟩
    rw [ht]
    decide

/-- **The first bracket of an expression.** An expression that begins with a bracket
ends with it exactly if it is the list or the call that the bracket makes. -/
theorem Derives.opens (hlead : Lead lead closing build) {level : Level} {ts : List Token}
    {e : Expr} :
    Derives level ts e → ∀ {rest : List Token}, ts = lead ++ rest → Opens closing build rest e
  | .operand he, _, hts | .compared he, _, hts | .single he, _, hts | .unsigned he, _, hts
  | .base he, _, hts | .bare he, _, hts => he.opens hlead hts
  | .join hleft ht hright, _, hts => by
    obtain ⟨hjoined, hkind⟩ := ht.isJoined
    obtain ⟨front, hfront, rfl⟩ := hlead.split hts hleft.ne_nil hkind
    exact (hleft.opens hlead hfront).extend hjoined _ _
  | .not ht he, _, hts => by
    rcases hlead.first hts with hkind | hkind <;> rw [ht] at hkind <;> contradiction
  | .chain hfirst hlinks, _, hts => by
    obtain ⟨t, us, rfl, hkind⟩ := hlinks.first
    obtain ⟨front, hfront, rfl⟩ := hlead.split hts hfirst.ne_nil hkind
    exact (hfirst.opens hlead hfront).extend rfl _ _
  | .sign ht he, _, hts => by
    rcases hlead.first hts with hkind | hkind <;> rw [hkind] at ht <;> cases ht
  | .power hbase ht hexponent, _, hts => by
    obtain ⟨front, hfront, rfl⟩ := hlead.split hts hbase.ne_nil (by rw [ht]; decide)
    exact (hbase.opens hlead hfront).extend rfl _ _
  | .call hcallee ht harguments hu, rest, hts => by
    obtain ⟨x, xs, hxs⟩ := List.exists_cons_of_ne_nil hcallee.ne_nil
    rw [hxs] at hts
    -- a callee is a name, and no name begins with the whole lead
    have hshort (front : List Token) (hfront : x :: xs = lead ++ front) : False :=
      (hcallee.opens hlead (hxs.trans hfront)).not_var hlead
    cases hlead with
    | list hopen =>
      cases (List.cons.inj hts).1
      exact (hshort xs rfl).elim
    | @call t' u' name column hname hopen =>
      obtain ⟨rfl, htail⟩ := List.cons.inj hts
      cases xs with
      -- the callee is the name alone, and this bracket is the one that the lead opens
      | nil =>
        obtain ⟨-, hrest⟩ := List.cons.inj htail
        have hrest' : rest = _ := hrest.symm
        subst hrest'
        rw [hxs] at hcallee
        cases hcallee.unique (.bare (.stands hname))
        exact ⟨_, _, [], _, rfl, hu, harguments, .inl ⟨rfl, rfl⟩⟩
      | cons y ys =>
        cases (List.cons.inj htail).1
        exact (hshort ys rfl).elim
  | .subscript hcontainer ht hindex hu, _, hts => by
    obtain ⟨front, hfront, rfl⟩ := hlead.split hts hcontainer.ne_nil (by rw [ht]; decide)
    exact (hcontainer.opens hlead hfront).extend rfl _ _
  | .stands ht, _, hts => by
    cases hlead with
    | list hopen =>
      cases hts
      cases ht <;> simp_all
    | call hname hopen => cases hts
  | .group ht he hu, _, hts => by
    rcases hlead.first hts with hkind | hkind <;> rw [ht] at hkind <;> contradiction
  | .list ht helements hu, rest, hts => by
    cases hlead with
    | list hopen =>
      have hrest : rest = _ := (List.cons.inj hts).2.symm
      subst hrest
      exact ⟨_, _, [], _, rfl, hu, helements, .inl ⟨rfl, rfl⟩⟩
    | call hname hopen =>
      cases (List.cons.inj hts).1
      have hkind := hname.kind_of_var
      rw [ht] at hkind
      contradiction

end Offside
