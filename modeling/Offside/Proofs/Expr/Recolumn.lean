import Offside.Proofs.Expr.Columns
import Offside.Proofs.Expr.Failing

/-!
# The parser at other columns

The parser puts the columns of its tokens into trees and faults, and decides nothing by
them. So with other columns it gives the tree or the fault that it gave, with the other
columns in it. For trees this goes by derivations, which do not depend on columns. A fault
has no derivation: it is followed through the steps of the parser, and what was read in
front of it is read again at the other columns.

> `parse_recolumn`: what tokens form at other columns.
-/

namespace Offside

variable {f : Nat → Nat} {stop t : Token} {join : Join} {level : Level} {closing : Closing}
  {kinds : List TokenKind} {ts rest : List Token} {e : Expr} {fault : ParseFault}

/-- The fault with the column in it changed. -/
def ParseFault.recolumn (f : Nat → Nat) : ParseFault → ParseFault
  | .unexpected found column => .unexpected found (f column)
  | .unclosed closing found column => .unclosed closing found (f column)
  | .noOperand found column => .noOperand found (f column)
  | .notNamed column => .notNamed (f column)
  | .noEnd => .noEnd

@[inherit_doc ParseFault.recolumn]
def Fault.recolumn (f : Nat → Nat) : Fault → Fault
  | .lexical fault => .lexical { fault with column := f fault.column }
  | .parse fault => .parse (fault.recolumn f)
  | .runtime fault => .runtime fault

@[simp] theorem Token.kind_recolumn (t : Token) : (t.recolumn f).kind = t.kind := rfl

/-! ## What is looked at in front of the tokens -/

/-- A relation is found at every column. -/
theorem relation?_recolumn (f : Nat → Nat) (ts : List Token) :
    relation? (ts.map (Token.recolumn f)) =
      (relation? ts).map fun (op, column, us) => (op, f column, us.map (Token.recolumn f)) := by
  match ts with
  | [] => rfl
  | t :: us =>
    simp only [List.map_cons, relation?, Token.recolumn]
    split
    case h_8 =>
      -- the token behind `not` is looked at too
      cases us with
      | nil => rfl
      | cons u us =>
        by_cases hin : u.kind = .inWord <;>
          simp only [List.map_cons, Token.kind_recolumn, hin, if_true, if_false, Option.map_some,
            Option.map_none]
    all_goals rfl

/-- What goes on behind an operand does not depend on columns. -/
theorem continued?_recolumn (f : Nat → Nat) (ts : List Token) :
    continued? (ts.map (Token.recolumn f)) = continued? ts := by
  cases ts with
  | nil => rfl
  | cons t us =>
    have hrelation := relation?_recolumn f (t :: us)
    rw [List.map_cons] at hrelation
    simp only [List.map_cons, continued?, hrelation, Option.isSome_map]
    rfl

/-- What may follow an operand may follow it at every column. -/
theorem Follows.recolumn (h : Follows level rest) (f : Nat → Nat) :
    Follows level (rest.map (Token.recolumn f)) :=
  h.congr (continued?_recolumn f rest)

/-- Operands are joined at every column alike. -/
theorem build?_recolumn {build : Expr → Expr → Expr} (h : join.build? t = some build)
    (f : Nat → Nat) : ∃ build', join.build? (t.recolumn f) = some build' ∧
      ∀ left right, build' (left.recolumn f) (right.recolumn f) =
        (build left right).recolumn f := by
  unfold Join.build? at h
  split at h <;> cases h <;>
    exact ⟨_, by simp only [Join.build?, Token.recolumn, *], fun _ _ => rfl⟩

/-- A token that stands for nothing does so at every column. -/
theorem atom_fails_recolumn (h : atom t = .error fault) (f : Nat → Nat) :
    atom (t.recolumn f) = .error (fault.recolumn f) := by
  unfold atom at h
  split at h <;> cases h <;> simp only [atom, Token.recolumn, ParseFault.recolumn, *]

/-- A bracket that is not closed is missed at the column of its text. -/
theorem unclosed_recolumn (f : Nat → Nat) (stop : Token) (closing : Closing) (ts : List Token) :
    unclosed (stop.recolumn f) closing (ts.map (Token.recolumn f)) =
      (unclosed stop closing ts).recolumn f := by
  cases ts <;> rfl

/-! ## What is read -/

/-- What was read is read at other columns, and leaves the same tokens. -/
theorem reads_recolumn (h : Reads (parseAt stop level ts) e rest) (f : Nat → Nat) :
    Reads (parseAt (stop.recolumn f) level (ts.map (Token.recolumn f))) (e.recolumn f)
      (rest.map (Token.recolumn f)) := by
  have hfollows := follows_of_reads level ts h
  obtain ⟨us, rfl, hus⟩ := derives_of_reads level ts h
  rw [List.map_append]
  exact (hus.recolumn f).reads (hfollows.recolumn f).goesOn

/-- Elements are read at every column alike. -/
theorem reads_sequence_recolumn {es : List Expr} (h : Reads (sequence stop closing ts) es rest)
    (f : Nat → Nat) :
    Reads (sequence (stop.recolumn f) closing (ts.map (Token.recolumn f)))
      (Expr.recolumnAll f es) (rest.map (Token.recolumn f)) := by
  obtain ⟨us, u, rfl, hu, hus⟩ := elements_of_reads closing ts h
  rw [List.map_append, List.map_cons]
  exact (hus.recolumn f).reads hu

/-! ## Where the parser fails -/

/-- A closing token that is missing is missing at other columns, if so is an expression. -/
theorem fails_misses_recolumn
    (hparse : parseAt stop (.joined .or) ts = .error fault →
      parseAt (stop.recolumn f) (.joined .or) (ts.map (Token.recolumn f)) =
        .error (fault.recolumn f))
    (h : Misses stop closing kinds ts fault) :
    Misses (stop.recolumn f) closing kinds (ts.map (Token.recolumn f)) (fault.recolumn f) := by
  rcases h with h | ⟨e, mid, hmid, hkinds, rfl⟩
  · exact .inl (hparse h)
  · refine .inr ⟨_, _, reads_recolumn hmid f, ?_, (unclosed_recolumn f stop closing mid).symm⟩
    cases mid with
    | nil => nofun
    | cons u us =>
      intro v hv
      cases hv
      exact hkinds u rfl

/-- What holds of the first token, if there is one, holds of it at another column. -/
theorem first_of_recolumn {P : Token → Prop} (h : ∀ t us, ts = t :: us → P (t.recolumn f)) :
    ∀ t us, ts.map (Token.recolumn f) = t :: us → P t := by
  intro t us hts
  obtain ⟨u, vs, rfl, rfl, rfl⟩ := List.map_eq_cons_iff.mp hts
  exact h u vs rfl

mutual

/-- What fails at a level fails there at other columns, in the same way. The recursion is that
of the parser, on the tokens that are left and the level. -/
theorem fails_recolumn (level : Level) (ts : List Token) {fault : ParseFault}
    (h : parseAt stop level ts = .error fault) :
    parseAt (stop.recolumn f) level (ts.map (Token.recolumn f)) = .error (fault.recolumn f) := by
  match level with
  | .joined join =>
    have := join.rank_operand_lt
    refine fails_joined.mpr ?_
    rcases fails_joined.mp h with hleft | ⟨left, mid, hleft, honto⟩
    · exact .inl (fails_recolumn join.operand ts hleft)
    · have hshort := hleft.length_lt
      exact .inr ⟨_, _, reads_recolumn hleft f, fails_joinOnto_recolumn join mid honto⟩
  | .not =>
    refine fails_not.mpr ?_
    rcases fails_not.mp h with ⟨t, us, hts, ht, hus⟩ | ⟨hne, hts⟩
    · have hshort : us.length < ts.length := by rw [hts]; exact Nat.lt_succ_self _
      rw [hts]
      exact .inl ⟨_, _, rfl, ht, fails_recolumn .not us hus⟩
    · exact .inr ⟨first_of_recolumn hne, fails_recolumn .comparison ts hts⟩
  | .comparison =>
    refine fails_comparison.mpr ?_
    rcases fails_comparison.mp h with hfirst | ⟨first, mid, hfirst, hlinks⟩
    · exact .inl (fails_recolumn (.joined .sum) ts hfirst)
    · have hshort := hfirst.length_lt
      exact .inr ⟨_, _, reads_recolumn hfirst f, fails_comparisons_recolumn mid hlinks⟩
  | .signed =>
    refine fails_signed.mpr ?_
    rcases fails_signed.mp h with ⟨t, us, op, hts, ht, hus⟩ | ⟨hne, hts⟩
    · have hshort : us.length < ts.length := by rw [hts]; exact Nat.lt_succ_self _
      rw [hts]
      exact .inl ⟨_, _, op, rfl, ht, fails_recolumn .signed us hus⟩
    · exact .inr ⟨first_of_recolumn hne, fails_recolumn .power ts hts⟩
  | .power =>
    refine fails_power.mpr ?_
    rcases fails_power.mp h with hbase | ⟨base, t, mid, hbase, ht, hmid⟩
    · exact .inl (fails_recolumn .trailed ts hbase)
    · have hshort := Nat.lt_of_succ_lt hbase.length_lt
      exact .inr ⟨_, _, _, reads_recolumn hbase f, ht, fails_recolumn .signed mid hmid⟩
  | .trailed =>
    refine fails_trailed.mpr ?_
    rcases fails_trailed.mp h with hoperand | ⟨operand, mid, hoperand, htrailers⟩
    · exact .inl (fails_recolumn .primary ts hoperand)
    · have hshort := hoperand.length_lt
      exact .inr ⟨_, _, reads_recolumn hoperand f, fails_trailers_recolumn mid htrailers⟩
  | .primary =>
    match ts with
    | [] =>
      rw [fails_primary_nil.mp h]
      exact fails_primary_nil.mpr rfl
    | t :: ts =>
      refine fails_primary_cons.mpr ?_
      rcases fails_primary_cons.mp h with ⟨ht, hts⟩ | ⟨ht, hts⟩ | ⟨hparen, hbracket, hatom⟩
      · exact .inl ⟨ht, fails_misses_recolumn (fails_recolumn (.joined .or) ts) hts⟩
      · exact .inr (.inl ⟨ht, fails_sequence_recolumn .list ts hts⟩)
      · exact .inr (.inr ⟨hparen, hbracket, atom_fails_recolumn hatom f⟩)
termination_by ts.length * 16 + level.rank
decreasing_by
  all_goals first | omega | (simp only [Level.rank, List.length_cons]; omega)

/-- A wrong operand behind an operator is found at the column where it stands. -/
theorem fails_joinOnto_recolumn (join : Join) (ts : List Token) {left : Expr}
    {fault : ParseFault} (h : joinOnto stop join left ts = .error fault) :
    joinOnto (stop.recolumn f) join (left.recolumn f) (ts.map (Token.recolumn f)) =
      .error (fault.recolumn f) := by
  match ts with
  | [] => exact absurd h not_fails_joinOnto_nil
  | t :: ts =>
    have := join.operand.rank_lt
    obtain ⟨build, hbuild, hts⟩ := fails_joinOnto_cons.mp h
    -- the tree that is built there has the column of `t` in it
    obtain ⟨build', hbuild', hjoined⟩ := build?_recolumn hbuild f
    refine fails_joinOnto_cons.mpr ⟨build', hbuild', ?_⟩
    rcases hts with hright | ⟨right, mid, hright, honto⟩
    · exact .inl (fails_recolumn join.operand ts hright)
    · have hshort := hright.length_lt
      refine .inr ⟨_, _, reads_recolumn hright f, ?_⟩
      rw [hjoined]
      exact fails_joinOnto_recolumn join mid honto
termination_by ts.length * 16 + 10
decreasing_by
  all_goals simp only [List.length_cons]
  all_goals omega

theorem fails_comparisons_recolumn (ts : List Token) {fault : ParseFault}
    (h : comparisons stop ts = .error fault) :
    comparisons (stop.recolumn f) (ts.map (Token.recolumn f)) = .error (fault.recolumn f) := by
  cases hrelation : relation? ts with
  | none => exact absurd h (not_fails_comparisons_none hrelation)
  | some link =>
    obtain ⟨op, column, us⟩ := link
    have hshort := length_lt_of_relation? hrelation
    have hrelation' := relation?_recolumn f ts
    rw [hrelation] at hrelation'
    refine (fails_comparisons_some hrelation').mpr ?_
    rcases (fails_comparisons_some hrelation).mp h with hoperand | ⟨operand, mid, hoperand, hmore⟩
    · exact .inl (fails_recolumn (.joined .sum) us hoperand)
    · have hshort' := hoperand.length_lt
      exact .inr ⟨_, _, reads_recolumn hoperand f, fails_comparisons_recolumn mid hmore⟩
termination_by ts.length * 16 + 10
decreasing_by
  all_goals first | omega | (simp only [Level.rank]; omega)

theorem fails_trailers_recolumn (ts : List Token) {operand : Expr} {fault : ParseFault}
    (h : trailers stop operand ts = .error fault) :
    trailers (stop.recolumn f) (operand.recolumn f) (ts.map (Token.recolumn f)) =
      .error (fault.recolumn f) := by
  match ts with
  | [] => exact absurd h not_fails_trailers_nil
  | t :: ts =>
    refine fails_trailers_cons.mpr ?_
    rcases fails_trailers_cons.mp h with ⟨ht, name, column, rfl, hts⟩ | ⟨ht, hne, rfl⟩ | ⟨ht, hts⟩
    · refine .inl ⟨ht, name, f column, rfl, ?_⟩
      rcases hts with harguments | ⟨arguments, mid, harguments, hmore⟩
      · exact .inl (fails_sequence_recolumn .arguments ts harguments)
      · have hshort := harguments.length_lt
        exact .inr ⟨_, _, reads_sequence_recolumn harguments f, fails_trailers_recolumn mid hmore⟩
    · -- a tree that is not a name is none at other columns
      refine .inr (.inl ⟨ht, ?_, rfl⟩)
      intro name column hvar
      cases operand <;> cases hvar
      exact hne _ _ rfl
    · refine .inr (.inr ⟨ht, ?_⟩)
      rcases hts with hindex | ⟨index, u, mid, hindex, hu, hmore⟩
      · exact .inl (fails_misses_recolumn (fails_recolumn (.joined .or) ts) hindex)
      · have hshort := Nat.lt_of_succ_lt hindex.length_lt
        exact .inr ⟨_, _, _, reads_recolumn hindex f, hu, fails_trailers_recolumn mid hmore⟩
termination_by ts.length * 16 + 10
decreasing_by
  all_goals first | omega | (simp only [Level.rank, List.length_cons]; omega)

/-- A wrong element is found at the column where it stands. -/
theorem fails_sequence_recolumn (closing : Closing) (ts : List Token) {fault : ParseFault}
    (h : sequence stop closing ts = .error fault) :
    sequence (stop.recolumn f) closing (ts.map (Token.recolumn f)) =
      .error (fault.recolumn f) := by
  obtain ⟨hne, hts⟩ := fails_sequence.mp h
  refine fails_sequence.mpr ⟨first_of_recolumn hne, ?_⟩
  rcases hts with hfirst | ⟨e, t, mid, he, ht, hmid⟩
  · exact .inl (fails_misses_recolumn (fails_recolumn (.joined .or) ts) hfirst)
  · have hshort := Nat.lt_of_succ_lt he.length_lt
    exact .inr ⟨_, _, _, reads_recolumn he f, ht, fails_sequence_recolumn closing mid hmid⟩
termination_by ts.length * 16 + 11
decreasing_by
  all_goals first | omega | (simp only [Level.rank]; omega)

end

/-! ## Whole expressions -/

/-- Tokens in front of the end parse at every column alike. -/
theorem parseBefore_recolumn (f : Nat → Nat) (stop : Token) (ts : List Token) :
    parseBefore (stop.recolumn f) (ts.map (Token.recolumn f)) =
      ((parseBefore stop ts).map (Expr.recolumn f)).mapError (ParseFault.recolumn f) := by
  cases h : parseBefore stop ts with
  | ok e => exact parseBefore_eq_ok_iff.mpr (reads_recolumn (parseBefore_eq_ok_iff.mp h) f)
  | error fault =>
    refine parseBefore_eq_error_iff.mpr ?_
    rcases parseBefore_eq_error_iff.mp h with hts | ⟨e, t, mid, hmid, rfl⟩
    · exact .inl (fails_recolumn (.joined .or) ts hts)
    · exact .inr ⟨_, _, _, reads_recolumn hmid f, rfl⟩

/-- **Columns decide nothing.** With other columns, tokens that end in an end mark form the
same expression or are wrong in the same way. -/
theorem parse_recolumn (hts : ∀ t ∈ ts, t.kind ≠ .eof) (hstop : stop.kind = .eof)
    (f : Nat → Nat) :
    parse ((ts ++ [stop]).map (Token.recolumn f)) =
      ((parse (ts ++ [stop])).map (Expr.recolumn f)).mapError (ParseFault.recolumn f) := by
  have hts' : ∀ t ∈ ts.map (Token.recolumn f), t.kind ≠ .eof := by
    intro t ht
    obtain ⟨u, hu, rfl⟩ := List.mem_map.mp ht
    exact hts u hu
  have hstop' : (stop.recolumn f).kind = .eof := hstop
  rw [List.map_append, List.map_singleton, parse_of_end hts' hstop', parse_of_end hts hstop]
  exact parseBefore_recolumn f stop ts

end Offside
