import Offside.Proofs.Expr.Grammar

/-!
# What each step of the parser reads

One lemma for each function of the parser: when it gives a tree and leaves some
tokens, in terms of the functions it calls. The rest of the theory of the parser
is told by these, and no other proof opens the parser.
-/

namespace Offside

variable {stop : Token} {join : Join} {t : Token} {ts us rest : List Token} {e : Expr}

/-! ## What a token stands for -/

/-- The operators of a level are those that the parser builds with. -/
theorem joins_iff {left right : Expr} :
    Joins join t left right e ↔ ∃ build, join.build? t = some build ∧ build left right = e := by
  constructor
  · intro h
    cases h <;> exact ⟨_, by simp only [Join.build?, *], rfl⟩
  · rintro ⟨build, hbuild, rfl⟩
    unfold Join.build? at hbuild
    split at hbuild <;> cases hbuild <;> constructor <;> assumption

/-- The signs of the grammar are those that the parser takes. -/
theorem sign?_eq_some_iff {op : UnaryOp} : sign? t = some op ↔ Signs t.kind op := by
  unfold sign?
  constructor
  · intro h
    split at h <;> cases h <;> simp only [*] <;> constructor
  · intro h
    generalize t.kind = kind at h
    cases h <;> rfl

/-- The parser takes a token alone for what it stands for. -/
theorem atom_eq_ok_iff : atom t = .ok e ↔ Stands t e := by
  unfold atom
  constructor
  · intro h
    split at h <;> cases h <;> constructor <;> assumption
  · intro h
    cases h <;> simp only [*]

/-- The tokens in front of an operand of a comparison, and what they stand for. -/
theorem relation?_eq_some_iff {op : Relation} {column : Nat} :
    relation? ts = some (op, column, rest) ↔
      (∃ t, ts = t :: rest ∧ Compares t.kind op ∧ t.column = column) ∨
        ∃ t u, ts = t :: u :: rest ∧ t.kind = .notWord ∧ u.kind = .inWord ∧ op = .notIn ∧
          t.column = column := by
  constructor
  · intro h
    unfold relation? at h
    split at h
    · contradiction
    next t us =>
      split at h
      -- `not` stands for a comparison only in front of `in`
      case h_8 hnot =>
        split at h
        · contradiction
        next u us =>
          split at h
          next hin =>
            cases h
            exact .inr ⟨t, u, rfl, hnot, hin, rfl, rfl⟩
          · contradiction
      case h_9 => contradiction
      all_goals
        next hkind =>
          cases h
          exact .inl ⟨t, rfl, by rw [hkind]; constructor, rfl⟩
  · rintro (⟨t, rfl, hop, rfl⟩ | ⟨t, u, rfl, hnot, hin, rfl, rfl⟩)
    · generalize hkind : t.kind = kind at hop
      cases hop <;> simp only [relation?, hkind]
    · simp only [relation?, hnot, hin, if_true]

/-! ## What is read -/

/-- Reading gave the value and left the tokens in `rest`. -/
def Reads {α : Type} {bound : Nat} (result : Except ParseFault (Read α bound)) (value : α)
    (rest : List Token) : Prop :=
  ∃ h, result = .ok ⟨value, rest, h⟩

/-- Whatever is read, fewer tokens are left. -/
theorem Reads.length_lt {α : Type} {bound : Nat} {result : Except ParseFault (Read α bound)}
    {value : α} (h : Reads result value rest) : rest.length < bound := by
  obtain ⟨hshort, -⟩ := h
  exact hshort

/-- Nothing can be read in two ways. -/
theorem Reads.unique {α : Type} {bound : Nat} {result : Except ParseFault (Read α bound)}
    {value value' : α} {rest' : List Token} (h : Reads result value rest)
    (h' : Reads result value' rest') : value = value' ∧ rest = rest' := by
  obtain ⟨_, rfl⟩ := h
  obtain ⟨_, heq⟩ := h'
  cases heq
  exact ⟨rfl, rfl⟩

/-- A level of joined operands starts with an operand and goes on from it. -/
theorem reads_joined :
    Reads (parseAt stop (.joined join) ts) e rest ↔
      ∃ left mid, Reads (parseAt stop join.operand ts) left mid ∧
        Reads (joinOnto stop join left mid) e rest := by
  unfold Reads
  conv => lhs; unfold parseAt
  grind

theorem reads_joinOnto_nil {left : Expr} :
    Reads (joinOnto stop join left []) e rest ↔ left = e ∧ [] = rest := by
  unfold Reads joinOnto
  grind

/-- Behind an operand the level ends, or an operator joins one more to it. -/
theorem reads_joinOnto_cons {left : Expr} :
    Reads (joinOnto stop join left (t :: ts)) e rest ↔
      (join.build? t = none ∧ left = e ∧ t :: ts = rest) ∨
        ∃ joined right mid, Joins join t left right joined ∧
          Reads (parseAt stop join.operand ts) right mid ∧
          Reads (joinOnto stop join joined mid) e rest := by
  simp only [joins_iff]
  unfold Reads
  conv => lhs; unfold joinOnto
  grind

/-- A negation is the word in front of another, or a comparison. -/
theorem reads_not :
    Reads (parseAt stop .not ts) e rest ↔
      (∃ t us operand, ts = t :: us ∧ t.kind = .notWord ∧
        Reads (parseAt stop .not us) operand rest ∧ .unary .not t.column operand = e) ∨
      ((∀ t us, ts = t :: us → t.kind ≠ .notWord) ∧
        Reads (parseAt stop .comparison ts) e rest) := by
  unfold Reads
  conv => lhs; unfold parseAt
  cases ts <;> grind

/-- A comparison is an operand and the links behind it, and without links the operand
alone. -/
theorem reads_comparison :
    Reads (parseAt stop .comparison ts) e rest ↔
      ∃ first links mid, Reads (parseAt stop (.joined .sum) ts) first mid ∧
        Reads (comparisons stop mid) links rest ∧
        (links = [] ∧ first = e ∨ links ≠ [] ∧ .comparison first links = e) := by
  unfold Reads
  conv => lhs; unfold parseAt
  grind

/-- Where no relation stands, there are no links. -/
theorem reads_comparisons_none {links : List (Relation × Nat × Expr)} (h : relation? ts = none) :
    Reads (comparisons stop ts) links rest ↔ [] = links ∧ ts = rest := by
  unfold Reads comparisons
  grind

/-- A relation takes the operand behind it, and more links follow. -/
theorem reads_comparisons_some {op : Relation} {column : Nat}
    {links : List (Relation × Nat × Expr)} (h : relation? ts = some (op, column, us)) :
    Reads (comparisons stop ts) links rest ↔
      ∃ operand more mid, Reads (parseAt stop (.joined .sum) us) operand mid ∧
        Reads (comparisons stop mid) more rest ∧ (op, column, operand) :: more = links := by
  have hshort := length_lt_of_relation? h
  unfold Reads
  conv => lhs; unfold comparisons
  split
  next hnone =>
    rw [h] at hnone
    contradiction
  next hsome =>
    rw [h] at hsome
    cases hsome
    grind

/-- A signed operand is a sign in front of another, or a power. -/
theorem reads_signed :
    Reads (parseAt stop .signed ts) e rest ↔
      (∃ t us op operand, ts = t :: us ∧ Signs t.kind op ∧
        Reads (parseAt stop .signed us) operand rest ∧ .unary op t.column operand = e) ∨
      ((∀ t us, ts = t :: us → sign? t = none) ∧ Reads (parseAt stop .power ts) e rest) := by
  simp only [← sign?_eq_some_iff]
  unfold Reads
  conv => lhs; unfold parseAt
  cases ts <;> grind

/-- A power takes a signed exponent behind its base, and without one the base is all. -/
theorem reads_power :
    Reads (parseAt stop .power ts) e rest ↔
      (∃ base t mid exponent, Reads (parseAt stop .trailed ts) base (t :: mid) ∧
        t.kind = .starStar ∧ Reads (parseAt stop .signed mid) exponent rest ∧
        .arith .pow t.column base exponent = e) ∨
      ((∀ t us, rest = t :: us → t.kind ≠ .starStar) ∧
        Reads (parseAt stop .trailed ts) e rest) := by
  unfold Reads
  conv => lhs; unfold parseAt
  grind

/-- Calls and subscripts stand behind a primary. -/
theorem reads_trailed :
    Reads (parseAt stop .trailed ts) e rest ↔
      ∃ operand mid, Reads (parseAt stop .primary ts) operand mid ∧
        Reads (trailers stop operand mid) e rest := by
  unfold Reads
  conv => lhs; unfold parseAt
  grind

theorem reads_trailers_nil {operand : Expr} :
    Reads (trailers stop operand []) e rest ↔ operand = e ∧ [] = rest := by
  unfold Reads trailers
  grind

/-- Behind an operand stands a call, if it is a variable, or a subscript, or nothing more. -/
theorem reads_trailers_cons {operand : Expr} :
    Reads (trailers stop operand (t :: ts)) e rest ↔
      (t.kind = .leftParen ∧ ∃ name column arguments mid, operand = .var name column ∧
        Reads (sequence stop .arguments ts) arguments mid ∧
        Reads (trailers stop (.call name column arguments) mid) e rest) ∨
      (t.kind = .leftBracket ∧ ∃ index u mid,
        Reads (parseAt stop (.joined .or) ts) index (u :: mid) ∧ u.kind = .rightBracket ∧
        Reads (trailers stop (.subscript t.column operand index) mid) e rest) ∨
      (t.kind ≠ .leftParen ∧ t.kind ≠ .leftBracket ∧ operand = e ∧ t :: ts = rest) := by
  unfold Reads
  conv => lhs; unfold trailers
  grind

theorem not_reads_primary_nil : ¬ Reads (parseAt stop .primary []) e rest := by
  unfold Reads
  conv => arg 1; unfold parseAt
  grind

/-- A primary is an expression in parentheses, a list, or a token alone. -/
theorem reads_primary_cons :
    Reads (parseAt stop .primary (t :: ts)) e rest ↔
      (t.kind = .leftParen ∧ ∃ u, Reads (parseAt stop (.joined .or) ts) e (u :: rest) ∧
        u.kind = .rightParen) ∨
      (t.kind = .leftBracket ∧ ∃ elements, Reads (sequence stop .list ts) elements rest ∧
        .list elements = e) ∨
      (t.kind ≠ .leftParen ∧ t.kind ≠ .leftBracket ∧ Stands t e ∧ ts = rest) := by
  simp only [← atom_eq_ok_iff]
  unfold Reads
  conv => lhs; unfold parseAt
  grind

/-- Elements end at the closing bracket, and a comma may stand in front of it. -/
theorem reads_sequence {closing : Closing} {es : List Expr} :
    Reads (sequence stop closing ts) es rest ↔
      (∃ t, ts = t :: rest ∧ t.kind = closing.kind ∧ [] = es) ∨
      ((∀ t us, ts = t :: us → t.kind ≠ closing.kind) ∧
        ∃ e t mid, Reads (parseAt stop (.joined .or) ts) e (t :: mid) ∧
          (t.kind = .comma ∧ (∃ more, Reads (sequence stop closing mid) more rest ∧
            e :: more = es) ∨
          t.kind ≠ .comma ∧ t.kind = closing.kind ∧ [e] = es ∧ mid = rest)) := by
  unfold Reads
  conv => lhs; unfold sequence
  cases ts <;> grind

/-- A whole text of tokens is an expression if reading it leaves nothing. -/
theorem parseBefore_eq_ok_iff :
    parseBefore stop ts = .ok e ↔ Reads (parseAt stop (.joined .or) ts) e [] := by
  unfold parseBefore Reads
  grind

end Offside
