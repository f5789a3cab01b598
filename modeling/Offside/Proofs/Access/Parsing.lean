import Offside.Proofs.Access.Parser
import Offside.Proofs.Access.Slice
import Offside.Proofs.Expr.Acceptance

/-!
# Parsing by position is parsing

No access of the parser is out of range where the tokens hold an end mark: it never passes
the first of them, and it looks back only at a token it has passed. What the position means
is said by `At`: the tokens in front of the end mark that are left from there on. One lemma
for each level shows that both readings give the same fault, or the same value and stand at
the same place. Main result: `parseByPosition?_eq`.
-/

namespace Offside.Access

variable {tokens body ts rest : List Token} {stop t : Token} {current next : Nat}
  {α β : Type}

/-! ## Places -/

/-- The tokens are those of the body, none of which is an end mark, with an end mark behind. -/
structure Ended (tokens body : List Token) (stop : Token) : Prop where
  ends : ∃ after, tokens = body ++ stop :: after
  plain : ∀ t ∈ body, t.kind ≠ .eof
  stops : stop.kind = .eof

/-- From the position on, these tokens of the body are left. -/
structure At (body : List Token) (current : Nat) (ts : List Token) : Prop where
  drop : body.drop current = ts
  le : current ≤ body.length

theorem At.tail (h : At body current (t :: ts)) : At body (current + 1) ts :=
  ⟨drop_succ h.drop, lt_length_of_drop h.drop⟩

theorem At.mem (h : At body current (t :: ts)) : t ∈ body :=
  List.mem_of_mem_drop (h.drop ▸ List.mem_cons_self)

/-- At a place stands the first token that is left, or else the end mark. -/
theorem At.getElem? (h : At body current ts) (hends : Ended tokens body stop) :
    tokens[current]? = some (ts.headD stop) := by
  obtain ⟨after, rfl⟩ := hends.ends
  cases ts with
  | cons t us =>
    rw [List.getElem?_append_left (lt_length_of_drop h.drop), getElem?_of_drop h.drop]
    rfl
  | nil =>
    have hcurrent : current = body.length := Nat.le_antisymm h.le (List.drop_eq_nil_iff.mp h.drop)
    rw [hcurrent, List.getElem?_append_right (Nat.le_refl _), Nat.sub_self]
    rfl

/-- The token at a place is the next one that is left, or the last one where none is. -/
theorem At.look?_eq (h : At body current ts) (hends : Ended tokens body stop) :
    look? tokens current = some (ts.headD stop) :=
  h.getElem? hends

/-! ## Steps of a parser -/

/-- A fault is passed on. -/
theorem bind_failed {x : Parsed α} {fault : ParseFault} (h : x = some (.error fault))
    (k : α → Parsed β) : (x >>= k) = some (.error fault) := by
  rw [h]
  rfl

/-- What was parsed is handed to what comes next. -/
theorem bind_ok {x : Parsed α} {a : α} (h : x = some (.ok a)) (k : α → Parsed β) :
    (x >>= k) = k a := by
  rw [h]
  rfl

theorem ok_bind (a : α) (k : α → Parsed β) :
    bind (m := ExceptT ParseFault Option) (some (.ok a)) k = k a :=
  rfl

/-- An access that succeeds is handed to what comes next. -/
theorem lift_bind {x : Option α} {a : α} (h : x = some a) (k : α → Parsed β) :
    ((liftM x : Parsed α) >>= k) = k a := by
  rw [h]
  rfl

section Steps

variable (hends : Ended tokens body stop)
include hends

/-- At the end no token is of the kinds that are asked for. -/
theorem match?_nil (h : At body current []) (kinds : List TokenKind) :
    match? tokens current kinds = some (.ok none) := by
  have hpass : passIf? tokens current kinds = some none :=
    passIf?_of_eof (h.getElem? hends) hends.stops kinds
  unfold match?
  split <;> rename_i heq <;> rw [hpass] at heq <;> cases heq

/-- The next token is taken if and only if it is of a kind that is asked for. -/
theorem match?_cons (h : At body current (t :: ts)) (kinds : List TokenKind) :
    (t.kind ∉ kinds ∧ match? tokens current kinds = some (.ok none)) ∨
      (t.kind ∈ kinds ∧ ∃ short, match? tokens current kinds =
        some (.ok (some ⟨t, current + 1, short⟩))) := by
  have hpass : passIf? tokens current kinds =
      some (if t.kind ∈ kinds then some (t, current + 1) else none) :=
    passIf?_eq (h.getElem? hends) (hends.plain t h.mem) kinds
  unfold match?
  by_cases hkind : t.kind ∈ kinds
  · rw [if_pos hkind] at hpass
    refine .inr ⟨hkind, ?_⟩
    split <;> rename_i heq <;> rw [hpass] at heq <;> cases heq
    exact ⟨length_sub_lt_of_passIf? hpass, rfl⟩
  · rw [if_neg hkind] at hpass
    refine .inl ⟨hkind, ?_⟩
    split <;> rename_i heq <;> rw [hpass] at heq <;> cases heq

/-- The kind stands at a place if the first token that is left is of that kind. -/
theorem match?_singleton (kind : TokenKind) (h : At body current ts) :
    (∃ t us short, ts = t :: us ∧ t.kind = kind ∧
        match? tokens current [kind] = some (.ok (some ⟨t, current + 1, short⟩))) ∨
      ((∀ t us, ts = t :: us → t.kind ≠ kind) ∧
        match? tokens current [kind] = some (.ok none)) := by
  cases ts with
  | nil => exact .inr ⟨fun _ _ heq => (nomatch heq), match?_nil hends h _⟩
  | cons t us =>
    obtain ⟨hkind, hmatch⟩ | ⟨hkind, short, hmatch⟩ := match?_cons hends h [kind]
    · refine .inr ⟨?_, hmatch⟩
      rintro u vs ⟨⟩ hu
      exact hkind (List.mem_singleton.mpr hu)
    · exact .inl ⟨t, us, short, rfl, List.mem_singleton.mp hkind, hmatch⟩

/-- The closing token is passed where it stands, and missed anywhere else. -/
theorem consume?_outcome (closing : Closing) (h : At body current ts) :
    (∃ t us short, ts = t :: us ∧ t.kind = closing.kind ∧
        consume? tokens closing current = some (.ok ⟨t, current + 1, short⟩)) ∨
      ((∀ t us, ts = t :: us → t.kind ≠ closing.kind) ∧
        consume? tokens closing current = some (.error (unclosed stop closing ts))) := by
  unfold consume?
  obtain ⟨t, us, short, heq, ht, hmatch⟩ | ⟨hts, hmatch⟩ := match?_singleton hends closing.kind h
  · rw [bind_ok hmatch]
    exact .inl ⟨t, us, short, heq, ht, rfl⟩
  · rw [bind_ok hmatch]
    exact .inr ⟨hts, lift_bind (h.look?_eq hends) _⟩

end Steps

/-! ## What tokens stand for -/

/-- The kinds that are asked for at a joined level are those of its operators. -/
theorem not_mem_joinKinds_iff {join : Join} :
    t.kind ∉ joinKinds join ↔ join.build? t = none := by
  cases join <;> cases hkind : t.kind <;> simp [joinKinds, Join.build?, hkind]

/-- The kinds that are asked for in front of an operand are those of the signs. -/
theorem not_mem_signKinds_iff : t.kind ∉ [.minus, .plus] ↔ sign? t = none := by
  cases hkind : t.kind <;> simp [sign?, hkind]

theorem exists_build? {join : Join} (h : t.kind ∈ joinKinds join) :
    ∃ build, join.build? t = some build :=
  Option.ne_none_iff_exists'.mp fun hnone => not_mem_joinKinds_iff.mpr hnone h

theorem exists_sign? (h : t.kind ∈ [.minus, .plus]) : ∃ op, sign? t = some op :=
  Option.ne_none_iff_exists'.mp fun hnone => not_mem_signKinds_iff.mpr hnone h

/-- A token of no kind that atoms have is refused as an operand. -/
theorem atom_of_not_mem (h : t.kind ∉ atomKinds) :
    atom t = .error (.noOperand t.kind t.column) := by
  cases hkind : t.kind <;> simp_all [atom, atomKinds]

/-- One token of these kinds is a relation by itself. -/
theorem relation?_of_mem (h : t.kind ∈ relationKinds) :
    ∃ op, ∀ ts, relation? (t :: ts) = some (op, t.column, ts) := by
  cases hkind : t.kind <;> simp_all [relation?, relationKinds]

/-- Of the other tokens only a `not` begins a relation. -/
theorem relation?_of_not_mem (h : t.kind ∉ relationKinds) (hnot : t.kind ≠ .notWord) :
    relation? (t :: ts) = none := by
  cases hkind : t.kind <;> simp_all [relation?, relationKinds]

/-- A comparison stands at a place if the tokens that are left begin with one. -/
theorem relationAt?_eq (hends : Ended tokens body stop) (h : At body current ts) :
    (relation? ts = none ∧ relationAt? tokens current = some (.ok none)) ∨
      ∃ op column rest next short, relation? ts = some (op, column, rest) ∧
        relationAt? tokens current = some (.ok (some ⟨(op, column), next, short⟩)) ∧
        At body next rest := by
  unfold relationAt?
  cases ts with
  | nil =>
    rw [lift_bind (check?_of_eof (h.getElem? hends) hends.stops .notWord)]
    refine .inl ⟨rfl, ?_⟩
    rw [Bool.false_and, if_neg Bool.false_ne_true, bind_ok (match?_nil hends h _)]
    rfl
  | cons t us =>
    rw [lift_bind (check?_eq (h.getElem? hends) (hends.plain t h.mem) .notWord),
      h.tail.getElem? hends, Option.any_some]
    by_cases hnot : t.kind = .notWord
    · have hplain : t.kind ∉ relationKinds := by
        rw [hnot]
        decide
      have hmatch : match? tokens current relationKinds = some (.ok none) :=
        ((match?_cons hends h relationKinds).resolve_right (fun hin => hplain hin.1)).2
      rw [List.headD_cons, beq_iff_eq.mpr hnot, Bool.true_and]
      by_cases hin : (us.headD stop).kind = .inWord
      · cases us with
        | nil => exact absurd (hends.stops.symm.trans hin) (by decide)
        | cons u rest =>
          obtain ⟨hkind, -⟩ | ⟨-, _, hfirst⟩ := match?_cons hends h [.notWord]
          · exact absurd (List.mem_singleton.mpr hnot) hkind
          obtain ⟨hkind, -⟩ | ⟨-, _, hsecond⟩ := match?_cons hends h.tail [.inWord]
          · exact absurd (List.mem_singleton.mpr hin) hkind
          rw [beq_iff_eq.mpr hin, if_pos rfl, bind_ok hfirst]
          dsimp only
          rw [bind_ok hsecond]
          refine .inr ⟨.notIn, t.column, rest, current + 1 + 1, _, ?_, rfl, h.tail.tail⟩
          simp only [relation?, hnot]
          exact if_pos hin
      · rw [beq_eq_false_iff_ne.mpr hin, if_neg Bool.false_ne_true, bind_ok hmatch]
        refine .inl ⟨?_, rfl⟩
        simp only [relation?, hnot]
        cases us with
        | nil => rfl
        | cons u rest => exact if_neg hin
    · rw [List.headD_cons, beq_eq_false_iff_ne.mpr hnot, Bool.false_and, if_neg Bool.false_ne_true]
      obtain ⟨hkind, hmatch⟩ | ⟨hkind, short, hmatch⟩ := match?_cons hends h relationKinds
      · rw [bind_ok hmatch]
        exact .inl ⟨relation?_of_not_mem hkind hnot, rfl⟩
      · obtain ⟨op, hop⟩ := relation?_of_mem hkind
        rw [bind_ok hmatch]
        dsimp only
        rw [lift_bind (hop [])]
        exact .inr ⟨op, t.column, us, current + 1, short, hop us, rfl, h.tail⟩

/-! ## What is read -/

/-- Both readings end in the same fault, or with the same value and at the same place. -/
inductive Agrees (tokens body : List Token) {bound bound' : Nat} :
    Except ParseFault (Read α bound) → Parsed (Moved tokens α bound') → Prop
  | failed (fault : ParseFault) : Agrees tokens body (.error fault) (some (.error fault))
  | read (value : α) (rest : List Token) (next : Nat) (short : rest.length < bound)
      (short' : tokens.length - next < bound') (h : At body next rest) :
      Agrees tokens body (.ok ⟨value, rest, short⟩) (some (.ok ⟨value, next, short'⟩))

/-- The two readings go on together from where both have read the same, and stop together. -/
@[elab_as_elim]
theorem Agrees.elim {bound bound' : Nat} {r : Except ParseFault (Read α bound)}
    {p : Parsed (Moved tokens α bound')}
    {motive : Except ParseFault (Read α bound) → Parsed (Moved tokens α bound') → Prop}
    (h : Agrees tokens body r p)
    (failed : ∀ fault, motive (.error fault) (some (.error fault)))
    (read : ∀ value rest next short short', At body next rest →
      motive (.ok ⟨value, rest, short⟩) (some (.ok ⟨value, next, short'⟩))) :
    motive r p := by
  cases h with
  | failed fault => exact failed fault
  | read value rest next short short' h => exact read value rest next short short' h

mutual

/-- At every level both parsers agree. The recursion is theirs, with one lemma for each level
below. -/
theorem parseLevel?_agrees (hends : Ended tokens body stop) (level : Level)
    (ts : List Token) (current : Nat) (h : At body current ts) :
    Agrees tokens body (parseAt stop level ts) (parseLevel? tokens level current) := by
  match level with
  | .joined join => exact joined_agrees hends join ts current h
  | .not => exact not_agrees hends ts current h
  | .comparison => exact comparison_agrees hends ts current h
  | .signed => exact signed_agrees hends ts current h
  | .power => exact power_agrees hends ts current h
  | .trailed => exact trailed_agrees hends ts current h
  | .primary => exact primary_agrees hends ts current h
-- a level is told apart from the others before it is read
termination_by (ts.length * 16 + level.rank, 1)
decreasing_by
  all_goals exact Prod.Lex.right _ Nat.zero_lt_one

/-- Operands and the operators behind them are parsed alike. -/
theorem joined_agrees (hends : Ended tokens body stop) (join : Join)
    (ts : List Token) (current : Nat) (h : At body current ts) :
    Agrees tokens body (parseAt stop (.joined join) ts)
      (parseLevel? tokens (.joined join) current) := by
  have := join.rank_operand_lt
  unfold parseAt parseLevel?
  refine (parseLevel?_agrees hends join.operand ts current h).elim .failed
    fun left mid next short _ hmid => ?_
  dsimp only [ok_bind]
  refine (joinOnto?_agrees hends join left mid next hmid).elim .failed
    fun e rest last _ _ hrest => ?_
  exact .read _ _ _ _ _ hrest
termination_by (ts.length * 16 + (Level.joined join).rank, 0)
decreasing_by
  all_goals apply Prod.Lex.left
  all_goals omega

/-- A `not` and its operand are parsed alike. -/
theorem not_agrees (hends : Ended tokens body stop)
    (ts : List Token) (current : Nat) (h : At body current ts) :
    Agrees tokens body (parseAt stop .not ts) (parseLevel? tokens .not current) := by
  unfold parseAt parseLevel?
  match ts with
  | [] =>
    rw [bind_ok (match?_nil hends h _)]
    exact parseLevel?_agrees hends .comparison [] current h
  | t :: ts =>
    obtain ⟨hkind, hmatch⟩ | ⟨hkind, _, hmatch⟩ := match?_cons hends h [.notWord]
    · rw [bind_ok hmatch]
      dsimp only
      rw [if_neg (fun heq => hkind (List.mem_singleton.mpr heq))]
      exact parseLevel?_agrees hends .comparison (t :: ts) current h
    · rw [bind_ok hmatch]
      dsimp only
      rw [if_pos (List.mem_singleton.mp hkind)]
      refine (parseLevel?_agrees hends .not ts (current + 1) h.tail).elim .failed
        fun operand rest last _ _ hrest => ?_
      exact .read _ _ _ _ _ hrest
termination_by (ts.length * 16 + Level.not.rank, 0)
decreasing_by
  all_goals apply Prod.Lex.left
  all_goals simp only [Level.rank, List.length_cons]
  all_goals omega

/-- A comparison is parsed alike. -/
theorem comparison_agrees (hends : Ended tokens body stop)
    (ts : List Token) (current : Nat) (h : At body current ts) :
    Agrees tokens body (parseAt stop .comparison ts) (parseLevel? tokens .comparison current) := by
  unfold parseAt parseLevel?
  refine (parseLevel?_agrees hends (.joined .sum) ts current h).elim .failed
    fun first mid next short _ hmid => ?_
  dsimp only [ok_bind]
  refine (comparisons?_agrees hends mid next hmid).elim .failed fun links rest last _ _ hrest => ?_
  cases links with
  | nil => exact .read _ _ _ _ _ hrest
  | cons link links => exact .read _ _ _ _ _ hrest
termination_by (ts.length * 16 + Level.comparison.rank, 0)
decreasing_by
  all_goals apply Prod.Lex.left
  all_goals simp only [Level.rank]
  all_goals omega

/-- A sign and its operand are parsed alike. -/
theorem signed_agrees (hends : Ended tokens body stop)
    (ts : List Token) (current : Nat) (h : At body current ts) :
    Agrees tokens body (parseAt stop .signed ts) (parseLevel? tokens .signed current) := by
  unfold parseAt parseLevel?
  match ts with
  | [] =>
    rw [bind_ok (match?_nil hends h _)]
    exact parseLevel?_agrees hends .power [] current h
  | t :: ts =>
    obtain ⟨hkind, hmatch⟩ | ⟨hkind, _, hmatch⟩ := match?_cons hends h [.minus, .plus]
    · rw [bind_ok hmatch]
      dsimp only
      rw [not_mem_signKinds_iff.mp hkind]
      exact parseLevel?_agrees hends .power (t :: ts) current h
    · obtain ⟨op, hop⟩ := exists_sign? hkind
      rw [bind_ok hmatch]
      dsimp only
      rw [hop]
      refine (parseLevel?_agrees hends .signed ts (current + 1) h.tail).elim .failed
        fun operand rest last _ _ hrest => ?_
      dsimp only [ok_bind]
      rw [lift_bind rfl]
      exact .read _ _ _ _ _ hrest
termination_by (ts.length * 16 + Level.signed.rank, 0)
decreasing_by
  all_goals apply Prod.Lex.left
  all_goals simp only [Level.rank, List.length_cons]
  all_goals omega

/-- A power is parsed alike. -/
theorem power_agrees (hends : Ended tokens body stop)
    (ts : List Token) (current : Nat) (h : At body current ts) :
    Agrees tokens body (parseAt stop .power ts) (parseLevel? tokens .power current) := by
  unfold parseAt parseLevel?
  refine (parseLevel?_agrees hends .trailed ts current h).elim .failed
    fun base mid next short _ hmid => ?_
  dsimp only [ok_bind]
  match mid with
  | [] =>
    rw [bind_ok (match?_nil hends hmid _)]
    exact .read _ _ _ _ _ hmid
  | t :: mid =>
    have hshort : mid.length + 1 < ts.length := short
    obtain ⟨hkind, hmatch⟩ | ⟨hkind, _, hmatch⟩ := match?_cons hends hmid [.starStar]
    · rw [bind_ok hmatch]
      dsimp only
      rw [if_neg (fun heq => hkind (List.mem_singleton.mpr heq))]
      exact .read _ _ _ _ _ hmid
    · rw [bind_ok hmatch]
      dsimp only
      rw [if_pos (List.mem_singleton.mp hkind)]
      refine (parseLevel?_agrees hends .signed mid (next + 1) hmid.tail).elim .failed
        fun exponent rest last _ _ hrest => ?_
      exact .read _ _ _ _ _ hrest
termination_by (ts.length * 16 + Level.power.rank, 0)
decreasing_by
  all_goals apply Prod.Lex.left
  all_goals simp only [Level.rank]
  all_goals omega

/-- A primary and its trailers are parsed alike. -/
theorem trailed_agrees (hends : Ended tokens body stop)
    (ts : List Token) (current : Nat) (h : At body current ts) :
    Agrees tokens body (parseAt stop .trailed ts) (parseLevel? tokens .trailed current) := by
  unfold parseAt parseLevel?
  refine (parseLevel?_agrees hends .primary ts current h).elim .failed
    fun operand mid next short _ hmid => ?_
  dsimp only [ok_bind]
  refine (trailers?_agrees hends operand mid next hmid).elim .failed fun e rest last _ _ hrest => ?_
  exact .read _ _ _ _ _ hrest
termination_by (ts.length * 16 + Level.trailed.rank, 0)
decreasing_by
  all_goals apply Prod.Lex.left
  all_goals simp only [Level.rank]
  all_goals omega

/-- A group, a list and an atom are parsed alike. -/
theorem primary_agrees (hends : Ended tokens body stop)
    (ts : List Token) (current : Nat) (h : At body current ts) :
    Agrees tokens body (parseAt stop .primary ts) (parseLevel? tokens .primary current) := by
  unfold parseAt parseLevel?
  match ts with
  | [] =>
    rw [bind_ok (match?_nil hends h _)]
    dsimp only
    rw [bind_ok (match?_nil hends h _)]
    dsimp only
    rw [bind_ok (match?_nil hends h _)]
    dsimp only
    rw [lift_bind (h.look?_eq hends)]
    exact .failed _
  | t :: ts =>
    obtain ⟨hatom, hmatch⟩ | ⟨hatom, _, hmatch⟩ := match?_cons hends h atomKinds
    · rw [bind_ok hmatch]
      dsimp only
      obtain ⟨hparen, hmatch⟩ | ⟨hparen, _, hmatch⟩ := match?_cons hends h [.leftParen]
      · rw [bind_ok hmatch, if_neg (fun heq => hparen (List.mem_singleton.mpr heq))]
        dsimp only
        obtain ⟨hbracket, hmatch⟩ | ⟨hbracket, _, hmatch⟩ := match?_cons hends h [.leftBracket]
        · rw [bind_ok hmatch, if_neg (fun heq => hbracket (List.mem_singleton.mpr heq))]
          dsimp only
          rw [lift_bind (h.look?_eq hends), atom_of_not_mem hatom]
          exact .failed _
        · rw [bind_ok hmatch, if_pos (List.mem_singleton.mp hbracket)]
          dsimp only
          refine (sequence?_agrees hends .list ts (current + 1) h.tail).elim .failed
            fun elements rest last _ _ hrest => ?_
          exact .read _ _ _ _ _ hrest
      · rw [bind_ok hmatch, if_pos (List.mem_singleton.mp hparen)]
        dsimp only
        refine (parseLevel?_agrees hends (.joined .or) ts (current + 1) h.tail).elim .failed
          fun e mid behind _ _ hmid => ?_
        dsimp only [ok_bind]
        obtain ⟨u, rest, _, rfl, hu, hclosed⟩ | ⟨hnot, hopen⟩ :=
          consume?_outcome hends .group hmid
        · dsimp only
          rw [if_pos (show u.kind = .rightParen from hu), bind_ok hclosed]
          exact .read _ _ _ _ _ hmid.tail
        · rw [bind_failed hopen]
          cases mid with
          | nil => exact .failed _
          | cons u rest =>
            dsimp only
            rw [if_neg (show u.kind ≠ .rightParen from hnot u rest rfl)]
            exact .failed _
    · rw [bind_ok hmatch]
      dsimp only
      rw [if_neg (by intro heq; rw [heq] at hatom; revert hatom; decide),
        if_neg (by intro heq; rw [heq] at hatom; revert hatom; decide)]
      cases atom t with
      | error fault => exact .failed fault
      | ok e => exact .read _ _ _ _ _ h.tail
termination_by (ts.length * 16 + Level.primary.rank, 0)
decreasing_by
  all_goals apply Prod.Lex.left
  all_goals simp only [Level.rank, List.length_cons]
  all_goals omega

/-- The operators behind an operand are parsed alike. -/
theorem joinOnto?_agrees (hends : Ended tokens body stop) (join : Join) (left : Expr)
    (ts : List Token) (current : Nat) (h : At body current ts) :
    Agrees tokens body (joinOnto stop join left ts) (joinOnto? tokens join left current) := by
  unfold joinOnto joinOnto?
  match ts with
  | [] =>
    rw [bind_ok (match?_nil hends h _)]
    exact .read _ _ _ _ _ h
  | t :: ts =>
    obtain ⟨hkind, hmatch⟩ | ⟨hkind, _, hmatch⟩ := match?_cons hends h (joinKinds join)
    · rw [bind_ok hmatch]
      dsimp only
      rw [not_mem_joinKinds_iff.mp hkind]
      exact .read _ _ _ _ _ h
    · obtain ⟨build, hbuild⟩ := exists_build? hkind
      have := join.operand.rank_lt
      rw [bind_ok hmatch]
      dsimp only
      rw [hbuild]
      refine (parseLevel?_agrees hends join.operand ts (current + 1) h.tail).elim .failed
        fun right mid next short _ hmid => ?_
      dsimp only [ok_bind]
      rw [lift_bind rfl]
      refine (joinOnto?_agrees hends join (build left right) mid next hmid).elim .failed
        fun e rest last _ _ hrest => ?_
      exact .read _ _ _ _ _ hrest
termination_by (ts.length * 16 + 10, 0)
decreasing_by
  all_goals apply Prod.Lex.left
  all_goals simp only [List.length_cons]
  all_goals omega

/-- The links of a comparison are parsed alike. -/
theorem comparisons?_agrees (hends : Ended tokens body stop)
    (ts : List Token) (current : Nat) (h : At body current ts) :
    Agrees tokens body (comparisons stop ts) (comparisons? tokens current) := by
  unfold comparisons comparisons?
  obtain ⟨hnone, hat⟩ | ⟨op, column, us, next, _, hsome, hat, hus⟩ := relationAt?_eq hends h
  · rw [bind_ok hat]
    split
    next => exact .read _ _ _ _ _ h
    next heq => rw [hnone] at heq; cases heq
  · have := length_lt_of_relation? hsome
    rw [bind_ok hat]
    split
    next heq => rw [hsome] at heq; cases heq
    next heq =>
      rw [hsome] at heq
      cases heq
      dsimp only
      refine (parseLevel?_agrees hends (.joined .sum) us next hus).elim .failed
        fun operand mid behind short _ hmid => ?_
      dsimp only [ok_bind]
      refine (comparisons?_agrees hends mid behind hmid).elim .failed
        fun links rest last _ _ hrest => ?_
      exact .read _ _ _ _ _ hrest
termination_by (ts.length * 16 + 10, 0)
decreasing_by
  all_goals apply Prod.Lex.left
  all_goals first | omega | (simp only [Level.rank]; omega)

/-- The calls and subscripts behind a primary are parsed alike. -/
theorem trailers?_agrees (hends : Ended tokens body stop) (operand : Expr)
    (ts : List Token) (current : Nat) (h : At body current ts) :
    Agrees tokens body (trailers stop operand ts) (trailers? tokens operand current) := by
  unfold trailers trailers?
  match ts with
  | [] =>
    rw [bind_ok (match?_nil hends h _)]
    dsimp only
    rw [bind_ok (match?_nil hends h _)]
    exact .read _ _ _ _ _ h
  | t :: ts =>
    dsimp only
    obtain ⟨hparen, hmatch⟩ | ⟨hparen, _, hmatch⟩ := match?_cons hends h [.leftParen]
    · rw [bind_ok hmatch, if_neg (fun heq => hparen (List.mem_singleton.mpr heq))]
      dsimp only
      obtain ⟨hbracket, hmatch⟩ | ⟨hbracket, _, hmatch⟩ := match?_cons hends h [.leftBracket]
      · rw [bind_ok hmatch, if_neg (fun heq => hbracket (List.mem_singleton.mpr heq))]
        exact .read _ _ _ _ _ h
      · rw [bind_ok hmatch, if_pos (List.mem_singleton.mp hbracket)]
        dsimp only
        refine (parseLevel?_agrees hends (.joined .or) ts (current + 1) h.tail).elim .failed
          fun index mid behind short _ hmid => ?_
        dsimp only [ok_bind]
        obtain ⟨u, mid, _, rfl, hu, hclosed⟩ | ⟨hnot, hopen⟩ := consume?_outcome hends .index hmid
        · have hshort : mid.length + 1 < ts.length := short
          dsimp only
          rw [if_pos (show u.kind = .rightBracket from hu), bind_ok hclosed]
          refine (trailers?_agrees hends (.subscript t.column operand index) mid (behind + 1)
            hmid.tail).elim .failed fun e rest last _ _ hrest => ?_
          exact .read _ _ _ _ _ hrest
        · rw [bind_failed hopen]
          cases mid with
          | nil => exact .failed _
          | cons u mid =>
            dsimp only
            rw [if_neg (show u.kind ≠ .rightBracket from hnot u mid rfl)]
            exact .failed _
    · rw [bind_ok hmatch, if_pos (List.mem_singleton.mp hparen)]
      cases operand with
      | var name column =>
        dsimp only [callee?]
        refine (sequence?_agrees hends .arguments ts (current + 1) h.tail).elim .failed
          fun arguments mid behind short _ hmid => ?_
        dsimp only [ok_bind]
        refine (trailers?_agrees hends (.call name column arguments) mid behind hmid).elim .failed
          fun e rest last _ _ hrest => ?_
        exact .read _ _ _ _ _ hrest
      | _ => exact .failed _
termination_by (ts.length * 16 + 10, 0)
decreasing_by
  all_goals apply Prod.Lex.left
  all_goals simp only [Level.rank, List.length_cons]
  all_goals omega

/-- Elements up to their closing token are parsed alike. -/
theorem sequence?_agrees (hends : Ended tokens body stop) (closing : Closing)
    (ts : List Token) (current : Nat) (h : At body current ts) :
    Agrees tokens body (sequence stop closing ts) (sequence? tokens closing current) := by
  unfold sequence sequence?
  obtain ⟨t, us, _, rfl, ht, hmatch⟩ | ⟨hts, hmatch⟩ := match?_singleton hends closing.kind h
  · rw [dif_pos (show ((t :: us).head?.any (·.kind == closing.kind)) = true from
      beq_iff_eq.mpr ht), bind_ok hmatch]
    exact .read _ _ _ _ _ h.tail
  · have hhead : ¬ ts.head?.any (·.kind == closing.kind) = true := by
      cases ts with
      | nil => exact Bool.false_ne_true
      | cons t us => exact fun heq => hts t us rfl (beq_iff_eq.mp heq)
    rw [dif_neg hhead, bind_ok hmatch]
    dsimp only
    refine (parseLevel?_agrees hends (.joined .or) ts current h).elim .failed
      fun e mid behind short _ hmid => ?_
    dsimp only [ok_bind]
    match mid with
    | [] =>
      rw [bind_ok (match?_nil hends hmid _)]
      dsimp only
      obtain ⟨_, _, _, heq, _⟩ | ⟨_, hopen⟩ := consume?_outcome hends closing hmid
      · cases heq
      · rw [bind_failed hopen]
        exact .failed _
    | t :: mid =>
      have hshort : mid.length + 1 < ts.length := short
      dsimp only
      obtain ⟨hcomma, hmatch⟩ | ⟨hcomma, _, hmatch⟩ := match?_cons hends hmid [.comma]
      · rw [bind_ok hmatch, if_neg (fun heq => hcomma (List.mem_singleton.mpr heq))]
        dsimp only
        obtain ⟨u, us, _, heq, hu, hclosed⟩ | ⟨hnot, hopen⟩ :=
          consume?_outcome hends closing hmid
        · cases heq
          rw [if_pos hu, bind_ok hclosed]
          exact .read _ _ _ _ _ hmid.tail
        · rw [if_neg (hnot t mid rfl), bind_failed hopen]
          exact .failed _
      · rw [bind_ok hmatch, if_pos (List.mem_singleton.mp hcomma)]
        dsimp only
        refine (sequence?_agrees hends closing mid (behind + 1) hmid.tail).elim .failed
          fun es rest last _ _ hrest => ?_
        exact .read _ _ _ _ _ hrest
termination_by (ts.length * 16 + 11, 0)
decreasing_by
  all_goals apply Prod.Lex.left
  all_goals first | omega | (simp only [Level.rank]; omega)

end

/-! ## Where the end mark is -/

/-- Tokens that hold an end mark have a first one. -/
theorem exists_ended (h : ∃ t ∈ tokens, t.kind = .eof) :
    ∃ body stop, Ended tokens body stop := by
  obtain ⟨t, ht, heof⟩ := h
  have hfind : (tokens.find? (·.kind == .eof)).isSome :=
    List.find?_isSome.mpr ⟨t, ht, beq_iff_eq.mpr heof⟩
  obtain ⟨stop, hstop⟩ := Option.isSome_iff_exists.mp hfind
  obtain ⟨heof, body, after, rfl, hbody⟩ := List.find?_eq_some_iff_append.mp hstop
  refine ⟨body, stop, ⟨after, rfl⟩, ?_, beq_iff_eq.mp heof⟩
  intro u hu
  have hplain := hbody u hu
  rw [Bool.not_eq_true', beq_eq_false_iff_ne] at hplain
  exact hplain

/-- **Every access of the parser is in range** if the tokens hold an end mark. -/
theorem parseByPosition?_eq (h : ∃ t ∈ tokens, t.kind = .eof) :
    parseByPosition? tokens = some (parse tokens) := by
  obtain ⟨body, stop, hends⟩ := exists_ended h
  obtain ⟨after, rfl⟩ := hends.ends
  rw [parse_of_end hends.plain hends.stops after]
  have hstart : At body 0 body := ⟨rfl, Nat.zero_le _⟩
  unfold parseByPosition? parseBefore
  refine (parseLevel?_agrees hends (.joined .or) body 0 hstart).elim (fun _ => rfl)
    fun e rest last _ _ hrest => ?_
  dsimp only [ok_bind]
  have hlast : look? (body ++ stop :: after) last = some (rest.headD stop) := hrest.look?_eq hends
  have hend : atEnd? (body ++ stop :: after) last = some ((rest.headD stop).kind == .eof) := by
    rw [atEnd?, hlast, Option.map_some]
  rw [lift_bind hend]
  cases rest with
  | nil =>
    rw [if_pos (show ((([] : List Token).headD stop).kind == .eof) = true from
      beq_iff_eq.mpr hends.stops)]
    rfl
  | cons t rest =>
    rw [if_neg (show ¬ ((t :: rest).headD stop).kind == .eof from
      fun heq => hends.plain t hrest.mem (beq_iff_eq.mp heq)), lift_bind hlast]
    rfl

end Offside.Access
