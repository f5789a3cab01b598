import Offside.Proofs.Expr.Reading

/-!
# The parser accepts its grammar

The parser never backs up: where a level ends, it goes on with whatever the next
tokens join. A derivation says where each level ends, so the two agree only
because the token behind an expression cannot go on with it at the same level.
-/

namespace Offside

variable {stop t : Token} {join : Join} {level : Level} {ts us rest : List Token} {e : Expr}

/-! ## What goes on with an expression -/

/-- The level at which the first tokens go on with an expression in front of them. -/
def continued? : List Token → Option Level
  | [] => none
  | t :: rest =>
    match t.kind with
    | .leftParen | .leftBracket => some .trailed
    | .starStar => some .power
    | .star | .slash | .slashSlash | .percent => some (.joined .product)
    | .plus | .minus => some (.joined .sum)
    | .andWord => some (.joined .and)
    | .orWord => some (.joined .or)
    | _ => if (relation? (t :: rest)).isSome then some .comparison else none

/-- The tokens may stand behind an expression of a level: they go on with it, if at
all, only at a looser one. -/
def Follows (level : Level) (rest : List Token) : Prop :=
  ∀ looser, continued? rest = some looser → level.rank < looser.rank

/-- What may stand behind an expression may stand behind one of a tighter level. -/
theorem Follows.tighter {level' : Level} (h : Follows level rest)
    (hrank : level'.rank ≤ level.rank) : Follows level' rest := by
  intro looser hlooser
  exact Nat.lt_of_le_of_lt hrank (h looser hlooser)

/-- What makes only a looser level go on may stand behind an expression. -/
theorem follows_of_continued? {looser : Level} (h : continued? rest = some looser)
    (hrank : level.rank < looser.rank) : Follows level rest := by
  intro looser' hlooser'
  rw [h] at hlooser'
  cases hlooser'
  exact hrank

/-- An expression of every level may stand at the end. -/
theorem follows_nil : Follows level [] := by
  intro looser hlooser
  contradiction

/-- A comma may stand behind every expression. -/
theorem follows_comma (h : t.kind = .comma) : Follows level (t :: rest) := by
  intro looser hlooser
  simp [continued?, relation?, h] at hlooser

/-- A closing token may stand behind every expression. -/
theorem follows_closing (closing : Closing) (h : t.kind = closing.kind) :
    Follows level (t :: rest) := by
  intro looser hlooser
  cases closing <;> simp [continued?, relation?, h, Closing.kind] at hlooser

/-- Nothing goes on with an expression as a sign does or as a primary does. -/
theorem continued?_ne {looser : Level} (h : continued? rest = some looser) :
    looser ≠ .primary ∧ looser ≠ .signed := by
  unfold continued? at h
  grind

theorem follows_primary : Follows .primary rest := by
  intro looser hlooser
  have hne := (continued?_ne hlooser).1
  cases looser with
  | joined join => cases join <;> decide
  | primary => exact absurd rfl hne
  | _ => decide

/-- What does not make a power go on does not make a sign go on. -/
theorem Follows.signed (h : Follows .power rest) : Follows .signed rest := by
  intro looser hlooser
  have hne := (continued?_ne hlooser).2
  have hrank := h looser hlooser
  cases looser with
  | joined join => cases join <;> decide
  | signed => exact absurd rfl hne
  | not | comparison => decide
  | power | trailed | primary => exact absurd hrank (by decide)

/-- An operator makes its own level go on. -/
theorem continued?_of_joins {left right joined : Expr} (h : Joins join t left right joined) :
    continued? (t :: rest) = some (.joined join) := by
  cases h <;> simp only [continued?, *]

/-- A relation makes a comparison go on. -/
theorem continued?_of_relation? {link : Relation × Nat × List Token}
    (h : relation? rest = some link) : continued? rest = some .comparison := by
  unfold continued?
  unfold relation? at h ⊢
  grind

theorem Follows.not_joins {left right joined : Expr} (h : Follows (.joined join) (t :: rest)) :
    ¬ Joins join t left right joined := by
  intro hjoins
  exact Nat.lt_irrefl _ (h _ (continued?_of_joins hjoins))

theorem Follows.relation?_eq_none (h : Follows .comparison rest) : relation? rest = none := by
  cases hrelation : relation? rest with
  | none => rfl
  | some link => exact absurd (h _ (continued?_of_relation? hrelation)) (by decide)

theorem Follows.ne_starStar (h : Follows .power (t :: rest)) : t.kind ≠ .starStar := by
  intro hkind
  exact absurd (h .power (by simp only [continued?, hkind])) (by decide)

theorem Follows.ne_bracket (h : Follows .trailed (t :: rest)) :
    t.kind ≠ .leftParen ∧ t.kind ≠ .leftBracket := by
  constructor <;> intro hkind <;>
    exact absurd (h .trailed (by simp only [continued?, hkind])) (by decide)

/-! ## Completeness -/

/-- With `e` read and `rest` left, reading at a level goes on to `e'` and `rest'`.
Only two levels go on after an operand; the others are done. -/
def GoesOn (stop : Token) (level : Level) (e : Expr) (rest : List Token) (e' : Expr)
    (rest' : List Token) : Prop :=
  match level with
  | .joined join => Follows join.operand rest ∧ Reads (joinOnto stop join e rest) e' rest'
  | .trailed => Reads (trailers stop e rest) e' rest'
  | level => Follows level rest ∧ e = e' ∧ rest = rest'

/-- An operator loop stops at once where nothing makes its level go on. -/
theorem Follows.joinOnto (h : Follows (.joined join) rest) :
    Reads (joinOnto stop join e rest) e rest := by
  cases rest with
  | nil => exact reads_joinOnto_nil.mpr ⟨rfl, rfl⟩
  | cons t us =>
    refine reads_joinOnto_cons.mpr (.inl ⟨?_, rfl, rfl⟩)
    cases hbuild : join.build? t with
    | none => rfl
    | some build =>
      have hjoins : Joins join t e e (build e e) := joins_iff.mpr ⟨build, hbuild, rfl⟩
      exact absurd hjoins h.not_joins

/-- A loop over trailers stops at once where nothing makes it go on. -/
theorem Follows.trailers (h : Follows .trailed rest) : Reads (trailers stop e rest) e rest := by
  cases rest with
  | nil => exact reads_trailers_nil.mpr ⟨rfl, rfl⟩
  | cons t us =>
    exact reads_trailers_cons.mpr (.inr (.inr ⟨h.ne_bracket.1, h.ne_bracket.2, rfl, rfl⟩))

/-- A level that nothing makes go on ends with what it has read. -/
theorem Follows.goesOn (h : Follows level rest) : GoesOn stop level e rest e rest := by
  cases level with
  | joined join => exact ⟨h.tighter (Nat.le_of_lt join.rank_operand_lt), h.joinOnto⟩
  | trailed => exact h.trailers
  | _ => exact ⟨h, rfl, rfl⟩

/-- An expression does not begin with a token that begins only looser levels, or none. -/
theorem Begins.ne (h : Begins level ts) {t : Token} {us : List Token} (hts : ts = t :: us)
    {kind : TokenKind} (hkind : ∀ tightest, kind.begins? = some tightest →
      ¬ tightest.rank ≤ level.rank) : t.kind ≠ kind := by
  obtain ⟨_, _, tightest, rfl, hbegins, hrank⟩ := h
  cases hts
  rintro rfl
  exact hkind tightest hbegins hrank

/-- A link may stand behind a sum. -/
theorem Links.follows {links : List (Relation × Nat × Expr)} (h : Links us links)
    (hrest : Follows .comparison rest) : Follows (.joined .sum) (us ++ rest) := by
  cases h with
  | nil => exact hrest.tighter (by decide)
  | cons ht he hlinks =>
    refine follows_of_continued? (continued?_of_relation? (relation?_eq_some_iff.mpr
      (.inl ⟨_, rfl, ht, rfl⟩))) (by decide)
  | notIn ht hu he hlinks =>
    refine follows_of_continued? (continued?_of_relation? (relation?_eq_some_iff.mpr
      (.inr ⟨_, _, rfl, ht, hu, rfl, rfl⟩))) (by decide)

mutual

/-- What is derived is read, by the induction of the derivation: behind an operand the reading
goes on as the level that stands around it says. -/
theorem Derives.reads {level : Level} {ts : List Token} {e : Expr} :
    Derives level ts e → ∀ {rest rest' : List Token} {e' : Expr},
      GoesOn stop level e rest e' rest' → Reads (parseAt stop level (ts ++ rest)) e' rest'
  | .operand he, _, _, _, hgo => by
    obtain ⟨hfollows, honto⟩ := hgo
    exact reads_joined.mpr ⟨_, _, he.reads hfollows.goesOn, honto⟩
  | .join hleft ht hright, rest, _, _, hgo => by
    obtain ⟨hfollows, honto⟩ := hgo
    rw [List.append_assoc, List.cons_append]
    -- the operands on the left are read first, and `t` joins the one on the right to them
    refine hleft.reads ⟨follows_of_continued? (continued?_of_joins ht) (Join.rank_operand_lt _), ?_⟩
    exact reads_joinOnto_cons.mpr (.inr ⟨_, _, _, ht, hright.reads hfollows.goesOn, honto⟩)
  | .not ht he, _, _, _, hgo => by
    obtain ⟨hfollows, rfl, rfl⟩ := hgo
    exact reads_not.mpr (.inl ⟨_, _, _, rfl, ht, he.reads hfollows.goesOn, rfl⟩)
  | .compared he, rest, _, _, hgo => by
    obtain ⟨hfollows, rfl, rfl⟩ := hgo
    -- a comparison does not begin with `not`, so the parser does not take it for one
    refine reads_not.mpr (.inr ⟨fun t us hts => ?_, he.reads (hfollows.tighter (by decide)).goesOn⟩)
    exact (he.begins.append rest).ne hts (by decide)
  | .single he, rest, _, _, hgo => by
    obtain ⟨hfollows, rfl, rfl⟩ := hgo
    exact reads_comparison.mpr ⟨_, [], _, he.reads (hfollows.tighter (by decide)).goesOn,
      (reads_comparisons_none hfollows.relation?_eq_none).mpr ⟨rfl, rfl⟩, .inl ⟨rfl, rfl⟩⟩
  | .chain hfirst hlinks, rest, _, _, hgo => by
    obtain ⟨hfollows, rfl, rfl⟩ := hgo
    rw [List.append_assoc]
    -- the sum in front ends where the first link begins
    exact reads_comparison.mpr ⟨_, _, _, hfirst.reads (hlinks.follows hfollows).goesOn,
      hlinks.reads hfollows, .inr ⟨List.cons_ne_nil _ _, rfl⟩⟩
  | .sign ht he, _, _, _, hgo => by
    obtain ⟨hfollows, rfl, rfl⟩ := hgo
    exact reads_signed.mpr (.inl ⟨_, _, _, _, rfl, ht, he.reads hfollows.goesOn, rfl⟩)
  | .unsigned he, rest, _, _, hgo => by
    obtain ⟨hfollows, rfl, rfl⟩ := hgo
    have hread := he.reads (hfollows.tighter (by decide)).goesOn
    refine reads_signed.mpr (.inr ⟨fun t us hts => ?_, hread⟩)
    cases hsign : sign? t with
    | none => rfl
    | some op =>
      -- a power begins with no sign
      have hne : t.kind ≠ t.kind := (he.begins.append rest).ne hts (by
        rw [(sign?_eq_some_iff.mp hsign).begins?]
        decide)
      exact absurd rfl hne
  | .base he, rest, _, _, hgo => by
    obtain ⟨hfollows, rfl, rfl⟩ := hgo
    refine reads_power.mpr (.inr ⟨?_, he.reads (hfollows.tighter (by decide)).goesOn⟩)
    rintro t us rfl
    exact hfollows.ne_starStar
  | .power hbase ht hexponent, rest, _, _, hgo => by
    obtain ⟨hfollows, rfl, rfl⟩ := hgo
    rw [List.append_assoc, List.cons_append]
    refine reads_power.mpr (.inl ⟨_, _, _, _, hbase.reads (Follows.goesOn ?_), ht,
      hexponent.reads hfollows.signed.goesOn, rfl⟩)
    exact follows_of_continued? (by simp only [continued?, ht]) (by decide : _ < Level.power.rank)
  | .bare he, _, _, _, hgo =>
    reads_trailed.mpr ⟨_, _, he.reads follows_primary.goesOn, hgo⟩
  | .call hcallee ht harguments hu, rest, _, _, hgo => by
    rw [List.append_assoc, List.cons_append, List.append_assoc, List.singleton_append]
    -- the trailers behind the callee are what the whole level still has to read
    refine hcallee.reads (reads_trailers_cons.mpr (.inl ⟨ht, _, _, _, _, rfl, ?_, hgo⟩))
    exact harguments.reads hu
  | .subscript hcontainer ht hindex hu, rest, _, _, hgo => by
    rw [List.append_assoc, List.cons_append, List.append_assoc, List.singleton_append]
    refine hcontainer.reads (reads_trailers_cons.mpr (.inr (.inl ⟨ht, _, _, _, ?_, hu, hgo⟩)))
    exact hindex.reads (follows_closing .index hu).goesOn
  | .stands ht, _, _, _, hgo => by
    obtain ⟨-, rfl, rfl⟩ := hgo
    refine reads_primary_cons.mpr (.inr (.inr ⟨?_, ?_, ht, rfl⟩))
    · cases ht <;> simp only [*] <;> decide
    · cases ht <;> simp only [*] <;> decide
  | .group ht he hu, _, _, _, hgo => by
    obtain ⟨-, rfl, rfl⟩ := hgo
    rw [List.cons_append, List.append_assoc, List.singleton_append]
    refine reads_primary_cons.mpr (.inl ⟨ht, _, ?_, hu⟩)
    exact he.reads (follows_closing .group hu).goesOn
  | .list ht helements hu, _, _, _, hgo => by
    obtain ⟨-, rfl, rfl⟩ := hgo
    rw [List.cons_append, List.append_assoc, List.singleton_append]
    exact reads_primary_cons.mpr (.inr (.inl ⟨ht, _, helements.reads hu, rfl⟩))

/-- Links that are derived are read. -/
theorem Links.reads {ts : List Token} {links : List (Relation × Nat × Expr)} :
    Links ts links → ∀ {rest : List Token}, Follows .comparison rest →
      Reads (comparisons stop (ts ++ rest)) links rest
  | .nil, _, hfollows =>
    (reads_comparisons_none hfollows.relation?_eq_none).mpr ⟨rfl, rfl⟩
  | .cons ht he hlinks, rest, hfollows => by
    rw [List.cons_append, List.append_assoc]
    exact (reads_comparisons_some (relation?_eq_some_iff.mpr (.inl ⟨_, rfl, ht, rfl⟩))).mpr
      ⟨_, _, _, he.reads (hlinks.follows hfollows).goesOn, hlinks.reads hfollows, rfl⟩
  | .notIn ht hu he hlinks, rest, hfollows => by
    rw [List.cons_append, List.cons_append, List.append_assoc]
    exact (reads_comparisons_some (relation?_eq_some_iff.mpr
      (.inr ⟨_, _, rfl, ht, hu, rfl, rfl⟩))).mpr
      ⟨_, _, _, he.reads (hlinks.follows hfollows).goesOn, hlinks.reads hfollows, rfl⟩

/-- Elements that are derived are read up to the closing token. -/
theorem Elements.reads {ts : List Token} {es : List Expr} :
    Elements ts es → ∀ {closing : Closing} {u : Token} {rest : List Token},
      u.kind = closing.kind → Reads (sequence stop closing (ts ++ u :: rest)) es rest
  | .nil, _, _, _, hu => reads_sequence.mpr (.inl ⟨_, rfl, hu, rfl⟩)
  | .last he, closing, u, rest, hu => by
    -- an expression does not begin with the closing token, so the sequence is not empty
    refine reads_sequence.mpr (.inr ⟨fun t us hts => ?_, _, _, _,
      he.reads (follows_closing closing hu).goesOn, .inr ⟨?_, hu, rfl, rfl⟩⟩)
    · exact (he.begins.append _).ne hts (by cases closing <;> decide)
    · rw [hu]
      cases closing <;> decide
  | .cons he ht hes, closing, u, rest, hu => by
    rw [List.append_assoc, List.cons_append]
    refine reads_sequence.mpr (.inr ⟨fun t us hts => ?_, _, _, _,
      he.reads (follows_comma ht).goesOn, .inl ⟨ht, _, hes.reads hu, rfl⟩⟩)
    exact (he.begins.append _).ne hts (by cases closing <;> decide)

end

/-! ## Soundness -/

mutual

/-- What is read at a level is what the tokens in front of the rest form there. -/
theorem derives_of_reads (level : Level) (ts : List Token) {rest : List Token} {e : Expr}
    (h : Reads (parseAt stop level ts) e rest) : ∃ us, ts = us ++ rest ∧ Derives level us e := by
  match level with
  | .joined join =>
    have := join.rank_operand_lt
    obtain ⟨left, mid, hleft, honto⟩ := reads_joined.mp h
    have hshort := hleft.length_lt
    obtain ⟨us, hts, hus⟩ := derives_of_reads join.operand ts hleft
    obtain ⟨vs, hmid, hvs⟩ := derives_of_reads_joinOnto join mid (.operand hus) honto
    exact ⟨us ++ vs, by rw [hts, hmid, List.append_assoc], hvs⟩
  | .not =>
    rcases reads_not.mp h with ⟨t, us, operand, hts, ht, hoperand, rfl⟩ | ⟨-, hcomparison⟩
    · have hshort : us.length < ts.length := by rw [hts]; exact Nat.lt_succ_self _
      obtain ⟨vs, hus, hvs⟩ := derives_of_reads .not us hoperand
      exact ⟨t :: vs, by rw [hts, hus, List.cons_append], .not ht hvs⟩
    · obtain ⟨vs, hts, hvs⟩ := derives_of_reads .comparison ts hcomparison
      exact ⟨vs, hts, .compared hvs⟩
  | .comparison =>
    obtain ⟨first, links, mid, hfirst, hlinks, he⟩ := reads_comparison.mp h
    have hshort := hfirst.length_lt
    obtain ⟨us, hts, hus⟩ := derives_of_reads (.joined .sum) ts hfirst
    obtain ⟨vs, hmid, hvs⟩ := links_of_reads mid hlinks
    refine ⟨us ++ vs, by rw [hts, hmid, List.append_assoc], ?_⟩
    rcases he with ⟨rfl, rfl⟩ | ⟨hne, rfl⟩
    -- without a link the comparison is the sum itself
    · cases hvs
      rw [List.append_nil]
      exact .single hus
    · cases links with
      | nil => exact absurd rfl hne
      | cons link links => exact .chain hus hvs
  | .signed =>
    rcases reads_signed.mp h with ⟨t, us, op, operand, hts, ht, hoperand, rfl⟩ | ⟨-, hpower⟩
    · have hshort : us.length < ts.length := by rw [hts]; exact Nat.lt_succ_self _
      obtain ⟨vs, hus, hvs⟩ := derives_of_reads .signed us hoperand
      exact ⟨t :: vs, by rw [hts, hus, List.cons_append], .sign ht hvs⟩
    · obtain ⟨vs, hts, hvs⟩ := derives_of_reads .power ts hpower
      exact ⟨vs, hts, .unsigned hvs⟩
  | .power =>
    rcases reads_power.mp h with ⟨base, t, mid, exponent, hbase, ht, hexponent, rfl⟩ | ⟨-, hbase⟩
    · have hshort := Nat.lt_of_succ_lt hbase.length_lt
      obtain ⟨us, hts, hus⟩ := derives_of_reads .trailed ts hbase
      obtain ⟨vs, hmid, hvs⟩ := derives_of_reads .signed mid hexponent
      exact ⟨us ++ t :: vs, by rw [hts, hmid, List.append_assoc, List.cons_append],
        .power hus ht hvs⟩
    · obtain ⟨us, hts, hus⟩ := derives_of_reads .trailed ts hbase
      exact ⟨us, hts, .base hus⟩
  | .trailed =>
    obtain ⟨operand, mid, hoperand, htrailers⟩ := reads_trailed.mp h
    have hshort := hoperand.length_lt
    obtain ⟨us, hts, hus⟩ := derives_of_reads .primary ts hoperand
    obtain ⟨vs, hmid, hvs⟩ := derives_of_reads_trailers mid (.bare hus) htrailers
    exact ⟨us ++ vs, by rw [hts, hmid, List.append_assoc], hvs⟩
  | .primary =>
    match ts with
    | [] => exact absurd h not_reads_primary_nil
    | t :: ts =>
      rcases reads_primary_cons.mp h with ⟨ht, u, he, hu⟩ | ⟨ht, elements, helements, rfl⟩ |
        ⟨-, -, ht, rfl⟩
      · obtain ⟨us, hts, hus⟩ := derives_of_reads (.joined .or) ts he
        exact ⟨t :: (us ++ [u]), by rw [hts]; simp, .group ht hus hu⟩
      · obtain ⟨us, u, hts, hu, hus⟩ := elements_of_reads .list ts helements
        exact ⟨t :: (us ++ [u]), by rw [hts]; simp, .list ht hus hu⟩
      · exact ⟨[t], rfl, .stands ht⟩
termination_by ts.length * 16 + level.rank
decreasing_by
  all_goals first | omega | (simp only [Level.rank, List.length_cons]; omega)

/-- What is read behind an operand is derived together with it. -/
theorem derives_of_reads_joinOnto (join : Join) (ts : List Token) {us rest : List Token}
    {left e : Expr} (hleft : Derives (.joined join) us left)
    (h : Reads (joinOnto stop join left ts) e rest) :
    ∃ vs, ts = vs ++ rest ∧ Derives (.joined join) (us ++ vs) e := by
  match ts with
  | [] =>
    obtain ⟨rfl, rfl⟩ := reads_joinOnto_nil.mp h
    exact ⟨[], rfl, by rwa [List.append_nil]⟩
  | t :: ts =>
    rcases reads_joinOnto_cons.mp h with ⟨-, rfl, rfl⟩ | ⟨joined, right, mid, ht, hright, honto⟩
    · exact ⟨[], rfl, by rwa [List.append_nil]⟩
    · have := join.operand.rank_lt
      have hshort := hright.length_lt
      obtain ⟨vs, hts, hvs⟩ := derives_of_reads join.operand ts hright
      obtain ⟨ws, hmid, hws⟩ := derives_of_reads_joinOnto join mid (.join hleft ht hvs) honto
      refine ⟨t :: (vs ++ ws), by rw [hts, hmid, List.cons_append, List.append_assoc], ?_⟩
      rwa [List.append_assoc, List.cons_append] at hws
termination_by ts.length * 16 + 10
decreasing_by
  all_goals simp only [List.length_cons]
  all_goals omega

/-- Links that are read are derived. -/
theorem links_of_reads (ts : List Token) {rest : List Token}
    {links : List (Relation × Nat × Expr)} (h : Reads (comparisons stop ts) links rest) :
    ∃ us, ts = us ++ rest ∧ Links us links := by
  cases hrelation : relation? ts with
  | none =>
    obtain ⟨rfl, rfl⟩ := (reads_comparisons_none hrelation).mp h
    exact ⟨[], rfl, .nil⟩
  | some link =>
    obtain ⟨op, column, mid⟩ := link
    obtain ⟨operand, more, mid', hoperand, hmore, rfl⟩ := (reads_comparisons_some hrelation).mp h
    have hshort := length_lt_of_relation? hrelation
    have hshort' := hoperand.length_lt
    obtain ⟨us, hmid, hus⟩ := derives_of_reads (.joined .sum) mid hoperand
    obtain ⟨vs, hmid', hvs⟩ := links_of_reads mid' hmore
    -- `not in` is the one comparison of two tokens
    rcases relation?_eq_some_iff.mp hrelation with ⟨t, hts, ht, rfl⟩ |
      ⟨t, u, hts, ht, hu, rfl, rfl⟩
    · exact ⟨t :: (us ++ vs), by rw [hts, hmid, hmid']; simp, .cons ht hus hvs⟩
    · exact ⟨t :: u :: (us ++ vs), by rw [hts, hmid, hmid']; simp, .notIn ht hu hus hvs⟩
termination_by ts.length * 16 + 10
decreasing_by
  all_goals first | omega | (simp only [Level.rank]; omega)

/-- Trailers that are read are derived together with what stands in front of them. -/
theorem derives_of_reads_trailers (ts : List Token) {us rest : List Token} {operand e : Expr}
    (hoperand : Derives .trailed us operand) (h : Reads (trailers stop operand ts) e rest) :
    ∃ vs, ts = vs ++ rest ∧ Derives .trailed (us ++ vs) e := by
  match ts with
  | [] =>
    obtain ⟨rfl, rfl⟩ := reads_trailers_nil.mp h
    exact ⟨[], rfl, by rwa [List.append_nil]⟩
  | t :: ts =>
    rcases reads_trailers_cons.mp h with
      ⟨ht, name, column, arguments, mid, rfl, harguments, hmore⟩ |
      ⟨ht, index, u, mid, hindex, hu, hmore⟩ | ⟨-, -, rfl, rfl⟩
    · have hshort := harguments.length_lt
      obtain ⟨vs, u, hts, hu, hvs⟩ := elements_of_reads .arguments ts harguments
      obtain ⟨ws, hmid, hws⟩ := derives_of_reads_trailers mid (.call hoperand ht hvs hu) hmore
      exact ⟨t :: (vs ++ u :: ws), by rw [hts, hmid]; simp, by simpa using hws⟩
    · have hshort := Nat.lt_of_succ_lt hindex.length_lt
      obtain ⟨vs, hts, hvs⟩ := derives_of_reads (.joined .or) ts hindex
      obtain ⟨ws, hmid, hws⟩ := derives_of_reads_trailers mid (.subscript hoperand ht hvs hu) hmore
      exact ⟨t :: (vs ++ u :: ws), by rw [hts, hmid]; simp, by simpa using hws⟩
    · exact ⟨[], rfl, by rwa [List.append_nil]⟩
termination_by ts.length * 16 + 10
decreasing_by
  all_goals first | omega | (simp only [Level.rank, List.length_cons]; omega)

/-- Elements that are read are derived, and the closing token stands behind them. -/
theorem elements_of_reads (closing : Closing) (ts : List Token) {rest : List Token}
    {es : List Expr} (h : Reads (sequence stop closing ts) es rest) :
    ∃ us u, ts = us ++ u :: rest ∧ u.kind = closing.kind ∧ Elements us es := by
  rcases reads_sequence.mp h with ⟨u, rfl, hu, rfl⟩ | ⟨-, e, t, mid, he, hbehind⟩
  · exact ⟨[], u, rfl, hu, .nil⟩
  · have hshort := Nat.lt_of_succ_lt he.length_lt
    obtain ⟨us, hts, hus⟩ := derives_of_reads (.joined .or) ts he
    rcases hbehind with ⟨ht, more, hmore, rfl⟩ | ⟨-, ht, rfl, rfl⟩
    · obtain ⟨vs, u, hmid, hu, hvs⟩ := elements_of_reads closing mid hmore
      exact ⟨us ++ t :: vs, u, by rw [hts, hmid]; simp, hu, .cons hus ht hvs⟩
    · exact ⟨us, t, hts, ht, .last hus⟩
termination_by ts.length * 16 + 11
decreasing_by
  all_goals first | omega | (simp only [Level.rank]; omega)

end

end Offside
