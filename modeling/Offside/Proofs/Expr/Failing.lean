import Offside.Proofs.Expr.Parsing

/-!
# Where the parser fails

The parser reads from left to right and looks at one token in front of it, at two where
the first is `not`. So when it fails, it fails at a token, or at the end of the tokens: the
tokens in front of that place are the beginning of an expression, and with the token the
parser fails in the same way whatever stands behind it.

> `located_parseBefore`: the fault of tokens that form no expression is `Located`.
-/

namespace Offside

variable {stop t : Token} {join : Join} {level : Level} {ts us mid rest : List Token}
  {e left operand : Expr} {fault : ParseFault}

/-! ## What each step of the parser fails for -/

/-- A joined level fails with its first operand, or behind it. -/
theorem fails_joined :
    parseAt stop (.joined join) ts = .error fault ↔
      parseAt stop join.operand ts = .error fault ∨
      ∃ left mid, Reads (parseAt stop join.operand ts) left mid ∧
        joinOnto stop join left mid = .error fault := by
  unfold Reads
  conv => lhs; unfold parseAt
  grind

theorem not_fails_joinOnto_nil : joinOnto stop join left [] ≠ .error fault := by
  unfold joinOnto
  nofun

/-- Behind an operand a joined level goes on only at one of its own operators, so it can only
fail behind one. -/
theorem fails_joinOnto_cons :
    joinOnto stop join left (t :: ts) = .error fault ↔
      ∃ build, join.build? t = some build ∧
        (parseAt stop join.operand ts = .error fault ∨
        ∃ right mid, Reads (parseAt stop join.operand ts) right mid ∧
          joinOnto stop join (build left right) mid = .error fault) := by
  unfold Reads
  conv => lhs; unfold joinOnto
  grind

/-- A `not` in front decides which of two levels fails. -/
theorem fails_not :
    parseAt stop .not ts = .error fault ↔
      (∃ t us, ts = t :: us ∧ t.kind = .notWord ∧ parseAt stop .not us = .error fault) ∨
      ((∀ t us, ts = t :: us → t.kind ≠ .notWord) ∧
        parseAt stop .comparison ts = .error fault) := by
  conv => lhs; unfold parseAt
  cases ts <;> grind

/-- A comparison fails with its first operand, or in the links behind it. -/
theorem fails_comparison :
    parseAt stop .comparison ts = .error fault ↔
      parseAt stop (.joined .sum) ts = .error fault ∨
      ∃ first mid, Reads (parseAt stop (.joined .sum) ts) first mid ∧
        comparisons stop mid = .error fault := by
  unfold Reads
  conv => lhs; unfold parseAt
  grind

theorem not_fails_comparisons_none (h : relation? ts = none) :
    comparisons stop ts ≠ .error fault := by
  unfold comparisons
  grind

/-- A link fails with its operand, or the links behind it do. -/
theorem fails_comparisons_some {op : Relation} {column : Nat}
    (h : relation? ts = some (op, column, us)) :
    comparisons stop ts = .error fault ↔
      parseAt stop (.joined .sum) us = .error fault ∨
      ∃ operand mid, Reads (parseAt stop (.joined .sum) us) operand mid ∧
        comparisons stop mid = .error fault := by
  unfold Reads
  conv => lhs; unfold comparisons
  split
  next hnone =>
    rw [h] at hnone
    contradiction
  next hsome =>
    rw [h] at hsome
    cases hsome
    grind

/-- A sign in front decides which of two levels fails. -/
theorem fails_signed :
    parseAt stop .signed ts = .error fault ↔
      (∃ t us op, ts = t :: us ∧ sign? t = some op ∧ parseAt stop .signed us = .error fault) ∨
      ((∀ t us, ts = t :: us → sign? t = none) ∧ parseAt stop .power ts = .error fault) := by
  conv => lhs; unfold parseAt
  cases ts <;> grind

/-- A power fails with its base, or with its exponent where there is one. -/
theorem fails_power :
    parseAt stop .power ts = .error fault ↔
      parseAt stop .trailed ts = .error fault ∨
      ∃ base t mid, Reads (parseAt stop .trailed ts) base (t :: mid) ∧ t.kind = .starStar ∧
        parseAt stop .signed mid = .error fault := by
  unfold Reads
  conv => lhs; unfold parseAt
  grind

/-- A primary with trailers fails by itself, or in the trailers. -/
theorem fails_trailed :
    parseAt stop .trailed ts = .error fault ↔
      parseAt stop .primary ts = .error fault ∨
      ∃ operand mid, Reads (parseAt stop .primary ts) operand mid ∧
        trailers stop operand mid = .error fault := by
  unfold Reads
  conv => lhs; unfold parseAt
  grind

/-- There is no expression, or no token of the kinds that may stand behind it, so that the
closing one is missing. -/
def Misses (stop : Token) (closing : Closing) (kinds : List TokenKind) (ts : List Token)
    (fault : ParseFault) : Prop :=
  parseAt stop (.joined .or) ts = .error fault ∨
  ∃ e mid, Reads (parseAt stop (.joined .or) ts) e mid ∧
    (∀ u ∈ mid.head?, u.kind ∉ kinds) ∧ fault = unclosed stop closing mid

theorem not_fails_trailers_nil : trailers stop operand [] ≠ .error fault := by
  unfold trailers
  nofun

/-- Trailers fail at a call of what is no name, in the arguments or the index, or behind
these. -/
theorem fails_trailers_cons :
    trailers stop operand (t :: ts) = .error fault ↔
      (t.kind = .leftParen ∧ ∃ name column, operand = .var name column ∧
        (sequence stop .arguments ts = .error fault ∨
        ∃ arguments mid, Reads (sequence stop .arguments ts) arguments mid ∧
          trailers stop (.call name column arguments) mid = .error fault)) ∨
      (t.kind = .leftParen ∧ (∀ name column, operand ≠ .var name column) ∧
        fault = .notNamed t.column) ∨
      (t.kind = .leftBracket ∧
        (Misses stop .index [.rightBracket] ts fault ∨
        ∃ index u mid, Reads (parseAt stop (.joined .or) ts) index (u :: mid) ∧
          u.kind = .rightBracket ∧
          trailers stop (.subscript t.column operand index) mid = .error fault)) := by
  unfold Misses Reads
  conv => lhs; unfold trailers
  grind

/-- Where an operand is missing at the end, the fault is at the token that stops the reading.
-/
theorem fails_primary_nil :
    parseAt stop .primary [] = .error fault ↔ fault = .noOperand stop.kind stop.column := by
  conv => lhs; unfold parseAt
  grind

/-- The first token of a primary decides where it may fail: in a group, in a list, or right
there. -/
theorem fails_primary_cons :
    parseAt stop .primary (t :: ts) = .error fault ↔
      (t.kind = .leftParen ∧ Misses stop .group [.rightParen] ts fault) ∨
      (t.kind = .leftBracket ∧ sequence stop .list ts = .error fault) ∨
      (t.kind ≠ .leftParen ∧ t.kind ≠ .leftBracket ∧ atom t = .error fault) := by
  unfold Misses Reads
  conv => lhs; unfold parseAt
  grind

/-- A sequence fails at an element that is not followed by a comma or the closing token, or in
what follows a comma. At the closing token it does not fail. -/
theorem fails_sequence {closing : Closing} :
    sequence stop closing ts = .error fault ↔
      (∀ t us, ts = t :: us → t.kind ≠ closing.kind) ∧
      (Misses stop closing [closing.kind, .comma] ts fault ∨
      ∃ e t mid, Reads (parseAt stop (.joined .or) ts) e (t :: mid) ∧ t.kind = .comma ∧
        sequence stop closing mid = .error fault) := by
  unfold Misses Reads
  conv => lhs; unfold sequence
  cases ts <;> grind

/-! ## What is left behind an expression -/

/-- No token that follows makes a `not` go on. -/
theorem continued?_ne_not {looser : Level} (h : continued? rest = some looser) :
    looser ≠ .not := by
  unfold continued? at h
  grind

/-- What makes a joined level go on is one of its operators. -/
theorem joins_of_continued? (h : continued? (t :: rest) = some (.joined join)) :
    ∃ build, join.build? t = some build := by
  refine Option.isSome_iff_exists.mp ?_
  unfold continued? at h
  dsimp only at h
  split at h <;> first
    | cases h <;> simp only [Join.build?, *, Option.isSome_some]
    | split at h <;> cases h

/-- What makes a comparison go on is a relation. -/
theorem relation?_of_continued? (h : continued? rest = some .comparison) :
    ∃ link, relation? rest = some link := by
  refine Option.isSome_iff_exists.mp ?_
  unfold continued? at h
  grind

/-- What makes a power go on are two stars. -/
theorem starStar_of_continued? (h : continued? (t :: rest) = some .power) :
    t.kind = .starStar := by
  unfold continued? at h
  grind

/-- What makes trailers go on is an opening bracket. -/
theorem bracket_of_continued? (h : continued? (t :: rest) = some .trailed) :
    t.kind = .leftParen ∨ t.kind = .leftBracket := by
  unfold continued? at h
  grind

/-- What may stand behind a tighter level may stand behind the next looser one, unless it
goes on there. -/
theorem Follows.looser {tighter : Level} (h : Follows tighter rest)
    (hrank : level.rank = tighter.rank + 1) (hlevel : continued? rest ≠ some level) :
    Follows level rest := by
  intro looser hlooser
  have hlt := h looser hlooser
  have hne : looser ≠ level := by
    rintro rfl
    exact hlevel hlooser
  have hranks : looser.rank ≠ level.rank := by
    intro heq
    cases looser with
    | joined join => cases level with
      | joined join' => cases join <;> cases join' <;> simp_all [Level.rank]
      | _ => cases join <;> simp_all [Level.rank]
    | _ => cases level with
      | joined join' => cases join' <;> simp_all [Level.rank]
      | _ => simp_all [Level.rank]
  omega

mutual

/-- What is left behind an expression does not go on with it. -/
theorem follows_of_reads (level : Level) (ts : List Token) {rest : List Token} {e : Expr}
    (h : Reads (parseAt stop level ts) e rest) : Follows level rest := by
  match level with
  | .joined join =>
    have := join.rank_operand_lt
    obtain ⟨left, mid, hleft, honto⟩ := reads_joined.mp h
    have hshort := hleft.length_lt
    exact follows_of_reads_joinOnto join mid (follows_of_reads join.operand ts hleft) honto
  | .not =>
    rcases reads_not.mp h with ⟨t, us, operand, hts, -, hoperand, -⟩ | ⟨-, hcomparison⟩
    · have hshort : us.length < ts.length := by rw [hts]; exact Nat.lt_succ_self _
      exact follows_of_reads .not us hoperand
    · have hfollows := follows_of_reads .comparison ts hcomparison
      exact hfollows.looser rfl fun hnot => continued?_ne_not hnot rfl
  | .comparison =>
    obtain ⟨first, links, mid, hfirst, hlinks, -⟩ := reads_comparison.mp h
    have hshort := hfirst.length_lt
    exact follows_of_reads_comparisons mid (follows_of_reads (.joined .sum) ts hfirst) hlinks
  | .signed =>
    rcases reads_signed.mp h with ⟨t, us, op, operand, hts, -, hoperand, -⟩ | ⟨-, hpower⟩
    · have hshort : us.length < ts.length := by rw [hts]; exact Nat.lt_succ_self _
      exact follows_of_reads .signed us hoperand
    · exact (follows_of_reads .power ts hpower).signed
  | .power =>
    rcases reads_power.mp h with ⟨base, t, mid, exponent, hbase, -, hexponent, -⟩ | ⟨hne, hbase⟩
    · have hshort := Nat.lt_of_succ_lt hbase.length_lt
      exact (follows_of_reads .signed mid hexponent).tighter (by decide)
    · refine (follows_of_reads .trailed ts hbase).looser rfl fun hpower => ?_
      cases rest with
      | nil => contradiction
      | cons t us => exact hne t us rfl (starStar_of_continued? hpower)
  | .trailed =>
    obtain ⟨operand, mid, hoperand, htrailers⟩ := reads_trailed.mp h
    have hshort := hoperand.length_lt
    exact follows_of_reads_trailers mid htrailers
  | .primary => exact follows_primary
termination_by ts.length * 16 + level.rank
decreasing_by
  all_goals first | omega | (simp only [Level.rank]; omega)

/-- What is left behind the operators of a joined level does not make it go on. -/
theorem follows_of_reads_joinOnto (join : Join) (ts : List Token) {rest : List Token}
    {left e : Expr} (hfollows : Follows join.operand ts)
    (h : Reads (joinOnto stop join left ts) e rest) : Follows (.joined join) rest := by
  match ts with
  | [] =>
    obtain ⟨-, rfl⟩ := reads_joinOnto_nil.mp h
    exact follows_nil
  | t :: ts =>
    rcases reads_joinOnto_cons.mp h with ⟨hnone, -, rfl⟩ | ⟨joined, right, mid, -, hright, honto⟩
    · refine hfollows.looser (by cases join <;> rfl) fun hjoined => ?_
      obtain ⟨build, hbuild⟩ := joins_of_continued? hjoined
      rw [hnone] at hbuild
      contradiction
    · have := join.operand.rank_lt
      have hshort := hright.length_lt
      exact follows_of_reads_joinOnto join mid (follows_of_reads join.operand ts hright) honto
termination_by ts.length * 16 + 10
decreasing_by
  all_goals simp only [List.length_cons]
  all_goals omega

/-- What is left behind the links of a comparison does not make it go on. -/
theorem follows_of_reads_comparisons (ts : List Token) {rest : List Token}
    {links : List (Relation × Nat × Expr)} (hfollows : Follows (.joined .sum) ts)
    (h : Reads (comparisons stop ts) links rest) : Follows .comparison rest := by
  cases hrelation : relation? ts with
  | none =>
    obtain ⟨-, rfl⟩ := (reads_comparisons_none hrelation).mp h
    refine hfollows.looser rfl fun hcomparison => ?_
    obtain ⟨link, hlink⟩ := relation?_of_continued? hcomparison
    rw [hrelation] at hlink
    contradiction
  | some link =>
    obtain ⟨op, column, mid⟩ := link
    obtain ⟨operand, more, mid', hoperand, hmore, -⟩ := (reads_comparisons_some hrelation).mp h
    have hshort := length_lt_of_relation? hrelation
    have hshort' := hoperand.length_lt
    exact follows_of_reads_comparisons mid' (follows_of_reads (.joined .sum) mid hoperand) hmore
termination_by ts.length * 16 + 10
decreasing_by
  all_goals first | omega | (simp only [Level.rank]; omega)

/-- What is left behind trailers does not make them go on. -/
theorem follows_of_reads_trailers (ts : List Token) {rest : List Token} {operand e : Expr}
    (h : Reads (trailers stop operand ts) e rest) : Follows .trailed rest := by
  match ts with
  | [] =>
    obtain ⟨-, rfl⟩ := reads_trailers_nil.mp h
    exact follows_nil
  | t :: ts =>
    rcases reads_trailers_cons.mp h with ⟨-, name, column, arguments, mid, -, harguments, hmore⟩ |
      ⟨-, index, u, mid, hindex, -, hmore⟩ | ⟨hparen, hbracket, -, rfl⟩
    · have hshort := harguments.length_lt
      exact follows_of_reads_trailers mid hmore
    · have hshort := Nat.lt_of_succ_lt hindex.length_lt
      exact follows_of_reads_trailers mid hmore
    · refine follows_primary.looser rfl fun htrailed => ?_
      rcases bracket_of_continued? htrailed with ht | ht
      · exact hparen ht
      · exact hbracket ht
termination_by ts.length * 16 + 10
decreasing_by
  all_goals first | omega | (simp only [List.length_cons]; omega)

end

/-! ## Where the parser fails -/

/-- The fault is one that shows at a token. -/
def ParseFault.At (t : Token) : ParseFault → Prop
  | .unexpected kind column => kind = t.kind ∧ column = t.column
  | .unclosed _ kind column => kind = t.kind ∧ column = t.column
  | .noOperand kind column => kind = t.kind ∧ column = t.column
  | .notNamed column => column = t.column
  | .noEnd => False

/-- A parser that looks at a token cannot tell what is behind it: if the token is `not`,
`in` stands behind it in both cases or in none. -/
def Alike (t : Token) (ts us : List Token) : Prop :=
  t.kind = .notWord →
    (us.head?.map Token.kind = some .inWord ↔ ts.head?.map Token.kind = some .inWord)

theorem relation?_isSome_alike (h : Alike t ts us) :
    (relation? (t :: us)).isSome = (relation? (t :: ts)).isSome := by
  cases hkind : t.kind
  case notWord =>
    have hnext := h hkind
    simp only [relation?, hkind]
    cases ts <;> cases us <;> simp at hnext ⊢ <;> grind
  all_goals simp only [relation?, hkind, Option.isSome_some, Option.isSome_none]

/-- Whether a reading goes on does not depend on what stands behind tokens that are alike. -/
theorem continued?_alike (h : Alike t ts us) (front : List Token) :
    continued? (front ++ t :: us) = continued? (front ++ t :: ts) := by
  cases front with
  | nil =>
    have hrelation := relation?_isSome_alike h
    simp only [List.nil_append, continued?, hrelation]
  | cons u front =>
    have halike : Alike u (front ++ t :: ts) (front ++ t :: us) := by
      intro _
      cases front <;> exact Iff.rfl
    have hrelation := relation?_isSome_alike halike
    simp only [List.cons_append, continued?, hrelation]

theorem Follows.congr (h : Follows level rest) (hcontinued : continued? us = continued? rest) :
    Follows level us := by
  rwa [Follows, hcontinued]

/-- A fault shows at a token or at the end. What stands in front of that place is the
beginning of something that would be read, and the reading fails in this way whatever is
behind the token. -/
inductive Located (Fails : Token → List Token → ParseFault → Prop) (Viable : List Token → Prop)
    (stop : Token) (ts : List Token) (fault : ParseFault) : Prop
  | token {front behind : List Token} {t : Token} (hts : ts = front ++ t :: behind)
    (hat : fault.At t) (hfront : Viable front)
    (hfails : ∀ stop behind', Alike t behind behind' → Fails stop (front ++ t :: behind') fault) :
    Located Fails Viable stop ts fault
  | stop (hat : fault.At stop) (hall : Viable ts) : Located Fails Viable stop ts fault

variable {Fails Fails' : Token → List Token → ParseFault → Prop}
  {Viable Viable' : List Token → Prop}

/-- What is read behind other tokens fails where it fails by itself. -/
theorem Located.behind (h : Located Fails Viable stop ts fault) (lead : List Token)
    (hviable : ∀ us, Viable us → Viable' (lead ++ us))
    (hfails : ∀ stop us, continued? us = continued? ts → us.head? = ts.head? →
      Fails stop us fault → Fails' stop (lead ++ us) fault) :
    Located Fails' Viable' stop (lead ++ ts) fault := by
  cases h with
  | @token front behind t hts hat hfront hall =>
    have hts' : lead ++ ts = (lead ++ front) ++ t :: behind := by rw [hts, List.append_assoc]
    refine .token hts' hat (hviable front hfront) fun stop behind' halike => ?_
    rw [List.append_assoc]
    refine hfails stop _ ?_ ?_ (hall stop behind' halike)
    · rw [hts]
      exact continued?_alike halike front
    · rw [hts]
      cases front <;> rfl
  | stop hat hall => exact .stop hat (hviable ts hall)

/-- What is read at once fails where it fails by itself. -/
theorem Located.within (h : Located Fails Viable stop ts fault)
    (hviable : ∀ us, Viable us → Viable' us)
    (hfails : ∀ stop us, us.head? = ts.head? → Fails stop us fault → Fails' stop us fault) :
    Located Fails' Viable' stop ts fault :=
  h.behind [] hviable fun stop us _ => hfails stop us

/-- The tokens are the beginning of an expression of a level. -/
def Opening (level : Level) (ts : List Token) : Prop :=
  ∃ us e, Derives level (ts ++ us) e

/-- The tokens go on with operands that are joined. -/
def OpeningOnto (join : Join) (ts : List Token) : Prop :=
  ∀ us left, Derives (.joined join) us left → ∃ vs e, Derives (.joined join) (us ++ (ts ++ vs)) e

/-- The tokens go on with an operand as trailers. -/
def OpeningTrailers (operand : Expr) (ts : List Token) : Prop :=
  ∀ us, Derives .trailed us operand → ∃ vs e, Derives .trailed (us ++ (ts ++ vs)) e

/-- The tokens are the beginning of a chain of comparisons. -/
def OpeningLinks (ts : List Token) : Prop :=
  ∃ us links, Links (ts ++ us) links

/-- The tokens are the beginning of elements between commas. -/
def OpeningElements (ts : List Token) : Prop :=
  ∃ us es, Elements (ts ++ us) es

/-- An expression is the beginning of one. -/
theorem Derives.opening (h : Derives level us e) : Opening level us :=
  ⟨[], e, by rwa [List.append_nil]⟩

/-- An expression is read in front of a token in the same way whatever is behind the token. -/
theorem Derives.reads_alike (h : Derives level us e) (hfollows : Follows level (t :: ts))
    (halike : Alike t ts rest) : Reads (parseAt stop level (us ++ t :: rest)) e (t :: rest) :=
  h.reads (hfollows.congr (continued?_alike halike [])).goesOn

/-- The fault of a level shows at a token or at the end, behind the beginning of an expression
of that level. -/
abbrev LocatedAt (level : Level) (stop : Token) (ts : List Token) (fault : ParseFault) : Prop :=
  Located (fun stop us fault => parseAt stop level us = .error fault) (Opening level) stop ts fault

/-- Where no expression is in front of a closing token, the fault is that of the expression
or shows at the token behind it. -/
theorem located_misses {closing : Closing} {kinds : List TokenKind}
    (hparse : parseAt stop (.joined .or) ts = .error fault →
      LocatedAt (.joined .or) stop ts fault)
    (h : Misses stop closing kinds ts fault) :
    Located (Misses · closing kinds) (Opening (.joined .or)) stop ts fault := by
  rcases h with h | ⟨e, mid, hmid, hkinds, rfl⟩
  · exact (hparse h).within (fun _ hus => hus) fun stop us _ hus => .inl hus
  · obtain ⟨us, rfl, hus⟩ := derives_of_reads (.joined .or) ts hmid
    have hfollows := follows_of_reads (.joined .or) _ hmid
    cases mid with
    | nil =>
      rw [List.append_nil]
      exact .stop ⟨rfl, rfl⟩ hus.opening
    | cons u behind =>
      refine .token rfl ⟨rfl, rfl⟩ hus.opening fun stop behind' halike => ?_
      exact .inr ⟨e, u :: behind', hus.reads_alike hfollows halike, hkinds, rfl⟩

/-- With nothing read yet, every level can still be completed. -/
theorem opening_nil (level : Level) : Opening level [] := by
  have hstands : Stands ⟨.noneWord, "None", none, 0⟩ .nothing := .nothing rfl
  have hsigned := Derives.unsigned (.base (.bare (.stands hstands)))
  have hsum : Derives (.joined .sum) _ _ := .operand (.operand hsigned)
  have hnot := Derives.compared (.single hsum)
  refine ⟨[⟨.noneWord, "None", none, 0⟩], .nothing, ?_⟩
  cases level with
  | joined join => cases join with
    | or => exact .operand (.operand hnot)
    | and => exact .operand hnot
    | sum => exact hsum
    | product => exact .operand hsigned
  | not => exact hnot
  | comparison => exact .single hsum
  | signed => exact hsigned
  | power => exact .base (.bare (.stands hstands))
  | trailed => exact .bare (.stands hstands)
  | primary => exact .stands hstands

/-- What opens a tighter level opens a looser one, where what the one derives the other does.
-/
theorem Opening.looser {tighter : Level} (h : Opening tighter us)
    (hstep : ∀ {vs e}, Derives tighter vs e → Derives level vs e) : Opening level us := by
  obtain ⟨vs, e, he⟩ := h
  exact ⟨vs, e, hstep he⟩

/-- What opens an inner level still opens the outer one behind the tokens that lead to it. -/
theorem Opening.behind {inner : Level} {lead : List Token} (h : Opening inner us)
    (hstep : ∀ {vs e}, Derives inner vs e → ∃ e', Derives level (lead ++ vs) e') :
    Opening level (lead ++ us) := by
  obtain ⟨vs, e, he⟩ := h
  obtain ⟨e', he'⟩ := hstep he
  exact ⟨vs, e', by rwa [List.append_assoc]⟩

/-- Behind an opening bracket an expression opens a group. -/
theorem Opening.group (h : Opening (.joined .or) us) (ht : t.kind = .leftParen) :
    Opening .primary ([t] ++ us) := by
  obtain ⟨vs, e, he⟩ := h
  exact ⟨vs ++ [⟨.rightParen, ")", none, 0⟩], e, by simpa using Derives.group ht he rfl⟩

/-- Behind an opening square bracket an expression opens an index. -/
theorem Opening.index (h : Opening (.joined .or) us) (ht : t.kind = .leftBracket) :
    OpeningTrailers operand ([t] ++ us) := by
  obtain ⟨vs, e, he⟩ := h
  intro ws hoperand
  exact ⟨vs ++ [⟨.rightBracket, "]", none, 0⟩], _,
    by simpa using Derives.subscript hoperand ht he rfl⟩

theorem Opening.elements (h : Opening (.joined .or) us) : OpeningElements us := by
  obtain ⟨vs, e, he⟩ := h
  exact ⟨vs, [e], .last he⟩

/-- Behind an opening square bracket elements open a list. -/
theorem OpeningElements.list (h : OpeningElements us) (ht : t.kind = .leftBracket) :
    Opening .primary ([t] ++ us) := by
  obtain ⟨vs, es, hes⟩ := h
  exact ⟨vs ++ [⟨.rightBracket, "]", none, 0⟩], _, by simpa using Derives.list ht hes rfl⟩

/-- Behind a name and an opening bracket elements open a call. -/
theorem OpeningElements.arguments {name : String} {column : Nat} (h : OpeningElements us)
    (ht : t.kind = .leftParen) : OpeningTrailers (.var name column) ([t] ++ us) := by
  obtain ⟨vs, es, hes⟩ := h
  intro ws hcallee
  exact ⟨vs ++ [⟨.rightParen, ")", none, 0⟩], _, by simpa using Derives.call hcallee ht hes rfl⟩

/-- What may stand behind an operand can be completed behind one that is complete. -/
theorem OpeningOnto.behind (h : OpeningOnto join us) (hleft : Derives join.operand ts left) :
    Opening (.joined join) (ts ++ us) := by
  obtain ⟨vs, e, he⟩ := h ts left (.operand hleft)
  exact ⟨vs, e, by rwa [List.append_assoc]⟩

/-- What may stand behind a primary can be completed behind one that is complete. -/
theorem OpeningTrailers.behind (h : OpeningTrailers operand us)
    (hoperand : Derives .primary ts operand) : Opening .trailed (ts ++ us) := by
  obtain ⟨vs, e, he⟩ := h ts (.bare hoperand)
  exact ⟨vs, e, by rwa [List.append_assoc]⟩

/-- What may stand behind the first operand of a comparison can be completed behind one that
is complete. -/
theorem OpeningLinks.behind {first : Expr} (h : OpeningLinks us)
    (hfirst : Derives (.joined .sum) ts first) : Opening .comparison (ts ++ us) := by
  obtain ⟨vs, links, hlinks⟩ := h
  refine ⟨vs, ?_⟩
  rw [List.append_assoc]
  generalize us ++ vs = ws at hlinks
  cases links with
  | nil =>
    cases hlinks
    rw [List.append_nil]
    exact ⟨first, .single hfirst⟩
  | cons link links => exact ⟨_, .chain hfirst hlinks⟩

/-- The tokens in front of an operand of a comparison go on a chain by themselves. -/
theorem relation?_lead {op : Relation} {column : Nat} (h : relation? ts = some (op, column, rest)) :
    ∃ lead, ts = lead ++ rest ∧
      (∀ rest', relation? (lead ++ rest') = some (op, column, rest')) ∧
      ∀ us e vs links, Derives (.joined .sum) us e → Links vs links →
        Links (lead ++ (us ++ vs)) ((op, column, e) :: links) := by
  rcases relation?_eq_some_iff.mp h with ⟨t, rfl, ht, rfl⟩ | ⟨t, u, rfl, ht, hu, rfl, rfl⟩
  · refine ⟨[t], rfl, fun rest' => ?_, fun us e vs links => .cons ht⟩
    exact relation?_eq_some_iff.mpr (.inl ⟨t, rfl, ht, rfl⟩)
  · refine ⟨[t, u], rfl, fun rest' => ?_, fun us e vs links => .notIn ht hu⟩
    exact relation?_eq_some_iff.mpr (.inr ⟨t, u, rfl, ht, hu, rfl, rfl⟩)

theorem first_of_head? {P : Token → Prop} (hhead : us.head? = ts.head?)
    (h : ∀ t rest, ts = t :: rest → P t) : ∀ t rest, us = t :: rest → P t := by
  rintro t rest rfl
  cases ts with
  | nil => contradiction
  | cons u vs =>
    cases hhead
    exact h t vs rfl

/-- An atom that is refused has its fault at its own token. -/
theorem atom_at (h : atom t = .error fault) : fault.At t := by
  unfold atom at h
  split at h <;> cases h <;> exact ⟨rfl, rfl⟩

mutual

/-- Every level locates its fault. The descent is that of the parser, with one lemma for each
level below. -/
theorem located_parseAt (level : Level) (ts : List Token) {fault : ParseFault}
    (h : parseAt stop level ts = .error fault) : LocatedAt level stop ts fault := by
  match level with
  | .joined join => exact located_joined join ts h
  | .not => exact located_not ts h
  | .comparison => exact located_comparison ts h
  | .signed => exact located_signed ts h
  | .power => exact located_power ts h
  | .trailed => exact located_trailed ts h
  | .primary => exact located_primary ts h
-- a level is told apart from the others before it is read
termination_by (ts.length * 16 + level.rank, 1)
decreasing_by
  all_goals exact Prod.Lex.right _ Nat.zero_lt_one

theorem located_joined (join : Join) (ts : List Token) {fault : ParseFault}
    (h : parseAt stop (.joined join) ts = .error fault) :
    LocatedAt (.joined join) stop ts fault := by
  have := join.rank_operand_lt
  rcases fails_joined.mp h with hleft | ⟨left, mid, hleft, honto⟩
  · exact (located_parseAt join.operand ts hleft).within (fun us hus => hus.looser .operand)
      fun stop us _ hus => fails_joined.mpr (.inl hus)
  · have hshort := hleft.length_lt
    obtain ⟨us, rfl, hus⟩ := derives_of_reads join.operand ts hleft
    have hfollows := follows_of_reads join.operand _ hleft
    refine (located_joinOnto join mid honto).behind us (fun vs hvs => hvs.behind hus) ?_
    intro stop vs hcontinued _ hvs
    exact fails_joined.mpr (.inr ⟨left, vs, hus.reads (hfollows.congr hcontinued).goesOn, hvs⟩)
termination_by (ts.length * 16 + (Level.joined join).rank, 0)
decreasing_by
  all_goals apply Prod.Lex.left
  all_goals omega

theorem located_not (ts : List Token) {fault : ParseFault}
    (h : parseAt stop .not ts = .error fault) : LocatedAt .not stop ts fault := by
  rcases fails_not.mp h with ⟨t, us, hts, ht, hus⟩ | ⟨hne, hts⟩
  · have hshort : us.length < ts.length := by rw [hts]; exact Nat.lt_succ_self _
    rw [hts]
    refine (located_parseAt .not us hus).behind [t]
      (fun vs hvs => hvs.behind fun he => ⟨_, .not ht he⟩) ?_
    intro stop us _ _ hus
    exact fails_not.mpr (.inl ⟨t, us, rfl, ht, hus⟩)
  · refine (located_parseAt .comparison ts hts).within (fun us hus => hus.looser .compared) ?_
    intro stop us hhead hus
    exact fails_not.mpr (.inr ⟨first_of_head? hhead hne, hus⟩)
termination_by (ts.length * 16 + Level.not.rank, 0)
decreasing_by
  all_goals apply Prod.Lex.left
  all_goals simp only [Level.rank]
  all_goals omega

theorem located_comparison (ts : List Token) {fault : ParseFault}
    (h : parseAt stop .comparison ts = .error fault) : LocatedAt .comparison stop ts fault := by
  rcases fails_comparison.mp h with hfirst | ⟨first, mid, hfirst, hlinks⟩
  · exact (located_parseAt (.joined .sum) ts hfirst).within (fun us hus => hus.looser .single)
      fun stop us _ hus => fails_comparison.mpr (.inl hus)
  · have hshort := hfirst.length_lt
    obtain ⟨us, rfl, hus⟩ := derives_of_reads (.joined .sum) ts hfirst
    have hfollows := follows_of_reads (.joined .sum) _ hfirst
    refine (located_comparisons mid hlinks).behind us (fun vs hvs => hvs.behind hus) ?_
    intro stop vs hcontinued _ hvs
    exact fails_comparison.mpr
      (.inr ⟨first, vs, hus.reads (hfollows.congr hcontinued).goesOn, hvs⟩)
termination_by (ts.length * 16 + Level.comparison.rank, 0)
decreasing_by
  all_goals apply Prod.Lex.left
  all_goals simp only [Level.rank]
  all_goals omega

theorem located_signed (ts : List Token) {fault : ParseFault}
    (h : parseAt stop .signed ts = .error fault) : LocatedAt .signed stop ts fault := by
  rcases fails_signed.mp h with ⟨t, us, op, hts, ht, hus⟩ | ⟨hne, hts⟩
  · have hshort : us.length < ts.length := by rw [hts]; exact Nat.lt_succ_self _
    rw [hts]
    refine (located_parseAt .signed us hus).behind [t]
      (fun vs hvs => hvs.behind fun he => ⟨_, .sign (sign?_eq_some_iff.mp ht) he⟩) ?_
    intro stop us _ _ hus
    exact fails_signed.mpr (.inl ⟨t, us, op, rfl, ht, hus⟩)
  · refine (located_parseAt .power ts hts).within (fun us hus => hus.looser .unsigned) ?_
    intro stop us hhead hus
    exact fails_signed.mpr (.inr ⟨first_of_head? hhead hne, hus⟩)
termination_by (ts.length * 16 + Level.signed.rank, 0)
decreasing_by
  all_goals apply Prod.Lex.left
  all_goals simp only [Level.rank]
  all_goals omega

theorem located_power (ts : List Token) {fault : ParseFault}
    (h : parseAt stop .power ts = .error fault) : LocatedAt .power stop ts fault := by
  rcases fails_power.mp h with hbase | ⟨base, t, mid, hbase, ht, hmid⟩
  · exact (located_parseAt .trailed ts hbase).within (fun us hus => hus.looser .base)
      fun stop us _ hus => fails_power.mpr (.inl hus)
  · have hshort := Nat.lt_of_succ_lt hbase.length_lt
    obtain ⟨us, rfl, hus⟩ := derives_of_reads .trailed ts hbase
    rw [List.append_cons]
    refine (located_parseAt .signed mid hmid).behind (us ++ [t]) ?_ ?_
    · intro vs hvs
      exact hvs.behind fun he => ⟨_, by simpa using Derives.power hus ht he⟩
    · intro stop vs _ _ hvs
      rw [← List.append_cons]
      have hfollows : Follows .trailed (t :: vs) :=
        follows_of_continued? (by simp only [continued?, ht]) (by decide : _ < Level.power.rank)
      exact fails_power.mpr (.inr ⟨base, t, vs, hus.reads hfollows.goesOn, ht, hvs⟩)
termination_by (ts.length * 16 + Level.power.rank, 0)
decreasing_by
  all_goals apply Prod.Lex.left
  all_goals simp only [Level.rank]
  all_goals omega

theorem located_trailed (ts : List Token) {fault : ParseFault}
    (h : parseAt stop .trailed ts = .error fault) : LocatedAt .trailed stop ts fault := by
  rcases fails_trailed.mp h with hoperand | ⟨operand, mid, hoperand, htrailers⟩
  · exact (located_parseAt .primary ts hoperand).within (fun us hus => hus.looser .bare)
      fun stop us _ hus => fails_trailed.mpr (.inl hus)
  · have hshort := hoperand.length_lt
    obtain ⟨us, rfl, hus⟩ := derives_of_reads .primary ts hoperand
    refine (located_trailers mid htrailers).behind us (fun vs hvs => hvs.behind hus) ?_
    intro stop vs _ _ hvs
    exact fails_trailed.mpr (.inr ⟨operand, vs, hus.reads follows_primary.goesOn, hvs⟩)
termination_by (ts.length * 16 + Level.trailed.rank, 0)
decreasing_by
  all_goals apply Prod.Lex.left
  all_goals simp only [Level.rank]
  all_goals omega

theorem located_primary (ts : List Token) {fault : ParseFault}
    (h : parseAt stop .primary ts = .error fault) : LocatedAt .primary stop ts fault := by
  match ts with
  | [] =>
    rw [fails_primary_nil.mp h]
    exact .stop ⟨rfl, rfl⟩ (opening_nil .primary)
  | t :: ts =>
    rcases fails_primary_cons.mp h with ⟨ht, hts⟩ | ⟨ht, hts⟩ | ⟨hparen, hbracket, hatom⟩
    · refine (located_misses (located_parseAt (.joined .or) ts) hts).behind [t]
        (fun us hus => hus.group ht) ?_
      intro stop us _ _ hus
      exact fails_primary_cons.mpr (.inl ⟨ht, hus⟩)
    · refine (located_sequence .list ts hts).behind [t] (fun us hus => hus.list ht) ?_
      intro stop us _ _ hus
      exact fails_primary_cons.mpr (.inr (.inl ⟨ht, hus⟩))
    · refine .token (List.nil_append _).symm (atom_at hatom) (opening_nil .primary) ?_
      intro stop us _
      exact fails_primary_cons.mpr (.inr (.inr ⟨hparen, hbracket, hatom⟩))
termination_by (ts.length * 16 + Level.primary.rank, 0)
decreasing_by
  all_goals apply Prod.Lex.left
  all_goals simp only [Level.rank, List.length_cons]
  all_goals omega

/-- A fault behind an operand is located, and what was read before it can be completed. -/
theorem located_joinOnto (join : Join) (ts : List Token) {left : Expr} {fault : ParseFault}
    (h : joinOnto stop join left ts = .error fault) :
    Located (fun stop us fault => joinOnto stop join left us = .error fault) (OpeningOnto join)
      stop ts fault := by
  match ts with
  | [] => exact absurd h not_fails_joinOnto_nil
  | t :: ts =>
    have := join.operand.rank_lt
    obtain ⟨build, hbuild, hts⟩ := fails_joinOnto_cons.mp h
    have hjoins (left right : Expr) : Joins join t left right (build left right) :=
      joins_iff.mpr ⟨build, hbuild, rfl⟩
    rcases hts with hright | ⟨right, mid, hright, honto⟩
    · refine (located_parseAt join.operand ts hright).behind [t] ?_ ?_
      · rintro us ⟨vs, e, he⟩ ws left hleft
        exact ⟨vs, _, .join hleft (hjoins left e) he⟩
      · intro stop us _ _ hus
        exact fails_joinOnto_cons.mpr ⟨build, hbuild, .inl hus⟩
    · have hshort := hright.length_lt
      obtain ⟨us, rfl, hus⟩ := derives_of_reads join.operand ts hright
      have hfollows := follows_of_reads join.operand _ hright
      refine (located_joinOnto join mid honto).behind (t :: us) ?_ ?_
      · intro vs hvs ws left hleft
        obtain ⟨xs, e, he⟩ := hvs _ _ (.join hleft (hjoins left right) hus)
        exact ⟨xs, e, by simpa using he⟩
      · intro stop vs hcontinued _ hvs
        exact fails_joinOnto_cons.mpr ⟨build, hbuild,
          .inr ⟨right, vs, hus.reads (hfollows.congr hcontinued).goesOn, hvs⟩⟩
termination_by (ts.length * 16 + 10, 0)
decreasing_by
  all_goals apply Prod.Lex.left
  all_goals simp only [List.length_cons]
  all_goals omega

/-- A fault in the links of a comparison is located. -/
theorem located_comparisons (ts : List Token) {fault : ParseFault}
    (h : comparisons stop ts = .error fault) :
    Located (fun stop us fault => comparisons stop us = .error fault) OpeningLinks
      stop ts fault := by
  cases hrelation : relation? ts with
  | none => exact absurd h (not_fails_comparisons_none hrelation)
  | some link =>
    obtain ⟨op, column, us⟩ := link
    have hshort := length_lt_of_relation? hrelation
    obtain ⟨lead, hts, hlead, hlinks⟩ := relation?_lead hrelation
    rw [hts]
    rcases (fails_comparisons_some hrelation).mp h with hoperand | ⟨operand, mid, hoperand, hmore⟩
    · refine (located_parseAt (.joined .sum) us hoperand).behind lead ?_ ?_
      · rintro us ⟨vs, e, he⟩
        exact ⟨vs, _, by simpa using hlinks _ _ _ _ he .nil⟩
      · intro stop us _ _ hus
        exact (fails_comparisons_some (hlead us)).mpr (.inl hus)
    · have hshort' := hoperand.length_lt
      obtain ⟨vs, rfl, hvs⟩ := derives_of_reads (.joined .sum) us hoperand
      have hfollows := follows_of_reads (.joined .sum) _ hoperand
      rw [← List.append_assoc]
      refine (located_comparisons mid hmore).behind (lead ++ vs) ?_ ?_
      · rintro ws ⟨xs, links, hxs⟩
        exact ⟨xs, _, by simpa using hlinks _ _ _ _ hvs hxs⟩
      · intro stop ws hcontinued _ hws
        rw [List.append_assoc]
        exact (fails_comparisons_some (hlead _)).mpr
          (.inr ⟨operand, ws, hvs.reads (hfollows.congr hcontinued).goesOn, hws⟩)
termination_by (ts.length * 16 + 10, 0)
decreasing_by
  all_goals apply Prod.Lex.left
  all_goals first | omega | (simp only [Level.rank]; omega)

/-- A fault in trailers is located. -/
theorem located_trailers (ts : List Token) {operand : Expr} {fault : ParseFault}
    (h : trailers stop operand ts = .error fault) :
    Located (fun stop us fault => trailers stop operand us = .error fault)
      (OpeningTrailers operand) stop ts fault := by
  match ts with
  | [] => exact absurd h not_fails_trailers_nil
  | t :: ts =>
    rcases fails_trailers_cons.mp h with ⟨ht, name, column, rfl, hts⟩ | ⟨ht, hne, rfl⟩ | ⟨ht, hts⟩
    · rcases hts with harguments | ⟨arguments, mid, harguments, hmore⟩
      · refine (located_sequence .arguments ts harguments).behind [t]
          (fun us hus => hus.arguments ht) ?_
        intro stop us _ _ hus
        exact fails_trailers_cons.mpr (.inl ⟨ht, name, column, rfl, .inl hus⟩)
      · have hshort := harguments.length_lt
        obtain ⟨us, u, rfl, hu, hus⟩ := elements_of_reads .arguments ts harguments
        have hlead : t :: (us ++ u :: mid) = (t :: (us ++ [u])) ++ mid := by simp
        rw [hlead]
        refine (located_trailers mid hmore).behind (t :: (us ++ [u])) ?_ ?_
        · intro vs hvs ws hcallee
          obtain ⟨xs, e, he⟩ := hvs _ (.call hcallee ht hus hu)
          exact ⟨xs, e, by simpa using he⟩
        · intro stop vs _ _ hvs
          rw [List.cons_append, List.append_assoc, List.singleton_append]
          exact fails_trailers_cons.mpr
            (.inl ⟨ht, name, column, rfl, .inr ⟨arguments, vs, hus.reads hu, hvs⟩⟩)
    · refine .token (List.nil_append _).symm rfl ?_ ?_
      · intro us hus
        exact ⟨[], operand, by simpa using hus⟩
      · intro stop us _
        exact fails_trailers_cons.mpr (.inr (.inl ⟨ht, hne, rfl⟩))
    · rcases hts with hindex | ⟨index, u, mid, hindex, hu, hmore⟩
      · refine (located_misses (located_parseAt (.joined .or) ts) hindex).behind [t]
          (fun us hus => hus.index ht) ?_
        intro stop us _ _ hus
        exact fails_trailers_cons.mpr (.inr (.inr ⟨ht, .inl hus⟩))
      · have hshort := Nat.lt_of_succ_lt hindex.length_lt
        obtain ⟨us, rfl, hus⟩ := derives_of_reads (.joined .or) ts hindex
        have hlead : t :: (us ++ u :: mid) = (t :: (us ++ [u])) ++ mid := by simp
        rw [hlead]
        refine (located_trailers mid hmore).behind (t :: (us ++ [u])) ?_ ?_
        · intro vs hvs ws hcontainer
          obtain ⟨xs, e, he⟩ := hvs _ (.subscript hcontainer ht hus hu)
          exact ⟨xs, e, by simpa using he⟩
        · intro stop vs _ _ hvs
          rw [List.cons_append, List.append_assoc, List.singleton_append]
          exact fails_trailers_cons.mpr (.inr (.inr ⟨ht, .inr ⟨index, u, vs,
            hus.reads (follows_closing .index hu).goesOn, hu, hvs⟩⟩))
termination_by (ts.length * 16 + 10, 0)
decreasing_by
  all_goals apply Prod.Lex.left
  all_goals first | omega | (simp only [Level.rank, List.length_cons]; omega)

/-- A fault in a sequence is located. -/
theorem located_sequence (closing : Closing) (ts : List Token) {fault : ParseFault}
    (h : sequence stop closing ts = .error fault) :
    Located (fun stop us fault => sequence stop closing us = .error fault) OpeningElements
      stop ts fault := by
  obtain ⟨hne, hts⟩ := fails_sequence.mp h
  rcases hts with hfirst | ⟨e, t, mid, he, ht, hmid⟩
  · refine (located_misses (located_parseAt (.joined .or) ts) hfirst).within
      (fun us hus => hus.elements) ?_
    intro stop us hhead hus
    exact fails_sequence.mpr ⟨first_of_head? hhead hne, .inl hus⟩
  · have hshort := Nat.lt_of_succ_lt he.length_lt
    obtain ⟨us, rfl, hus⟩ := derives_of_reads (.joined .or) ts he
    rw [List.append_cons]
    refine (located_sequence closing mid hmid).behind (us ++ [t]) ?_ ?_
    · rintro vs ⟨ws, es, hes⟩
      exact ⟨ws, _, by simpa using Elements.cons hus ht hes⟩
    · intro stop vs _ _ hvs
      rw [← List.append_cons]
      refine fails_sequence.mpr ⟨fun u vs hvs => ?_,
        .inr ⟨e, t, vs, hus.reads (follows_comma ht).goesOn, ht, hvs⟩⟩
      exact (hus.begins.append _).ne hvs (by cases closing <;> decide)
termination_by (ts.length * 16 + 11, 0)
decreasing_by
  all_goals apply Prod.Lex.left
  all_goals first | omega | (simp only [Level.rank]; omega)

end

/-- Tokens fail to parse in their expression, or by what stands behind it. -/
theorem parseBefore_eq_error_iff :
    parseBefore stop ts = .error fault ↔
      parseAt stop (.joined .or) ts = .error fault ∨
      ∃ e t mid, Reads (parseAt stop (.joined .or) ts) e (t :: mid) ∧
        fault = .unexpected t.kind t.column := by
  unfold parseBefore Reads
  grind

/-- **Where the parser fails.** The fault shows at a token or at the end, and what stands
in front of that place is the beginning of an expression. -/
theorem located_parseBefore (h : parseBefore stop ts = .error fault) :
    Located (fun stop us fault => parseBefore stop us = .error fault) (Opening (.joined .or))
      stop ts fault := by
  rcases parseBefore_eq_error_iff.mp h with hts | ⟨e, t, mid, hmid, rfl⟩
  · exact (located_parseAt (.joined .or) ts hts).within (fun _ hus => hus) fun stop us _ hus =>
      parseBefore_eq_error_iff.mpr (.inl hus)
  · obtain ⟨us, rfl, hus⟩ := derives_of_reads (.joined .or) ts hmid
    have hfollows := follows_of_reads (.joined .or) _ hmid
    refine .token rfl ⟨rfl, rfl⟩ hus.opening fun stop behind' halike => ?_
    exact parseBefore_eq_error_iff.mpr
      (.inr ⟨e, t, behind', hus.reads_alike hfollows halike, rfl⟩)

/-- What begins with no sign and no `not` fails where its first operand does. -/
theorem Begins.fails_of_trailed (hbegins : Begins .primary ts)
    (h : parseAt stop .trailed ts = .error fault) : parseBefore stop ts = .error fault := by
  have hsign : ∀ t us, ts = t :: us → sign? t = none := by
    intro t us hts
    cases hsign : sign? t with
    | none => rfl
    | some op =>
      have hne : t.kind ≠ t.kind := hbegins.ne hts (by
        rw [(sign?_eq_some_iff.mp hsign).begins?]
        decide)
      exact absurd rfl hne
  have hnot : ∀ t us, ts = t :: us → t.kind ≠ .notWord := by
    intro t us hts
    exact hbegins.ne hts (by decide)
  have hsigned := fails_signed.mpr (.inr ⟨hsign, fails_power.mpr (.inl h)⟩)
  have hsum : parseAt stop (.joined .sum) ts = .error fault :=
    fails_joined.mpr (.inl (fails_joined.mpr (.inl hsigned)))
  have hjoined := fails_not.mpr (.inr ⟨hnot, fails_comparison.mpr (.inl hsum)⟩)
  exact parseBefore_eq_error_iff.mpr (.inl
    (fails_joined.mpr (.inl (fails_joined.mpr (.inl hjoined)))))

end Offside
