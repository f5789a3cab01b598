import Offside.Proofs.Expr.Parsing

/-!
# What the parser accepts

Soundness and completeness together, and what follows from them: `parse` accepts
exactly the tokens that the grammar derives. Since the parser reads in one way, the
grammar has one tree for each list of tokens. Main result: `parse_iff_grammar`.
-/

namespace Offside

variable {stop t : Token} {join : Join} {level : Level} {ts us rest : List Token} {e : Expr}

/-! ## The parser and the grammar -/

/-- **The parser reads what the grammar derives,** at every level. -/
theorem reads_iff_derives : Reads (parseAt stop level ts) e [] ↔ Derives level ts e := by
  constructor
  · intro h
    obtain ⟨us, hts, hus⟩ := derives_of_reads level ts h
    rwa [hts, List.append_nil]
  · intro h
    have hreads : Reads (parseAt stop level (ts ++ [])) e [] := h.reads follows_nil.goesOn
    rwa [List.append_nil] at hreads

/-- **At most one tree.** At no level do tokens form two expressions. -/
theorem Derives.unique {e' : Expr} (h : Derives level ts e) (h' : Derives level ts e') :
    e = e' := by
  let stop : Token := ⟨.eof, "", none, 0⟩
  have hreads : Reads (parseAt stop level ts) e [] := reads_iff_derives.mpr h
  exact (hreads.unique (reads_iff_derives.mpr h')).1

/-- A tree is the only one that its tokens form. -/
theorem Derives.iff_eq (h : Derives level ts e) (e' : Expr) : Derives level ts e' ↔ e' = e := by
  constructor
  · intro h'
    exact h'.unique h
  · rintro rfl
    exact h

/-- The parser looks at nothing behind the end. -/
theorem parse_of_end {body : List Token} (hbody : ∀ t ∈ body, t.kind ≠ .eof)
    (hstop : stop.kind = .eof) (behind : List Token) :
    parse (body ++ stop :: behind) = parseBefore stop body := by
  have hbody' : ∀ t ∈ body, (t.kind != .eof) = true := by
    intro t ht
    exact bne_iff_ne.mpr (hbody t ht)
  unfold parse
  rw [List.takeWhile_append_of_pos hbody', List.dropWhile_append_of_pos hbody']
  simp [hstop]

/-- The parser accepts exactly the trees that the grammar derives. -/
theorem parse_eq_ok_iff {body : List Token} (hbody : ∀ t ∈ body, t.kind ≠ .eof)
    (hstop : stop.kind = .eof) :
    parse (body ++ [stop]) = .ok e ↔ Derives (.joined .or) body e := by
  rw [parse_of_end hbody hstop, parseBefore_eq_ok_iff, reads_iff_derives]

/-! ## Where operands end -/

theorem Derives.expression (h : Derives .trailed ts e) : Derives (.joined .or) ts e :=
  .operand (.operand (.compared (.single (.operand (.operand (.unsigned (.base h)))))))

/-- Joined operands are the left operand of whatever joins them to one more. -/
def JoinsLeft (join : Join) : Prop :=
  ∀ {ts us : List Token} {t : Token} {left right joined : Expr},
    Derives (.joined join) ts left → Joins join t left right joined →
      Derives join.operand us right →
        ∀ e, Derives (.joined join) (ts ++ t :: us) e ↔ e = joined

/-- A sign stands in front of a whole power, and the exponent may carry its own. -/
def SignsPowers : Prop :=
  ∀ {ts us : List Token} {s t : Token} {op : UnaryOp} {base exponent : Expr},
    Signs s.kind op → Derives .trailed ts base → t.kind = .starStar →
      Derives .signed us exponent →
        ∀ e, Derives .signed (s :: (ts ++ t :: us)) e ↔
          e = .unary op s.column (.arith .pow t.column base exponent)

/-- Comparisons behind one another are one chain. -/
def ChainsFlat : Prop :=
  ∀ {ts us : List Token} {first : Expr} {link : Relation × Nat × Expr}
    {links : List (Relation × Nat × Expr)},
    Derives (.joined .sum) ts first → Links us (link :: links) →
      ∀ e, Derives .comparison (ts ++ us) e ↔ e = .comparison first (link :: links)

/-- Nothing but a name is called: no expression begins with another operand and a
parenthesis behind it. -/
def CallsNames : Prop :=
  ∀ {ts us : List Token} {t : Token} {operand : Expr},
    Derives .trailed ts operand → (∀ name column, operand ≠ .var name column) →
      t.kind = .leftParen → ∀ e, ¬ Derives (.joined .or) (ts ++ t :: us) e

/-- Operators of one level group to the left. -/
theorem joinsLeft (join : Join) : JoinsLeft join := by
  intro ts us t left right joined hleft ht hright
  exact (Derives.join hleft ht hright).iff_eq

/-- Signs stand in front of powers. -/
theorem signsPowers : SignsPowers := by
  intro ts us s t op base exponent hs hbase ht hexponent
  exact (Derives.sign hs (.unsigned (.power hbase ht hexponent))).iff_eq

/-- Comparisons are chained without being nested. -/
theorem chainsFlat : ChainsFlat := by
  intro ts us first link links hfirst hlinks
  exact (Derives.chain hfirst hlinks).iff_eq

/-- Reading at the level of trailers goes on from where an operand and its first
trailers were read. -/
theorem Derives.reads_trailed_iff {ts : List Token} {operand : Expr} :
    Derives .trailed ts operand → ∀ {rest rest' : List Token} {e : Expr},
      Reads (parseAt stop .trailed (ts ++ rest)) e rest' ↔
        Reads (trailers stop operand rest) e rest'
  | .bare he, rest, rest', e => by
    have hprimary : Reads (parseAt stop .primary (_ ++ rest)) _ rest :=
      he.reads follows_primary.goesOn
    rw [reads_trailed]
    constructor
    · rintro ⟨operand', mid, hprimary', htrailers⟩
      obtain ⟨rfl, rfl⟩ := hprimary'.unique hprimary
      exact htrailers
    · intro htrailers
      exact ⟨_, _, hprimary, htrailers⟩
  | .call hcallee ht harguments hu, rest, rest', e => by
    rw [List.append_assoc, hcallee.reads_trailed_iff, List.cons_append, List.append_assoc,
      List.singleton_append, reads_trailers_cons]
    have hreads : Reads (sequence stop .arguments (_ ++ _ :: rest)) _ rest := harguments.reads hu
    constructor
    · rintro (⟨-, name, column, arguments, mid, hvar, harguments', htrailers⟩ | ⟨ht', -⟩ | ⟨hne, -⟩)
      · cases hvar
        obtain ⟨rfl, rfl⟩ := harguments'.unique hreads
        exact htrailers
      · rw [ht] at ht'
        contradiction
      · exact absurd ht hne
    · intro htrailers
      exact .inl ⟨ht, _, _, _, _, rfl, hreads, htrailers⟩
  | .subscript hcontainer ht hindex hu, rest, rest', e => by
    rw [List.append_assoc, hcontainer.reads_trailed_iff, List.cons_append, List.append_assoc,
      List.singleton_append, reads_trailers_cons]
    have hreads : Reads (parseAt stop (.joined .or) (_ ++ _ :: rest)) _ (_ :: rest) :=
      hindex.reads (follows_closing .index hu).goesOn
    constructor
    · rintro (⟨ht', -⟩ | ⟨-, index, u, mid, hindex', -, htrailers⟩ | ⟨-, hne, -⟩)
      · rw [ht] at ht'
        contradiction
      · obtain ⟨rfl, hmid⟩ := hindex'.unique hreads
        cases hmid
        exact htrailers
      · exact absurd ht hne
    · intro htrailers
      exact .inr (.inl ⟨ht, _, _, _, hreads, hu, htrailers⟩)
termination_by ts.length
decreasing_by
  all_goals simp only [List.length_append, List.length_cons]
  all_goals omega

/-- An operand with trailers begins as one without. -/
theorem Begins.primary (h : Begins .trailed ts) : Begins .primary ts := by
  obtain ⟨t, us, tightest, hts, hbegins, hrank⟩ := h
  refine ⟨t, us, tightest, hts, hbegins, ?_⟩
  unfold TokenKind.begins? at hbegins
  split at hbegins <;> cases hbegins <;> revert hrank <;> decide

/-- An expression that begins with no sign and no `not` begins with an operand and
its trailers. -/
theorem Begins.reads_trailed (hbegins : Begins .primary ts) :
    ∀ (level : Level) {rest : List Token} {e : Expr}, level ≠ .primary →
      Reads (parseAt stop level ts) e rest →
        ∃ operand mid, Reads (parseAt stop .trailed ts) operand mid
  | .joined join, _, _, _, h => by
    have := join.rank_operand_lt
    obtain ⟨_, _, hoperand, -⟩ := reads_joined.mp h
    exact hbegins.reads_trailed join.operand (by cases join <;> decide) hoperand
  | .not, _, _, _, h => by
    rcases reads_not.mp h with ⟨t, us, _, hts, ht, -⟩ | ⟨-, hcomparison⟩
    · exact absurd ht (hbegins.ne hts (by decide))
    · exact hbegins.reads_trailed .comparison (by decide) hcomparison
  | .comparison, _, _, _, h => by
    obtain ⟨_, _, _, hfirst, -⟩ := reads_comparison.mp h
    exact hbegins.reads_trailed (.joined .sum) (by decide) hfirst
  | .signed, _, _, _, h => by
    rcases reads_signed.mp h with ⟨t, us, op, _, hts, ht, -⟩ | ⟨-, hpower⟩
    · have hne : t.kind ≠ t.kind := hbegins.ne hts (by
        rw [ht.begins?]
        decide)
      exact absurd rfl hne
    · exact hbegins.reads_trailed .power (by decide) hpower
  | .power, _, _, _, h => by
    rcases reads_power.mp h with ⟨_, _, _, _, hbase, -⟩ | ⟨-, hbase⟩
    · exact ⟨_, _, hbase⟩
    · exact ⟨_, _, hbase⟩
  | .trailed, _, _, _, h => ⟨_, _, h⟩
termination_by level => level.rank
decreasing_by all_goals first | omega | decide

/-- Only names are called. -/
theorem callsNames : CallsNames := by
  intro ts us t operand hoperand hvar ht e he
  let stop : Token := ⟨.eof, "", none, 0⟩
  have hbegins : Begins .primary (ts ++ t :: us) := hoperand.begins.primary.append _
  have hreads : Reads (parseAt stop (.joined .or) (ts ++ t :: us)) e [] :=
    reads_iff_derives.mpr he
  obtain ⟨e', mid, htrailed⟩ := hbegins.reads_trailed (.joined .or) (by decide) hreads
  -- with the operand read, the parser stands at the parenthesis
  rcases reads_trailers_cons.mp (hoperand.reads_trailed_iff.mp htrailed) with
    ⟨-, name, column, _, _, rfl, -⟩ | ⟨ht', -⟩ | ⟨hne, -⟩
  · exact hvar name column rfl
  · rw [ht] at ht'
    contradiction
  · exact hne ht

/-! ## The parser accepts exactly its grammar -/

/-- **The parser accepts exactly its grammar.** Tokens in front of an end mark are
parsed to a tree precisely if the grammar derives the tree from them, and it derives
no second one. -/
theorem parse_iff_grammar (body : List Token) (stop : Token)
    (hbody : ∀ t ∈ body, t.kind ≠ .eof) (hstop : stop.kind = .eof) :
    (∀ e, parse (body ++ [stop]) = .ok e ↔ Derives (.joined .or) body e) ∧
      (∀ e e', Derives (.joined .or) body e → Derives (.joined .or) body e' → e = e') ∧
      (∀ join, JoinsLeft join) ∧ SignsPowers ∧ ChainsFlat ∧ CallsNames :=
  ⟨fun _ => parse_eq_ok_iff hbody hstop, fun _ _ h h' => h.unique h', joinsLeft, signsPowers,
    chainsFlat, callsNames⟩

/-- A name in parentheses is called, as in `(f)(1)`, but a call is not, as in `f(1)(2)`. -/
theorem parse_calls :
    let f : Token := ⟨.identifier, "f", some (.name "f"), 0⟩
    let one : Token := ⟨.number, "1", some (.number 1), 0⟩
    let opening : Token := ⟨.leftParen, "(", none, 0⟩
    let closing : Token := ⟨.rightParen, ")", none, 0⟩
    let stop : Token := ⟨.eof, "", none, 0⟩
    parse ([opening, f, closing, opening, one, closing] ++ [stop]) =
        .ok (.call "f" 0 [.number 1]) ∧
      ∀ e, parse ([f, opening, one, closing, opening, one, closing] ++ [stop]) ≠ .ok e := by
  intro f one opening closing stop
  have hname : Derives .trailed [f] (.var "f" 0) := .bare (.stands (.var rfl rfl))
  have hone : Elements [one] [.number 1] := .last (.expression (.bare (.stands (.number rfl rfl))))
  constructor
  · have hgroup : Derives .trailed [opening, f, closing] (.var "f" 0) :=
      .bare (.group rfl hname.expression rfl)
    have hcall := Derives.call hgroup (t := opening) (u := closing) rfl hone rfl
    exact ((parse_iff_grammar _ stop (by decide) rfl).1 _).mpr hcall.expression
  · intro e he
    have hbody := parse_iff_grammar [f, opening, one, closing, opening, one, closing] stop
      (by decide) rfl
    -- the callee in front of the second bracket is a call, not a name
    have hcall := Derives.call hname (t := opening) (u := closing) rfl hone rfl
    have hnames : CallsNames := hbody.2.2.2.2.2
    exact hnames hcall (by intro _ _; exact Expr.noConfusion) rfl e ((hbody.1 e).mp he)

end Offside
