import Offside.Proofs.Expr.Failing
import Offside.Proofs.Token.Tiling

/-!
# The first wrong token

A fault of a text that falls into tokens names a column, and that is the column of one of
its tokens. `Located` says what is the matter there: the tokens in front of it could go on
to an expression, and with it they cannot, whatever stands behind it. There are two places
of which the latter does not hold. At the end mark nothing is wrong but that tokens are
missing; and a `not` is looked at together with the token behind it, since `not in` is a
comparison.

> `fault_at_first_wrong_token`: where the fault of a text shows.
-/

namespace Offside

variable {stop t : Token} {level : Level} {ts : List Token} {e : Expr} {fault : ParseFault}

/-- The column that a fault names. -/
def ParseFault.column? : ParseFault → Option Nat
  | .unexpected _ column => some column
  | .unclosed _ _ column => some column
  | .noOperand _ column => some column
  | .notNamed column => some column
  | .noEnd => none

/-- A fault at a token names its column. -/
theorem ParseFault.At.column? (h : fault.At t) : fault.column? = some t.column := by
  cases fault with
  | unexpected | unclosed | noOperand => exact congrArg some h.2
  | notNamed => exact congrArg some h
  | noEnd => exact h.elim

/-- A fault shows at a token, or at the end mark. -/
theorem Located.exists_token {Fails : Token → List Token → ParseFault → Prop}
    {Viable : List Token → Prop} (h : Located Fails Viable stop ts fault) :
    ∃ token ∈ ts ++ [stop], fault.column? = some token.column := by
  cases h with
  | @token front behind wrong hts hat =>
    refine ⟨wrong, ?_, hat.column?⟩
    rw [hts]
    exact List.mem_append_left _ (List.mem_append_right front List.mem_cons_self)
  | stop hat => exact ⟨stop, List.mem_append_right ts List.mem_cons_self, hat.column?⟩

/-! ## Expressions have no end mark in them -/

/-- The end of a text stands for nothing. -/
theorem Stands.ne_eof (h : Stands t e) : t.kind ≠ .eof := by
  cases h <;> simp only [*] <;> decide

/-- The end of a text joins nothing. -/
theorem Joins.ne_eof {join : Join} {left right : Expr} (h : Joins join t left right e) :
    t.kind ≠ .eof := by
  cases h <;> simp only [*] <;> decide

theorem Signs.ne_eof {kind : TokenKind} {op : UnaryOp} (h : Signs kind op) : kind ≠ .eof := by
  cases h <;> decide

theorem Compares.ne_eof {kind : TokenKind} {op : Relation} (h : Compares kind op) :
    kind ≠ .eof := by
  cases h <;> decide

/-- No token is an end mark. -/
def Unended (ts : List Token) : Prop :=
  ∀ t ∈ ts, t.kind ≠ .eof

theorem unended_nil : Unended [] := by
  intro t ht
  contradiction

theorem unended_cons_iff : Unended (t :: ts) ↔ t.kind ≠ .eof ∧ Unended ts :=
  List.forall_mem_cons

/-- The end is in no part if it is not in the whole. -/
theorem unended_append_iff {us : List Token} : Unended (ts ++ us) ↔ Unended ts ∧ Unended us :=
  List.forall_mem_append

theorem Unended.cons (hts : Unended ts) (ht : t.kind ≠ .eof) : Unended (t :: ts) :=
  unended_cons_iff.mpr ⟨ht, hts⟩

theorem Unended.append {us : List Token} (hts : Unended ts) (hus : Unended us) :
    Unended (ts ++ us) :=
  unended_append_iff.mpr ⟨hts, hus⟩

/-- Brackets do not bring in the end. -/
theorem Unended.enclosed {u : Token} {opening closing : TokenKind} (hts : Unended ts)
    (ht : t.kind = opening) (hu : u.kind = closing) (hopening : opening ≠ .eof)
    (hclosing : closing ≠ .eof) : Unended (t :: (ts ++ [u])) :=
  (hts.append (unended_nil.cons (hu ▸ hclosing))).cons (ht ▸ hopening)

mutual

/-- Nothing that is derived goes over the end of a text. -/
theorem Derives.unended {level : Level} {ts : List Token} {e : Expr} :
    Derives level ts e → Unended ts
  | .operand he | .compared he | .single he | .unsigned he | .base he | .bare he => he.unended
  | .join hleft ht hright => hleft.unended.append (hright.unended.cons ht.ne_eof)
  | .not ht he => he.unended.cons (by rw [ht]; decide)
  | .chain hfirst hlinks => hfirst.unended.append hlinks.unended
  | .sign ht he => he.unended.cons ht.ne_eof
  | .power hbase ht hexponent =>
    hbase.unended.append (hexponent.unended.cons (by rw [ht]; decide))
  | .call hcallee ht harguments hu =>
    hcallee.unended.append (harguments.unended.enclosed ht hu (by decide) (by decide))
  | .subscript hcontainer ht hindex hu =>
    hcontainer.unended.append (hindex.unended.enclosed ht hu (by decide) (by decide))
  | .stands ht => unended_nil.cons ht.ne_eof
  | .group ht he hu => he.unended.enclosed ht hu (by decide) (by decide)
  | .list ht helements hu => helements.unended.enclosed ht hu (by decide) (by decide)

/-- No link of a comparison goes over the end of a text. -/
theorem Links.unended {ts : List Token} {links : List (Relation × Nat × Expr)} :
    Links ts links → Unended ts
  | .nil => unended_nil
  | .cons ht he hlinks => (he.unended.append hlinks.unended).cons ht.ne_eof
  | .notIn ht hu he hlinks =>
    ((he.unended.append hlinks.unended).cons (by rw [hu]; decide)).cons (by rw [ht]; decide)

/-- No element goes over the end of a text. -/
theorem Elements.unended {ts : List Token} {es : List Expr} : Elements ts es → Unended ts
  | .nil => unended_nil
  | .last he => he.unended
  | .cons he ht hes => he.unended.append (hes.unended.cons (by rw [ht]; decide))

end

/-! ## What may stand behind tokens -/

/-- The beginning of an expression can be completed to tokens that are parsed. -/
theorem Opening.parses (h : Opening (.joined .or) ts) : ∃ more e, parse (ts ++ more) = .ok e := by
  obtain ⟨us, e, he⟩ := h
  refine ⟨us ++ [⟨.eof, "", none, 0⟩], e, ?_⟩
  rw [← List.append_assoc]
  exact (parse_eq_ok_iff he.unended rfl).mpr he

/-- What is parsed is parsed in front of the first end mark. -/
theorem parseBefore_of_parse (h : parse ts = .ok e) :
    ∃ stop, parseBefore stop (ts.takeWhile (·.kind != .eof)) = .ok e := by
  unfold parse at h
  dsimp only at h
  split at h
  next stop _ _ => exact ⟨stop, h⟩
  next => split at h <;> cases h

/-- Where the parser fails at a token, whatever stands behind it, no tokens that begin like
this are parsed. -/
theorem not_parses_of_fails {front : List Token} (hfront : Unended front) (ht : t.kind ≠ .eof)
    (h : ∀ stop behind, parseBefore stop (front ++ t :: behind) = .error fault)
    (more : List Token) (e : Expr) : parse (front ++ t :: more) ≠ .ok e := by
  intro hparse
  -- the first end mark stands behind `t`, so the tokens in front of it begin like this too
  obtain ⟨stop, hbefore⟩ := parseBefore_of_parse hparse
  have hfront' : ∀ u ∈ front, (u.kind != .eof) = true := fun u hu => bne_iff_ne.mpr (hfront u hu)
  have ht' : (t.kind != .eof) = true := bne_iff_ne.mpr ht
  rw [List.takeWhile_append_of_pos hfront', List.takeWhile_cons, if_pos ht', h stop] at hbefore
  cases hbefore

/-- **The first wrong token.** Where a text falls into tokens and is no expression, the fault
shows at the column of one token and of no other. What stands in front of it can be completed
to tokens that are parsed. If it is no `not` and not the end mark, no tokens that go on with
it are parsed. -/
theorem fault_at_first_wrong_token {text : Text} {tokens : List Token}
    (hscan : scan text = .ok tokens) (hparse : parse tokens = .error fault) :
    ∃ front wrong behind, tokens = front ++ wrong :: behind ∧
      fault.column? = some wrong.column ∧
      (∀ t ∈ front, t.column < wrong.column) ∧ (∀ t ∈ behind, wrong.column < t.column) ∧
      (∃ more e, parse (front ++ more) = .ok e) ∧
      (wrong.kind ≠ .notWord → wrong.kind ≠ .eof →
        ∀ more e, parse (front ++ wrong :: more) ≠ .ok e) := by
  obtain ⟨ts, rfl, hts⟩ := scanFrom_eq_ok_iff.mp hscan
  have hcolumns := hts.rising
  rw [parse_of_end hts.ne_eof rfl] at hparse
  cases located_parseBefore hparse with
  | @token front behind wrong hfront hat hopening hfails =>
    subst hfront
    rw [List.append_assoc, List.cons_append] at hcolumns ⊢
    obtain ⟨-, hbehind, hbefore⟩ := List.pairwise_append.mp hcolumns
    refine ⟨front, wrong, _, rfl, hat.column?, ?_, (List.pairwise_cons.mp hbehind).1,
      hopening.parses, fun hnot heof => ?_⟩
    · exact fun t ht => hbefore t ht wrong List.mem_cons_self
    · have hfails' : ∀ stop behind',
          parseBefore stop (front ++ wrong :: behind') = .error fault :=
        fun stop behind' => hfails stop behind' fun hkind => absurd hkind hnot
      exact not_parses_of_fails (unended_append_iff.mp hts.ne_eof).1 heof hfails'
  | stop hat hopening =>
    -- nothing is wrong but that there are no more tokens
    obtain ⟨-, -, hbefore⟩ := List.pairwise_append.mp hcolumns
    refine ⟨ts, _, [], rfl, hat.column?, ?_, ?_, hopening.parses, fun _ heof => absurd rfl heof⟩
    · exact fun t ht => hbefore t ht _ (List.mem_singleton_self _)
    · intro t ht
      contradiction

/-- What a call gives cannot be called: this shows at the second opening parenthesis, before
any argument is read. -/
theorem fault_at_first_wrong_token_call :
    let tokens : List Token :=
      [⟨.identifier, "f", some (.name "f"), 0⟩, ⟨.leftParen, "(", none, 1⟩,
        ⟨.identifier, "a", some (.name "a"), 2⟩, ⟨.rightParen, ")", none, 3⟩,
        ⟨.leftParen, "(", none, 4⟩, ⟨.rightParen, ")", none, 5⟩, ⟨.eof, "", none, 6⟩]
    scan "f(a)()".toList = .ok tokens ∧ parse tokens = .error (.notNamed 4) ∧
      ∃ front wrong behind, tokens = front ++ wrong :: behind ∧ wrong.column = 4 ∧
        (∃ more e, parse (front ++ more) = .ok e) ∧
        ∀ more e, parse (front ++ wrong :: more) ≠ .ok e := by
  intro tokens
  have hscan : scan "f(a)()".toList = .ok tokens := by cbv
  have hparse : parse tokens = .error (.notNamed 4) := by cbv
  obtain ⟨front, wrong, behind, htokens, hcolumn, -, -, hfront, hwrong⟩ :=
    fault_at_first_wrong_token hscan hparse
  have hcolumn : wrong.column = 4 := (Option.some.inj hcolumn).symm
  have hkind : ∀ t ∈ tokens, t.column = 4 → t.kind = .leftParen := by decide
  have hwrong_mem : wrong ∈ tokens := by
    rw [htokens]
    exact List.mem_append_right front List.mem_cons_self
  have hparen := hkind wrong hwrong_mem hcolumn
  refine ⟨hscan, hparse, front, wrong, behind, htokens, hcolumn, hfront, hwrong ?_ ?_⟩
  · rw [hparen]
    decide
  · rw [hparen]
    decide

end Offside
