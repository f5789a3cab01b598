import Offside.Proofs.Token.Scanning

/-!
# Brackets in tokens and in text

The depth of brackets along tokens, and its agreement with the nesting of the text
that they were scanned from. The tokens of an expression leave the depth as it was and
keep their commas and closing brackets inside; so the text of an expression is passed
over by whatever looks for the commas and closing brackets around it.
-/

namespace Offside

open Nesting

variable {comma closer depth depth' column : Nat} {q c : Char} {t body : Text}
  {ts us : List Token} {kind : TokenKind} {e : Expr}

/-! ## The depth along tokens -/

/-- The depth behind a token. There is none behind a comma that is not deeper than
`comma`, and none behind a bracket that closes to less than `closer`. -/
def TokenKind.climb? (comma closer depth : Nat) : TokenKind → Option Nat
  | .leftParen | .leftBracket => some (depth + 1)
  | .rightParen | .rightBracket => if closer < depth then some (depth - 1) else none
  | .comma => if comma < depth then some depth else none
  | _ => some depth

/-- The depth behind tokens. -/
def climb? (comma closer depth : Nat) : List Token → Option Nat
  | [] => some depth
  | t :: ts => (t.kind.climb? comma closer depth).bind fun depth => climb? comma closer depth ts

/-- Tokens climb as their parts do, one after the other. -/
theorem climb?_append :
    climb? comma closer depth (ts ++ us) =
      (climb? comma closer depth ts).bind fun depth => climb? comma closer depth us := by
  induction ts generalizing depth with
  | nil => rfl
  | cons t ts ih =>
    rw [List.cons_append, climb?, climb?, Option.bind_assoc]
    exact congrArg _ (funext fun depth => ih)

/-- Only commas and brackets climb. -/
theorem climb?_of_mark? (h : kind.mark? = none) : kind.climb? comma closer depth = some depth := by
  cases kind <;> first | contradiction | rfl

theorem Joins.mark? {join : Join} {t : Token} {left right : Expr} (h : Joins join t left right e) :
    t.kind.mark? = none := by
  cases h <;> simp only [*] <;> rfl

theorem Compares.mark? {op : Relation} (h : Compares kind op) : kind.mark? = none := by
  cases h <;> rfl

theorem Signs.mark? {op : UnaryOp} (h : Signs kind op) : kind.mark? = none := by
  cases h <;> rfl

/-- No literal and no name is a comma or bracket. -/
theorem Stands.mark? {t : Token} (h : Stands t e) : t.kind.mark? = none := by
  cases h <;> simp only [*] <;> rfl

/-- A token that is neither comma nor bracket is passed over. -/
theorem climb?_cons_of_mark? {t : Token} (h : t.kind.mark? = none) :
    climb? comma closer depth (t :: ts) = climb? comma closer depth ts := by
  rw [climb?, climb?_of_mark? h, Option.bind_some]

/-- Brackets of a kind around tokens. -/
theorem climb?_enclosed {t u : Token} (ht : t.kind = .leftParen ∨ t.kind = .leftBracket)
    (hu : u.kind = .rightParen ∨ u.kind = .rightBracket) (hcloser : closer ≤ depth)
    (hinside : climb? comma closer (depth + 1) us = some (depth + 1)) :
    climb? comma closer depth (t :: (us ++ [u])) = some depth := by
  have hopening : t.kind.climb? comma closer depth = some (depth + 1) := by
    rcases ht with ht | ht <;> rw [ht] <;> rfl
  have hclosing : u.kind.climb? comma closer (depth + 1) = some depth := by
    rcases hu with hu | hu <;> rw [hu] <;> exact if_pos (Nat.lt_succ_of_le hcloser)
  rw [climb?, hopening, Option.bind_some, climb?_append, hinside, Option.bind_some, climb?,
    hclosing]
  rfl

mutual

/-- **An expression is balanced.** Its commas are deeper than the place it stands at,
and its closing brackets close to no less than that. -/
theorem Derives.climb? (comma closer depth : Nat) (hcomma : comma ≤ depth)
    (hcloser : closer ≤ depth) {level : Level} {ts : List Token} {e : Expr} :
    Derives level ts e → climb? comma closer depth ts = some depth
  | .operand he | .compared he | .single he | .unsigned he | .base he | .bare he =>
    he.climb? comma closer depth hcomma hcloser
  | .join hleft ht hright => by
    rw [climb?_append, hleft.climb? comma closer depth hcomma hcloser, Option.bind_some,
      climb?_cons_of_mark? ht.mark?, hright.climb? comma closer depth hcomma hcloser]
  | .not ht he => by
    rw [climb?_cons_of_mark? (by rw [ht]; rfl), he.climb? comma closer depth hcomma hcloser]
  | .chain hfirst hlinks => by
    rw [climb?_append, hfirst.climb? comma closer depth hcomma hcloser, Option.bind_some,
      hlinks.climb? comma closer depth hcomma hcloser]
  | .sign ht he => by
    rw [climb?_cons_of_mark? ht.mark?, he.climb? comma closer depth hcomma hcloser]
  | .power hbase ht hexponent => by
    rw [climb?_append, hbase.climb? comma closer depth hcomma hcloser, Option.bind_some,
      climb?_cons_of_mark? (by rw [ht]; rfl), hexponent.climb? comma closer depth hcomma hcloser]
  | .call hcallee ht harguments hu => by
    rw [climb?_append, hcallee.climb? comma closer depth hcomma hcloser, Option.bind_some]
    exact climb?_enclosed (.inl ht) (.inl hu) hcloser
      (harguments.climb? comma closer (depth + 1) (Nat.lt_succ_of_le hcomma)
        (Nat.le_succ_of_le hcloser))
  | .subscript hcontainer ht hindex hu => by
    rw [climb?_append, hcontainer.climb? comma closer depth hcomma hcloser, Option.bind_some]
    exact climb?_enclosed (.inr ht) (.inr hu) hcloser
      (hindex.climb? comma closer (depth + 1) (Nat.le_succ_of_le hcomma)
        (Nat.le_succ_of_le hcloser))
  | .stands ht => by
    rw [climb?_cons_of_mark? ht.mark?]
    rfl
  | .group ht he hu =>
    climb?_enclosed (.inl ht) (.inl hu) hcloser
      (he.climb? comma closer (depth + 1) (Nat.le_succ_of_le hcomma) (Nat.le_succ_of_le hcloser))
  | .list ht helements hu =>
    climb?_enclosed (.inr ht) (.inr hu) hcloser
      (helements.climb? comma closer (depth + 1) (Nat.lt_succ_of_le hcomma)
        (Nat.le_succ_of_le hcloser))

/-- The links of a comparison end as deep as they start, with no outer comma or closer. -/
theorem Links.climb? (comma closer depth : Nat) (hcomma : comma ≤ depth)
    (hcloser : closer ≤ depth) {ts : List Token} {links : List (Relation × Nat × Expr)} :
    Links ts links → climb? comma closer depth ts = some depth
  | .nil => rfl
  | .cons ht he hlinks => by
    rw [climb?_cons_of_mark? ht.mark?, climb?_append,
      he.climb? comma closer depth hcomma hcloser, Option.bind_some,
      hlinks.climb? comma closer depth hcomma hcloser]
  | .notIn ht hu he hlinks => by
    rw [climb?_cons_of_mark? (by rw [ht]; rfl), climb?_cons_of_mark? (by rw [hu]; rfl),
      climb?_append, he.climb? comma closer depth hcomma hcloser, Option.bind_some,
      hlinks.climb? comma closer depth hcomma hcloser]

/-- The elements of a sequence are balanced, with the commas between them. -/
theorem Elements.climb? (comma closer depth : Nat) (hcomma : comma < depth)
    (hcloser : closer ≤ depth) {ts : List Token} {es : List Expr} :
    Elements ts es → climb? comma closer depth ts = some depth
  | .nil => rfl
  | .last he => he.climb? comma closer depth (Nat.le_of_lt hcomma) hcloser
  | .cons (t := t) he ht hes => by
    have hstep : t.kind.climb? comma closer depth = some depth := by
      rw [ht]
      exact if_pos hcomma
    rw [climb?_append, he.climb? comma closer depth (Nat.le_of_lt hcomma) hcloser,
      Option.bind_some, Offside.climb?, hstep, Option.bind_some,
      hes.climb? comma closer depth hcomma hcloser]

end

/-! ## The nesting of a text -/

/-- What a quoted part encloses is hidden, and the part stays open behind it. -/
theorem Quoted.reads (h : Quoted q body) (depth : Nat) :
    (quoted q depth).read body = quoted q depth ∧ Along Hidden (quoted q depth) body := by
  induction h with
  | nil => exact ⟨rfl, trivial⟩
  | @escaped c body hbody ih => exact ⟨ih.1, rfl, rfl, ih.2⟩
  | @plain c body hc hq hbody ih =>
    have hnext : (quoted q depth).next c = quoted q depth := by
      simp only [next, beq_iff_eq, if_neg hc, if_neg hq]
    refine ⟨?_, rfl, ?_⟩
    · rw [Nesting.read, hnext]
      exact ih.1
    · rw [hnext]
      exact ih.2

/-- A flat character changes neither the quotes nor the depth. -/
theorem next_plain_of_isFlat (h : isFlat c = true) : (plain depth).next c = plain depth := by
  simp only [isFlat, Bool.and_eq_true, Bool.not_eq_true'] at h
  obtain ⟨⟨⟨⟨hquote, hopener⟩, hcloser⟩, -⟩, -⟩ := h
  simp only [next, hquote, hopener, hcloser, Bool.false_eq_true, if_false]

/-- A flat character is neither comma nor closing bracket. -/
theorem clear_of_isFlat (h : isFlat c = true) (s : Nesting) : s.Clear comma closer c := by
  simp only [isFlat, Bool.and_eq_true, Bool.not_eq_true', bne_iff_ne] at h
  exact clear_of_ne h.1.2 h.1.1.2 comma closer

theorem ne_of_isBlank {d : Char} (hc : isBlank c = true) (hd : isBlank d = false) : c ≠ d := by
  intro heq
  rw [heq, hd] at hc
  contradiction

/-- A blank outside quotes is seen, and changes nothing. -/
theorem next_of_isBlank (h : isBlank c = true) (depth : Nat) :
    (plain depth).next c = plain depth ∧ (plain depth).level c = some depth := by
  have hne (d : Char) (hd : isBlank d = false) : (c == d) = false :=
    beq_eq_false_iff_ne.mpr (ne_of_isBlank h hd)
  simp only [next, level, isQuote, isOpener, isCloser, hne '"' rfl, hne '\'' rfl, hne '(' rfl,
    hne '[' rfl, hne '\x7b' rfl, hne ')' rfl, hne ']' rfl, hne '\x7d' rfl, Bool.or_self,
    Bool.false_eq_true, if_false, and_self]

theorem isCloser_of_isBlank (h : isBlank c = true) : isCloser c = false := by
  rw [isCloser, beq_eq_false_iff_ne.mpr (ne_of_isBlank h (d := ')') rfl),
    beq_eq_false_iff_ne.mpr (ne_of_isBlank h (d := ']') rfl),
    beq_eq_false_iff_ne.mpr (ne_of_isBlank h (d := '\x7d') rfl)]
  rfl

/-- A blank is neither comma nor closing bracket. -/
theorem clear_of_isBlank (h : isBlank c = true) (s : Nesting) : s.Clear comma closer c :=
  clear_of_ne (ne_of_isBlank h rfl) (isCloser_of_isBlank h) comma closer

/-- A blank does not end quotes. -/
theorem next_quoted_of_isBlank (hq : isQuote q = true) (hc : isBlank c = true) (depth : Nat) :
    (quoted q depth).next c = quoted q depth :=
  next_quoted_of_ne (ne_of_isBlank hc rfl) (ne_of_isBlank hc (isBlank_of_isQuote hq)) depth

/-- Blanks outside quotes are passed over. -/
theorem read_of_blank (h : Text.Blank t) (depth : Nat) :
    (plain depth).read t = plain depth := by
  induction t with
  | nil => rfl
  | cons c cs ih =>
    rw [Nesting.read, (next_of_isBlank (h c List.mem_cons_self) depth).1]
    exact ih fun d hd => h d (List.mem_cons_of_mem c hd)

/-- A blank text has no comma and no closing bracket. -/
theorem along_clear_of_blank (h : Text.Blank t) (s : Nesting) :
    Along (Clear comma closer) s t := by
  induction t generalizing s with
  | nil => trivial
  | cons c cs ih =>
    exact ⟨clear_of_isBlank (h c List.mem_cons_self) s,
      ih (fun d hd => h d (List.mem_cons_of_mem c hd)) (s.next c)⟩

/-- A reading that is outside quotes behind blanks was so in front of them. -/
theorem eq_plain_of_read_blank {s : Nesting} (hs : s.Quoting) (hblank : Text.Blank t)
    (h : s.read t = plain depth) : s = plain depth := by
  induction t generalizing s with
  | nil => exact h
  | cons c cs ih =>
    have hc := hblank c List.mem_cons_self
    have hnext := ih (hs.next c) (fun d hd => hblank d (List.mem_cons_of_mem c hd)) h
    cases s with
    | plain depth' => rwa [(next_of_isBlank hc depth').1] at hnext
    | quoted q depth' =>
      rw [next_quoted_of_isBlank hs hc] at hnext
      contradiction
    | escaped q depth' => contradiction

/-- A flat text changes nothing and has no comma and no closing bracket. -/
theorem reads_flat (h : ∀ c ∈ t, isFlat c = true) (depth : Nat) :
    (plain depth).read t = plain depth ∧ Along (Clear comma closer) (plain depth) t := by
  induction t with
  | nil => exact ⟨rfl, trivial⟩
  | cons c cs ih =>
    have hc := h c List.mem_cons_self
    obtain ⟨hread, hclear⟩ := ih fun d hd => h d (List.mem_cons_of_mem c hd)
    refine ⟨?_, clear_of_isFlat hc _, ?_⟩
    · rw [Nesting.read, next_plain_of_isFlat hc]
      exact hread
    · rw [next_plain_of_isFlat hc]
      exact hclear

/-- A quote, the text it quotes and the quote again leave the depth as it was, and
all of them belong to the quoted part. -/
theorem reads_quoted (hq : isQuote q = true) (hbody : Quoted q body) (depth : Nat) :
    (plain depth).read (q :: (body ++ [q])) = plain depth ∧
      Along Hidden (plain depth) (q :: (body ++ [q])) := by
  have hopen := next_plain_of_isQuote hq depth
  have hclose := next_quoted_self hq depth
  have hlevel : (plain depth).level q = none := by
    simp only [level, hq, if_true]
  obtain ⟨hread, hhidden⟩ := hbody.reads depth
  refine ⟨?_, hlevel, ?_⟩
  · rw [Nesting.read, hopen, read_append, hread]
    exact hclose
  · rw [hopen, along_append, hread]
    exact ⟨hhidden, rfl, trivial⟩

/-- A comma or bracket changes the depth as its token climbs. -/
theorem reads_mark (h : kind.mark? = some c)
    (hclimb : kind.climb? comma closer depth = some depth') :
    (plain depth).read [c] = plain depth' ∧ Along (Clear comma closer) (plain depth) [c] := by
  cases kind with
  | leftParen | leftBracket =>
    cases h
    cases hclimb
    exact ⟨rfl, clear_of_ne (by decide) (by decide) _ _, trivial⟩
  | rightParen | rightBracket =>
    cases h
    obtain ⟨hcloser, hdepth⟩ := Option.ite_none_right_eq_some.mp hclimb
    cases hdepth
    refine ⟨rfl, ?_, trivial⟩
    intro level hlevel
    cases hlevel
    exact ⟨fun h => absurd h (by decide), fun _ => Nat.le_sub_one_of_lt hcloser⟩
  | comma =>
    cases h
    obtain ⟨hcomma, hdepth⟩ := Option.ite_none_right_eq_some.mp hclimb
    cases hdepth
    refine ⟨rfl, ?_, trivial⟩
    intro level hlevel
    cases hlevel
    exact ⟨fun _ => hcomma, fun h => absurd h (by decide)⟩
  | _ => contradiction

/-- The text of a token nests as the token does. -/
theorem Spells.reads (h : Spells kind t) (hclimb : kind.climb? comma closer depth = some depth') :
    (plain depth).read t = plain depth' ∧ Along (Clear comma closer) (plain depth) t := by
  cases h with
  | mark h => exact reads_mark h hclimb
  | string hq hbody =>
    cases hclimb
    obtain ⟨hread, hhidden⟩ := reads_quoted hq hbody depth
    exact ⟨hread, hhidden.mono fun _ _ h => h.clear _ _⟩
  | @template f q body hc hq hbody =>
    cases hclimb
    obtain ⟨hread, hhidden⟩ := reads_quoted hq hbody depth
    refine ⟨?_, clear_of_isFlat hc _, ?_⟩
    · rw [Nesting.read, next_plain_of_isFlat hc]
      exact hread
    · rw [next_plain_of_isFlat hc]
      exact hhidden.mono fun _ _ h => h.clear _ _
  | flat hkind hne hflat =>
    rw [climb?_of_mark? hkind] at hclimb
    cases hclimb
    exact reads_flat hflat depth

/-- **Tokens and text agree on nesting.** The reading of a text stands behind it at the
depth of its tokens. -/
theorem Scans.reads (h : Scans column t ts) (hclimb : climb? comma closer depth ts = some depth') :
    (plain depth).read t = plain depth' ∧ Along (Clear comma closer) (plain depth) t := by
  induction h generalizing depth with
  | done =>
    cases hclimb
    exact ⟨rfl, trivial⟩
  | @space column c cs ts hc h ih =>
    have hnext := (next_of_isBlank (isBlank_of_isSpace hc) depth).1
    obtain ⟨hread, hcs⟩ := ih hclimb
    refine ⟨?_, clear_of_isBlank (isBlank_of_isSpace hc) _, ?_⟩
    · rw [Nesting.read, hnext]
      exact hread
    · rw [hnext]
      exact hcs
  | @token column c cs rest kind literal ts hc h ih =>
    -- the token leads to some depth between, and the rest goes on from there
    obtain ⟨between, hkind, hts⟩ := Option.bind_eq_some_iff.mp hclimb
    obtain ⟨hread, hclear⟩ := (spells_of_lexeme hc).reads hkind
    obtain ⟨hread', hclear'⟩ := ih hts
    rw [← List.cons_append, read_append, along_append, hread]
    exact ⟨hread', hclear, hclear'⟩

end Offside
