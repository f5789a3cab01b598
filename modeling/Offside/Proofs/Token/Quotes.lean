import Mathlib
import Offside.Proofs.Text.Visible
import Offside.Proofs.Token.Brackets
import Offside.Proofs.Token.Pairs

/-!
# Quotes in tokens and in text

Where quoted parts start and end is found out twice: by the scanner, for which a string
is one token, and by the reading of a text character by character. Main result:

> `scan_agrees`: where a text can be scanned, the reading sees the characters that no
> string token quotes, and each of an expression at the depth of the pairs around it; so
> no scanned text has a comment, and a number sign behind one starts a comment.
-/

namespace Offside

open Text Nesting

variable {column depth offset : Nat} {c : Char} {t u front quoted : Text}
  {opened ts us : List Token} {kind : TokenKind} {pairs : List (Nat × Nat)} {e : Expr}

/-! ## The quoted part of a token -/

/-- How many characters of a token of the kind stand before its quoted part. -/
def TokenKind.beforeQuote? : TokenKind → Option Nat
  | string => some 0
  | template => some 1
  | _ => none

/-- The character with this offset is in the quoted part of the token, from the opening
quote to the closing one. -/
def Token.quotes (t : Token) (offset : Nat) : Bool :=
  match t.kind.beforeQuote? with
  | some n => t.column + n ≤ offset && offset < t.column + t.lexeme.length
  | none => false

/-- The characters that no token quotes, for a text with `offset` characters in front. -/
def Text.unquotedFrom (tokens : List Token) (offset : Nat) (t : Text) : List (Nat × Char) :=
  ((t.zipIdx offset).filter fun p => !tokens.any (·.quotes p.2)).map fun p => (p.2, p.1)

/-- The characters of a text that no token quotes. -/
def Text.unquoted (tokens : List Token) (t : Text) : List (Nat × Char) :=
  unquotedFrom tokens 0 t

/-- The text of a token is a part that nobody quotes and a quoted part. -/
structure Shown (kind : TokenKind) (front quoted : Text) : Prop where
  marks : (∃ c, kind.mark? = some c ∧ front = [c]) ∨
    kind.mark? = none ∧ ∀ c ∈ front, isFlat c = true ∧ c ≠ '#'
  hidden : ∀ depth, (plain depth).read quoted = plain depth ∧ Along Hidden (plain depth) quoted
  before : kind.beforeQuote? = some front.length ∨ kind.beforeQuote? = none ∧ quoted = []

/-- A token without a quoted part is seen whole, if none of its characters is a quote, a
bracket or a number sign. -/
theorem shown_of_forall (hmark : kind.mark? = none) (hbefore : kind.beforeQuote? = none)
    (h : ∀ c ∈ front, isFlat c = true ∧ c ≠ '#') : Shown kind front [] :=
  ⟨.inr ⟨hmark, h⟩, fun _ => ⟨rfl, trivial⟩, .inr ⟨hbefore, rfl⟩⟩

/-- A comma or a bracket is seen. -/
theorem shown_of_mark (h : kind.mark? = some c) : Shown kind [c] [] :=
  ⟨.inl ⟨c, h, rfl⟩, fun _ => ⟨rfl, trivial⟩, .inr ⟨by cases kind <;> cases h <;> rfl, rfl⟩⟩

theorem flat_of_all (h : t.all (fun c => isFlat c && c != '#') = true) :
    ∀ c ∈ t, isFlat c = true ∧ c ≠ '#' := by
  intro c hc
  simpa using List.all_eq_true.mp h c hc

/-- The characters of a word are neither quotes nor brackets nor number signs. -/
theorem flat_of_continuesWord (h : ∀ c ∈ t, continuesWord c = true) :
    ∀ c ∈ t, isFlat c = true ∧ c ≠ '#' := by
  intro c hc
  refine ⟨isFlat_of_continuesWord (h c hc), ?_⟩
  rintro rfl
  exact absurd (h '#' hc) (by decide)

/-- Every token that is formed as its kind asks falls into a seen part and a quoted one. -/
theorem Formed.shown (h : Formed kind t) :
    ∃ front quoted, t = front ++ quoted ∧ Shown kind front quoted := by
  cases h with
  | pair h =>
    refine ⟨_, [], (List.append_nil _).symm, ?_⟩
    unfold pairSymbol? at h
    split at h <;> cases h <;> exact shown_of_forall rfl rfl (flat_of_all (by decide))
  | single h =>
    refine ⟨_, [], (List.append_nil _).symm, ?_⟩
    unfold singleSymbol? at h
    split at h <;> cases h <;>
      first | exact shown_of_mark rfl | exact shown_of_forall rfl rfl (flat_of_all (by decide))
  | string hq hbody =>
    exact ⟨[], _, rfl, .inr ⟨rfl, by simp⟩, reads_quoted hq hbody, .inl rfl⟩
  | @template f q body hf hq hbody =>
    refine ⟨[f], _, rfl, .inr ⟨rfl, ?_⟩, reads_quoted hq hbody, .inl rfl⟩
    rcases hf with rfl | rfl <;> exact flat_of_all (by decide)
  | number hne ht =>
    refine ⟨t, [], (List.append_nil t).symm, shown_of_forall rfl rfl fun c hc => ?_⟩
    refine ⟨isFlat_of_isNumerical (ht c hc), ?_⟩
    rintro rfl
    exact absurd (ht '#' hc) (by decide)
  | name hne ht =>
    exact ⟨t, [], (List.append_nil t).symm, shown_of_forall rfl rfl (flat_of_continuesWord ht)⟩
  | keyword hkind hne ht =>
    have hbefore : kind.beforeQuote? = none := by
      unfold keyword? at hkind
      split at hkind <;> cases hkind <;> rfl
    exact ⟨t, [], (List.append_nil t).symm,
      shown_of_forall (keyword?_mark? hkind) hbefore (flat_of_continuesWord ht)⟩

/-! ## What a reading sees of a token -/

/-- The depth behind a token, where closing brackets too many are ignored. -/
def TokenKind.depthBehind (depth : Nat) (kind : TokenKind) : Nat :=
  if kind.closing?.isSome then depth + 1 else if kind.isClosing then depth - 1 else depth

/-- The depth at which the characters of a token are seen. -/
def TokenKind.depthAt (depth : Nat) (kind : TokenKind) : Nat :=
  if kind.isClosing then depth - 1 else depth

theorem level_plain_of_isFlat (h : isFlat c = true) (depth : Nat) :
    (plain depth).level c = some depth := by
  simp only [isFlat, Bool.and_eq_true, Bool.not_eq_true'] at h
  obtain ⟨⟨⟨⟨hquote, -⟩, hcloser⟩, -⟩, -⟩ := h
  simp only [level, hquote, hcloser, Bool.false_eq_true, if_false]

/-- Without quotes and brackets every character is seen, at the depth at which the text
starts. -/
theorem visibleFrom_flat (h : ∀ c ∈ t, isFlat c = true) (depth offset : Nat) :
    visibleFrom (plain depth) offset t =
      (t.zipIdx offset).map fun p => ⟨p.2, p.1, depth⟩ := by
  induction t generalizing offset with
  | nil => rfl
  | cons c cs ih =>
    have hc := h c List.mem_cons_self
    rw [visibleFrom, level_plain_of_isFlat hc, next_plain_of_isFlat hc]
    dsimp only
    rw [ih fun d hd => h d (List.mem_cons_of_mem c hd)]
    rfl

/-- Only marks change the depth. -/
theorem depth_of_mark?_eq_none (h : kind.mark? = none) (depth : Nat) :
    kind.depthBehind depth = depth ∧ kind.depthAt depth = depth := by
  cases kind <;> first | contradiction | exact ⟨rfl, rfl⟩

theorem Shown.read_front (h : Shown kind front quoted) (depth : Nat) :
    (plain depth).read front = plain (kind.depthBehind depth) := by
  rcases h.marks with ⟨c, hmark, rfl⟩ | ⟨hmark, hflat⟩
  · cases kind <;> cases hmark <;> rfl
  · have hreads : (plain depth).read front = plain depth ∧
        Along (Clear 0 0) (plain depth) front := reads_flat (fun c hc => (hflat c hc).1) depth
    rw [(depth_of_mark?_eq_none hmark depth).1, hreads.1]

/-- Behind a token no quoted part is open, and the depth has changed by its kind alone. -/
theorem Shown.read (h : Shown kind front quoted) (depth : Nat) :
    (plain depth).read (front ++ quoted) = plain (kind.depthBehind depth) := by
  rw [read_append, h.read_front, (h.hidden _).1]

/-- Of a token the part in front of the quoted one is seen. -/
theorem Shown.visibleFrom (h : Shown kind front quoted) (depth offset : Nat) :
    visibleFrom (plain depth) offset (front ++ quoted) =
      (front.zipIdx offset).map fun p => ⟨p.2, p.1, kind.depthAt depth⟩ := by
  rw [visibleFrom_append, h.read_front, visibleFrom_hidden (h.hidden _).2, List.append_nil]
  rcases h.marks with ⟨c, hmark, rfl⟩ | ⟨hmark, hflat⟩
  · cases kind <;> cases hmark <;> rfl
  · rw [visibleFrom_flat fun c hc => (hflat c hc).1, (depth_of_mark?_eq_none hmark depth).2]

/-- Outside its quoted part a token has no number sign. -/
theorem Shown.ne_numberSign (h : Shown kind front quoted) : ∀ c ∈ front, c ≠ '#' := by
  intro c hc
  rcases h.marks with ⟨d, hmark, rfl⟩ | ⟨-, hflat⟩
  · cases List.mem_singleton.mp hc
    rintro rfl
    cases kind <;> cases hmark
  · exact (hflat c hc).2

/-- What the scanner cuts off falls into a seen part and a quoted one. -/
theorem shown_of_lexeme {cs rest : Text} {literal : Option Literal}
    (h : lexeme c (cs ++ rest) = .ok (.token kind literal cs.length)) :
    ∃ front quoted, c :: cs = front ++ quoted ∧ Shown kind front quoted :=
  (formed_of_lexeme h).shown

/-- Behind a token stands what is behind its two parts. -/
theorem column_behind {cs : Text} (h : c :: cs = front ++ quoted) (column : Nat) :
    column + 1 + cs.length = column + (front ++ quoted).length := by
  rw [← h, List.length_cons]
  omega

/-! ## What tokens quote -/

/-- The unquoted characters of a text are those of its parts. -/
theorem unquotedFrom_append :
    unquotedFrom ts offset (t ++ u) =
      unquotedFrom ts offset t ++ unquotedFrom ts (offset + t.length) u := by
  rw [unquotedFrom, List.zipIdx_append, List.filter_append, List.map_append]
  rfl

/-- Which characters are unquoted depends on the tokens only where the text stands. -/
theorem unquotedFrom_congr
    (h : ∀ k, offset ≤ k → k < offset + t.length → ts.any (·.quotes k) = us.any (·.quotes k)) :
    unquotedFrom ts offset t = unquotedFrom us offset t := by
  refine congrArg _ (List.filter_congr fun p hp => ?_)
  have hbounds := List.mem_zipIdx hp
  rw [h p.2 hbounds.1 hbounds.2.1]

theorem unquotedFrom_of_unquoted
    (h : ∀ k, offset ≤ k → k < offset + t.length → ts.any (·.quotes k) = false) :
    unquotedFrom ts offset t = (t.zipIdx offset).map fun p => (p.2, p.1) := by
  refine congrArg _ (List.filter_eq_self.mpr fun p hp => ?_)
  have hbounds := List.mem_zipIdx hp
  rw [h p.2 hbounds.1 hbounds.2.1]
  rfl

theorem unquotedFrom_of_quoted
    (h : ∀ k, offset ≤ k → k < offset + t.length → ts.any (·.quotes k) = true) :
    unquotedFrom ts offset t = [] := by
  rw [unquotedFrom, List.filter_eq_nil_iff.mpr]
  · rfl
  · intro p hp
    have hbounds := List.mem_zipIdx hp
    rw [h p.2 hbounds.1 hbounds.2.1]
    exact Bool.false_ne_true

/-- A token quotes nothing in front of itself. -/
theorem column_le_of_quotes {token : Token} (h : token.quotes offset = true) :
    token.column ≤ offset := by
  unfold Token.quotes at h
  split at h
  next =>
    rw [Bool.and_eq_true, decide_eq_true_eq] at h
    omega
  next => contradiction

/-- A token quotes nothing behind itself. -/
theorem quotes_eq_false_of_le {token : Token} (h : token.column + token.lexeme.length ≤ offset) :
    token.quotes offset = false := by
  unfold Token.quotes
  split
  · rw [Bool.and_eq_false_iff, decide_eq_false_iff_not, decide_eq_false_iff_not]
    omega
  · rfl

theorem Scans.column_le (h : Scans column t ts) : ∀ token ∈ ts, column ≤ token.column := by
  induction h with
  | done =>
    intro token htoken
    contradiction
  | space hc h ih =>
    intro token htoken
    have := ih token htoken
    omega
  | token hc h ih =>
    intro token htoken
    rcases List.mem_cons.mp htoken with rfl | htoken
    · exact Nat.le_refl _
    · have := ih token htoken
      omega

/-- Tokens quote nothing in front of them. -/
theorem Scans.quotes_eq_false (h : Scans column t ts) (hoffset : offset < column) :
    ts.any (·.quotes offset) = false := by
  rw [List.any_eq_false]
  intro token htoken hquotes
  have := h.column_le token htoken
  have := column_le_of_quotes hquotes
  omega

/-- Of the text of a token the part in front of the quoted one is not quoted. -/
theorem Shown.unquotedFrom {lexeme : String} (literal : Option Literal)
    (h : Shown kind front quoted) (hlexeme : lexeme.length = (front ++ quoted).length)
    (hts : ∀ k < column + lexeme.length, ts.any (·.quotes k) = false) :
    unquotedFrom (⟨kind, lexeme, literal, column⟩ :: ts) column (front ++ quoted) =
      (front.zipIdx column).map fun p => (p.2, p.1) := by
  rw [List.length_append] at hlexeme
  rw [unquotedFrom_append, unquotedFrom_of_unquoted, unquotedFrom_of_quoted, List.append_nil]
  · intro k hlower hupper
    rcases h.before with hbefore | ⟨-, rfl⟩
    · simp only [List.any_cons, Token.quotes, hbefore, Bool.or_eq_true, Bool.and_eq_true,
        decide_eq_true_eq]
      left
      omega
    · rw [List.length_nil] at hupper
      omega
  · intro k hlower hupper
    rw [List.any_cons, hts k (by omega), Bool.or_false]
    rcases h.before with hbefore | ⟨hbefore, -⟩
    · simp only [Token.quotes, hbefore, Bool.and_eq_false_iff, decide_eq_false_iff_not]
      left
      omega
    · simp only [Token.quotes, hbefore]

/-- **The reading sees what no token quotes.** -/
theorem Scans.visible_eq (h : Scans column t ts) (depth : Nat) :
    (visibleFrom (plain depth) column t).map (fun v => (v.offset, v.char)) =
      unquotedFrom ts column t := by
  induction h generalizing depth with
  | done => rfl
  | @space column c cs ts hc h ih =>
    obtain ⟨hnext, hlevel⟩ := next_of_isBlank (isBlank_of_isSpace hc) depth
    have hfirst : unquotedFrom ts column [c] = [(column, c)] :=
      unquotedFrom_of_unquoted fun k hlower hupper => by
        refine h.quotes_eq_false ?_
        rw [List.length_singleton] at hupper
        exact hupper
    have hsplit : unquotedFrom ts column (c :: cs) =
        unquotedFrom ts column [c] ++ unquotedFrom ts (column + 1) cs :=
      unquotedFrom_append (t := [c]) (u := cs)
    rw [visibleFrom, hlevel, hnext, hsplit, hfirst, ← ih depth]
    rfl
  | @token column c cs rest kind literal ts hc h ih =>
    obtain ⟨front, quoted, htext, hshown⟩ := shown_of_lexeme hc
    have hlength := column_behind htext column
    rw [hlength] at h ih
    rw [← List.cons_append, htext]
    have hlexeme : (String.ofList (front ++ quoted)).length = (front ++ quoted).length :=
      String.length_ofList
    have hfirst := hshown.unquotedFrom literal hlexeme fun k hk =>
      h.quotes_eq_false (by rwa [hlexeme] at hk)
    -- behind the token only the others quote
    have hothers : unquotedFrom (⟨kind, String.ofList (front ++ quoted), literal, column⟩ :: ts)
        (column + (front ++ quoted).length) rest =
          unquotedFrom ts (column + (front ++ quoted).length) rest := by
      refine unquotedFrom_congr fun k hlower _ => ?_
      rw [List.any_cons, quotes_eq_false_of_le (by rw [hlexeme]; exact hlower), Bool.false_or]
    rw [unquotedFrom_append, hfirst, hothers, visibleFrom_append, List.map_append, hshown.read,
      ih, hshown.visibleFrom, List.map_map]
    rfl

/-- Behind scanned text no quoted part is open. -/
theorem Scans.read (h : Scans column t ts) (depth : Nat) :
    ∃ depth', (plain depth).read t = plain depth' := by
  induction h generalizing depth with
  | done => exact ⟨depth, rfl⟩
  | @space column c cs ts hc h ih =>
    rw [Nesting.read, (next_of_isBlank (isBlank_of_isSpace hc) depth).1]
    exact ih depth
  | @token column c cs rest kind literal ts hc h ih =>
    obtain ⟨front, quoted, htext, hshown⟩ := shown_of_lexeme hc
    rw [← List.cons_append, htext, read_append, hshown.read]
    exact ih _

/-- What is seen of a token stands in its unquoted part, at the depth of the token. -/
theorem mem_visibleFrom_shown {v : Visible} (h : Shown kind front quoted)
    (hv : v ∈ visibleFrom (plain depth) column (front ++ quoted)) :
    v.char ∈ front ∧ column ≤ v.offset ∧ v.offset < column + front.length ∧
      v.depth = kind.depthAt depth := by
  rw [h.visibleFrom] at hv
  obtain ⟨p, hp, rfl⟩ := List.mem_map.mp hv
  obtain ⟨hlower, hupper, hchar⟩ := List.mem_zipIdx hp
  refine ⟨?_, hlower, hupper, rfl⟩
  dsimp only
  rw [hchar]
  exact List.getElem_mem _

/-- No number sign is seen in scanned text. -/
theorem Scans.ne_numberSign (h : Scans column t ts) (depth : Nat) :
    ∀ v ∈ visibleFrom (plain depth) column t, v.char ≠ '#' := by
  induction h generalizing depth with
  | done =>
    intro v hv
    contradiction
  | @space column c cs ts hc h ih =>
    obtain ⟨hnext, hlevel⟩ := next_of_isBlank (isBlank_of_isSpace hc) depth
    intro v hv
    rw [visibleFrom, hlevel, hnext] at hv
    rcases List.mem_cons.mp hv with rfl | hv
    · rintro rfl
      contradiction
    · exact ih depth v hv
  | @token column c cs rest kind literal ts hc h ih =>
    obtain ⟨front, quoted, htext, hshown⟩ := shown_of_lexeme hc
    have hlength := column_behind htext column
    rw [← List.cons_append, htext, visibleFrom_append, hshown.read, ← hlength]
    intro v hv
    rcases List.mem_append.mp hv with hv | hv
    · exact hshown.ne_numberSign v.char (mem_visibleFrom_shown hshown hv).1
    · exact ih _ v hv

/-! ## Depths and pairs -/

theorem Shown.length_front (h : Shown kind front quoted) (hmark : kind.mark? ≠ none) :
    front.length = 1 := by
  rcases h.marks with ⟨c, -, rfl⟩ | ⟨hnone, -⟩
  · rfl
  · exact absurd hnone hmark

theorem mark?_of_bracket (h : kind.closing?.isSome = true ∨ kind.isClosing = true) :
    kind.mark? ≠ none := by
  cases kind <;> simp_all [TokenKind.closing?, TokenKind.isClosing, TokenKind.mark?]

/-- No kind both opens and closes a pair. -/
theorem not_isClosing_of_closing? (h : kind.closing?.isSome = true) : kind.isClosing = false := by
  cases kind <;> simp_all [TokenKind.closing?, TokenKind.isClosing]

theorem not_closing?_of_isClosing (h : kind.isClosing = true) : kind.closing?.isSome = false := by
  cases kind <;> simp_all [TokenKind.closing?, TokenKind.isClosing]

/-- A place behind all opened brackets and in front of all tokens is as deep as brackets
are opened. -/
theorem enclosing_eq_length (h : bracketPairs? opened ts = some pairs)
    (hopened : ∀ o ∈ opened, o.column < offset) (hts : ∀ t ∈ ts, offset < t.column) :
    enclosing pairs offset = opened.length := by
  rw [enclosing_eq h hts, List.countP_eq_length]
  intro o ho
  exact decide_eq_true (hopened o ho)

/-- A character of a token in front is as deep as pairs are around it. -/
theorem Shown.depth_eq (h : Shown kind front quoted) {lexeme : String} {literal : Option Literal}
    (hpairs : bracketPairs? opened (⟨kind, lexeme, literal, column⟩ :: ts) = some pairs)
    (hopened : ∀ o ∈ opened, o.column < column)
    (hts : ∀ token ∈ ts, column + front.length ≤ token.column) (hlower : column ≤ offset)
    (hupper : offset < column + front.length) :
    kind.depthAt opened.length = enclosing pairs offset := by
  have hbehind : ∀ token ∈ ts, offset < token.column := fun token htoken =>
    Nat.lt_of_lt_of_le hupper (hts token htoken)
  have hbefore : ∀ o ∈ opened, o.column < offset := fun o ho =>
    Nat.lt_of_lt_of_le (hopened o ho) hlower
  rcases bracketPairs?_cons hpairs with
    ⟨hopening, hrest⟩ | ⟨o, outer, rest, rfl, hclosing, hrest, rfl⟩ | ⟨-, hclosing, hrest⟩
  · -- the token is not yet open at its own place
    have hlength := h.length_front (mark?_of_bracket (.inl hopening))
    have hcount : opened.countP (fun o => decide (o.column < offset)) = opened.length :=
      List.countP_eq_length.mpr fun o ho => decide_eq_true (hbefore o ho)
    rw [enclosing_eq hrest hbehind, List.countP_cons_of_neg, hcount, TokenKind.depthAt,
      not_isClosing_of_closing? hopening, if_neg Bool.false_ne_true]
    rw [decide_eq_true_eq]
    dsimp only
    omega
  · -- the pair that is closed here does not enclose its own closing bracket
    have hlength := h.length_front (mark?_of_bracket (.inr hclosing))
    dsimp only at hclosing
    rw [enclosing_cons, enclosing_eq_length hrest
      (fun o ho => hbefore o (List.mem_cons_of_mem _ ho)) hbehind, TokenKind.depthAt, hclosing,
      if_pos rfl, if_neg (by dsimp only; omega)]
    rfl
  · dsimp only at hclosing
    rw [enclosing_eq_length hrest hbefore hbehind, TokenKind.depthAt, hclosing,
      if_neg Bool.false_ne_true]

/-- Behind its first token the rest is paired with the brackets that are then open, and
places there are enclosed by the same pairs. -/
theorem pairs_behind {first : Token} (h : bracketPairs? opened (first :: ts) = some pairs) :
    ∃ opened' pairs', bracketPairs? opened' ts = some pairs' ∧
      opened'.length = first.kind.depthBehind opened.length ∧
      (∀ o ∈ opened', o = first ∨ o ∈ opened) ∧
      ∀ k, first.column < k → enclosing pairs k = enclosing pairs' k := by
  rcases bracketPairs?_cons h with
    ⟨hopening, hrest⟩ | ⟨o, outer, rest, rfl, hclosing, hrest, rfl⟩ | ⟨hopening, hclosing, hrest⟩
  · refine ⟨first :: opened, pairs, hrest, ?_, fun o ho => List.mem_cons.mp ho, fun _ _ => rfl⟩
    rw [TokenKind.depthBehind, hopening, if_pos rfl, List.length_cons]
  · refine ⟨outer, rest, hrest, ?_, fun o ho => .inr (List.mem_cons_of_mem _ ho), fun k hk => ?_⟩
    · rw [TokenKind.depthBehind, not_closing?_of_isClosing hclosing, if_neg Bool.false_ne_true,
        hclosing, if_pos rfl]
      rfl
    · rw [enclosing_cons, if_neg (by omega), Nat.add_zero]
  · refine ⟨opened, pairs, hrest, ?_, fun o ho => .inr ho, fun _ _ => rfl⟩
    rw [TokenKind.depthBehind, hopening, hclosing]
    rfl

/-- **Depths are numbers of pairs.** The depth of a character that the reading sees is the
number of pairs around it, where the brackets of the tokens are paired. -/
theorem Scans.depth_eq (h : Scans column t ts) (hpairs : bracketPairs? opened ts = some pairs)
    (hopened : ∀ o ∈ opened, o.column < column) :
    ∀ v ∈ visibleFrom (plain opened.length) column t, v.depth = enclosing pairs v.offset := by
  induction h generalizing opened pairs with
  | done =>
    intro v hv
    contradiction
  | @space column c cs ts hc h ih =>
    obtain ⟨hnext, hlevel⟩ := next_of_isBlank (isBlank_of_isSpace hc) opened.length
    intro v hv
    rw [visibleFrom, hlevel, hnext] at hv
    rcases List.mem_cons.mp hv with rfl | hv
    · exact (enclosing_eq_length hpairs hopened h.column_le).symm
    · exact ih hpairs (fun o ho => Nat.lt_succ_of_lt (hopened o ho)) v hv
  | @token column c cs rest kind literal ts hc h ih =>
    obtain ⟨front, quoted, htext, hshown⟩ := shown_of_lexeme hc
    have hlength := column_behind htext column
    rw [List.length_append] at hlength
    obtain ⟨opened', pairs', hrest, hdepth, hopened', hsame⟩ := pairs_behind hpairs
    rw [← List.cons_append, htext, visibleFrom_append, hshown.read, List.length_append, ← hlength,
      ← hdepth]
    intro v hv
    rcases List.mem_append.mp hv with hv | hv
    · obtain ⟨-, hlower, hupper, hv⟩ := mem_visibleFrom_shown hshown hv
      rw [hv]
      refine hshown.depth_eq hpairs hopened (fun token htoken => ?_) hlower hupper
      have := h.column_le token htoken
      omega
    · have hbound := (offset_of_mem_visibleFrom hv).1
      rw [hsame v.offset (by dsimp only; omega)]
      refine ih hrest (fun o ho => ?_) v hv
      rcases hopened' o ho with rfl | ho
      · dsimp only
        omega
      · have := hopened o ho
        omega

/-! ## The two agree -/

/-- **The scanner and the reading agree on quotes.** Where a text can be scanned, the
reading sees exactly the characters that no token quotes, once each and in order, and it
ends outside quotes. Of an expression all brackets have their partners, and a character is
seen at the depth of the pairs around it. So no scanned text has a comment, and a number
sign behind it starts one. -/
theorem scan_agrees (t : Text) (tokens : List Token) (h : scan t = .ok tokens) :
    (t.visible.map fun v => (v.offset, v.char)) = t.unquoted tokens ∧
    (∃ depth, start.read t = plain depth) ∧
    (∀ e, parseText t = .ok e → ∃ pairs, bracketPairs? [] tokens = some pairs ∧
      ∀ v ∈ t.visible, v.depth = enclosing pairs v.offset) ∧
    stripComment t = t ∧ ∀ r, stripComment (t ++ '#' :: r) = t := by
  obtain ⟨ts, rfl, hts⟩ := scanFrom_eq_ok_iff.mp h
  have hread := hts.read 0
  have hcomment := hts.ne_numberSign 0
  refine ⟨?_, hread, ?_, ?_, ?_⟩
  · refine (hts.visible_eq 0).trans (unquotedFrom_congr fun k _ _ => ?_)
    rw [List.any_append]
    exact (Bool.or_false _).symm
  · intro e hparse
    obtain ⟨us, hus, he⟩ := parseText_eq_ok_iff.mp hparse
    have hscan := scanFrom_eq_ok_iff.mpr ⟨us, rfl, hus⟩
    rw [← scan, h] at hscan
    obtain rfl := List.append_inj_left' (Except.ok.inj hscan) rfl
    obtain ⟨pairs, hpairs⟩ := he.paired
    have hwhole := hpairs [] []
    rw [List.append_nil] at hwhole
    refine ⟨pairs ++ [], (hpairs [] _).trans rfl, hts.depth_eq hwhole ?_⟩
    intro o ho
    contradiction
  · have hstrip := beforeComment_append hcomment []
    rwa [List.append_nil, beforeComment, List.append_nil] at hstrip
  · intro r
    obtain ⟨depth, hdepth⟩ := hread
    rw [stripComment, start, beforeComment_append hcomment, hdepth]
    exact List.append_nil t

/-- An escaped quote, a number sign and a bracket in a template are not seen. -/
theorem scan_agrees_template :
    ((visible "x[f'\\'#[']".toList).map fun v => (v.offset, v.char)) =
        [(0, 'x'), (1, '['), (2, 'f'), (9, ']')] ∧
      stripComment ("x[f'\\'#[']".toList ++ '#' :: ['a']) = "x[f'\\'#[']".toList := by
  have hscan : scan "x[f'\\'#[']".toList = .ok [⟨.identifier, "x", some (.name "x"), 0⟩,
      ⟨.leftBracket, "[", none, 1⟩, ⟨.template, "f'\\'#['", some (.text "\\'#["), 2⟩,
      ⟨.rightBracket, "]", none, 9⟩, ⟨.eof, "", none, 10⟩] := by
    cbv
  obtain ⟨hvisible, -, -, -, hcomment⟩ := scan_agrees _ _ hscan
  exact ⟨hvisible.trans (by decide), hcomment ['a']⟩

end Offside
