import Offside.Proofs.Token.Spelling

/-!
# What starts at a character

The sorts of tokens that `lexeme` finds, how they are spelled, and where a text may
be cut: with another delimiter behind it, or none, a token stays what it is.
-/

namespace Offside

variable {c q : Char} {cs t tail tail' : Text} {kind : TokenKind} {literal : Option Literal}
  {more : Nat}

/-! ## The sorts of tokens -/

/-- Only spaces are passed over. -/
theorem lexeme_eq_space_iff : lexeme c cs = .ok .space ↔ isSpace c = true := by
  unfold lexeme isSpace
  constructor
  · intro h
    split at h
    next hspace => simpa [or_assoc] using hspace
    next => grind
  · intro h
    rw [if_pos (by simpa [or_assoc] using h)]

/-- A token of the kind, with what it carries, starts at `c` and goes on for `more`
characters of `cs`. -/
inductive TokenAt (c : Char) (cs : Text) : TokenKind → Option Literal → Nat → Prop
  | symbol {kind : TokenKind} {more : Nat} (h : symbol? c cs = some (kind, more)) :
    TokenAt c cs kind none more
  | string {body : Text} (hq : isQuote c = true) (h : untilQuote c cs = some body) :
    TokenAt c cs .string (some (.text (String.ofList (Text.unescape body)))) (body.length + 1)
  | template {q : Char} {ds body : Text} (hc : c = 'f' ∨ c = 'F') (hcs : cs = q :: ds)
    (hq : isQuote q = true) (h : untilQuote q ds = some body) :
    TokenAt c cs .template (some (.text (String.ofList body))) (body.length + 2)
  | number {x : Float} (hc : c.isDigit = true ∨ c = '.')
    (hx : numeral (c :: numeralRest cs) = .ok x) :
    TokenAt c cs .number (some (.number x)) (numeralRest cs).length
  | keyword {kind : TokenKind} (hc : startsWord c = true)
    (h : keyword? (String.ofList (c :: cs.takeWhile continuesWord)) = some kind) :
    TokenAt c cs kind none (cs.takeWhile continuesWord).length
  | name (hc : startsWord c = true)
    (h : keyword? (String.ofList (c :: cs.takeWhile continuesWord)) = none) :
    TokenAt c cs .identifier (some (.name (String.ofList (c :: cs.takeWhile continuesWord))))
      (cs.takeWhile continuesWord).length

/-- Whatever token is scanned is one of the sorts of tokens. -/
theorem tokenAt_of_lexeme (h : lexeme c cs = .ok (.token kind literal more)) :
    TokenAt c cs kind literal more := by
  unfold lexeme at h
  split at h
  · cases h
  split at h
  next hsymbol =>
    cases h
    exact .symbol hsymbol
  split at h
  · cases h
  split at h
  next hq =>
    split at h
    next body hbody =>
      cases h
      exact .string hq hbody
    next => cases h
  split at h
  next hf =>
    rw [Bool.and_eq_true, Bool.or_eq_true, beq_iff_eq, beq_iff_eq] at hf
    obtain ⟨hc, hq⟩ := hf
    cases cs with
    | nil => contradiction
    | cons q ds =>
      split at h
      next body hbody =>
        cases h
        exact .template hc rfl hq hbody
      next => cases h
  split at h
  next hdigit =>
    rw [Bool.or_eq_true, Bool.and_eq_true, beq_iff_eq] at hdigit
    dsimp only at h
    split at h
    next x hx =>
      cases h
      exact .number (hdigit.imp_right And.left) hx
    next => cases h
  split at h
  next hword =>
    dsimp only at h
    split at h
    next hkeyword =>
      cases h
      exact .keyword hword hkeyword
    next hkeyword =>
      cases h
      exact .name hword hkeyword
  next => cases h

theorem keyword?_ne_eof {word : String} (h : keyword? word = some kind) : kind ≠ .eof := by
  unfold keyword? at h
  split at h <;> cases h <;> decide

theorem symbol?_ne_eof (h : symbol? c cs = some (kind, more)) : kind ≠ .eof := by
  have hsingle : singleSymbol? c ≠ some .eof := by
    unfold singleSymbol?
    split <;> decide
  have hpair : cs.head?.bind (pairSymbol? c) ≠ some .eof := by
    intro hpair
    obtain ⟨d, -, hd⟩ := Option.bind_eq_some_iff.mp hpair
    unfold pairSymbol? at hd
    split at hd <;> cases hd
  rintro rfl
  unfold symbol? at h
  split at h
  next hkind =>
    cases h
    exact hpair hkind
  next =>
    obtain ⟨_, hkind, heq⟩ := Option.map_eq_some_iff.mp h
    cases heq
    exact hsingle hkind

/-- No character is scanned as the end. -/
theorem TokenAt.ne_eof (h : TokenAt c cs kind literal more) : kind ≠ .eof := by
  cases h with
  | symbol h => exact symbol?_ne_eof h
  | keyword _ h => exact keyword?_ne_eof h
  | string | template | number | name => decide

/-- The characters of a word continue it, the first one too. -/
theorem continuesWord_of_word (hc : startsWord c = true) :
    ∀ d ∈ c :: cs.takeWhile continuesWord, continuesWord d = true := by
  intro d hd
  rcases List.mem_cons.mp hd with rfl | hd
  · exact continuesWord_of_startsWord hc
  · exact List.all_eq_true.mp List.all_takeWhile d hd

/-- A symbol is formed as its kind asks and takes no more than is there. -/
theorem formed_of_symbol? (h : symbol? c cs = some (kind, more)) :
    Formed kind (c :: cs.take more) ∧ more ≤ cs.length := by
  unfold symbol? at h
  split at h
  next kind' hpair =>
    cases h
    obtain ⟨d, hd, hpair⟩ := Option.bind_eq_some_iff.mp hpair
    cases cs with
    | nil => contradiction
    | cons e es =>
      cases hd
      exact ⟨.pair hpair, Nat.le_add_left 1 _⟩
  next =>
    obtain ⟨kind', hsingle, heq⟩ := Option.map_eq_some_iff.mp h
    cases heq
    exact ⟨.single hsingle, Nat.zero_le _⟩

/-- A numeral has only the characters of numerals. -/
theorem isNumerical_of_numeral (hc : c.isDigit = true ∨ c = '.') :
    ∀ d ∈ c :: numeralRest cs, isNumerical d = true := by
  intro d hd
  rcases List.mem_cons.mp hd with rfl | hd
  · rcases hc with hc | rfl
    · exact isNumerical_of_isDigit hc
    · decide
  · exact isNumerical_of_mem_numeralRest hd

/-- A token is cut out of the text, and formed as its sort is. -/
theorem TokenAt.formed (h : TokenAt c cs kind literal more) :
    Formed kind (c :: cs.take more) ∧ more ≤ cs.length := by
  -- each sort of token goes on with a prefix of the text
  have htake : ∀ {u : Text}, u <+: cs → cs.take u.length = u ∧ u.length ≤ cs.length :=
    fun hu => ⟨(List.prefix_iff_eq_take.mp hu).symm, hu.length_le⟩
  cases h with
  | symbol h => exact formed_of_symbol? h
  | @string body hq h =>
    obtain ⟨hbody, rest, rfl⟩ := quoted_of_untilQuote h
    have htake := htake (u := body ++ [c]) ⟨rest, by rw [List.append_assoc]; rfl⟩
    rw [List.length_append, List.length_singleton] at htake
    rw [htake.1]
    exact ⟨.string hq hbody, htake.2⟩
  | @template q ds body hc hcs hq h =>
    obtain ⟨hbody, rest, rfl⟩ := quoted_of_untilQuote h
    subst hcs
    have htake := htake (u := q :: (body ++ [q])) ⟨rest, by simp⟩
    rw [List.length_cons, List.length_append, List.length_singleton] at htake
    rw [htake.1]
    exact ⟨.template hc hq hbody, htake.2⟩
  | number hc hx =>
    obtain ⟨htext, hle⟩ := htake (isPrefix_numeralRest cs)
    rw [htext]
    exact ⟨.number (List.cons_ne_nil _ _) (isNumerical_of_numeral hc), hle⟩
  | keyword hc h =>
    obtain ⟨htext, hle⟩ := htake (List.takeWhile_prefix continuesWord)
    rw [htext]
    exact ⟨.keyword h (List.cons_ne_nil _ _) (continuesWord_of_word hc), hle⟩
  | name hc h =>
    obtain ⟨htext, hle⟩ := htake (List.takeWhile_prefix continuesWord)
    rw [htext]
    exact ⟨.name (List.cons_ne_nil _ _) (continuesWord_of_word hc), hle⟩

/-! ## Behind a token -/

/-- A delimiter behind a symbol does not continue it. -/
theorem symbol?_append (htail : Delimited tail) (c : Char) (cs : Text) :
    symbol? c (cs ++ tail) = symbol? c cs := by
  unfold symbol?
  cases cs with
  | cons d ds => rfl
  | nil =>
    cases tail with
    | nil => rfl
    | cons d ds =>
      have hnone : (([] : Text) ++ d :: ds).head?.bind (pairSymbol? c) = none :=
        pairSymbol?_delimiter (htail d rfl) c
      rw [hnone]
      rfl

/-- A test that all delimiters fail does not see a delimiter behind the text. -/
theorem head?_any_append {p : Char → Bool} (hp : ∀ c, isDelimiter c = true → p c = false)
    (htail : Delimited tail) (cs : Text) : (cs ++ tail).head?.any p = cs.head?.any p := by
  cases cs with
  | cons d ds => rfl
  | nil =>
    cases tail with
    | nil => rfl
    | cons d ds => exact hp d (htail d rfl)

/-- A quote that is closed inside a front of a text is closed there without the rest. -/
theorem untilQuote_of_append {body : Text} (hq : isQuote q = true)
    (h : untilQuote q (t ++ tail) = some body) (hshort : body.length < t.length) :
    untilQuote q t = some body := by
  obtain ⟨hbody, rest, heq⟩ := quoted_of_untilQuote h
  have hprefix : body ++ [q] <+: t := by
    have hwhole : body ++ [q] <+: t ++ tail :=
      ⟨rest, by rw [heq, List.append_assoc, List.singleton_append]⟩
    refine List.prefix_of_prefix_length_le hwhole (List.prefix_append t tail) ?_
    rw [List.length_append, List.length_singleton]
    exact hshort
  obtain ⟨rest', rfl⟩ := hprefix
  rw [List.append_assoc, List.singleton_append]
  exact untilQuote_append hq hbody _

/-- Text behind a closed quote does not matter, and an open one is closed in it at the
earliest. -/
theorem untilQuote_append_cases (hq : isQuote q = true) (t tail : Text) :
    untilQuote q (t ++ tail) = untilQuote q t ∨
      untilQuote q t = none ∧
        ∀ body, untilQuote q (t ++ tail) = some body → t.length ≤ body.length := by
  cases hclosed : untilQuote q t with
  | some body =>
    obtain ⟨hbody, rest, rfl⟩ := quoted_of_untilQuote hclosed
    rw [List.append_assoc, List.cons_append]
    exact .inl (untilQuote_append hq hbody _)
  | none =>
    refine .inr ⟨rfl, fun body h => Nat.le_of_not_lt fun hshort => ?_⟩
    rw [untilQuote_of_append hq h hshort] at hclosed
    cases hclosed

/-- **The text behind a token.** What starts at a character is the same in front of a
delimiter as at the end of the text, unless it is a string that is not closed; and then no
token ends before that delimiter. -/
theorem lexeme_append (htail : Delimited tail) (c : Char) (t : Text) :
    lexeme c (t ++ tail) = lexeme c t ∨
      lexeme c t = .error .unterminated ∧ ∀ {kind literal more},
        lexeme c (t ++ tail) = .ok (.token kind literal more) → t.length < more := by
  have hword : (t ++ tail).takeWhile continuesWord = t.takeWhile continuesWord :=
    (takeWhile_append_delimited (fun _ => continuesWord_delimiter) htail t).1
  unfold lexeme
  rw [symbol?_append htail, head?_any_append (fun _ => isQuote_delimiter) htail,
    head?_any_append (fun _ => isDigit_delimiter) htail, numeralRest_append htail, hword]
  -- only strings and templates are read up to something that is no delimiter
  by_cases hspace : (c == ' ' || c == '\r' || c == '\t') = true
  · rw [if_pos hspace, if_pos hspace]
    exact .inl rfl
  rw [if_neg hspace, if_neg hspace]
  cases symbol? c t with
  | some symbol => exact .inl rfl
  | none =>
    dsimp only
    by_cases hassign : (c == '=') = true
    · rw [if_pos hassign, if_pos hassign]
      exact .inl rfl
    rw [if_neg hassign, if_neg hassign]
    by_cases hq : isQuote c = true
    · rw [if_pos hq, if_pos hq]
      rcases untilQuote_append_cases hq t tail with hsame | ⟨hopen, hlong⟩
      · rw [hsame]
        exact .inl rfl
      · rw [hopen]
        refine .inr ⟨rfl, fun h => ?_⟩
        split at h
        next body hbody =>
          cases h
          exact Nat.lt_succ_of_le (hlong body hbody)
        next => cases h
    rw [if_neg hq, if_neg hq]
    by_cases hf : ((c == 'f' || c == 'F') && t.head?.any isQuote) = true
    · rw [if_pos hf, if_pos hf]
      rw [Bool.and_eq_true] at hf
      cases t with
      | nil => exact absurd hf.2 Bool.false_ne_true
      | cons q ds =>
        dsimp only [List.cons_append, List.headD_cons, List.tail_cons]
        rcases untilQuote_append_cases hf.2 ds tail with hsame | ⟨hopen, hlong⟩
        · rw [hsame]
          exact .inl rfl
        · rw [hopen]
          refine .inr ⟨rfl, fun h => ?_⟩
          split at h
          next body hbody =>
            cases h
            exact Nat.succ_lt_succ (Nat.lt_succ_of_le (hlong body hbody))
          next => cases h
    rw [if_neg hf, if_neg hf]
    exact .inl rfl

/-- **Cutting behind a token.** A token that ends before a delimiter is the same
token before any other, and at the end of a text. -/
theorem lexeme_delimited (h : lexeme c (t ++ tail) = .ok (.token kind literal more))
    (hmore : more ≤ t.length) (htail : Delimited tail) (htail' : Delimited tail') :
    lexeme c (t ++ tail') = .ok (.token kind literal more) := by
  have hcut : lexeme c t = .ok (.token kind literal more) := by
    rcases lexeme_append htail c t with hsame | ⟨_, hlong⟩
    · rw [← hsame, h]
    · exact absurd (hlong h) (Nat.not_lt.mpr hmore)
  rcases lexeme_append htail' c t with hsame | ⟨hopen, _⟩
  · rw [hsame, hcut]
  · rw [hcut] at hopen
    cases hopen

/-! ## Marks and words -/

/-- A comma or bracket is a symbol of one character, whatever follows. -/
theorem symbol?_mark (h : kind.mark? = some c) (cs : Text) : symbol? c cs = some (kind, 0) := by
  have hpair : cs.head?.bind (pairSymbol? c) = none := by
    cases cs with
    | nil => rfl
    | cons d ds => cases kind <;> cases h <;> rfl
  unfold symbol?
  rw [hpair]
  cases kind <;> cases h <;> rfl

/-- A comma or bracket is a token, whatever follows. -/
theorem lexeme_mark (h : kind.mark? = some c) (cs : Text) :
    lexeme c cs = .ok (.token kind none 0) := by
  unfold lexeme
  rw [symbol?_mark h]
  cases kind <;> cases h <;> rfl

theorem symbol?_word (hc : continuesWord c = true) (cs : Text) : symbol? c cs = none := by
  have hsingle : singleSymbol? c = none := by
    unfold singleSymbol?
    split <;> first | rfl | exact absurd hc (by decide)
  have hpair : cs.head?.bind (pairSymbol? c) = none := by
    cases cs with
    | nil => rfl
    | cons d ds =>
      show pairSymbol? c d = none
      unfold pairSymbol?
      split <;> first | rfl | exact absurd hc (by decide)
  unfold symbol?
  rw [hpair, hsingle]
  rfl

theorem isDigit_of_startsWord (h : startsWord c = true) : c.isDigit = false := by
  cases hdigit : c.isDigit with
  | false => rfl
  | true =>
    simp only [Char.isDigit, Bool.and_eq_true, decide_eq_true_eq, ge_iff_le,
      UInt32.le_iff_toNat_le] at hdigit
    have hle : c.toNat ≤ 57 := hdigit.2
    have hall : ∀ n < 58, startsWord (Char.ofNat n) = false := by decide
    have hc := hall c.toNat (Nat.lt_succ_of_le hle)
    rw [Char.ofNat_toNat, h] at hc
    contradiction

/-- Nothing goes on with a word, and the text is no string that would make it a
template. -/
def EndsWord (t : Text) : Prop :=
  ∀ c, t.head? = some c → continuesWord c = false ∧ isQuote c = false

/-- The characters of a word are taken up to where the word ends. -/
theorem EndsWord.takeWhile {rest : Text} (hrest : EndsWord rest)
    (hcs : ∀ d ∈ cs, continuesWord d = true) :
    (cs ++ rest).takeWhile continuesWord = cs := by
  rw [List.takeWhile_append_of_pos hcs]
  cases rest with
  | nil => exact List.append_nil cs
  | cons d ds =>
    rw [List.takeWhile_cons_of_neg, List.append_nil]
    rw [(hrest d rfl).1]
    exact Bool.false_ne_true

/-- A word is a token of its own, a keyword or a name. -/
theorem lexeme_word {rest : Text} (hc : startsWord c = true)
    (hcs : ∀ d ∈ cs, continuesWord d = true) (hrest : EndsWord rest) :
    lexeme c (cs ++ rest) =
      match keyword? (String.ofList (c :: cs)) with
      | some kind => .ok (.token kind none cs.length)
      | none => .ok (.token .identifier (some (.name (String.ofList (c :: cs)))) cs.length) := by
  have hcontinues := continuesWord_of_startsWord hc
  have hne : ∀ d, continuesWord d = false → (c == d) = false := by
    intro d hd
    rw [beq_eq_false_iff_ne]
    rintro rfl
    rw [hcontinues] at hd
    contradiction
  have hquote : isQuote c = false := by
    simp only [isQuote, hne '"' rfl, hne '\'' rfl, Bool.or_self]
  have hhead : (cs ++ rest).head?.any isQuote = false := by
    cases cs with
    | nil =>
      cases rest with
      | nil => rfl
      | cons d ds => exact (hrest d rfl).2
    | cons d ds =>
      have hflat := isFlat_of_continuesWord (hcs d List.mem_cons_self)
      simp only [isFlat, Bool.and_eq_true, Bool.not_eq_true'] at hflat
      exact hflat.1.1.1.1
  unfold lexeme
  rw [symbol?_word hcontinues, hhead, hrest.takeWhile hcs]
  cases hkeyword : keyword? (String.ofList (c :: cs)) <;>
    simp only [hkeyword, hne ' ' rfl, hne '\r' rfl, hne '\t' rfl,
      hne '=' rfl, hne '.' rfl, hquote, isDigit_of_startsWord hc, hc,
      Bool.and_false, Bool.false_and, Bool.or_self, Bool.false_eq_true, if_false, if_true]

/-- An identifier is no reserved word. -/
theorem not_reserved_of_isIdentifier (h : t.isIdentifier = true) : t ∉ reservedWords := by
  cases t with
  | nil => contradiction
  | cons c cs =>
    simp only [Text.isIdentifier, Bool.and_eq_true, Bool.not_eq_true', List.contains_eq_mem,
      decide_eq_false_iff_not] at h
    exact h.2

/-- An identifier is no keyword. -/
theorem keyword?_of_isIdentifier (h : t.isIdentifier = true) :
    keyword? (String.ofList t) = none := by
  have hnot : ∀ word : String, word.toList ∈ reservedWords → String.ofList t ≠ word := by
    rintro word hword rfl
    rw [String.toList_ofList] at hword
    exact not_reserved_of_isIdentifier h hword
  unfold keyword?
  split <;> first | rfl | exact absurd ‹_› (hnot _ (by decide))

/-- An identifier is a token of its own, the name. -/
theorem lexeme_of_isIdentifier {rest : Text} (h : Text.isIdentifier (c :: cs) = true)
    (hrest : EndsWord rest) :
    lexeme c (cs ++ rest) =
      .ok (.token .identifier (some (.name (String.ofList (c :: cs)))) cs.length) := by
  have hword := h
  simp only [Text.isIdentifier, Bool.and_eq_true] at hword
  rw [lexeme_word hword.1.1 (List.all_eq_true.mp hword.1.2) hrest, keyword?_of_isIdentifier h]

end Offside
