import Offside.Proofs.Text.Reading
import Offside.Token.Lexer

/-!
# How tokens are spelled

What characters a token of a kind is made of, as far as nesting and blanks go, and
what a delimiter behind a numeral or a word does: nothing goes on with it.
-/

namespace Offside

variable {c q : Char} {cs t u tail body : Text} {kind : TokenKind} {more : Nat}

/-! ## Characters -/

/-- The blanks that may stand between tokens. -/
def isSpace (c : Char) : Bool :=
  c == ' ' || c == '\r' || c == '\t'

/-- The characters that nesting, commas and blanks do not care about. -/
def isFlat (c : Char) : Bool :=
  !isQuote c && !isOpener c && !isCloser c && c != ',' && !isBlank c

/-- The characters that end the token in front of them, if it is not a string. -/
def isDelimiter (c : Char) : Bool :=
  isSpace c || c == ',' || c == ')' || c == ']'

/-- The text is empty or starts with a delimiter. -/
def Delimited (t : Text) : Prop :=
  ∀ c, t.head? = some c → isDelimiter c = true

/-- What the scanner skips is blank. -/
theorem isBlank_of_isSpace (h : isSpace c = true) : isBlank c = true := by
  simp only [isSpace, Bool.or_eq_true, beq_iff_eq] at h
  rcases h with (rfl | rfl) | rfl <;> decide

/-- The characters behind which a token cannot go on. -/
theorem eq_of_isDelimiter (h : isDelimiter c = true) :
    c = ' ' ∨ c = '\r' ∨ c = '\t' ∨ c = ',' ∨ c = ')' ∨ c = ']' := by
  simp only [isDelimiter, isSpace, Bool.or_eq_true, beq_iff_eq] at h
  simpa only [or_assoc] using h

/-- No symbol of two characters ends with a delimiter. -/
theorem pairSymbol?_delimiter (h : isDelimiter c = true) (d : Char) : pairSymbol? d c = none := by
  unfold pairSymbol?
  rcases eq_of_isDelimiter h with rfl | rfl | rfl | rfl | rfl | rfl <;> split <;>
    first | rfl | simp_all

theorem isQuote_delimiter (h : isDelimiter c = true) : isQuote c = false := by
  rcases eq_of_isDelimiter h with rfl | rfl | rfl | rfl | rfl | rfl <;> rfl

/-- No numeral goes on with a delimiter. -/
theorem isDigit_delimiter (h : isDelimiter c = true) : c.isDigit = false := by
  rcases eq_of_isDelimiter h with rfl | rfl | rfl | rfl | rfl | rfl <;> rfl

/-- No word goes on with a delimiter. -/
theorem continuesWord_delimiter (h : isDelimiter c = true) : continuesWord c = false := by
  rcases eq_of_isDelimiter h with rfl | rfl | rfl | rfl | rfl | rfl <;> rfl

/-- The code points of the blank characters. -/
def blanks : List Nat :=
  [0x9, 0xa, 0xb, 0xc, 0xd, 0x20, 0x85, 0xa0, 0x1680, 0x2000, 0x2001, 0x2002, 0x2003, 0x2004,
    0x2005, 0x2006, 0x2007, 0x2008, 0x2009, 0x200a, 0x2028, 0x2029, 0x202f, 0x205f, 0x3000]

theorem mem_blanks (h : isBlank c = true) : c.toNat ∈ blanks := by
  simp only [isBlank, Bool.or_eq_true, Bool.and_eq_true, decide_eq_true_eq, beq_iff_eq] at h
  simp only [blanks, List.mem_cons, List.not_mem_nil]
  omega

/-- No blank belongs to a word. -/
theorem continuesWord_blank (h : isBlank c = true) : continuesWord c = false := by
  have hall : ∀ n ∈ blanks, continuesWord (Char.ofNat n) = false := by
    decide +kernel
  have hc := hall c.toNat (mem_blanks h)
  rwa [Char.ofNat_toNat] at hc

/-- The characters that are not flat. -/
theorem eq_of_not_isFlat (h : isFlat c = false) :
    isBlank c = true ∨ c ∈ ['"', '\'', '(', '[', '\x7b', ')', ']', '\x7d', ','] := by
  by_cases hblank : isBlank c = true
  · exact .inl hblank
  · right
    rw [Bool.not_eq_true] at hblank
    simp only [isFlat, hblank, isQuote, isOpener, isCloser] at h
    simp only [List.mem_cons, List.not_mem_nil]
    grind

/-- The characters of words are neither quotes nor brackets, commas or blanks. -/
theorem isFlat_of_continuesWord (h : continuesWord c = true) : isFlat c = true := by
  cases hflat : isFlat c with
  | true => rfl
  | false =>
    exfalso
    rcases eq_of_not_isFlat hflat with hblank | hmem
    · rw [continuesWord_blank hblank] at h
      contradiction
    · have hnone : ['"', '\'', '(', '[', '\x7b', ')', ']', '\x7d', ','].all
          (!continuesWord ·) = true := by decide
      have hc := List.all_eq_true.mp hnone c hmem
      rw [h] at hc
      contradiction

theorem continuesWord_of_startsWord (h : startsWord c = true) : continuesWord c = true := by
  unfold startsWord at h
  unfold continuesWord isLetterOrNumeral
  unfold isLetter at h
  rw [Bool.or_eq_true] at h ⊢
  refine h.imp ?_ id
  intro hletter
  split at hletter
  next hascii =>
    rw [if_pos hascii]
    simp only [Char.isAlphanum, hletter, Bool.true_or]
  next hascii =>
    rw [if_neg hascii, hletter]
    rfl

theorem isFlat_of_isDigit (h : c.isDigit = true) : isFlat c = true := by
  refine isFlat_of_continuesWord ?_
  have hascii : c.toNat < 0x80 := by
    simp only [Char.isDigit, ge_iff_le, decide_eq_true_eq, Bool.and_eq_true] at h
    have := UInt32.le_iff_toNat_le.mp h.2
    exact Nat.lt_of_le_of_lt this (by decide)
  unfold continuesWord isLetterOrNumeral
  rw [if_pos hascii]
  simp only [Char.isAlphanum, h, Bool.or_true, Bool.true_or]

/-! ## Quoted text -/

/-- The text may stand between two quotes `q`: those in it stand behind a backslash. -/
inductive Quoted (q : Char) : Text → Prop
  | nil : Quoted q []
  | escaped {c : Char} {body : Text} (hbody : Quoted q body) : Quoted q ('\\' :: c :: body)
  | plain {c : Char} {body : Text} (hc : c ≠ '\\') (hq : c ≠ q) (hbody : Quoted q body) :
    Quoted q (c :: body)

/-- What is read up to a quote is what such quotes may enclose, and the quote stands behind
it. -/
theorem quoted_of_untilQuote (h : untilQuote q t = some body) :
    Quoted q body ∧ ∃ rest, t = body ++ q :: rest := by
  fun_induction untilQuote q t generalizing body with
  | case1 c cs ih =>
    obtain ⟨body, hbody, rfl⟩ := Option.map_eq_some_iff.mp h
    obtain ⟨hquoted, rest, rfl⟩ := ih hbody
    exact ⟨.escaped hquoted, rest, rfl⟩
  | case2 c cs hne hc =>
    cases h
    cases eq_of_beq hc
    exact ⟨.nil, cs, rfl⟩
  | case3 c cs hne hc ih =>
    obtain ⟨body, hbody, rfl⟩ := Option.map_eq_some_iff.mp h
    obtain ⟨hquoted, rest, rfl⟩ := ih hbody
    refine ⟨.plain ?_ (fun heq => hc (beq_iff_eq.mpr heq)) hquoted, rest, rfl⟩
    -- a backslash would have taken the next character along
    rintro rfl
    cases body with
    | nil => exact hne q rest rfl rfl
    | cons d ds => exact hne d (ds ++ q :: rest) rfl rfl
  | case4 => contradiction

/-- What quotes may enclose is read up to the closing one. -/
theorem untilQuote_append (hq : isQuote q = true) (h : Quoted q body) (rest : Text) :
    untilQuote q (body ++ q :: rest) = some body := by
  induction h with
  | nil =>
    have hne : q ≠ '\\' := by
      rintro rfl
      contradiction
    rw [List.nil_append, untilQuote]
    · exact if_pos (beq_self_eq_true q)
    · intro d ds hd
      exact absurd hd hne
  | escaped hbody ih => rw [List.cons_append, List.cons_append, untilQuote, ih, Option.map_some]
  | plain hc hne hbody ih =>
    rw [List.cons_append, untilQuote, if_neg (by rwa [beq_iff_eq]), ih, Option.map_some]
    intro d ds hd
    exact absurd hd hc

/-! ## What tokens are spelled like -/

/-- The mark that a token of a kind is, if nesting or the cutting at commas sees it. -/
def TokenKind.mark? : TokenKind → Option Char
  | leftParen => some '('
  | rightParen => some ')'
  | leftBracket => some '['
  | rightBracket => some ']'
  | comma => some ','
  | _ => none

/-- The text may be that of a token of the kind. -/
inductive Spells : TokenKind → Text → Prop
  | mark {kind : TokenKind} {c : Char} (h : kind.mark? = some c) : Spells kind [c]
  | string {q : Char} {body : Text} (hq : isQuote q = true) (hbody : Quoted q body) :
    Spells .string (q :: (body ++ [q]))
  | template {c q : Char} {body : Text} (hc : isFlat c = true) (hq : isQuote q = true)
    (hbody : Quoted q body) : Spells .template (c :: q :: (body ++ [q]))
  | flat {kind : TokenKind} {t : Text} (hkind : kind.mark? = none) (hne : t ≠ [])
    (hflat : ∀ c ∈ t, isFlat c = true) : Spells kind t

/-- A mark is spelled by its one character. -/
theorem Spells.eq_of_mark? {kind : TokenKind} {t : Text} (h : Spells kind t)
    (hkind : kind.mark? = some c) : t = [c] := by
  cases h with
  | mark h' =>
    rw [hkind] at h'
    cases h'
    rfl
  | string | template => contradiction
  | flat hnone =>
    rw [hkind] at hnone
    contradiction

/-- A symbol of two characters is spelled by them. -/
theorem spells_of_pairSymbol? {d : Char} (h : pairSymbol? c d = some kind) :
    Spells kind [c, d] := by
  unfold pairSymbol? at h
  split at h <;> cases h <;>
    exact .flat rfl (List.cons_ne_nil _ _) (List.all_eq_true.mp (by decide))

/-- A symbol of one character is spelled by it. -/
theorem spells_of_singleSymbol? (h : singleSymbol? c = some kind) : Spells kind [c] := by
  unfold singleSymbol? at h
  split at h <;> cases h <;>
    first
    | exact .mark rfl
    | exact .flat rfl (List.cons_ne_nil _ _) (List.all_eq_true.mp (by decide))

/-! ## Numerals -/

/-- The characters of a numeral before any point. -/
def isWhole (c : Char) : Bool :=
  c.isDigit || c == '_'

/-- The point and the digits that a text starts with. -/
def numeralFraction : Text → Text
  | '.' :: ds => '.' :: ds.takeWhile Char.isDigit
  | _ => []

/-- The exponent that a text starts with. -/
def numeralExponent : Text → Text
  | e :: sign :: ds =>
    if e == 'e' || e == 'E' then
      if sign.isDigit then e :: (sign :: ds).takeWhile Char.isDigit
      else if sign == '+' || sign == '-' then e :: sign :: ds.takeWhile Char.isDigit
      else []
    else []
  | _ => []

/-- Behind its first digit a numeral has whole digits, then a fraction, then an exponent, each
possibly empty. -/
theorem numeralRest_eq (cs : Text) :
    numeralRest cs = cs.takeWhile isWhole ++ numeralFraction (cs.dropWhile isWhole) ++
      numeralExponent ((cs.dropWhile isWhole).drop
        (numeralFraction (cs.dropWhile isWhole)).length) := rfl

theorem prefix_cons (c : Char) (h : u <+: t) : c :: u <+: c :: t :=
  (List.prefix_cons_inj c).mpr h

/-- The fraction of a numeral is read off the front of the text. -/
theorem isPrefix_numeralFraction (t : Text) : numeralFraction t <+: t := by
  unfold numeralFraction
  split
  next ds => exact prefix_cons '.' (List.takeWhile_prefix _)
  next => exact List.nil_prefix

/-- The exponent of a numeral is read off the front of the text. -/
theorem isPrefix_numeralExponent (t : Text) : numeralExponent t <+: t := by
  unfold numeralExponent
  split
  next e sign ds =>
    split
    · split
      · exact prefix_cons e (List.takeWhile_prefix _)
      · split
        · exact prefix_cons e (prefix_cons sign (List.takeWhile_prefix _))
        · exact List.nil_prefix
    · exact List.nil_prefix
  next => exact List.nil_prefix

/-- A numeral is read off the front of the text. -/
theorem isPrefix_numeralRest (cs : Text) : numeralRest cs <+: cs := by
  obtain ⟨rest, hfraction⟩ := isPrefix_numeralFraction (cs.dropWhile isWhole)
  obtain ⟨rest', hexponent⟩ := isPrefix_numeralExponent rest
  have hdrop : (cs.dropWhile isWhole).drop (numeralFraction (cs.dropWhile isWhole)).length =
      rest := by
    conv => lhs; arg 2; rw [← hfraction]
    exact List.drop_left
  refine ⟨rest', ?_⟩
  rw [numeralRest_eq, hdrop, List.append_assoc, List.append_assoc, hexponent, hfraction]
  exact List.takeWhile_append_dropWhile

/-- The characters of numerals. -/
def isNumerical (c : Char) : Bool :=
  c.isDigit || ['_', '.', 'e', 'E', '+', '-'].contains c

/-- The characters of numerals are neither quotes nor brackets, commas or blanks. -/
theorem isFlat_of_isNumerical (h : isNumerical c = true) : isFlat c = true := by
  rw [isNumerical, Bool.or_eq_true, List.contains_iff_mem] at h
  rcases h with h | h
  · exact isFlat_of_isDigit h
  · have hall : ['_', '.', 'e', 'E', '+', '-'].all isFlat = true := by decide
    exact List.all_eq_true.mp hall c h

theorem isNumerical_of_isDigit (h : c.isDigit = true) : isNumerical c = true := by
  rw [isNumerical, h, Bool.true_or]

theorem isNumerical_of_mem_takeWhile_isDigit (h : c ∈ t.takeWhile Char.isDigit) :
    isNumerical c = true :=
  isNumerical_of_isDigit (List.all_eq_true.mp List.all_takeWhile c h)

theorem isNumerical_of_mem_numeralFraction (h : c ∈ numeralFraction t) :
    isNumerical c = true := by
  unfold numeralFraction at h
  split at h
  next ds =>
    rcases List.mem_cons.mp h with rfl | h
    · decide
    · exact isNumerical_of_mem_takeWhile_isDigit h
  next => contradiction

theorem isNumerical_of_mem_numeralExponent (h : c ∈ numeralExponent t) :
    isNumerical c = true := by
  unfold numeralExponent at h
  split at h
  next e sign ds =>
    split at h
    next he =>
      have he : isNumerical e = true := by
        rw [Bool.or_eq_true, beq_iff_eq, beq_iff_eq] at he
        rcases he with rfl | rfl <;> decide
      split at h
      · rcases List.mem_cons.mp h with rfl | h
        · exact he
        · exact isNumerical_of_mem_takeWhile_isDigit h
      · split at h
        next hsign =>
          rcases List.mem_cons.mp h with rfl | h
          · exact he
          · rcases List.mem_cons.mp h with rfl | h
            · rw [Bool.or_eq_true, beq_iff_eq, beq_iff_eq] at hsign
              rcases hsign with rfl | rfl <;> decide
            · exact isNumerical_of_mem_takeWhile_isDigit h
        · contradiction
    · contradiction
  next => contradiction

/-- Behind its first digit a numeral has only digits, underscores, a point, an exponent letter
and a sign. -/
theorem isNumerical_of_mem_numeralRest (h : c ∈ numeralRest cs) : isNumerical c = true := by
  rw [numeralRest_eq] at h
  rcases List.mem_append.mp h with h | h
  · rcases List.mem_append.mp h with h | h
    · have hc : isWhole c = true := List.all_eq_true.mp List.all_takeWhile c h
      rw [isWhole, Bool.or_eq_true, beq_iff_eq] at hc
      rcases hc with hc | rfl
      · exact isNumerical_of_isDigit hc
      · decide
    · exact isNumerical_of_mem_numeralFraction h
  · exact isNumerical_of_mem_numeralExponent h

/-! ## What tokens are formed of -/

/-- The text is that of a token of the kind, by the sort of the token. -/
inductive Formed : TokenKind → Text → Prop
  | pair {kind : TokenKind} {c d : Char} (h : pairSymbol? c d = some kind) : Formed kind [c, d]
  | single {kind : TokenKind} {c : Char} (h : singleSymbol? c = some kind) : Formed kind [c]
  | string {q : Char} {body : Text} (hq : isQuote q = true) (hbody : Quoted q body) :
    Formed .string (q :: (body ++ [q]))
  | template {c q : Char} {body : Text} (hc : c = 'f' ∨ c = 'F') (hq : isQuote q = true)
    (hbody : Quoted q body) : Formed .template (c :: q :: (body ++ [q]))
  | number {t : Text} (hne : t ≠ []) (ht : ∀ c ∈ t, isNumerical c = true) : Formed .number t
  | name {t : Text} (hne : t ≠ []) (ht : ∀ c ∈ t, continuesWord c = true) :
    Formed .identifier t
  | keyword {kind : TokenKind} {word : String} {t : Text} (hkind : keyword? word = some kind)
    (hne : t ≠ []) (ht : ∀ c ∈ t, continuesWord c = true) : Formed kind t

/-- No word is a mark. -/
theorem keyword?_mark? {word : String} (h : keyword? word = some kind) : kind.mark? = none := by
  unfold keyword? at h
  split at h <;> cases h <;> rfl

/-- A token that is formed as its kind says is spelled so. -/
theorem Formed.spells (h : Formed kind t) : Spells kind t := by
  cases h with
  | pair h => exact spells_of_pairSymbol? h
  | single h => exact spells_of_singleSymbol? h
  | string hq hbody => exact .string hq hbody
  | template hc hq hbody =>
    exact .template (by rcases hc with rfl | rfl <;> decide) hq hbody
  | number hne ht => exact .flat rfl hne fun c hc => isFlat_of_isNumerical (ht c hc)
  | name hne ht => exact .flat rfl hne fun c hc => isFlat_of_continuesWord (ht c hc)
  | keyword hkind hne ht =>
    exact .flat (keyword?_mark? hkind) hne fun c hc => isFlat_of_continuesWord (ht c hc)

/-! ## Where a text may be cut -/

/-- What a delimiter does not go on with, it does not go on with behind more text. -/
theorem takeWhile_append_delimited {p : Char → Bool}
    (hp : ∀ c, isDelimiter c = true → p c = false) (htail : Delimited tail) (t : Text) :
    (t ++ tail).takeWhile p = t.takeWhile p ∧
      (t ++ tail).dropWhile p = t.dropWhile p ++ tail := by
  induction t with
  | nil =>
    cases tail with
    | nil => exact ⟨rfl, rfl⟩
    | cons d ds =>
      have hd : ¬ p d = true := by
        rw [hp d (htail d rfl)]
        exact Bool.false_ne_true
      exact ⟨List.takeWhile_cons_of_neg hd, List.dropWhile_cons_of_neg hd⟩
  | cons c cs ih =>
    by_cases hc : p c = true
    · simp only [List.cons_append, List.takeWhile_cons_of_pos hc, List.dropWhile_cons_of_pos hc,
        ih, and_self]
    · simp only [List.cons_append, List.takeWhile_cons_of_neg hc, List.dropWhile_cons_of_neg hc,
        and_self]

/-- Behind a delimiter nothing is read into a fraction. -/
theorem numeralFraction_append (htail : Delimited tail) (t : Text) :
    numeralFraction (t ++ tail) = numeralFraction t := by
  cases t with
  | nil =>
    cases tail with
    | nil => rfl
    | cons d ds =>
      have hd : d ≠ '.' := by
        rintro rfl
        exact absurd (htail '.' rfl) (by decide)
      rw [List.nil_append, numeralFraction]
      · rfl
      · intro es hes
        cases hes
        exact hd rfl
  | cons c cs =>
    have htake := (takeWhile_append_delimited (fun _ => isDigit_delimiter) htail cs).1
    by_cases hc : c = '.'
    · rw [hc, List.cons_append, numeralFraction, numeralFraction, htake]
    · have hnone : ∀ ds : Text, numeralFraction (c :: ds) = [] := by
        intro ds
        rw [numeralFraction]
        intro es hes
        cases hes
        exact hc rfl
      rw [List.cons_append, hnone, hnone]

/-- Behind a delimiter nothing is read into an exponent. -/
theorem numeralExponent_append (htail : Delimited tail) (t : Text) :
    numeralExponent (t ++ tail) = numeralExponent t := by
  have hnone : ∀ (d : Char) (ds : Text), isDelimiter d = true →
      numeralExponent (d :: ds) = [] := by
    intro d ds hd
    have he : (d == 'e' || d == 'E') = false := by
      rcases eq_of_isDelimiter hd with rfl | rfl | rfl | rfl | rfl | rfl <;> rfl
    cases ds with
    | nil => rfl
    | cons sign ds => rw [numeralExponent, he, if_neg Bool.false_ne_true]
  match t with
  | [] =>
    cases tail with
    | nil => rfl
    | cons d ds => exact hnone d ds (htail d rfl)
  | [e] =>
    cases tail with
    | nil => rfl
    | cons d ds =>
      have hd := htail d rfl
      have hsign : (d == '+' || d == '-') = false := by
        rcases eq_of_isDelimiter hd with rfl | rfl | rfl | rfl | rfl | rfl <;> rfl
      show numeralExponent (e :: d :: ds) = []
      rw [numeralExponent, isDigit_delimiter hd, if_neg Bool.false_ne_true, hsign,
        if_neg Bool.false_ne_true, ite_self]
  | e :: sign :: ds =>
    have htake : ∀ t : Text, (t ++ tail).takeWhile Char.isDigit = t.takeWhile Char.isDigit :=
      fun t => (takeWhile_append_delimited (fun _ => isDigit_delimiter) htail t).1
    have hsign := htake (sign :: ds)
    rw [List.cons_append] at hsign
    rw [List.cons_append, List.cons_append, numeralExponent, numeralExponent, htake, hsign]

/-- Behind a delimiter nothing is read into a numeral. -/
theorem numeralRest_append (htail : Delimited tail) (cs : Text) :
    numeralRest (cs ++ tail) = numeralRest cs := by
  have hwhole : ∀ c, isDelimiter c = true → isWhole c = false := by
    intro c hc
    rcases eq_of_isDelimiter hc with rfl | rfl | rfl | rfl | rfl | rfl <;> rfl
  obtain ⟨htake, hdrop⟩ := takeWhile_append_delimited hwhole htail cs
  have hshort : (numeralFraction (cs.dropWhile isWhole)).length ≤
      (cs.dropWhile isWhole).length := (isPrefix_numeralFraction _).length_le
  rw [numeralRest_eq, numeralRest_eq, htake, hdrop, numeralFraction_append htail,
    List.drop_append_of_le_length hshort, numeralExponent_append htail]

end Offside
