import Mathlib.Data.List.Basic
import Offside.Proofs.Access.Slice
import Offside.Proofs.Token.Lexeme

/-!
# Scanning by position

The scanner again, as a reading of the characters of a text by their position: it looks
at the next characters, which gives the null character behind the end, moves on by taking
a character, and cuts the text of a token out of the source. Taking a character and
cutting are checked.

> `scanByPosition?_eq`: no access is out of range, and the tokens are those of `scan`.

What is shown of each loop is where it stands afterwards, in terms of the characters that
were left.
-/

namespace Offside.Access

variable {source cs : Text} {current : Nat} {c : Char}

/-- The character at a position, or the null character behind the end. -/
def peek (source : Text) (current : Nat) : Char :=
  source.getD current '\x00'

/-- Takes the character at a position. -/
def advance? (source : Text) (current : Nat) : Option (Char × Nat) :=
  source[current]?.map fun c => (c, current + 1)

/-- Moves on by a character. -/
def moveOn? (source : Text) (current : Nat) : Option Nat :=
  (advance? source current).map (·.2)

/-- Looking at a position sees the first of the characters that are left, or the null
character. -/
theorem peek_eq (h : source.drop current = cs) : peek source current = cs.headD '\x00' := by
  rw [peek, List.getD_eq_getElem?_getD, ← List.head?_drop, h, List.headD_eq_head?_getD]

theorem peek_succ_eq (h : source.drop current = c :: cs) :
    peek source (current + 1) = cs.headD '\x00' :=
  peek_eq (drop_succ h)

/-- Where characters are left, taking one never leaves the text. -/
theorem advance?_eq (h : source.drop current = c :: cs) :
    advance? source current = some (c, current + 1) := by
  rw [advance?, getElem?_of_drop h]
  rfl

theorem moveOn?_eq (h : source.drop current = c :: cs) :
    moveOn? source current = some (current + 1) := by
  rw [moveOn?, advance?_eq h]
  rfl

/-! ## Loops -/

/-- Moving on stays inside the text and takes exactly one character. -/
theorem lt_of_moveOn? {next : Nat} (h : moveOn? source current = some next) :
    current < source.length ∧ next = current + 1 := by
  obtain ⟨_, hadvance, rfl⟩ := Option.map_eq_some_iff.mp h
  obtain ⟨c, hc, rfl⟩ := Option.map_eq_some_iff.mp hadvance
  obtain ⟨hlt, -⟩ := List.getElem?_eq_some_iff.mp hc
  exact ⟨hlt, rfl⟩

/-- Moves on as long as the next character is of a sort. -/
def advanceWhile? (source : Text) (p : Char → Bool) (current : Nat) : Option Nat :=
  if p (peek source current) then
    match _h : moveOn? source current with
    | none => none
    | some next => advanceWhile? source p next
  else some current
termination_by source.length - current
decreasing_by
  have := lt_of_moveOn? _h
  omega

/-- The null character behind the end stops a loop that does not go on with it. -/
theorem advanceWhile?_eq {p : Char → Bool} (hp : p '\x00' = false)
    (h : source.drop current = cs) :
    advanceWhile? source p current = some (current + (cs.takeWhile p).length) := by
  induction cs generalizing current with
  | nil =>
    rw [advanceWhile?, peek_eq h, List.headD_nil, if_neg (by simp [hp])]
    rfl
  | cons c cs ih =>
    rw [advanceWhile?, peek_eq h, List.headD_cons]
    by_cases hc : p c = true
    · rw [if_pos hc, moveOn?_eq h, List.takeWhile_cons_of_pos hc, List.length_cons]
      dsimp only
      rw [ih (drop_succ h)]
      congr 1
      omega
    · rw [if_neg hc, List.takeWhile_cons_of_neg hc]
      rfl

/-- One round of the loop that looks for a closing quote: a backslash takes the character
after it along, if there is one. -/
def passQuoted? (source : Text) (current : Nat) : Option Nat := do
  let body ← if peek source current == '\\' then moveOn? source current else some current
  if body < source.length then moveOn? source body else some body

/-- A round inside a quoted part passes one character, and two at a backslash that is not the
last. -/
theorem passQuoted?_eq (h : source.drop current = c :: cs) :
    passQuoted? source current =
      some (if c == '\\' && !cs.isEmpty then current + 2 else current + 1) := by
  have hlt := lt_length_of_drop h
  rw [passQuoted?, peek_eq h, List.headD_cons]
  by_cases hc : (c == '\\') = true
  · rw [if_pos hc, moveOn?_eq h]
    cases cs with
    | nil =>
      have hend := List.drop_eq_nil_iff.mp (drop_succ h)
      simp [hc, Nat.not_lt.mpr hend]
    | cons d ds =>
      have hnext := lt_length_of_drop (drop_succ h)
      simp [hc, hnext, moveOn?_eq (drop_succ h)]
  · rw [if_neg hc]
    simp [hc, hlt, moveOn?_eq h]

/-- Every round inside a quoted part moves on. -/
theorem lt_of_passQuoted? {next : Nat} (hlt : current < source.length)
    (h : passQuoted? source current = some next) : current < next := by
  rw [passQuoted?_eq (List.drop_eq_getElem_cons hlt)] at h
  split at h <;> cases h <;> omega

/-- Where a quoted part ends: at its closing quote, or at the end of the text. -/
def closingQuote? (source : Text) (quote : Char) (current : Nat) : Option Nat :=
  if _hround : current < source.length ∧ peek source current ≠ quote then
    match _hnext : passQuoted? source current with
    | none => none
    | some next => closingQuote? source quote next
  else some current
termination_by source.length - current
decreasing_by
  have := lt_of_passQuoted? _hround.1 _hnext
  omega

/-- The search stops at the quote that it looks for. -/
theorem closingQuote?_of_quote (h : source.drop current = c :: cs) :
    closingQuote? source c current = some current := by
  rw [closingQuote?, dif_neg]
  rw [peek_eq h]
  exact fun hround => hround.2 rfl

/-- The search stops at the end of the text. -/
theorem closingQuote?_of_nil {quote : Char} (h : source.drop current = []) :
    closingQuote? source quote current = some current := by
  rw [closingQuote?, dif_neg]
  exact fun hround => Nat.not_lt.mpr (List.drop_eq_nil_iff.mp h) hround.1

/-- The search goes on behind every other character. -/
theorem closingQuote?_of_ne {quote : Char} {next : Nat} (h : source.drop current = c :: cs)
    (hc : c ≠ quote) (hnext : passQuoted? source current = some next) :
    closingQuote? source quote current = closingQuote? source quote next := by
  have hround : current < source.length ∧ peek source current ≠ quote := by
    refine ⟨lt_length_of_drop h, ?_⟩
    rwa [peek_eq h]
  rw [closingQuote?, dif_pos hround]
  split
  next hnone => rw [hnext] at hnone; cases hnone
  next hsome => rw [hnext] at hsome; cases hsome; rfl

/-- The loop stands at the quote that closes the part, or it has come to the end. -/
theorem closingQuote?_eq {quote : Char} (hquote : quote ≠ '\\') (hle : current ≤ source.length)
    (h : source.drop current = cs) :
    closingQuote? source quote current =
      some (match untilQuote quote cs with
        | some body => current + body.length
        | none => source.length) := by
  fun_induction untilQuote quote cs generalizing current with
  | case1 c cs ih =>
    have hlt := lt_length_of_drop (drop_succ h)
    rw [closingQuote?_of_ne h hquote.symm (passQuoted?_eq h)]
    refine (ih hlt (drop_succ (drop_succ h))).trans ?_
    cases untilQuote quote cs with
    | none => rfl
    | some body =>
      rw [Option.map_some]
      exact congrArg some (by simp only [List.length_cons]; omega)
  | case2 c cs _ hc =>
    cases eq_of_beq hc
    exact closingQuote?_of_quote h
  | case3 c cs hpair hc ih =>
    have hlt := lt_length_of_drop h
    have hpass : passQuoted? source current = some (current + 1) := by
      rw [passQuoted?_eq h, if_neg]
      rw [Bool.and_eq_true, beq_iff_eq]
      rintro ⟨rfl, hmore⟩
      obtain ⟨d, ds, rfl⟩ := List.exists_cons_of_ne_nil (by simpa using hmore)
      exact hpair d ds rfl rfl
    rw [closingQuote?_of_ne h (by simpa using hc) hpass, ih hlt (drop_succ h)]
    cases untilQuote quote cs with
    | none => rfl
    | some body =>
      rw [Option.map_some]
      exact congrArg some (by simp only [List.length_cons]; omega)
  | case4 =>
    rw [closingQuote?_of_nil h, Nat.le_antisymm hle (List.drop_eq_nil_iff.mp h)]

/-- Where the point and the digits end that may stand at a position. -/
def fractionEnd? (source : Text) (current : Nat) : Option Nat :=
  if peek source current == '.' && (peek source (current + 1)).isDigit then
    (moveOn? source current).bind (advanceWhile? source Char.isDigit)
  else if peek source current == '.' then moveOn? source current
  else some current

/-- The characters between the letter of an exponent and its digits. -/
def isSign (c : Char) : Bool :=
  c == '+' || c == '-'

/-- Where the digits end that stand at a position, behind a sign if there is one. -/
def signedEnd? (source : Text) (current : Nat) : Option Nat :=
  if isSign (peek source current) then
    (moveOn? source current).bind (advanceWhile? source Char.isDigit)
  else advanceWhile? source Char.isDigit current

/-- Where the exponent ends that may stand at a position. -/
def exponentEnd? (source : Text) (current : Nat) : Option Nat :=
  let marked := peek source current == 'e' || peek source current == 'E'
  let sign := peek source (current + 1)
  if marked && (sign.isDigit || isSign sign) then
    (moveOn? source current).bind (signedEnd? source)
  else some current

/-- Where a numeral ends whose first character has been taken. -/
def numeralEnd? (source : Text) (current : Nat) : Option Nat := do
  let whole ← advanceWhile? source isWhole current
  let fraction ← fractionEnd? source whole
  exponentEnd? source fraction

/-- A sort that the next character is not of takes nothing. -/
theorem takeWhile_of_headD {p : Char → Bool} (h : ¬p (cs.headD '\x00') = true) :
    cs.takeWhile p = [] := by
  cases cs with
  | nil => rfl
  | cons c cs => exact List.takeWhile_cons_of_neg h

/-- The fraction ends where the rest of the numeral as a text says. -/
theorem fractionEnd?_eq (h : source.drop current = cs) :
    fractionEnd? source current = some (current + (numeralFraction cs).length) := by
  rw [fractionEnd?, peek_eq h]
  cases cs with
  | nil => rfl
  | cons c ds =>
    rw [List.headD_cons, peek_succ_eq h, moveOn?_eq h]
    by_cases hc : c = '.'
    · subst hc
      rw [numeralFraction, List.length_cons]
      by_cases hdigit : (ds.headD '\x00').isDigit = true
      · rw [hdigit]
        refine (advanceWhile?_eq rfl (drop_succ h)).trans (congrArg some ?_)
        omega
      · rw [takeWhile_of_headD hdigit, Bool.eq_false_iff.mpr hdigit]
        rfl
    · have hnone : numeralFraction (c :: ds) = [] := by
        unfold numeralFraction
        split
        next heq => cases heq; exact absurd rfl hc
        next => rfl
      rw [if_neg (by simp [hc]), if_neg (by simpa using hc), hnone]
      rfl

/-- The digits of an exponent are found behind a sign and without one. -/
theorem signedEnd?_eq (h : source.drop current = c :: cs) :
    signedEnd? source current = some (current +
      if isSign c then (cs.takeWhile Char.isDigit).length + 1
      else ((c :: cs).takeWhile Char.isDigit).length) := by
  rw [signedEnd?, peek_eq h, List.headD_cons]
  split
  next =>
    rw [moveOn?_eq h]
    refine (advanceWhile?_eq rfl (drop_succ h)).trans (congrArg some ?_)
    omega
  next => exact advanceWhile?_eq rfl h

theorem not_isSign_of_isDigit (h : c.isDigit = true) : ¬isSign c = true := by
  intro hsign
  rw [isSign, Bool.or_eq_true, beq_iff_eq, beq_iff_eq] at hsign
  rcases hsign with rfl | rfl <;> cases h

/-- The exponent ends where the rest of the numeral as a text says. -/
theorem exponentEnd?_eq (h : source.drop current = cs) :
    exponentEnd? source current = some (current + (numeralExponent cs).length) := by
  rw [exponentEnd?, peek_eq h]
  cases cs with
  | nil => rfl
  | cons e ds =>
    rw [List.headD_cons, peek_succ_eq h]
    cases ds with
    | nil => exact if_neg (by simp [isSign])
    | cons sign ds =>
      rw [List.headD_cons, moveOn?_eq h, numeralExponent, Option.bind_some,
        signedEnd?_eq (drop_succ h)]
      by_cases he : (e == 'e' || e == 'E') = true
      · rw [he, Bool.true_and, if_pos rfl]
        by_cases hdigit : sign.isDigit = true
        · rw [if_pos (by rw [hdigit]; rfl), if_neg (not_isSign_of_isDigit hdigit), if_pos hdigit,
            List.length_cons]
          exact congrArg some (by omega)
        · rw [Bool.eq_false_iff.mpr hdigit, Bool.false_or, if_neg Bool.false_ne_true]
          by_cases hsign : isSign sign = true
          · rw [if_pos hsign, if_pos hsign,
              if_pos (show (sign == '+' || sign == '-') = true from hsign),
              List.length_cons, List.length_cons]
            exact congrArg some (by omega)
          · rw [if_neg hsign, if_neg (show ¬(sign == '+' || sign == '-') = true from hsign)]
            rfl
      · rw [Bool.eq_false_iff.mpr he]
        rfl

/-- A numeral ends behind its whole part, its fraction and its exponent. -/
theorem numeralEnd?_eq (h : source.drop current = cs) :
    numeralEnd? source current = some (current + (numeralRest cs).length) := by
  have hwhole : source.drop (current + (cs.takeWhile isWhole).length) = cs.dropWhile isWhole := by
    rw [← List.drop_drop, h]
    conv => lhs; arg 2; rw [← List.takeWhile_append_dropWhile (p := isWhole) (l := cs)]
    exact List.drop_left
  have hfraction := congrArg (List.drop (numeralFraction (cs.dropWhile isWhole)).length) hwhole
  rw [List.drop_drop] at hfraction
  rw [numeralEnd?, advanceWhile?_eq rfl h]
  refine (congrArg (Option.bind · (exponentEnd? source)) (fractionEnd?_eq hwhole)).trans ?_
  refine (exponentEnd?_eq hfraction).trans (congrArg some ?_)
  rw [numeralRest_eq, List.length_append, List.length_append]
  omega

/-! ## Tokens -/

/-- The token whose characters have been taken, and where the scanner stands. -/
def token? (source : Text) (start current : Nat) (kind : TokenKind) (literal : Option Literal) :
    Option (Token × Nat) := do
  let text ← slice? source start current
  return (⟨kind, String.ofList text, literal, start⟩, current)

/-- What the scanner makes of some characters: a token, if it is not a space, and where it
stands behind them. -/
abbrev Scanned := Option (Except LexicalFault (Option Token × Nat))

/-- A token that is scanned. -/
def scanned (token : Option (Token × Nat)) : Scanned :=
  token.map fun (token, current) => .ok (some token, current)

/-- The token of a quoted part whose opening quote has been taken. -/
def quotedToken? (source : Text) (start current : Nat) (quote : Char) (kind : TokenKind)
    (read : Text → Text) : Scanned := do
  let stop ← closingQuote? source quote current
  if stop < source.length then
    let raw ← slice? source current stop
    let next ← moveOn? source stop
    scanned (token? source start next kind (some (.text (String.ofList (read raw)))))
  else return .error ⟨.unterminated, start⟩

/-- The token of a numeral. -/
def numeralToken? (source : Text) (start current : Nat) : Scanned := do
  let stop ← numeralEnd? source current
  let text ← slice? source start stop
  match numeral text with
  | .ok x => scanned (token? source start stop .number (some (.number x)))
  | .error cause => return .error ⟨cause, start⟩

/-- The token of a word. -/
def wordToken? (source : Text) (start current : Nat) : Scanned := do
  let stop ← advanceWhile? source continuesWord current
  let text ← slice? source start stop
  let word := String.ofList text
  match keyword? word with
  | some kind => scanned (token? source start stop kind none)
  | none => scanned (token? source start stop .identifier (some (.name word)))

/-- Where the symbol ends that starts with a character which has been taken. -/
def symbolEnd (source : Text) (c : Char) (current : Nat) : Option (TokenKind × Nat) :=
  match source[current]?.bind (pairSymbol? c) with
  | some kind => some (kind, current + 1)
  | none => (singleSymbol? c).map fun kind => (kind, current)

/-- Scans a space or a token. -/
def scanToken? (source : Text) (start : Nat) : Scanned := do
  let (c, current) ← advance? source start
  if c == ' ' || c == '\r' || c == '\t' then return .ok (none, current)
  else
    match symbolEnd source c current with
    | some (kind, stop) => scanned (token? source start stop kind none)
    | none =>
      if c == '=' then return .error ⟨.assignment, start⟩
      else if isQuote c then quotedToken? source start current c .string Text.unescape
      else if (c == 'f' || c == 'F') && isQuote (peek source current) then do
        let (quote, next) ← advance? source current
        quotedToken? source start next quote .template id
      else if c.isDigit || (c == '.' && (peek source current).isDigit) then
        numeralToken? source start current
      else if startsWord c then wordToken? source start current
      else return .error ⟨.unexpected c, start⟩

/-- What the scanner makes of what starts at a character. -/
def ofLexeme (start : Nat) (c : Char) (cs : Text) :
    Except LexicalCause Lexeme → Except LexicalFault (Option Token × Nat)
  | .error cause => .error ⟨cause, start⟩
  | .ok .space => .ok (none, start + 1)
  | .ok (.token kind literal more) =>
    .ok (some ⟨kind, String.ofList (c :: cs.take more), literal, start⟩, start + 1 + more)

variable {start more : Nat}

/-- The text of a token is the characters from its start to where the scanner stands. -/
theorem token?_eq (h : source.drop start = c :: cs) (hmore : more ≤ cs.length)
    (kind : TokenKind) (literal : Option Literal) :
    token? source start (start + 1 + more) kind literal =
      some (⟨kind, String.ofList (c :: cs.take more), literal, start⟩, start + 1 + more) := by
  have hslice : slice? source start (start + 1 + more) = some (c :: cs.take more) := by
    rw [Nat.add_assoc, Nat.add_comm 1 more,
      slice?_of_drop h (Nat.le_of_lt (lt_length_of_drop h)) (Nat.succ_le_succ hmore)]
    rfl
  rw [token?, hslice]
  rfl

/-- A quoted part stands behind its opening quote, which may have something in front. -/
theorem quotedToken?_eq {ds : Text} {quote : Char} (h : source.drop start = c :: cs)
    (n : Nat) (hds : cs.drop n = ds) (hn : n ≤ cs.length) (hquote : isQuote quote = true)
    (kind : TokenKind) (read : Text → Text) :
    quotedToken? source start (start + 1 + n) quote kind read =
      some (ofLexeme start c cs (match untilQuote quote ds with
        | some body =>
          .ok (.token kind (some (.text (String.ofList (read body)))) (n + body.length + 1))
        | none => .error .unterminated)) := by
  have hcurrent : source.drop (start + 1 + n) = ds := by
    rw [← List.drop_drop, drop_succ h, hds]
  have hle : start + 1 + n ≤ source.length := by
    have hlength := congrArg List.length h
    rw [List.length_drop, List.length_cons] at hlength
    omega
  have hne : quote ≠ '\\' := by
    rintro rfl
    cases hquote
  rw [quotedToken?, closingQuote?_eq hne hle hcurrent, Option.bind_eq_bind, Option.bind_some]
  cases hbody : untilQuote quote ds with
  | none => exact if_neg (Nat.lt_irrefl _)
  | some body =>
    obtain ⟨-, rest, hparts⟩ := quoted_of_untilQuote hbody
    have hstop : source.drop (start + 1 + n + body.length) = quote :: rest := by
      rw [← List.drop_drop, hcurrent, hparts, List.drop_left]
    have hraw : slice? source (start + 1 + n) (start + 1 + n + body.length) = some body := by
      rw [slice?_of_drop hcurrent hle (by rw [hparts, List.length_append]; omega), hparts,
        List.take_left]
    have hmore : n + body.length + 1 ≤ cs.length := by
      have hlength := congrArg List.length hds
      rw [List.length_drop, hparts, List.length_append, List.length_cons] at hlength
      omega
    have hnext : start + 1 + n + body.length + 1 = start + 1 + (n + body.length + 1) := by omega
    dsimp only
    rw [if_pos (lt_length_of_drop hstop), hraw, Option.bind_eq_bind, Option.bind_some,
      moveOn?_eq hstop, Option.bind_some, hnext, token?_eq h hmore]
    rfl

/-- The text of a token is its first character and a prefix of those behind it. -/
theorem slice?_of_prefix {u : Text} (h : source.drop start = c :: cs) (hfirst : u <+: cs) :
    slice? source start (start + 1 + u.length) = some (c :: u) := by
  rw [Nat.add_assoc, Nat.add_comm 1,
    slice?_of_drop h (Nat.le_of_lt (lt_length_of_drop h)) (Nat.succ_le_succ hfirst.length_le),
    List.take_succ_cons, ← List.prefix_iff_eq_take.mp hfirst]

/-- The scanner by position makes the token of a numeral that the lexeme is read as. -/
theorem numeralToken?_eq (h : source.drop start = c :: cs) :
    numeralToken? source start (start + 1) =
      some (ofLexeme start c cs (match numeral (c :: numeralRest cs) with
        | .ok x => .ok (.token .number (some (.number x)) (numeralRest cs).length)
        | .error cause => .error cause)) := by
  have hfirst := isPrefix_numeralRest cs
  rw [numeralToken?, numeralEnd?_eq (drop_succ h)]
  simp only [Option.bind_eq_bind, Option.bind_some, slice?_of_prefix h hfirst,
    token?_eq h hfirst.length_le]
  cases numeral (c :: numeralRest cs) <;> rfl

theorem wordToken?_eq (h : source.drop start = c :: cs) :
    wordToken? source start (start + 1) =
      some (ofLexeme start c cs
        (match keyword? (String.ofList (c :: cs.takeWhile continuesWord)) with
        | some kind => .ok (.token kind none (cs.takeWhile continuesWord).length)
        | none => .ok (.token .identifier
            (some (.name (String.ofList (c :: cs.takeWhile continuesWord))))
            (cs.takeWhile continuesWord).length))) := by
  have hend : continuesWord '\x00' = false := by decide
  have hfirst := List.takeWhile_prefix (l := cs) continuesWord
  rw [wordToken?, advanceWhile?_eq hend (drop_succ h)]
  simp only [Option.bind_eq_bind, Option.bind_some, slice?_of_prefix h hfirst,
    token?_eq h hfirst.length_le]
  cases keyword? (String.ofList (c :: cs.takeWhile continuesWord)) <;> rfl

/-- A symbol ends where it does as a text. -/
theorem symbolEnd_eq (h : source.drop start = c :: cs) :
    symbolEnd source c (start + 1) =
      (symbol? c cs).map fun (kind, more) => (kind, start + 1 + more) := by
  rw [symbolEnd, symbol?, ← List.head?_drop, drop_succ h]
  cases cs.head?.bind (pairSymbol? c) with
  | some kind => rfl
  | none =>
    dsimp only
    rw [Option.map_map]
    rfl

/-- Looking behind the end finds no character of a sort that the null character is not of. -/
theorem headD_eq_any {p : Char → Bool} (hp : p '\x00' = false) :
    p (cs.headD '\x00') = cs.head?.any p := by
  cases cs with
  | nil => exact hp
  | cons c cs => rfl

/-- The scanner makes of a character, and of those behind it, what starts there. -/
theorem scanToken?_eq (h : source.drop start = c :: cs) :
    scanToken? source start = some (ofLexeme start c cs (lexeme c cs)) := by
  rw [scanToken?, advance?_eq h, lexeme]
  simp only [Option.bind_eq_bind, Option.bind_some, symbolEnd_eq h, peek_eq (drop_succ h),
    headD_eq_any (p := isQuote) rfl, headD_eq_any (p := Char.isDigit) rfl]
  by_cases hspace : (c == ' ' || c == '\r' || c == '\t') = true
  · rw [if_pos hspace, if_pos hspace]
    rfl
  rw [if_neg hspace, if_neg hspace]
  cases hsymbol : symbol? c cs with
  | some symbol =>
    obtain ⟨kind, more⟩ := symbol
    obtain ⟨-, hmore⟩ := formed_of_symbol? hsymbol
    simp only [Option.map_some, token?_eq h hmore]
    rfl
  | none =>
    simp only [Option.map_none]
    by_cases hequal : (c == '=') = true
    · rw [if_pos hequal, if_pos hequal]
      rfl
    rw [if_neg hequal, if_neg hequal]
    by_cases hquote : isQuote c = true
    · rw [if_pos hquote, if_pos hquote]
      refine (quotedToken?_eq h 0 rfl (Nat.zero_le _) hquote _ _).trans ?_
      rw [List.drop_zero]
      cases untilQuote c cs with
      | none => rfl
      | some body =>
        dsimp only
        rw [Nat.zero_add]
    rw [if_neg hquote, if_neg hquote]
    by_cases htemplate : ((c == 'f' || c == 'F') && cs.head?.any isQuote) = true
    · rw [if_pos htemplate, if_pos htemplate]
      rw [Bool.and_eq_true] at htemplate
      cases cs with
      | nil => exact absurd htemplate.2 Bool.false_ne_true
      | cons quote ds =>
        rw [advance?_eq (drop_succ h), Option.bind_some]
        refine (quotedToken?_eq h 1 rfl (Nat.le_add_left _ _) htemplate.2 _ _).trans ?_
        rw [List.drop_succ_cons, List.drop_zero, List.headD_cons, List.tail_cons]
        cases untilQuote quote ds with
        | none => rfl
        | some body =>
          dsimp only
          rw [Nat.add_comm 1]
          rfl
    rw [if_neg htemplate, if_neg htemplate]
    by_cases hdigit : (c.isDigit || c == '.' && cs.head?.any Char.isDigit) = true
    · rw [if_pos hdigit, if_pos hdigit]
      exact numeralToken?_eq h
    rw [if_neg hdigit, if_neg hdigit]
    by_cases hword : startsWord c = true
    · rw [if_pos hword, if_pos hword]
      exact wordToken?_eq h
    rw [if_neg hword, if_neg hword]
    rfl

/-- Every token takes a character at least, so the scanner comes to an end. -/
theorem lt_of_scanToken? {token : Option Token} (hlt : start < source.length)
    (h : scanToken? source start = some (.ok (token, current))) : start < current := by
  rw [scanToken?_eq (List.drop_eq_getElem_cons hlt)] at h
  generalize lexeme _ _ = result at h
  obtain cause | lexeme := result
  · cases h
  · cases lexeme <;> cases h <;> omega

/-- A token, if there is one, in front of what is scanned behind it. -/
def onto (token : Option Token) :
    Except LexicalFault (List Token) → Except LexicalFault (List Token)
  | .error fault => .error fault
  | .ok tokens => .ok (token.toList ++ tokens)

/-- Scans the tokens from a position to the end. -/
def scanFromPosition? (source : Text) (current : Nat) :
    Option (Except LexicalFault (List Token)) :=
  if _hlt : current < source.length then
    match _htoken : scanToken? source current with
    | none => none
    | some (.error fault) => some (.error fault)
    | some (.ok (token, next)) =>
      (scanFromPosition? source next).map (onto token)
  else some (.ok [⟨.eof, "", none, current⟩])
termination_by source.length - current
decreasing_by
  have := lt_of_scanToken? _hlt _htoken
  omega

/-- Scans a text by the positions of its characters. -/
def scanByPosition? (source : Text) : Option (Except LexicalFault (List Token)) :=
  scanFromPosition? source 0

/-- Behind a token the scanner stands in the text, and has the rest of it left. -/
theorem behind_token {kind : TokenKind} {literal : Option Literal}
    (h : source.drop current = c :: cs) (hlexeme : lexeme c cs = .ok (.token kind literal more)) :
    current + 1 + more ≤ source.length ∧ source.drop (current + 1 + more) = cs.drop more := by
  obtain ⟨-, hmore⟩ := (tokenAt_of_lexeme hlexeme).formed
  constructor
  · have hlength := congrArg List.length h
    rw [List.length_drop, List.length_cons] at hlength
    omega
  · rw [← List.drop_drop, drop_succ h]

/-- From a position inside the text the scanner takes one lexeme and goes on behind it. -/
theorem scanFromPosition?_cons (h : source.drop current = c :: cs) :
    scanFromPosition? source current =
      match ofLexeme current c cs (lexeme c cs) with
      | .error fault => some (.error fault)
      | .ok (token, next) => (scanFromPosition? source next).map (onto token) := by
  rw [scanFromPosition?, dif_pos (lt_length_of_drop h)]
  have htoken := scanToken?_eq h
  split
  next hnone => rw [htoken] at hnone; cases hnone
  next fault hfault => rw [htoken, Option.some.injEq] at hfault; rw [hfault]
  next token next hnext => rw [htoken, Option.some.injEq] at hnext; rw [hnext]

/-- **From every position both scanners agree,** and no access is out of range. -/
theorem scanFromPosition?_eq (hle : current ≤ source.length) (h : source.drop current = cs) :
    scanFromPosition? source current = some (scanFrom current cs) := by
  fun_induction scanFrom current cs with
  | case1 current => rw [scanFromPosition?, dif_neg (Nat.not_lt.mpr (List.drop_eq_nil_iff.mp h))]
  | case2 current c cs cause hlexeme => rw [scanFromPosition?_cons h, hlexeme]; rfl
  | case3 current c cs hlexeme ih =>
    rw [scanFromPosition?_cons h, hlexeme]
    refine (congrArg (Option.map (onto none)) (ih (lt_length_of_drop h) (drop_succ h))).trans ?_
    cases scanFrom (current + 1) cs <;> rfl
  | case4 current c cs kind literal more hlexeme fault hrest ih =>
    obtain ⟨hle', hdrop⟩ := behind_token h hlexeme
    rw [scanFromPosition?_cons h, hlexeme]
    refine (congrArg (Option.map (onto _)) (ih hle' hdrop)).trans ?_
    rw [hrest]
    rfl
  | case5 current c cs kind literal more hlexeme tokens hrest ih =>
    obtain ⟨hle', hdrop⟩ := behind_token h hlexeme
    rw [scanFromPosition?_cons h, hlexeme]
    refine (congrArg (Option.map (onto _)) (ih hle' hdrop)).trans ?_
    rw [hrest]
    rfl

/-- **Scanning makes no access out of range.** By the positions of its characters a text has
the same tokens, or the same fault. -/
theorem scanByPosition?_eq (source : Text) : scanByPosition? source = some (scan source) :=
  scanFromPosition?_eq (Nat.zero_le _) rfl

end Offside.Access
