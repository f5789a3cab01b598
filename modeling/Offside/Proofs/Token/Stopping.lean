import Offside.Proofs.Token.Quotes

/-!
# Where the scanner stops

Scanning stops at the first character that starts no token. What stands behind a text
does not change that, as long as it starts with a delimiter; only a string that is not
closed could be closed there, and behind such a text a reading stands inside quotes.
-/

namespace Offside

open Text Nesting

variable {column depth depth' offset : Nat} {c q : Char} {cs t tail : Text} {ts : List Token}
  {cause : LexicalCause}

/-! ## With another text behind -/

/-- What starts no token starts none in front of other text, unless it is a string
that lacks its closing quote. -/
theorem lexeme_error_append (h : lexeme c cs = .error cause) (hcause : cause ≠ .unterminated)
    (htail : Delimited tail) : lexeme c (cs ++ tail) = .error cause := by
  rcases lexeme_append htail c cs with hsame | ⟨hopen, _⟩
  · rw [hsame, h]
  · rw [h] at hopen
    cases hopen
    exact absurd rfl hcause

theorem scanFrom_error_append (h : scanFrom column t = .error ⟨cause, offset⟩)
    (hcause : cause ≠ .unterminated) (htail : Delimited tail) :
    scanFrom column (t ++ tail) = .error ⟨cause, offset⟩ := by
  fun_induction scanFrom column t with
  | case1 => contradiction
  | case2 column c cs cause' hc =>
    cases h
    rw [List.cons_append, scanFrom, lexeme_error_append hc hcause htail]
  | case3 column c cs hc ih =>
    have hc' : lexeme c (cs ++ tail) = .ok .space :=
      lexeme_eq_space_iff.mpr (lexeme_eq_space_iff.mp hc)
    rw [List.cons_append, scanFrom, hc']
    exact ih h
  | case4 column c cs kind literal more hc fault hrest ih =>
    cases h
    have hmore := (tokenAt_of_lexeme hc).formed.2
    rw [← List.append_nil cs] at hc
    rw [List.cons_append, scanFrom, lexeme_delimited hc hmore delimited_nil htail]
    dsimp only
    rw [List.drop_append_of_le_length hmore, ih hrest]
  | case5 => contradiction

/-! ## Strings that are not closed -/

/-- A reading stays in a string that is not closed. -/
theorem read_ne_plain_of_untilQuote (h : untilQuote q t = none) (depth depth' : Nat) :
    (quoted q depth).read t ≠ plain depth' := by
  fun_induction untilQuote q t with
  | case1 c cs ih => exact ih (Option.map_eq_none_iff.mp h)
  | case2 => contradiction
  | case3 c cs hne hc ih =>
    rw [beq_iff_eq] at hc
    rw [Nesting.read]
    by_cases hbackslash : c = '\\'
    · cases cs with
      | nil =>
        rw [hbackslash]
        intro h
        cases h
      | cons d ds => exact absurd rfl (hne d ds hbackslash)
    · rw [next_quoted_of_ne hbackslash hc]
      exact ih (Option.map_eq_none_iff.mp h)
  | case4 =>
    intro h
    cases h

theorem read_ne_plain_of_quote (hq : isQuote q = true) (h : untilQuote q cs = none)
    (depth depth' : Nat) : (plain depth).read (q :: cs) ≠ plain depth' := by
  rw [Nesting.read, next_plain_of_isQuote hq]
  exact read_ne_plain_of_untilQuote h depth depth'

/-- A string that is not closed starts here, or a template. -/
theorem read_ne_plain_of_lexeme (h : lexeme c cs = .error .unterminated) (depth depth' : Nat) :
    (plain depth).read (c :: cs) ≠ plain depth' := by
  unfold lexeme at h
  split at h
  next => cases h
  split at h
  next => cases h
  split at h
  next => cases h
  split at h
  next hq =>
    split at h
    next => cases h
    next hnone => exact read_ne_plain_of_quote hq hnone depth depth'
  split at h
  next hf =>
    rw [Bool.and_eq_true, Bool.or_eq_true, beq_iff_eq, beq_iff_eq] at hf
    obtain ⟨hc, hq⟩ := hf
    cases cs with
    | nil => contradiction
    | cons q ds =>
      split at h
      next => cases h
      next hnone =>
        have hnext : (plain depth).next c = plain depth := by rcases hc with rfl | rfl <;> rfl
        rw [Nesting.read, hnext]
        exact read_ne_plain_of_quote hq hnone depth depth'
  split at h
  next =>
    dsimp only at h
    split at h
    next => cases h
    next hnumeral =>
      cases h
      unfold numeral at hnumeral
      dsimp only at hnumeral
      split at hnumeral <;> cases hnumeral
  split at h
  next =>
    dsimp only at h
    split at h <;> cases h
  next => cases h

/-- Behind a text with a string that is not closed, a quoted part is open. -/
theorem read_ne_plain_of_scanFrom (h : scanFrom column t = .error ⟨.unterminated, offset⟩)
    (depth depth' : Nat) : (plain depth).read t ≠ plain depth' := by
  fun_induction scanFrom column t generalizing depth with
  | case1 => contradiction
  | case2 column c cs cause hc =>
    cases h
    exact read_ne_plain_of_lexeme hc depth depth'
  | case3 column c cs hc ih =>
    have hblank := isBlank_of_isSpace (lexeme_eq_space_iff.mp hc)
    rw [Nesting.read, (next_of_isBlank hblank depth).1]
    exact ih h depth
  | case4 column c cs kind literal more hc fault hrest ih =>
    cases h
    obtain ⟨front, quoted, htext, hshown⟩ := (tokenAt_of_lexeme hc).formed.1.shown
    rw [← List.take_append_drop more cs, ← List.cons_append, htext, read_append, hshown.read]
    exact ih hrest _
  | case5 => contradiction

/-! ## Texts that are scanned -/

/-- The outer bracket stays open in a text whose tokens leave it open. -/
theorem Scans.outerCloser (h : Scans column t ts) (hclimb : climb? 0 1 depth ts = some depth') :
    outerCloser (plain depth) t = none := by
  obtain ⟨-, hclear⟩ := h.reads hclimb
  have houter := outerCloser_append hclear []
  rwa [List.append_nil] at houter

end Offside
