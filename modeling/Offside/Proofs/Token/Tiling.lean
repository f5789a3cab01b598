import Offside.Proofs.Token.Quotes

/-!
# Tokens tile a text

The tokens of a text are cut out of it in order: the text of each stands at its column, none
reaches into the next, and between them there are spaces only. Whether a token ends at a
place is decided by what stands behind it, so a text could fall into other tokens where it
is cut off. It does not: the text of a token is `Settled`, text that does not belong to it
may as well be missing.

> `lexeme_of_append`: a token stays what it is where the text behind it is cut off.

> `tokens_tile`: the tokens of a text tile it, and a text that does not fall into tokens
> does so up to the column of the fault.
-/

namespace Offside

open Text

variable {column offset depth more : Nat} {c : Char} {cs t tail : Text} {ts : List Token}
  {token : Token} {kind : TokenKind} {literal : Option Literal} {cause : LexicalCause}
  {p : Char → Bool}

/-! ## What is read from the front of a text -/

/-- What is read from the front of a text is settled when it has been read: it is the same
where the text ends in front of something that was not read. -/
def Settled (read : Text → Text) : Prop :=
  ∀ t tail, (read (t ++ tail)).length ≤ t.length → read (t ++ tail) = read t

/-- Taking characters of one sort is settled. -/
theorem settled_takeWhile (p : Char → Bool) : Settled (List.takeWhile p) := by
  intro t tail hshort
  induction t with
  | nil => exact List.eq_nil_of_length_eq_zero (Nat.le_zero.mp hshort)
  | cons c cs ih =>
    by_cases hc : p c = true
    · rw [List.cons_append, List.takeWhile_cons_of_pos hc] at hshort ⊢
      rw [List.takeWhile_cons_of_pos hc, ih (Nat.le_of_succ_le_succ hshort)]
    · rw [List.cons_append, List.takeWhile_cons_of_neg hc, List.takeWhile_cons_of_neg hc]

/-- What is left behind the characters that were taken is left in the same way. -/
theorem dropWhile_of_settled (hshort : ((t ++ tail).takeWhile p).length ≤ t.length) :
    (t ++ tail).dropWhile p = t.dropWhile p ++ tail := by
  have htake := settled_takeWhile p t tail hshort
  have hwhole : (t ++ tail).takeWhile p ++ (t ++ tail).dropWhile p =
      t.takeWhile p ++ (t.dropWhile p ++ tail) := by
    rw [List.takeWhile_append_dropWhile, ← List.append_assoc, List.takeWhile_append_dropWhile]
  rw [htake] at hwhole
  exact List.append_cancel_left hwhole

theorem numeralFraction_of_ne (hc : c ≠ '.') (cs : Text) : numeralFraction (c :: cs) = [] := by
  rw [numeralFraction]
  intro ds hds
  cases hds
  exact hc rfl

/-- The fraction of a numeral is settled. -/
theorem settled_numeralFraction : Settled numeralFraction := by
  intro t tail hshort
  cases t with
  | nil => exact List.eq_nil_of_length_eq_zero (Nat.le_zero.mp hshort)
  | cons c cs =>
    by_cases hc : c = '.'
    · subst hc
      rw [List.cons_append, numeralFraction, List.length_cons, List.length_cons] at hshort
      rw [List.cons_append, numeralFraction, numeralFraction,
        settled_takeWhile Char.isDigit cs tail (Nat.le_of_succ_le_succ hshort)]
    · rw [List.cons_append, numeralFraction_of_ne hc, numeralFraction_of_ne hc]

/-- An exponent has more than one character. -/
theorem numeralExponent_short (h : (numeralExponent t).length ≤ 1) : numeralExponent t = [] := by
  unfold numeralExponent at h ⊢
  split at h
  next e sign ds =>
    split at h
    next he =>
      rw [if_pos he]
      split at h
      next hsign =>
        rw [List.takeWhile_cons_of_pos hsign] at h
        simp at h
      next hsign =>
        rw [if_neg hsign]
        split at h
        next => simp at h
        next hplus => exact if_neg hplus
    next he => exact if_neg he
  next => rfl

/-- The exponent of a numeral is settled. -/
theorem settled_numeralExponent : Settled numeralExponent := by
  intro t tail hshort
  match t with
  | [] => exact numeralExponent_short (Nat.le_succ_of_le hshort)
  | [e] => exact numeralExponent_short hshort
  | e :: sign :: ds =>
    have htake : ∀ t : Text, ((t ++ tail).takeWhile Char.isDigit).length ≤ t.length →
        (t ++ tail).takeWhile Char.isDigit = t.takeWhile Char.isDigit :=
      fun t => settled_takeWhile Char.isDigit t tail
    rw [List.cons_append, List.cons_append, numeralExponent] at hshort ⊢
    rw [numeralExponent]
    split
    next he =>
      rw [if_pos he] at hshort
      split
      next hsign =>
        rw [if_pos hsign, List.length_cons, List.length_cons, ← List.cons_append] at hshort
        rw [← List.cons_append, htake (sign :: ds) (Nat.le_of_succ_le_succ hshort)]
      next hsign =>
        rw [if_neg hsign] at hshort
        split
        next hplus =>
          rw [if_pos hplus] at hshort
          simp only [List.length_cons] at hshort
          rw [htake ds (by omega)]
        next => rfl
    next => rfl

/-- The rest of a numeral is settled. -/
theorem settled_numeralRest : Settled numeralRest := by
  intro t tail hshort
  -- each part of the numeral ends inside `t`, so each is settled, one behind the other
  rw [numeralRest_eq, List.length_append, List.length_append] at hshort
  have hwhole : ((t ++ tail).takeWhile isWhole).length ≤ t.length := by omega
  have htake := settled_takeWhile isWhole t tail hwhole
  have hdrop := dropWhile_of_settled hwhole
  have hlength : (t.takeWhile isWhole).length + (t.dropWhile isWhole).length = t.length := by
    rw [← List.length_append, List.takeWhile_append_dropWhile]
  rw [htake, hdrop] at hshort
  have hfraction := settled_numeralFraction (t.dropWhile isWhole) tail (by omega)
  rw [hfraction] at hshort
  have hlong : (numeralFraction (t.dropWhile isWhole)).length ≤
      (t.dropWhile isWhole).length := by omega
  rw [List.drop_append_of_le_length hlong] at hshort
  have hexponent := settled_numeralExponent
    ((t.dropWhile isWhole).drop (numeralFraction (t.dropWhile isWhole)).length) tail (by
      rw [List.length_drop]
      omega)
  rw [numeralRest_eq, numeralRest_eq, htake, hdrop, hfraction,
    List.drop_append_of_le_length hlong, hexponent]

theorem numeralRest_ne_nil (h : cs.head?.any Char.isDigit = true) : numeralRest cs ≠ [] := by
  cases cs with
  | nil => contradiction
  | cons d ds =>
    have hd : isWhole d = true := by
      rw [isWhole, show d.isDigit = true from h, Bool.true_or]
    rw [numeralRest_eq, List.takeWhile_cons_of_pos hd]
    exact List.cons_ne_nil _ _

/-! ## A token and the text behind it -/

/-- A symbol that fits in a text is one without what follows the text. -/
theorem symbol?_of_append (h : symbol? c (t ++ tail) = some (kind, more))
    (hmore : more ≤ t.length) : symbol? c t = some (kind, more) := by
  cases t with
  | cons d ds => exact h
  | nil =>
    unfold symbol? at h ⊢
    split at h
    next =>
      cases h
      contradiction
    next => exact h

/-- What is no symbol is none without what follows the text. -/
theorem symbol?_of_append_eq_none (h : symbol? c (t ++ tail) = none) : symbol? c t = none := by
  cases t with
  | cons d ds => exact h
  | nil =>
    unfold symbol? at h ⊢
    split at h
    next => contradiction
    next => exact h

theorem head?_any_of_append {b : Bool} (h : ¬(b && (t ++ tail).head?.any p) = true) :
    ¬(b && t.head?.any p) = true := by
  cases t with
  | nil => simp
  | cons d ds => exact h

/-- A numeral that starts with a point has its first digit in it. -/
theorem startsNumeral_of_append
    (h : (c.isDigit || c == '.' && (t ++ tail).head?.any Char.isDigit) = true)
    (hshort : (numeralRest (t ++ tail)).length ≤ t.length) :
    (c.isDigit || c == '.' && t.head?.any Char.isDigit) = true := by
  cases t with
  | cons d ds => exact h
  | nil =>
    rw [Bool.or_eq_true, Bool.and_eq_true] at h ⊢
    refine h.imp_right fun hpoint => ?_
    have hne := numeralRest_ne_nil hpoint.2
    exact absurd (List.eq_nil_of_length_eq_zero (Nat.le_zero.mp hshort)) hne

/-- **A token and the text behind it.** What starts a token starts the same token where the
text is cut off behind it. -/
theorem lexeme_of_append (h : lexeme c (t ++ tail) = .ok (.token kind literal more))
    (hmore : more ≤ t.length) : lexeme c t = .ok (.token kind literal more) := by
  -- a rule that did not apply in front of `tail` does not apply where the text ends
  unfold lexeme at h ⊢
  split at h
  next => cases h
  next hspace =>
  rw [if_neg hspace]
  split at h
  next hsymbol =>
    cases h
    rw [symbol?_of_append hsymbol hmore]
  next hsymbol =>
  rw [symbol?_of_append_eq_none hsymbol]
  split at h
  next => cases h
  next hassign =>
  dsimp only
  rw [if_neg hassign]
  split at h
  next hq =>
    rw [if_pos hq]
    split at h
    next body hbody =>
      cases h
      rw [untilQuote_of_append hq hbody hmore]
    next => cases h
  next hq =>
  rw [if_neg hq]
  split at h
  next hf =>
    split at h
    next body hbody =>
      cases h
      cases t with
      | nil => contradiction
      | cons q ds =>
        have hf' : ((c == 'f' || c == 'F') && (q :: ds).head?.any isQuote) = true := hf
        rw [if_pos hf', List.headD_cons, List.tail_cons,
          untilQuote_of_append (Bool.and_eq_true_iff.mp hf).2 hbody (Nat.le_of_succ_le_succ hmore)]
    next => cases h
  next hf =>
  rw [if_neg (head?_any_of_append hf)]
  split at h
  next hdigit =>
    dsimp only at h
    split at h
    next x hx =>
      cases h
      rw [if_pos (startsNumeral_of_append hdigit hmore), ← settled_numeralRest t tail hmore, hx]
    next => cases h
  next hdigit =>
  rw [Bool.or_eq_true, not_or] at hdigit
  have hdigit' : ¬(c.isDigit || c == '.' && t.head?.any Char.isDigit) = true := by
    rw [Bool.or_eq_true, not_or]
    exact ⟨hdigit.1, head?_any_of_append hdigit.2⟩
  rw [if_neg hdigit']
  split at h
  next hword =>
    rw [if_pos hword]
    have hlength : more = ((t ++ tail).takeWhile continuesWord).length := by
      dsimp only at h
      split at h <;> cases h <;> rfl
    rw [← settled_takeWhile continuesWord t tail (hlength ▸ hmore)]
    exact h
  next => cases h

/-! ## Where tokens stand -/

/-- The column behind a token. -/
def Token.stop (token : Token) : Nat :=
  token.column + token.lexeme.length

/-- A column is one of those that the text of a token takes. -/
def Token.Covers (token : Token) (k : Nat) : Prop :=
  token.column ≤ k ∧ k < token.stop

/-- No token starts before the one in front of it ends. -/
def InOrder (ts : List Token) : Prop :=
  ts.Pairwise fun token next => token.stop ≤ next.column

/-- No two tokens stand at one column, and they are in the order of their columns. -/
def Rising (ts : List Token) : Prop :=
  ts.Pairwise fun token next => token.column < next.column

/-- The text of a token stands in a text at its column. -/
def Token.StandsIn (token : Token) (column : Nat) (t : Text) : Prop :=
  ∃ front back, t = front ++ (token.lexeme.toList ++ back) ∧ token.column = column + front.length

/-- A token stands in a text that has more in front. -/
theorem Token.StandsIn.behind {column' : Nat} (h : token.StandsIn column' t) (lead : Text)
    (hcolumn : column' = column + lead.length) : token.StandsIn column (lead ++ t) := by
  obtain ⟨front, back, rfl, hfront⟩ := h
  refine ⟨lead ++ front, back, by rw [List.append_assoc], ?_⟩
  rw [hfront, hcolumn, List.length_append, Nat.add_assoc]

/-- A token ends inside the text that it stands in. -/
theorem Token.StandsIn.stop_le (h : token.StandsIn column t) :
    token.stop ≤ column + t.length := by
  obtain ⟨front, back, rfl, hfront⟩ := h
  rw [Token.stop, hfront, List.length_append, List.length_append, String.length_toList]
  omega

theorem stop_ofList (kind : TokenKind) (literal : Option Literal) (column : Nat) (c : Char)
    (cs : Text) : Token.stop ⟨kind, String.ofList (c :: cs), literal, column⟩ =
      column + 1 + cs.length := by
  rw [Token.stop, String.length_ofList, List.length_cons, Nat.add_assoc, Nat.add_comm 1]

/-- Every token of a text stands in it, with the characters that its lexeme shows. -/
theorem Scans.standsIn (h : Scans column t ts) :
    ∀ token ∈ ts, token.lexeme ≠ "" ∧ token.StandsIn column t := by
  induction h with
  | done =>
    intro token htoken
    contradiction
  | @space column c cs ts hc h ih =>
    intro token htoken
    obtain ⟨hne, hstands⟩ := ih token htoken
    exact ⟨hne, hstands.behind [c] rfl⟩
  | @token column c cs rest kind literal ts hc h ih =>
    intro token htoken
    rcases List.mem_cons.mp htoken with rfl | htoken
    · refine ⟨by simp, [], rest, ?_, rfl⟩
      rw [String.toList_ofList]
      rfl
    · obtain ⟨hne, hstands⟩ := ih token htoken
      refine ⟨hne, hstands.behind (c :: cs) ?_⟩
      rw [List.length_cons]
      omega

/-- No token starts before the one in front of it has ended. -/
theorem Scans.inOrder (h : Scans column t ts) : InOrder ts := by
  induction h with
  | done => exact .nil
  | space hc h ih => exact ih
  | token hc h ih =>
    refine .cons (fun next hnext => ?_) ih
    rw [stop_ofList]
    exact h.column_le next hnext

/-- Columns rise from token to token, up to the end. -/
theorem Scans.rising (h : Scans column t ts) :
    Rising (ts ++ [⟨.eof, "", none, column + t.length⟩]) := by
  have hstop : ∀ token ∈ ts, token.column < token.stop := by
    intro token htoken
    refine Nat.lt_add_of_pos_right (Nat.pos_of_ne_zero fun hlength => ?_)
    exact (h.standsIn token htoken).1 (String.length_eq_zero_iff.mp hlength)
  refine List.pairwise_append.mpr ⟨?_, List.pairwise_singleton _ _, ?_⟩
  · exact h.inOrder.imp_of_mem fun htoken _ horder => Nat.lt_of_lt_of_le (hstop _ htoken) horder
  · intro token htoken stop hend
    rw [List.mem_singleton.mp hend]
    exact Nat.lt_of_lt_of_le (hstop token htoken) (h.standsIn token htoken).2.stop_le

/-- What no token covers is a space. -/
theorem Scans.isSpace_of_uncovered {k : Nat} (h : Scans column t ts) (hk : t[k]? = some c)
    (huncovered : ∀ token ∈ ts, ¬token.Covers (column + k)) : isSpace c = true := by
  induction h generalizing k with
  | done => contradiction
  | @space column d cs ts hd h ih =>
    cases k with
    | zero =>
      cases hk
      exact hd
    | succ k =>
      refine ih hk fun token htoken => ?_
      rw [Nat.add_right_comm]
      exact huncovered token htoken
  | @token column d cs rest kind literal ts hd h ih =>
    have hfirst := huncovered _ List.mem_cons_self
    rw [Token.Covers, stop_ofList] at hfirst
    dsimp only at hfirst
    -- the character stands behind the first token
    obtain ⟨k, rfl⟩ : ∃ l, k = cs.length + 1 + l := Nat.exists_eq_add_of_le (by omega)
    refine ih (k := k) ?_ fun token htoken => ?_
    · rw [← List.cons_append, List.getElem?_append_right (by simp)] at hk
      rw [← hk, List.length_cons]
      congr 1
      omega
    · have huncovered := huncovered token (List.mem_cons_of_mem _ htoken)
      rwa [← Nat.add_assoc, ← Nat.add_assoc, Nat.add_right_comm column] at huncovered

/-! ## Where a text does not fall into tokens -/

/-- A token goes on for some characters that the text starts with. -/
theorem exists_inside_of_lexeme (h : lexeme c cs = .ok (.token kind literal more)) :
    ∃ inside behind, cs = inside ++ behind ∧ inside.length = more :=
  ⟨cs.take more, cs.drop more, (List.take_append_drop more cs).symm,
    List.length_take_of_le (tokenAt_of_lexeme h).formed.2⟩

/-- In front of the place where scanning stops there are tokens. -/
theorem scans_of_scanFrom_error (h : scanFrom column t = .error ⟨cause, offset⟩) :
    ∃ front c back ts, t = front ++ c :: back ∧ offset = column + front.length ∧
      Scans column front ts := by
  fun_induction scanFrom column t with
  | case1 => contradiction
  | case2 column c cs cause' hc =>
    cases h
    exact ⟨[], c, cs, [], rfl, rfl, .done⟩
  | case3 column c cs hc ih =>
    obtain ⟨front, d, back, ts, rfl, hoffset, hfront⟩ := ih h
    refine ⟨c :: front, d, back, ts, rfl, ?_, .space (lexeme_eq_space_iff.mp hc) hfront⟩
    rw [hoffset, List.length_cons]
    omega
  | case4 column c cs kind literal more hc fault hrest ih =>
    cases h
    obtain ⟨inside, behind, rfl, rfl⟩ := exists_inside_of_lexeme hc
    rw [List.drop_left] at ih hrest
    obtain ⟨front, d, back, ts, rfl, hoffset, hfront⟩ := ih hrest
    -- the token ends in front of the fault, so it is found without what is behind that
    rw [← List.append_assoc] at hc
    have hcut := lexeme_of_append hc (by rw [List.length_append]; exact Nat.le_add_right _ _)
    refine ⟨c :: (inside ++ front), d, back, _, ?_, ?_, .token hcut hfront⟩
    · rw [List.cons_append, List.append_assoc]
    · rw [hoffset, List.length_cons, List.length_append]
      omega
  | case5 => contradiction

/-- **Tokens tile a text.** Where a text falls into tokens, the last of them is the only end
mark and stands behind the text, the text of every other is not empty and stands at its
column, none starts before the one in front of it ends, and what they leave out is spaces.
Where it does not, the fault is at one of its characters, and in front of that it falls into
tokens. -/
theorem tokens_tile (t : Text) :
    (∀ tokens, scan t = .ok tokens → ∃ ts, tokens = ts ++ [⟨.eof, "", none, t.length⟩] ∧
      (∀ token ∈ ts, token.kind ≠ .eof ∧ token.lexeme ≠ "" ∧ token.StandsIn 0 t) ∧
      InOrder tokens ∧
      ∀ k c, t[k]? = some c → (∀ token ∈ ts, ¬token.Covers k) → isSpace c = true) ∧
    ∀ fault, scan t = .error fault →
      fault.column < t.length ∧ ∃ tokens, scan (t.take fault.column) = .ok tokens := by
  constructor
  · intro tokens hscan
    obtain ⟨ts, rfl, hts⟩ := scanFrom_eq_ok_iff.mp hscan
    rw [Nat.zero_add]
    refine ⟨ts, rfl, fun token htoken => ⟨hts.ne_eof token htoken, hts.standsIn token htoken⟩,
      ?_, fun k c hk huncovered => ?_⟩
    · refine List.pairwise_append.mpr ⟨hts.inOrder, List.pairwise_singleton _ _, ?_⟩
      intro token htoken stop hstop
      rw [List.mem_singleton.mp hstop]
      have hle := (hts.standsIn token htoken).2.stop_le
      rwa [Nat.zero_add] at hle
    · refine hts.isSpace_of_uncovered hk fun token htoken => ?_
      rw [Nat.zero_add]
      exact huncovered token htoken
  · rintro ⟨cause, offset⟩ hscan
    obtain ⟨front, c, back, ts, rfl, hoffset, hfront⟩ := scans_of_scanFrom_error hscan
    rw [Nat.zero_add] at hoffset
    subst hoffset
    refine ⟨?_, ?_⟩
    · rw [List.length_append, List.length_cons]
      dsimp only
      omega
    · dsimp only
      rw [List.take_left]
      exact ⟨_, scanFrom_eq_ok_iff.mpr ⟨ts, rfl, hfront⟩⟩

/-- An equals sign by itself stops the scanner, and leaves a template, a comparison and a
name in front of it as they are. -/
theorem tokens_tile_assignment :
    let t := "f'a'<=b =".toList
    scan t = .error ⟨.assignment, 8⟩ ∧
      ∃ tokens, scan (t.take 8) = .ok tokens ∧ InOrder tokens ∧
        ∀ k c, (t.take 8)[k]? = some c → (∀ token ∈ tokens, ¬token.Covers k) →
          isSpace c = true := by
  intro t
  have hscan : scan "f'a'<=b =".toList = .error ⟨.assignment, 8⟩ := by cbv
  obtain ⟨-, tokens, htokens⟩ := (tokens_tile t).2 _ hscan
  obtain ⟨ts, rfl, -, horder, hspaces⟩ := (tokens_tile (t.take 8)).1 tokens htokens
  refine ⟨hscan, _, htokens, horder, fun k c hk huncovered => ?_⟩
  exact hspaces k c hk fun token htoken => huncovered token (List.mem_append_left _ htoken)

end Offside
