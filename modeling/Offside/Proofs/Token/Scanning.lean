import Offside.Proofs.Expr.Columns
import Offside.Proofs.Text.Pieces
import Offside.Proofs.Token.Lexeme

/-!
# Scanning

The tokens of a text as a relation: spaces and tokens, one behind the other. By it a
text with tokens can be cut at a comma or a closing bracket, joined there, trimmed,
and moved to another column.
-/

namespace Offside

open Text

variable {column column' : Nat} {c : Char} {s t u front back : Text} {ts us vs : List Token}
  {kind : TokenKind} {e : Expr}

/-- A text that starts at a column consists of the tokens, and spaces between them. -/
inductive Scans : Nat → Text → List Token → Prop
  | done {column : Nat} : Scans column [] []
  | space {column : Nat} {c : Char} {cs : Text} {ts : List Token} (hc : isSpace c = true)
    (h : Scans (column + 1) cs ts) : Scans column (c :: cs) ts
  | token {column : Nat} {c : Char} {cs rest : Text} {kind : TokenKind}
    {literal : Option Literal} {ts : List Token}
    (hc : lexeme c (cs ++ rest) = .ok (.token kind literal cs.length))
    (h : Scans (column + 1 + cs.length) rest ts) :
    Scans column (c :: (cs ++ rest)) (⟨kind, String.ofList (c :: cs), literal, column⟩ :: ts)

theorem Scans.cast (h : Scans column t ts) (hcolumn : column = column') :
    Scans column' t ts :=
  hcolumn ▸ h

/-- What the scanner cuts off is formed as its kind asks. -/
theorem formed_of_lexeme {cs rest : Text} {literal : Option Literal}
    (h : lexeme c (cs ++ rest) = .ok (.token kind literal cs.length)) :
    Formed kind (c :: cs) := by
  have hformed := (tokenAt_of_lexeme h).formed.1
  rwa [List.take_left] at hformed

/-- What the scanner cuts off spells its kind. -/
theorem spells_of_lexeme {cs rest : Text} {literal : Option Literal}
    (h : lexeme c (cs ++ rest) = .ok (.token kind literal cs.length)) : Spells kind (c :: cs) :=
  (formed_of_lexeme h).spells

/-! ## The scanner -/

/-- A text scans to the tokens that it is made of, with the end behind its last character. -/
theorem scanFrom_eq_ok_iff {tokens : List Token} :
    scanFrom column t = .ok tokens ↔
      ∃ ts, tokens = ts ++ [⟨.eof, "", none, column + t.length⟩] ∧ Scans column t ts := by
  constructor
  · intro h
    fun_induction scanFrom column t generalizing tokens with
    | case1 column =>
      cases h
      exact ⟨[], rfl, .done⟩
    | case2 => contradiction
    | case3 column c cs hc ih =>
      obtain ⟨ts, rfl, hts⟩ := ih h
      refine ⟨ts, ?_, .space (lexeme_eq_space_iff.mp hc) hts⟩
      rw [List.length_cons, Nat.add_assoc, Nat.add_comm 1]
    | case4 => contradiction
    | case5 column c cs kind literal more hc tokens' hrest ih =>
      cases h
      obtain ⟨ts, rfl, hts⟩ := ih hrest
      obtain ⟨front, rest, rfl, rfl⟩ : ∃ front rest, cs = front ++ rest ∧ front.length = more := by
        refine ⟨cs.take more, cs.drop more, (List.take_append_drop more cs).symm, ?_⟩
        exact List.length_take_of_le (tokenAt_of_lexeme hc).formed.2
      rw [List.drop_left] at hts ⊢
      rw [List.take_left]
      refine ⟨_ :: ts, ?_, .token hc hts⟩
      have hcolumn : column + 1 + front.length + rest.length =
          column + (c :: (front ++ rest)).length := by
        rw [List.length_cons, List.length_append]
        omega
      rw [hcolumn, List.cons_append]
  · rintro ⟨ts, rfl, h⟩
    induction h with
    | done =>
      rw [scanFrom]
      rfl
    | space hc h ih =>
      rw [scanFrom, lexeme_eq_space_iff.mpr hc]
      dsimp only
      rw [ih, List.length_cons, Nat.add_assoc, Nat.add_comm 1]
    | @token column c cs rest kind literal ts hc h ih =>
      have hcolumn : column + 1 + cs.length + rest.length =
          column + (c :: (cs ++ rest)).length := by
        rw [List.length_cons, List.length_append]
        omega
      rw [scanFrom, hc]
      dsimp only
      rw [List.drop_left, List.take_left, ih, hcolumn]
      rfl

/-- The end is no token of a text. -/
theorem Scans.ne_eof (h : Scans column t ts) : ∀ t ∈ ts, t.kind ≠ .eof := by
  induction h with
  | done =>
    intro t ht
    contradiction
  | space hc h ih => exact ih
  | token hc h ih =>
    intro t ht
    rcases List.mem_cons.mp ht with rfl | ht
    · exact (tokenAt_of_lexeme hc).ne_eof
    · exact ih t ht

/-- A text is an expression if its tokens are derived as one. -/
theorem parseText_eq_ok_iff :
    parseText t = .ok e ↔ ∃ ts, Scans 0 t ts ∧ Derives (.joined .or) ts e := by
  unfold parseText scan
  constructor
  · intro h
    cases hscan : scanFrom 0 t with
    | error fault =>
      rw [hscan] at h
      contradiction
    | ok tokens =>
      obtain ⟨ts, rfl, hts⟩ := scanFrom_eq_ok_iff.mp hscan
      rw [hscan] at h
      dsimp only at h
      split at h
      next => contradiction
      next e' hparse =>
        cases h
        exact ⟨ts, hts, (parse_eq_ok_iff hts.ne_eof rfl).mp hparse⟩
  · rintro ⟨ts, hts, he⟩
    rw [scanFrom_eq_ok_iff.mpr ⟨ts, rfl, hts⟩]
    dsimp only
    rw [(parse_eq_ok_iff hts.ne_eof rfl).mpr he]

/-! ## Columns -/

/-- A text that stands elsewhere has the same tokens at other columns. -/
theorem Scans.recolumn {f : Nat → Nat} (h : Scans column t ts)
    (hf : ∀ k, f (column + k) = column' + k) : Scans column' t (ts.map (Token.recolumn f)) := by
  induction h generalizing column' with
  | done => exact .done
  | @space column c cs ts hc h ih =>
    refine .space hc (ih fun k => ?_)
    rw [Nat.add_assoc, hf, Nat.add_assoc]
  | @token column c cs rest kind literal ts hc h ih =>
    have hcolumn : f column = column' := hf 0
    have hrest : Scans (column' + 1 + cs.length) rest (ts.map (Token.recolumn f)) := by
      refine ih fun k => ?_
      rw [Nat.add_assoc, Nat.add_assoc, hf, Nat.add_assoc, Nat.add_assoc]
    rw [List.map_cons, Token.recolumn]
    dsimp only
    rw [hcolumn]
    exact .token hc hrest

/-- At another column a text has the same tokens but for their columns. -/
theorem Scans.move (h : Scans column t ts) (column' : Nat) :
    ∃ f, Scans column' t (ts.map (Token.recolumn f)) := by
  refine ⟨fun k => k - column + column', h.recolumn fun k => ?_⟩
  rw [Nat.add_sub_cancel_left, Nat.add_comm]

/-! ## Joining and cutting -/

/-- A token that ends before other text is the same token with another text behind. -/
theorem lexeme_cut {cs rest tail tail' : Text} {literal : Option Literal}
    (h : lexeme c (cs ++ (rest ++ tail)) = .ok (.token kind literal cs.length))
    (htail : Delimited tail) (htail' : Delimited tail') :
    lexeme c (cs ++ (rest ++ tail')) = .ok (.token kind literal cs.length) := by
  rw [← List.append_assoc] at h ⊢
  refine lexeme_delimited h ?_ htail htail'
  rw [List.length_append]
  exact Nat.le_add_right _ _

/-- A comma or bracket in front of scanned text is a token of its own. -/
theorem Scans.of_mark (hkind : kind.mark? = some c) (h : Scans (column + 1) t ts) :
    Scans column (c :: t) (⟨kind, String.ofList [c], none, column⟩ :: ts) :=
  .token (lexeme_mark hkind ([] ++ t)) h

/-- The token that a scanned text starts with is the one that starts at its first
character. -/
theorem Scans.token_cons {cs rest : Text} {literal : Option Literal}
    (h : Scans column (c :: (cs ++ rest)) ts)
    (hc : lexeme c (cs ++ rest) = .ok (.token kind literal cs.length)) :
    ∃ us, ts = ⟨kind, String.ofList (c :: cs), literal, column⟩ :: us ∧
      Scans (column + 1 + cs.length) rest us := by
  generalize hs : c :: (cs ++ rest) = s at h
  cases h with
  | done => contradiction
  | space hspace h =>
    cases hs
    rw [lexeme_eq_space_iff.mpr hspace] at hc
    cases hc
  | token hc' h =>
    obtain ⟨rfl, htail⟩ := List.cons.inj hs
    rw [← htail, hc] at hc'
    injection hc' with hlexeme
    injection hlexeme with hkind hliteral hlength
    obtain ⟨rfl, rfl⟩ := List.append_inj htail hlength
    subst hkind hliteral
    exact ⟨_, rfl, h⟩

/-- A text that starts with a comma or bracket starts with its token. -/
theorem Scans.mark_cons (h : Scans column (c :: t) ts) (hkind : kind.mark? = some c) :
    ∃ us, ts = ⟨kind, String.ofList [c], none, column⟩ :: us ∧ Scans (column + 1) t us := by
  rw [← List.nil_append t] at h
  exact h.token_cons (lexeme_mark hkind ([] ++ t))

theorem delimited_nil : Delimited [] := by
  intro c hc
  contradiction

theorem delimited_cons (hc : isDelimiter c = true) : Delimited (c :: t) := by
  intro d hd
  cases hd
  exact hc

/-- Spaces do not continue a token. -/
theorem delimited_spaces (ht : ∀ c ∈ t, isSpace c = true) : Delimited t := by
  intro c hc
  have hspace := ht c (List.mem_of_head? hc)
  simp only [isDelimiter, hspace, Bool.true_or]

/-- What starts with a delimiter may stand behind any scanned text. -/
theorem Scans.append (h : Scans column t ts) (hu : Delimited u)
    (hvs : Scans (column + t.length) u vs) : Scans column (t ++ u) (ts ++ vs) := by
  induction h with
  | done => exact hvs
  | space hc h ih =>
    refine .space hc (ih (hvs.cast ?_))
    rw [List.length_cons]
    omega
  | @token column c cs rest kind literal ts hc h ih =>
    rw [List.cons_append, List.cons_append, List.append_assoc]
    rw [← List.append_nil rest] at hc
    refine .token (lexeme_cut hc delimited_nil hu) (ih (hvs.cast ?_))
    rw [List.length_cons, List.length_append]
    omega

/-- A scanned text is cut where a comma or a closing bracket is. -/
theorem Scans.cut {t : Token} (h : Scans column s (us ++ t :: vs))
    (hkind : t.kind.mark? = some c) (hc : isDelimiter c = true) :
    ∃ front back, s = front ++ c :: back ∧ Scans column front us ∧
      Scans (column + front.length + 1) back vs := by
  generalize hts : us ++ t :: vs = ts at h
  induction h generalizing us with
  | done => simp at hts
  | @space column d ds ts hd h ih =>
    obtain ⟨front, back, rfl, hfront, hback⟩ := ih hts
    refine ⟨d :: front, back, rfl, .space hd hfront, hback.cast ?_⟩
    rw [List.length_cons]
    omega
  | @token column d cs rest kind literal ts hd h ih =>
    cases us with
    | nil =>
      cases hts
      have htext := (spells_of_lexeme hd).eq_of_mark? hkind
      cases htext
      exact ⟨[], rest, rfl, .done, h⟩
    | cons u us =>
      cases hts
      obtain ⟨front, back, rfl, hfront, hback⟩ := ih rfl
      have hfirst := lexeme_cut hd (delimited_cons hc) delimited_nil
      rw [List.append_nil] at hfirst
      refine ⟨d :: (cs ++ front), back, ?_, .token hfirst hfront, hback.cast ?_⟩
      · rw [List.cons_append, List.append_assoc]
      · rw [List.length_cons, List.length_append]
        omega

/-! ## Blank ends -/

/-- No flat character is blank. -/
theorem isBlank_of_isFlat (h : isFlat c = true) : isBlank c = false := by
  simp only [isFlat, Bool.and_eq_true, Bool.not_eq_true'] at h
  exact h.2

theorem isBlank_of_isQuote (h : isQuote c = true) : isBlank c = false := by
  simp only [isQuote, Bool.or_eq_true, beq_iff_eq] at h
  rcases h with rfl | rfl <;> decide

theorem isBlank_of_mark? (h : kind.mark? = some c) : isBlank c = false := by
  cases kind <;> cases h <;> decide

/-- No token starts or ends with a blank. -/
theorem Spells.trimmed (h : Spells kind t) : Trimmed t := by
  cases h with
  | mark h =>
    have hc := isBlank_of_mark? h
    constructor <;> intro d hd <;> cases hd <;> exact hc
  | string hq hbody =>
    have hblank := isBlank_of_isQuote hq
    exact trimmed_of_ends hblank hblank _
  | @template f q body hf hq hbody =>
    exact trimmed_of_ends (isBlank_of_isFlat hf) (isBlank_of_isQuote hq) (q :: body)
  | flat hkind hne hflat =>
    constructor
    · intro d hd
      exact isBlank_of_isFlat (hflat d (List.mem_of_head? hd))
    · intro d hd
      exact isBlank_of_isFlat (hflat d (List.mem_of_getLast? hd))

/-- A scanned text that starts with a blank starts with a space. -/
theorem Scans.space_of_blank (h : Scans column (c :: t) ts) (hc : isBlank c = true) :
    isSpace c = true ∧ Scans (column + 1) t ts := by
  cases h with
  | space hspace h => exact ⟨hspace, h⟩
  | token hlexeme h =>
    have hfirst := (spells_of_lexeme hlexeme).trimmed.first c rfl
    rw [hc] at hfirst
    contradiction

/-- Blanks that a scanned text starts with are spaces. -/
theorem Scans.drop_front (h : Scans column (front ++ t) ts) (hfront : Blank front) :
    Scans (column + front.length) t ts := by
  induction front generalizing column with
  | nil => exact h
  | cons c cs ih =>
    have hrest := (h.space_of_blank (hfront c List.mem_cons_self)).2
    refine (ih hrest fun d hd => hfront d (List.mem_cons_of_mem c hd)).cast ?_
    rw [List.length_cons]
    omega

/-- A blank text has no tokens. -/
theorem Scans.eq_nil_of_blank (h : Scans column t ts) (ht : Blank t) : ts = [] := by
  rw [← List.append_nil t] at h
  cases h.drop_front ht
  rfl

theorem last_of_append {P : Char → Prop} (h : ∀ c, (front ++ t).getLast? = some c → P c) :
    ∀ c, t.getLast? = some c → P c := by
  intro c hc
  refine h c ?_
  rw [List.getLast?_append, hc]
  rfl

/-- What ends in no blank does not reach into blanks. -/
theorem exists_behind_of_blank {rest : Text} (h : t ++ back = u ++ rest) (hback : Blank back)
    (hlast : ∀ c, u.getLast? = some c → isBlank c = false) :
    ∃ behind, t = u ++ behind ∧ rest = behind ++ back := by
  rcases List.append_eq_append_iff.mp h with ⟨inside, rfl, rfl⟩ | hbehind
  · cases hend : inside.getLast? with
    | none =>
      obtain rfl := List.getLast?_eq_none_iff.mp hend
      exact ⟨[], by rw [List.append_nil, List.append_nil], rfl⟩
    | some e =>
      have hmem : e ∈ inside ++ rest := List.mem_append_left _ (List.mem_of_getLast? hend)
      have hnot := last_of_append hlast e hend
      rw [hback e hmem] at hnot
      contradiction
  · exact hbehind

/-- Blanks that a scanned text ends in are spaces too. -/
theorem Scans.drop_back (h : Scans column (t ++ back) ts) (hback : Blank back)
    (hlast : ∀ c, t.getLast? = some c → isBlank c = false) :
    Scans column t ts ∧ Delimited back := by
  generalize hs : t ++ back = s at h
  induction h generalizing t with
  | done =>
    obtain ⟨rfl, rfl⟩ := List.append_eq_nil_iff.mp hs
    exact ⟨.done, delimited_nil⟩
  | @space column c cs ts hc h ih =>
    cases t with
    | nil =>
      rw [List.nil_append] at hs
      subst hs
      have hts := h.eq_nil_of_blank fun d hd => hback d (List.mem_cons_of_mem c hd)
      subst hts
      exact ⟨.done, delimited_cons (by simp only [isDelimiter, hc, Bool.true_or])⟩
    | cons d ds =>
      cases hs
      rw [← List.singleton_append] at hlast
      obtain ⟨hds, hdelimited⟩ := ih (last_of_append hlast) rfl
      exact ⟨.space hc hds, hdelimited⟩
  | @token column c cs rest kind literal ts hc h ih =>
    -- a token that reached into the blanks would end in one
    obtain ⟨behind, rfl, rfl⟩ :=
      exists_behind_of_blank hs hback (spells_of_lexeme hc).trimmed.last
    obtain ⟨hbehind, hdelimited⟩ := ih (last_of_append hlast) rfl
    have hfirst := lexeme_cut hc hdelimited delimited_nil
    rw [List.append_nil] at hfirst
    exact ⟨.token hfirst hbehind, hdelimited⟩

/-- Trimming takes no token off a text. -/
theorem Scans.trim (h : Scans column t ts) : ∃ column', Scans column' t.trim ts := by
  obtain ⟨front, back, ht, hfront, hback, htrimmed⟩ := exists_trim t
  rw [ht] at h
  exact ⟨_, ((h.drop_front hfront).drop_back hback htrimmed.last).1⟩

/-- Spaces have no tokens. -/
theorem scans_spaces (ht : ∀ c ∈ t, isSpace c = true) (column : Nat) : Scans column t [] := by
  induction t generalizing column with
  | nil => exact .done
  | cons c cs ih =>
    exact .space (ht c List.mem_cons_self)
      (ih (fun d hd => ht d (List.mem_cons_of_mem c hd)) (column + 1))

/-- Spaces in front of a text move its tokens. -/
theorem Scans.prepend_spaces (hfront : ∀ c ∈ front, isSpace c = true)
    (h : Scans (column + front.length) t ts) : Scans column (front ++ t) ts := by
  induction front generalizing column with
  | nil => exact h
  | cons c cs ih =>
    refine .space (hfront c List.mem_cons_self)
      (ih (fun d hd => hfront d (List.mem_cons_of_mem c hd)) (h.cast ?_))
    rw [List.length_cons]
    omega

/-- Spaces around a scanned text are no tokens. -/
theorem Scans.between_spaces (h : Scans (column + front.length) t ts)
    (hfront : ∀ c ∈ front, isSpace c = true) (hback : ∀ c ∈ back, isSpace c = true) :
    Scans column (front ++ (t ++ back)) ts := by
  have happend := h.append (delimited_spaces hback) (scans_spaces hback _)
  rw [List.append_nil] at happend
  exact happend.prepend_spaces hfront

end Offside
