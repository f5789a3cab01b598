import Offside.Proofs.Degrading
import Offside.Proofs.Token.Quotes

/-!
# Writing strings

A text is written as a string by a backslash in front of each backslash and of each quote
of the kind it is put in. The scanner looks for the closing quote in one way and resolves
the escapes in another; main result:

> `literal_reads_back`: in either quotes every text is one string token with that text,
> whatever comes behind a space, its value is the text, and nothing of it is outside quotes.
-/

namespace Offside

open Text Nesting

variable {q c d : Char} {t body : Text} {column : Nat} {us : List Token}

/-! ## Escapes -/

/-- What is not escaped stands for itself. -/
theorem unescape_cons (hc : c ≠ '\\') (t : Text) : unescape (c :: t) = c :: unescape t := by
  rw [unescape]
  intro d ds hd
  exact absurd hd hc

theorem unescape_escape_cons (hc : escaped? c = some d) (t : Text) :
    unescape ('\\' :: c :: t) = d :: unescape t := by
  rw [unescape, hc]

/-- What is no escape stands for itself, its backslash included. -/
theorem unescape_other_cons (hc : escaped? c = none) (t : Text) :
    unescape ('\\' :: c :: t) = '\\' :: c :: unescape t := by
  rw [unescape, hc]

theorem eq_of_isQuote (hq : isQuote q = true) : q = '"' ∨ q = '\'' := by
  simpa only [isQuote, Bool.or_eq_true, beq_iff_eq] using hq

theorem escaped?_of_isQuote (hq : isQuote q = true) : escaped? q = some q := by
  rcases eq_of_isQuote hq with rfl | rfl <;> rfl

/-! ## Writing -/

/-- The characters with a backslash in front of backslashes and of the quote. -/
def Text.escape (q : Char) (t : Text) : Text :=
  t.flatMap fun c => if c = '\\' ∨ c = q then ['\\', c] else [c]

/-- The text as a string in the quote. -/
def Text.literal (q : Char) (t : Text) : Text :=
  q :: (t.escape q ++ [q])

/-- Backslashes and the quote are escaped. -/
theorem escape_cons_of_special (hc : c = '\\' ∨ c = q) (t : Text) :
    escape q (c :: t) = '\\' :: c :: escape q t := by
  rw [escape, List.flatMap_cons, if_pos hc]
  rfl

/-- No other character is escaped. -/
theorem escape_cons_of_ordinary (hc : ¬ (c = '\\' ∨ c = q)) (t : Text) :
    escape q (c :: t) = c :: escape q t := by
  rw [escape, List.flatMap_cons, if_neg hc]
  rfl

/-- No quote in the written text closes it. -/
theorem quoted_escape (q : Char) (t : Text) : Quoted q (escape q t) := by
  induction t with
  | nil => exact .nil
  | cons c cs ih =>
    by_cases hc : c = '\\' ∨ c = q
    · rw [escape_cons_of_special hc]
      exact .escaped ih
    · rw [escape_cons_of_ordinary hc]
      rw [not_or] at hc
      exact .plain hc.1 hc.2 ih

/-- The written text stands for the text. -/
theorem unescape_escape (hq : isQuote q = true) (t : Text) : unescape (escape q t) = t := by
  induction t with
  | nil => rfl
  | cons c cs ih =>
    by_cases hc : c = '\\' ∨ c = q
    · have hescaped : escaped? c = some c := by
        rcases hc with rfl | rfl
        · rfl
        · exact escaped?_of_isQuote hq
      rw [escape_cons_of_special hc, unescape_escape_cons hescaped, ih]
    · rw [escape_cons_of_ordinary hc]
      rw [not_or] at hc
      rw [unescape_cons hc.1, ih]

/-! ## Reading -/

/-- The token of a quoted text. -/
def Token.ofQuoted (q : Char) (body : Text) (column : Nat) : Token :=
  ⟨.string, String.ofList (q :: (body ++ [q])), some (.text (String.ofList (unescape body))), column⟩

/-- A quoted text is a string, whatever follows. -/
theorem lexeme_quoted (hq : isQuote q = true) (hbody : Quoted q body) (t : Text) :
    lexeme q (body ++ q :: t) =
      .ok (.token .string (some (.text (String.ofList (unescape body)))) (body.length + 1)) := by
  have hsymbol (cs : Text) : symbol? q cs = none := by
    rcases eq_of_isQuote hq with rfl | rfl <;> cases cs <;> rfl
  have hspace : (q == ' ' || q == '\r' || q == '\t') = false := by
    rcases eq_of_isQuote hq with rfl | rfl <;> rfl
  have hassign : ¬ (q == '=') = true := by
    rcases eq_of_isQuote hq with rfl | rfl <;> decide
  unfold lexeme
  rw [hspace, if_neg Bool.false_ne_true, hsymbol]
  dsimp only
  rw [if_neg hassign, if_pos hq, untilQuote_append hq hbody]

/-- A quoted text is a token, with any scanned text behind it. -/
theorem scans_quoted (hq : isQuote q = true) (hbody : Quoted q body)
    (h : Scans (column + body.length + 2) t us) :
    Scans column (q :: (body ++ q :: t)) (Token.ofQuoted q body column :: us) := by
  have hlexeme := lexeme_quoted hq hbody t
  have hlength : (body ++ [q]).length = body.length + 1 := List.length_append
  have hcons : body ++ q :: t = (body ++ [q]) ++ t := by
    rw [List.append_assoc, List.singleton_append]
  rw [hcons, ← hlength] at hlexeme
  rw [hcons]
  refine .token hlexeme (h.cast ?_)
  rw [hlength]
  omega

/-- A quoted text alone has the text that it stands for as its value. -/
theorem evaluateStrict_quoted (hq : isQuote q = true) (hbody : Quoted q body)
    (scope : Scope) :
    evaluateStrict scope (q :: (body ++ [q])) = .ok (.text (String.ofList (unescape body))) :=
  evaluateStrict_of_stands (scans_quoted hq hbody .done) (.text rfl rfl) rfl

/-- What is written as a string is read back: it is one string token, whose value is the
text in every scope; nothing of it is outside quotes; and in front of any text with tokens,
with a space between, it is one token more. -/
theorem literal_reads_back (s : String) (q : Char) (hq : isQuote q = true) :
    scan (literal q s.toList) =
        .ok [⟨.string, String.ofList (literal q s.toList), some (.text s), 0⟩,
          ⟨.eof, "", none, (literal q s.toList).length⟩] ∧
      (∀ scope, evaluate scope (literal q s.toList) = .value (.text s) ∧
        evaluateStrict scope (literal q s.toList) = .ok (.text s)) ∧
      (literal q s.toList).visible = [] ∧
      ∀ r tokens, scan r = .ok tokens →
        scan (literal q s.toList ++ ' ' :: r) =
          .ok (⟨.string, String.ofList (literal q s.toList), some (.text s), 0⟩ ::
            tokens.map (Token.recolumn (· + ((literal q s.toList).length + 1)))) := by
  have hquoted := quoted_escape q s.toList
  have htext : String.ofList (unescape (escape q s.toList)) = s := by
    rw [unescape_escape hq, String.ofList_toList]
  have hscans (column : Nat) : Scans column (literal q s.toList)
      [⟨.string, String.ofList (literal q s.toList), some (.text s), column⟩] := by
    have hscans : Scans column (q :: (escape q s.toList ++ [q]))
        [Token.ofQuoted q (escape q s.toList) column] :=
      scans_quoted hq hquoted .done
    rwa [Token.ofQuoted, htext] at hscans
  refine ⟨scanFrom_eq_ok_iff.mpr ⟨_, ?_, hscans 0⟩, fun scope => ?_, ?_, ?_⟩
  · rw [Nat.zero_add]
    rfl
  · have hstrict : evaluateStrict scope (literal q s.toList) = .ok (.text s) := by
      rw [literal, evaluateStrict_quoted hq hquoted, htext]
    exact ⟨evaluate_of_evaluateStrict scope _ _ (evaluateStrict_trim hstrict), hstrict⟩
  · exact visibleFrom_hidden (reads_quoted hq hquoted 0).2 0
  · intro r tokens hr
    obtain ⟨ts, rfl, hts⟩ := scanFrom_eq_ok_iff.mp hr
    have hmoved : Scans (0 + (literal q s.toList).length + 1) r
        (ts.map (Token.recolumn (· + ((literal q s.toList).length + 1)))) :=
      hts.recolumn fun k => by omega
    have hspace : isSpace ' ' = true := rfl
    have hwhole := (hscans 0).append (delimited_cons rfl) (.space hspace hmoved)
    refine scanFrom_eq_ok_iff.mpr ⟨_, ?_, hwhole⟩
    rw [List.map_append, List.length_append, List.length_cons]
    simp only [List.map_cons, List.map_nil, Token.recolumn, List.cons_append, List.nil_append]
    congr 4
    omega

/-- Backslashes, both quotes, a line break and a NUL, and what looks like an escape. -/
theorem literal_reads_back_escapes :
    evaluateStrict .empty "'\\\\\\'\\\\n\n\x00\"\\\\\\\\'".toList =
        .ok (.text "\\'\\n\n\x00\"\\\\") ∧
      scan ("'\\\\\\'\\\\n\n\x00\"\\\\\\\\'".toList ++ " +".toList) =
        .ok [⟨.string, "'\\\\\\'\\\\n\n\x00\"\\\\\\\\'", some (.text "\\'\\n\n\x00\"\\\\"), 0⟩,
          ⟨.plus, "+", none, 17⟩, ⟨.eof, "", none, 18⟩] := by
  have hwritten : literal '\'' "\\'\\n\n\x00\"\\\\".toList =
      "'\\\\\\'\\\\n\n\x00\"\\\\\\\\'".toList := by
    decide
  have hplus : scan "+".toList = .ok [⟨.plus, "+", none, 0⟩, ⟨.eof, "", none, 1⟩] := by cbv
  obtain ⟨-, hvalue, -, hbehind⟩ := literal_reads_back "\\'\\n\n\x00\"\\\\" '\'' rfl
  have hscan := hbehind _ _ hplus
  rw [hwritten] at hvalue hscan
  exact ⟨(hvalue .empty).2, hscan.trans (by cbv)⟩

end Offside
