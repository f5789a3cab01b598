import Mathlib.Data.List.Basic
import Offside.Proofs.Machine.Points
import Offside.Proofs.Program.Writing
import Offside.Proofs.Text.Lines
import Offside.Proofs.Token.Quotes

/-!
# What a print shows

A print goes a long way from its line to what it shows. The line is freed of its comment,
recognized by its first word and its brackets, and cut at its commas; and each argument
is evaluated by its text, or shown as a template, without being parsed first. All of these
read the text in their own way, and on expressions they agree:

> `print_shows_values`: a print of expressions that have values shows these values, with
> one blank between them, and does nothing else.
-/

namespace Offside

open Text Nesting Machine

variable {column : Nat} {t front : Text} {ts : List Token} {scope : Scope} {v : Value}
  {texts : List Text} {vs : List Value}

/-! ## The line -/

/-- A text that can be scanned has no comment. -/
theorem Scans.stripComment_eq (h : Scans column t ts) : stripComment t = t := by
  have hstrip := beforeComment_append (h.ne_numberSign 0) []
  rwa [List.append_nil, beforeComment, List.append_nil] at hstrip

/-- A text that can be scanned, with blanks in front of it, is the text of its line. -/
theorem Scans.ofRaw_eq (h : Scans column t ts) (htrimmed : Trimmed t) (hfront : Blank front)
    (hne : t ≠ []) (number : Nat) :
    Line.ofRaw number (front ++ t) = ⟨number, front.length, t⟩ := by
  have hindent : (front ++ t).takeWhile isBlank = front := by
    rw [List.takeWhile_append_of_pos hfront]
    cases t with
    | nil => exact absurd rfl hne
    | cons c cs =>
      rw [List.takeWhile_cons_of_neg (by rw [htrimmed.first c rfl]; decide), List.append_nil]
  rw [Line.ofRaw, hindent, trimStart_append hfront, trimStart_of_first htrimmed.first,
    h.stripComment_eq, trimEnd_of_last htrimmed.last]

/-- A text without line feeds is one line. -/
theorem lines_of_not_mem (h : '\n' ∉ t) (hne : t ≠ []) : t.lines = [t] := by
  induction t with
  | nil => exact absurd rfl hne
  | cons c cs ih =>
    rw [List.mem_cons, not_or] at h
    have hreturn (rest : Text) (_ : c = '\r') : cs ≠ '\n' :: rest := by
      rintro rfl
      exact h.2 List.mem_cons_self
    rw [lines_cons (Ne.symm h.1) hreturn]
    cases cs with
    | nil => rfl
    | cons d ds => rw [ih h.2 (List.cons_ne_nil d ds), consFirst]

theorem sourceLines_of_not_mem (h : '\n' ∉ t) (hne : t ≠ []) :
    sourceLines t = [Line.ofRaw 1 t] := by
  rw [sourceLines, lines_of_not_mem h hne]
  rfl

/-- A name and what is between its brackets are scanned as one text. -/
theorem scans_parenthesized {word : Text} {us : List Token} (hword : word.isIdentifier = true)
    (h : Scans (word.length + 1) t us) : ∃ ts, Scans 0 (word ++ t.parenthesized) ts := by
  have hopening : TokenKind.leftParen.mark? = some '(' := rfl
  have hclosing : TokenKind.rightParen.mark? = some ')' := rfl
  have hinside := h.append (delimited_cons rfl) (.of_mark hclosing .done)
  have hbrackets : Scans (0 + word.length) t.parenthesized _ :=
    .of_mark hopening (hinside.cast (by omega))
  exact ⟨_, hbrackets.of_name hword endsWord_parenthesized⟩

/-! ## The values -/

/-- An argument that has a value is shown by the text of this value, also if the argument
is a template. -/
theorem shownArgument_of_evaluateStrict (h : evaluateStrict scope t = .ok v) :
    shownArgument scope t = v.display := by
  unfold shownArgument
  split
  next body hbody =>
    unfold templateBody? at hbody
    split at hbody
    next lexeme raw column honly =>
      cases hbody
      have htemplate : evaluateStrict scope t =
          .ok (.text (String.ofList (interpolate scope (unescape raw.toList)))) :=
        evaluateStrict_of_stands (scans_of_onlyToken? honly) (.template rfl rfl) rfl
      rw [h] at htemplate
      cases htemplate
      rfl
    next => contradiction
  next =>
    rw [evaluate_of_evaluateStrict scope t v (evaluateStrict_trim h)]
    rfl

theorem HasValues.isExpression (h : HasValues scope texts vs)
    (htrimmed : ∀ t ∈ texts, t.trim = t) : ∀ t ∈ texts, IsExpression t := by
  induction h with
  | nil =>
    intro t ht
    contradiction
  | @cons text v texts vs hvalue hrest ih =>
    intro t ht
    rcases List.mem_cons.mp ht with rfl | ht
    · obtain ⟨e, hparse, -⟩ := evaluateStrict_eq_ok_iff.mp hvalue
      exact ⟨htrimmed t List.mem_cons_self, e, hparse⟩
    · exact ih (fun u hu => htrimmed u (List.mem_cons_of_mem text hu)) t ht

theorem HasValues.map_shownArgument (h : HasValues scope texts vs) :
    texts.map (shownArgument scope) = vs.map Value.display := by
  induction h with
  | nil => rfl
  | cons hvalue hrest ih =>
    rw [List.map_cons, List.map_cons, shownArgument_of_evaluateStrict hvalue, ih]

/-! ## The line of a print -/

/-- The line that prints some arguments. -/
def printLine (texts : List Text) : Text :=
  "print".toList ++ (listed texts).parenthesized

/-- The line of a print of expressions with values, with blanks in front of it. -/
theorem HasValues.runLine_printLine {m : Machine} (h : HasValues m.scope texts vs)
    (htrimmed : ∀ t ∈ texts, t.trim = t) (hfront : Blank front) (number : Nat)
    (context : Context) (chains : Chains) (rest : List Line) :
    m.runLine context chains (Line.ofRaw number (front ++ printLine texts)) rest =
      (m.print (" ".intercalate (vs.map Value.display)),
        .ok (.goOn (chains.below front.length) 0)) := by
  have hexpressions := h.isExpression htrimmed
  have hword : isIdentifier "print".toList = true := by decide
  obtain ⟨ts, es, hts, -⟩ := scans_listed hexpressions ("print".toList.length + 1)
  obtain ⟨us, hus⟩ := scans_parenthesized hword hts
  have hline := hus.ofRaw_eq (trimmed_parenthesized hword) hfront (List.cons_ne_nil _ _) number
  have hclassify := classify_print (isArguments_listed hexpressions)
  rw [printLine, hline, runLine_of_classify m context chains rest hclassify (by simp) rfl,
    perform, printedLine, pieces_listed hexpressions, h.map_shownArgument]

/-- Without line breaks in the arguments a print is one line. -/
theorem sourceLines_printLine (h : ∀ t ∈ texts, '\n' ∉ t) :
    sourceLines (printLine texts) = [Line.ofRaw 1 (printLine texts)] := by
  have hlisted : '\n' ∉ listed texts := by
    induction texts with
    | nil => exact List.not_mem_nil
    | cons text texts ih =>
      have htext := h text List.mem_cons_self
      have hrest := ih fun t ht => h t (List.mem_cons_of_mem text ht)
      cases texts with
      | nil => rwa [listed_singleton]
      | cons next texts =>
        rw [listed_cons_cons]
        simp [htext, hrest]
  refine sourceLines_of_not_mem ?_ (List.cons_ne_nil _ _)
  rw [printLine, parenthesized]
  simp [hlisted]

/-- **A print shows the values of its arguments.** If each of some trimmed expressions has
a value in the active scope, then the line that prints them shows the texts of these values
with one blank between them and changes nothing else, as a program of its own under any
limits as well as behind any indentation among any other lines. -/
theorem print_shows_values {m : Machine} (htrimmed : ∀ t ∈ texts, t.trim = t)
    (hbreak : ∀ t ∈ texts, '\n' ∉ t) (hvalues : HasValues m.scope texts vs) :
    let printed : Machine :=
      { m with output := m.output.push (" ".intercalate (vs.map Value.display)) }
    (∀ limits, interpret limits (printLine texts) m = (printed, .ok ())) ∧
    (∀ front number context chains rest, Blank front →
      m.runLine context chains (Line.ofRaw number (front ++ printLine texts)) rest =
        (printed, .ok (.goOn (chains.below front.length) 0))) := by
  intro printed
  constructor
  · intro limits
    have hfront : Blank [] := by
      intro c hc
      contradiction
    have hline := hvalues.runLine_printLine htrimmed hfront 1
    rw [List.nil_append] at hline
    rw [interpret, sourceLines_printLine hbreak, runUnder_eq, Point.start, Point.run_cons, hline]
    dsimp only
    rw [List.drop_nil, Point.run_nil]
    rfl
  · intro front number context chains rest hfront
    exact hvalues.runLine_printLine htrimmed hfront number context chains rest

/-- A template, a list and a sum of strings, with signs in their quotes that would cut the
line elsewhere. -/
theorem print_shows_values_quoted :
    let m : Machine := { globals := .ofList [("x", .list [.text "a,b", .nothing])] }
    let texts : List Text := ["f'\x7bx\x7d #1, (='".toList, "[x, [True, ']#']]".toList,
      "'\"it' + \"'s = [\"".toList]
    let shown := "['a,b', None] #1, (= [['a,b', None], [True, ']#']] \"it's = ["
    interpret {} (printLine texts) m = ({ m with output := #[shown] }, .ok ()) := by
  intro m texts shown
  let vs : List Value := [.text "['a,b', None] #1, (=", .list [.list [.text "a,b", .nothing],
    .list [.truth true, .text "]#"]], .text "\"it's = ["]
  have hvalues : HasValues m.scope texts vs :=
    .cons (by cbv) (.cons (by cbv) (.cons (by cbv) .nil))
  have hshown : " ".intercalate (vs.map Value.display) = shown := by cbv
  rw [← hshown]
  exact (print_shows_values (by decide) (by decide) hvalues).1 {}

end Offside
