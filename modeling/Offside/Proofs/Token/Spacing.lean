import Offside.Proofs.Expr.Location
import Offside.Proofs.Expr.Recolumn

/-!
# Spaces between tokens

What starts a token is decided by looking at the characters behind it: an `f` may be a name
or start a template, a `*` may be half of another token. So a space between two tokens can
matter, and without one two tokens may be read as one. Where a text has fallen into tokens
the spaces between them no longer do: written with one space between each two, the same
tokens are found, at other columns.

> `spacing_irrelevant`: a text and its tokens with single spaces between them have the same
> tree and the same value, or are wrong in the same way at the same token.
-/

namespace Offside

open Text

variable {column column' stop : Nat} {c : Char} {t u back : Text} {ts tokens : List Token}
  {kind : TokenKind} {literal : Option Literal}

/-- The tokens written out with one space between each two. -/
def spaced (ts : List Token) : Text :=
  [' '].intercalate (ts.map fun token => token.lexeme.toList)

theorem spaced_singleton (token : Token) : spaced [token] = token.lexeme.toList :=
  List.intercalate_singleton

theorem spaced_cons_cons (token next : Token) (ts : List Token) :
    spaced (token :: next :: ts) = token.lexeme.toList ++ ' ' :: spaced (next :: ts) := by
  rw [spaced, List.map_cons, List.map_cons, List.intercalate_cons_cons, List.append_assoc]
  rfl

/-- The end mark adds a space at most. -/
theorem spaced_concat_eof (ts : List Token) (column : Nat) :
    ∃ back, spaced (ts ++ [⟨.eof, "", none, column⟩]) = spaced ts ++ back ∧
      ∀ c ∈ back, isSpace c = true := by
  induction ts with
  | nil => exact ⟨[], rfl, List.forall_mem_nil _⟩
  | cons token ts ih =>
    cases ts with
    | nil =>
      refine ⟨[' '], ?_, List.forall_mem_singleton.mpr rfl⟩
      rw [List.singleton_append, spaced_cons_cons, spaced_singleton, spaced_singleton]
      rfl
    | cons next ts =>
      obtain ⟨back, hback, hspaces⟩ := ih
      refine ⟨back, ?_, hspaces⟩
      rw [List.cons_append, List.cons_append, spaced_cons_cons, ← List.cons_append, hback,
        spaced_cons_cons, List.append_assoc, List.cons_append]

/-! ## Scanning tokens that are written out -/

/-- The tokens are those of a text at a column but for their own columns. The column `stop`
becomes the one behind the text. -/
def ScansMoved (column : Nat) (u : Text) (ts : List Token) (stop : Nat) : Prop :=
  ∃ f, Scans column u (ts.map (Token.recolumn f)) ∧ f stop = column + u.length

theorem scansMoved_spaces (ht : ∀ c ∈ t, isSpace c = true) (column stop : Nat) :
    ScansMoved column t [] stop :=
  ⟨fun _ => column + t.length, scans_spaces ht column, rfl⟩

theorem ScansMoved.space (h : ScansMoved (column + 1) t ts stop) (hc : isSpace c = true) :
    ScansMoved column (c :: t) ts stop := by
  obtain ⟨f, hf, hstop⟩ := h
  refine ⟨f, .space hc hf, ?_⟩
  rw [hstop, List.length_cons]
  omega

/-- A token in front of others is moved without them, since it stands at a column of its
own. -/
theorem ScansMoved.token {cs : Text}
    (hc : lexeme c (cs ++ t) = .ok (.token kind literal cs.length))
    (hts : ∀ token ∈ ts, column' < token.column) (hstop : column' < stop)
    (h : ScansMoved (column + 1 + cs.length) t ts stop) :
    ScansMoved column (c :: (cs ++ t))
      (⟨kind, String.ofList (c :: cs), literal, column'⟩ :: ts) stop := by
  obtain ⟨f, hf, hend⟩ := h
  -- the columns of the other tokens are greater, so they go where they went
  let g := Function.update f column' column
  have hg : ∀ k, column' < k → g k = f k := fun k hk =>
    Function.update_of_ne (Nat.ne_of_gt hk) column f
  have hmap : ts.map (Token.recolumn g) = ts.map (Token.recolumn f) := by
    refine List.map_congr_left fun token htoken => ?_
    rw [Token.recolumn, Token.recolumn, hg token.column (hts token htoken)]
  have hfirst : g column' = column := Function.update_self column' column f
  refine ⟨g, ?_, ?_⟩
  · rw [List.map_cons, hmap, Token.recolumn]
    dsimp only
    rw [hfirst]
    exact .token hc hf
  · rw [hg stop hstop, hend, List.length_cons, List.length_append]
    omega

/-- Whatever stood behind a token, it is the same token in front of a delimiter. -/
theorem lexeme_spaced {cs rest : Text}
    (h : lexeme c (cs ++ rest) = .ok (.token kind literal cs.length)) (hu : Delimited u) :
    lexeme c (cs ++ u) = .ok (.token kind literal cs.length) := by
  have halone : lexeme c (cs ++ []) = .ok (.token kind literal cs.length) := by
    rw [List.append_nil]
    exact lexeme_of_append h (Nat.le_refl _)
  exact lexeme_delimited halone (Nat.le_refl _) delimited_nil hu

/-- **Single spaces.** The tokens of a text are those of the text in which they are written
out, with spaces at its end or without. -/
theorem Scans.moved_spaced (h : Scans column' t ts) (hback : ∀ c ∈ back, isSpace c = true)
    (column : Nat) : ScansMoved column (spaced ts ++ back) ts (column' + t.length) := by
  induction h generalizing column with
  | done => exact scansMoved_spaces hback column _
  | @space column' c cs ts hc h ih =>
    rw [List.length_cons, ← Nat.add_assoc, Nat.add_right_comm]
    exact ih column
  | @token column' c cs rest kind literal ts hc h ih =>
    have hts : ∀ token ∈ ts, column' < token.column := by
      intro token htoken
      have hle := h.column_le token htoken
      omega
    have hstop : column' + (c :: (cs ++ rest)).length = column' + 1 + cs.length + rest.length := by
      rw [List.length_cons, List.length_append]
      omega
    rw [hstop]
    have hlt : column' < column' + 1 + cs.length + rest.length := by omega
    cases ts with
    | nil =>
      rw [spaced_singleton, String.toList_ofList, List.cons_append]
      exact .token (lexeme_spaced hc (delimited_spaces hback)) hts hlt (ih _)
    | cons next ts =>
      rw [spaced_cons_cons, String.toList_ofList, List.cons_append, List.cons_append,
        List.append_assoc, List.cons_append]
      exact .token (lexeme_spaced hc (delimited_cons rfl)) hts hlt ((ih _).space rfl)

/-- A text with the tokens of another one, but for their columns, is scanned as that. -/
theorem ScansMoved.exists_scan (h : ScansMoved 0 u ts stop) :
    ∃ f, scan u =
      .ok (List.map (Token.recolumn f) (ts ++ [⟨.eof, "", none, stop⟩])) := by
  obtain ⟨f, hf, hstop⟩ := h
  have hscan : scanFrom 0 u = .ok _ := scanFrom_eq_ok_iff.mpr ⟨_, rfl, hf⟩
  refine ⟨f, ?_⟩
  rw [List.map_append, List.map_singleton, Token.recolumn, hstop]
  exact hscan

/-! ## Trees, faults and values -/

theorem column?_recolumn (f : Nat → Nat) (fault : ParseFault) :
    (fault.recolumn f).column? = fault.column?.map f := by
  cases fault <;> rfl

/-- Texts with the same tokens but for their columns have the same tree but for its columns,
or the same fault but for its column. -/
theorem parseText_recolumn {f : Nat → Nat} (hscan : scan t = .ok tokens)
    (hscan' : scan u = .ok (tokens.map (Token.recolumn f))) :
    parseText u = ((parseText t).map (Expr.recolumn f)).mapError (Fault.recolumn f) := by
  obtain ⟨ts, rfl, hts⟩ := scanFrom_eq_ok_iff.mp hscan
  have hend : Token.kind ⟨.eof, "", none, 0 + t.length⟩ = .eof := rfl
  have hparse := parse_recolumn hts.ne_eof hend f
  unfold parseText
  rw [hscan, hscan']
  dsimp only
  rw [hparse]
  cases parse (ts ++ [⟨.eof, "", none, 0 + t.length⟩]) <;> rfl

/-- Where texts have the same tree or fault but for columns, they have the same value or
fault at run time. -/
theorem evaluateStrict_recolumn {f : Nat → Nat}
    (h : parseText u = ((parseText t).map (Expr.recolumn f)).mapError (Fault.recolumn f))
    (scope : Scope) :
    evaluateStrict scope u = (evaluateStrict scope t).mapError (Fault.recolumn f) := by
  unfold evaluateStrict
  rw [h]
  cases parseText t with
  | error fault => rfl
  | ok e =>
    simp only [Except.map, Except.mapError, Expr.eval_recolumn]
    cases e.eval scope <;> rfl

/-- **Spacing does not matter.** The tokens of a text, written out with one space between each
two and with or without the end mark, are found again in the written text, at other columns.
The two texts form the same tree but for its columns, or they are wrong in the same way at
the same token; and in every scope they have the same value or the same fault. -/
theorem spacing_irrelevant (hscan : scan t = .ok tokens)
    (hu : u = spaced tokens ∨ u = spaced tokens.dropLast) :
    ∃ f, scan u = .ok (tokens.map (Token.recolumn f)) ∧
      parseText u = ((parseText t).map (Expr.recolumn f)).mapError (Fault.recolumn f) ∧
      (∀ fault, parse tokens = .error fault → ∃ token ∈ tokens,
        fault.column? = some token.column ∧
        (fault.recolumn f).column? = some (token.recolumn f).column) ∧
      ∀ scope, evaluateStrict scope u = (evaluateStrict scope t).mapError (Fault.recolumn f) := by
  obtain ⟨ts, rfl, hts⟩ := scanFrom_eq_ok_iff.mp hscan
  -- behind the last token the end mark leaves a space or nothing
  obtain ⟨back, rfl, hback⟩ : ∃ back, u = spaced ts ++ back ∧ ∀ c ∈ back, isSpace c = true := by
    rcases hu with rfl | rfl
    · exact spaced_concat_eof ts _
    · refine ⟨[], ?_, List.forall_mem_nil _⟩
      rw [List.dropLast_concat, List.append_nil]
  obtain ⟨f, hf⟩ := (hts.moved_spaced hback 0).exists_scan
  have hparse := parseText_recolumn hscan hf
  refine ⟨f, hf, hparse, fun fault hfault => ?_, evaluateStrict_recolumn hparse⟩
  rw [parse_of_end hts.ne_eof rfl] at hfault
  obtain ⟨token, htoken, hcolumn⟩ := (located_parseBefore hfault).exists_token
  refine ⟨token, htoken, hcolumn, ?_⟩
  rw [column?_recolumn, hcolumn]
  rfl

/-- Single spaces part a template from the comparison in front of it and from the word behind
it, which is parted from a string in turn. -/
theorem spacing_irrelevant_template :
    let tokens : List Token :=
      [⟨.identifier, "f", some (.name "f"), 0⟩, ⟨.lessEqual, "<=", none, 1⟩,
        ⟨.template, "f'b'", some (.text "b"), 3⟩, ⟨.orWord, "or", none, 7⟩,
        ⟨.string, "'f'", some (.text "f"), 9⟩, ⟨.eof, "", none, 12⟩]
    scan "f<=f'b'or'f'".toList = .ok tokens ∧ spaced tokens = "f <= f'b' or 'f' ".toList ∧
      ∃ f, scan "f <= f'b' or 'f' ".toList = .ok (tokens.map (Token.recolumn f)) ∧
        ∀ scope, evaluateStrict scope "f <= f'b' or 'f' ".toList =
          (evaluateStrict scope "f<=f'b'or'f'".toList).mapError (Fault.recolumn f) := by
  intro tokens
  have hscan : scan "f<=f'b'or'f'".toList = .ok tokens := by cbv
  have hspaced : "f <= f'b' or 'f' ".toList = spaced tokens := by rfl
  obtain ⟨f, hf, -, -, heval⟩ := spacing_irrelevant hscan (.inl hspaced)
  exact ⟨hscan, hspaced.symm, f, hf, heval⟩

end Offside
