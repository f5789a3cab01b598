import Mathlib
import Offside.Proofs.Expr.Opening
import Offside.Proofs.Token.Brackets

/-!
# The pieces of an argument list are its arguments

Argument lists are cut in two ways: as text, at the commas outside quotes and brackets,
and by the parser, between tokens. Both give the same arguments. Main result:
`pieces_agree`.
-/

namespace Offside

open Text Nesting

variable {column : Nat} {c : Char} {s t part front back : Text} {ts us : List Token} {e : Expr}
  {es : List Expr}

/-- The text is an expression by itself, with the tree `e` up to columns. -/
def ParsesAs (t : Text) (e : Expr) : Prop :=
  ∃ e', parseText t = .ok e' ∧ e'.bare = e.bare

/-- A trimmed text is the expression that its tokens derive. -/
theorem Scans.parsesAs_trim (h : Scans column t ts) (he : Derives (.joined .or) ts e) :
    ParsesAs t.trim e := by
  obtain ⟨_, htrim⟩ := h.trim
  obtain ⟨f, hstart⟩ := htrim.move 0
  exact ⟨e.recolumn f, parseText_eq_ok_iff.mpr ⟨_, hstart, he.recolumn f⟩, e.bare_recolumn⟩

theorem Scans.reads_expression (h : Scans column t ts) {level : Level}
    (he : Derives level ts e) : start.read t = start ∧ Along (Clear 0 0) start t :=
  h.reads (he.climb? 0 0 0 (Nat.le_refl 0) (Nat.le_refl 0))

/-! ## From arguments to pieces -/

theorem Scans.blank_of_nil (h : Scans column t []) : Blank t := by
  generalize hts : [] = ts at h
  induction h with
  | done =>
    intro c hc
    contradiction
  | space hc h ih =>
    intro d hd
    rcases List.mem_cons.mp hd with rfl | hd
    · exact isBlank_of_isSpace hc
    · exact ih hts d hd
  | token => contradiction

theorem trim_eq_nil_iff : t.trim = [] ↔ Blank t := by
  obtain ⟨front, back, ht, hfront, hback, -⟩ := exists_trim t
  constructor
  · intro htrim
    rw [ht, htrim]
    exact hfront.append hback
  · intro hblank
    unfold trim
    refine trimEnd_of_blank fun c hc => hblank c ?_
    exact (List.dropWhile_sublist isBlank).subset hc

theorem wholePiece_of_blank (h : Blank t) : t.wholePiece = [] := by
  unfold wholePiece
  rw [trim_eq_nil_iff.mpr h]
  rfl

theorem wholePiece_of_derives (h : Scans column t ts) (hne : ts ≠ []) :
    t.wholePiece = [t.trim] := by
  unfold wholePiece
  refine if_neg fun hempty => hne ?_
  exact h.eq_nil_of_blank (trim_eq_nil_iff.mp (List.isEmpty_iff.mp hempty))

/-- The elements between brackets are the pieces of the text between them. -/
theorem pieces_of_elements {ts : List Token} {es : List Expr} :
    Elements ts es → ∀ {column : Nat} {s : Text}, Scans column s ts →
      List.Forall₂ ParsesAs s.pieces es
  | .nil, _, s, h => by
    have hclear : Along (Clear 0 0) start s := (h.reads rfl).2
    rw [pieces_of_clear hclear, wholePiece_of_blank h.blank_of_nil]
    exact .nil
  | .last he, _, s, h => by
    rw [pieces_of_clear (h.reads_expression he).2, wholePiece_of_derives h he.ne_nil]
    exact .cons (h.parsesAs_trim he) .nil
  | .cons he ht hes, _, s, h => by
    obtain ⟨front, back, rfl, hfront, hback⟩ := h.cut (c := ',') (by rw [ht]; rfl) rfl
    obtain ⟨hread, hclear⟩ := hfront.reads_expression he
    rw [pieces_comma hclear hread back]
    exact .cons (hfront.parsesAs_trim he) (pieces_of_elements hes hback)

/-! ## From pieces to arguments -/

/-- A blank outside quotes stands between tokens. -/
def BlankIsSpace (s : Nesting) (c : Char) : Prop :=
  (s.level c).isSome = true → isBlank c = true → isSpace c = true

/-- Where blanks outside quotes are spaces, blanks are spaces. -/
theorem isSpace_of_blank (hblank : Blank front) (h : Along BlankIsSpace start front) :
    ∀ c ∈ front, isSpace c = true := by
  induction front with
  | nil =>
    intro c hc
    contradiction
  | cons c cs ih =>
    have hc := hblank c List.mem_cons_self
    obtain ⟨hnext, hlevel⟩ := next_of_isBlank hc 0
    have hcs : Along BlankIsSpace start cs := by
      have htail := h.2
      rwa [start, hnext] at htail
    intro d hd
    rcases List.mem_cons.mp hd with rfl | hd
    · exact h.1 (by rw [start, hlevel]; rfl) hc
    · exact ih (fun d hd => hblank d (List.mem_cons_of_mem c hd)) hcs d hd

/-- A part whose trimmed text is an expression has the tokens of one. -/
theorem scans_of_trim (hparse : parseText part.trim = .ok e)
    (hblank : Along BlankIsSpace start part) (column : Nat) :
    ∃ ts e', Scans column part ts ∧ Derives (.joined .or) ts e' ∧ e'.bare = e.bare := by
  obtain ⟨front, back, hpart, hfront, hback, -⟩ := exists_trim part
  obtain ⟨ts, hts, he⟩ := parseText_eq_ok_iff.mp hparse
  obtain ⟨f, hmoved⟩ := hts.move (column + front.length)
  rw [hpart, along_append, along_append] at hblank
  have hback' : Along BlankIsSpace start back := by
    have htail := hblank.2.2
    have hreadFront : start.read front = start := read_of_blank hfront 0
    rwa [hreadFront, (hts.reads_expression he).1] at htail
  refine ⟨ts.map (Token.recolumn f), e.recolumn f, ?_, he.recolumn f, e.bare_recolumn⟩
  rw [hpart]
  exact hmoved.between_spaces (isSpace_of_blank hfront hblank.1) (isSpace_of_blank hback hback')

/-- Pieces that are expressions make the text between brackets a sequence of them. -/
theorem elements_of_pieces (s : Text) (hblank : Along BlankIsSpace start s) (es : List Expr)
    (h : List.Forall₂ (fun piece e => parseText piece = .ok e) s.pieces es) (column : Nat) :
    ∃ ts es', Scans column s ts ∧ Elements ts es' ∧ es'.map Expr.bare = es.map Expr.bare := by
  induction s using commas_induction generalizing es column with
  -- the last part, which may be blank
  | uncut s hclear =>
    rw [pieces_of_clear hclear, wholePiece] at h
    split at h
    next hempty =>
      cases h
      have hs := trim_eq_nil_iff.mp (List.isEmpty_iff.mp hempty)
      exact ⟨[], [], scans_spaces (isSpace_of_blank hs hblank) column, .nil, rfl⟩
    next =>
      cases h with
      | @cons _ e _ _ hparse hrest =>
        cases hrest
        obtain ⟨ts, e', hts, he, hbare⟩ := scans_of_trim hparse hblank column
        exact ⟨ts, [e'], hts, .last he, by rw [List.map_singleton, List.map_singleton, hbare]⟩
  -- a part in front of a comma, where the reading starts anew
  | cut part rest hclear hread ih =>
    rw [pieces_comma hclear hread rest] at h
    cases h with
    | @cons _ e _ es hparse hrest =>
      rw [along_append, hread] at hblank
      obtain ⟨ts, e', hts, he, hbare⟩ := scans_of_trim hparse hblank.1 column
      obtain ⟨us, es', hus, hes, hbares⟩ := ih hblank.2.2 es hrest (column + part.length + 1)
      let comma : Token := ⟨.comma, String.ofList [','], none, column + part.length⟩
      have hcomma : comma.kind = .comma := rfl
      refine ⟨ts ++ comma :: us, e' :: es', ?_, .cons he hcomma hes, ?_⟩
      · exact hts.append (delimited_cons rfl) (.of_mark rfl hus)
      · rw [List.map_cons, List.map_cons, hbare, hbares]

/-! ## Bracketed texts -/

/-- The tokens before a closing token that is the last character. -/
theorem Scans.cut_last {u : Token} (h : Scans column (s ++ [c]) (ts ++ [u]))
    (hkind : u.kind.mark? = some c) (hc : isDelimiter c = true) : Scans column s ts := by
  obtain ⟨front, back, hs, hfront, hback⟩ := h.cut hkind hc
  have hblank := hback.blank_of_nil
  cases back with
  | nil =>
    rw [List.append_cancel_right hs]
    exact hfront
  | cons d ds =>
    -- the last character would be a blank
    have hlast : (s ++ [c]).getLast? = (front ++ c :: d :: ds).getLast? := congrArg _ hs
    rw [List.getLast?_concat, List.getLast?_append, List.getLast?_cons_cons,
      List.getLast?_eq_some_getLast (List.cons_ne_nil d ds)] at hlast
    have hmem : c ∈ d :: ds := by
      cases hlast
      exact List.getLast_mem _
    have hfalse := isBlank_of_mark? hkind
    rw [hblank c hmem] at hfalse
    contradiction

/-- A scanned text that begins with an identifier begins with its name. -/
theorem Scans.name_append {name rest : Text} (h : Scans column (name ++ rest) ts)
    (hname : name.isIdentifier = true) (hrest : EndsWord rest) :
    ∃ us, ts = ⟨.identifier, String.ofList name, some (.name (String.ofList name)), column⟩ :: us ∧
      Scans (column + name.length) rest us := by
  cases name with
  | nil => contradiction
  | cons c cs =>
    obtain ⟨us, hts, hus⟩ := h.token_cons (lexeme_of_isIdentifier hname hrest)
    refine ⟨us, hts, hus.cast ?_⟩
    rw [List.length_cons]
    omega

/-- In front of a scanned text an identifier is one token, the name. -/
theorem Scans.of_name {name rest : Text} (h : Scans (column + name.length) rest ts)
    (hname : name.isIdentifier = true) (hrest : EndsWord rest) :
    Scans column (name ++ rest)
      (⟨.identifier, String.ofList name, some (.name (String.ofList name)), column⟩ :: ts) := by
  cases name with
  | nil => contradiction
  | cons c cs =>
    refine .token (lexeme_of_isIdentifier hname hrest) (h.cast ?_)
    rw [List.length_cons]
    omega

/-- What is between the brackets that a text begins and ends with is cut into pieces
as the parser takes it apart. -/
theorem pieces_of_opens {closing : Closing} {build : List Expr → Expr} {us : List Token}
    (h : Scans column (s ++ [c]) us) (hc : closing.kind.mark? = some c)
    (hopens : Opens closing build us e) (he : e.isJoined = false) :
    ∃ es, e = build es ∧ List.Forall₂ ParsesAs s.pieces es := by
  obtain ⟨xs, u, vs, es, rfl, hu, hxs, ⟨rfl, rfl⟩ | ⟨-, hjoined⟩⟩ := hopens
  · rw [← hu] at hc
    have hdelimiter : isDelimiter c = true := by
      rw [hu] at hc
      cases closing <;> cases hc <;> rfl
    exact ⟨es, rfl, pieces_of_elements hxs (h.cut_last hc hdelimiter)⟩
  · rw [he] at hjoined
    contradiction

/-- The tokens of an expression that begins with a square bracket open a list. -/
theorem opens_of_parseText (h : parseText ('[' :: s) = .ok e) :
    ∃ us, Scans 1 s us ∧ Opens .list .list us e := by
  obtain ⟨ts, hts, he⟩ := parseText_eq_ok_iff.mp h
  have hopening : TokenKind.leftBracket.mark? = some '[' := rfl
  obtain ⟨us, rfl, hus⟩ := hts.mark_cons hopening
  exact ⟨us, hus, he.opens (.list rfl) rfl⟩

/-- A sequence of elements in square brackets is a list. -/
theorem parseText_list (h : Scans 1 s ts) (hes : Elements ts es) :
    parseText ('[' :: (s ++ [']'])) = .ok (.list es) := by
  let opening : Token := ⟨.leftBracket, String.ofList ['['], none, 0⟩
  let closing : Token := ⟨.rightBracket, String.ofList [']'], none, 1 + s.length⟩
  have hopening : opening.kind = .leftBracket := rfl
  have hclosing : closing.kind = .rightBracket := rfl
  have hscan : Scans 0 ('[' :: (s ++ [']'])) (opening :: (ts ++ [closing])) :=
    .of_mark rfl (h.append (delimited_cons rfl) (.of_mark rfl .done))
  exact parseText_eq_ok_iff.mpr
    ⟨_, hscan, Derives.expression (.bare (.list hopening hes hclosing))⟩

/-! ## The pieces of an argument list are its arguments -/

/-- **The pieces of an argument list are its arguments.** Where the parser reads a list
or a call of a name, its elements are, up to columns, the pieces of the text between the
brackets. Conversely pieces that are expressions make a list of them, if blanks outside
quotes are only those that may stand between tokens. -/
theorem pieces_agree (s : Text) :
    (∀ es, parseText ('[' :: (s ++ [']'])) = .ok (.list es) →
      List.Forall₂ ParsesAs s.pieces es) ∧
    (∀ name called column arguments, name.isIdentifier = true →
      parseText (name ++ '(' :: (s ++ [')'])) = .ok (.call called column arguments) →
        called = String.ofList name ∧ List.Forall₂ ParsesAs s.pieces arguments) ∧
    (∀ es, (∀ front c back, s = front ++ c :: back → ((start.read front).level c).isSome = true →
        isBlank c = true → c = ' ' ∨ c = '\t' ∨ c = '\r') →
      List.Forall₂ (fun piece e => parseText piece = .ok e) s.pieces es →
        ∃ es', parseText ('[' :: (s ++ [']'])) = .ok (.list es') ∧
          es'.map Expr.bare = es.map Expr.bare) := by
  refine ⟨?_, ?_, ?_⟩
  · intro es hparse
    obtain ⟨us, hus, hopens⟩ := opens_of_parseText hparse
    obtain ⟨es', hes, hpieces⟩ := pieces_of_opens hus rfl hopens rfl
    cases hes
    exact hpieces
  · intro name called column arguments hname hparse
    obtain ⟨ts, hts, he⟩ := parseText_eq_ok_iff.mp hparse
    have hword : EndsWord ('(' :: (s ++ [')'])) := by
      intro c hc
      cases hc
      decide
    obtain ⟨us, rfl, hus⟩ := hts.name_append hname hword
    have hopening : TokenKind.leftParen.mark? = some '(' := rfl
    obtain ⟨vs, rfl, hvs⟩ := hus.mark_cons hopening
    have hopens : Opens .arguments (.call (String.ofList name) 0) vs
        (.call called column arguments) := he.opens (.call (.var rfl rfl) rfl) rfl
    obtain ⟨es, hes, hpieces⟩ := pieces_of_opens hvs rfl hopens rfl
    cases hes
    exact ⟨rfl, hpieces⟩
  · intro es hspaces hpieces
    have hblank : Along BlankIsSpace start s := by
      refine along_iff_forall.mpr fun front c back hs hlevel hc => ?_
      rcases hspaces front c back hs hlevel hc with rfl | rfl | rfl <;> rfl
    obtain ⟨ts, es', hts, hes, hbare⟩ := elements_of_pieces s hblank es hpieces 1
    exact ⟨es', parseText_list hts hes, hbare⟩

/-- Two names, as elements, as arguments, and put together again. -/
theorem pieces_agree_names :
    let s : Text := "a, b".toList
    List.Forall₂ ParsesAs s.pieces [.var "a" 1, .var "b" 4] ∧
      List.Forall₂ ParsesAs s.pieces [.var "a" 2, .var "b" 5] ∧
      ∃ es, parseText ('[' :: (s ++ [']'])) = .ok (.list es) ∧
        es.map Expr.bare = [.var "a" 0, .var "b" 0] := by
  intro s
  obtain ⟨hlist, hcall, hpieces⟩ := pieces_agree s
  have hspaces : s.all (fun c => !isBlank c || c == ' ') = true := by decide
  refine ⟨hlist _ (by cbv), (hcall ['f'] "f" 0 _ (by decide) (by cbv)).2, ?_⟩
  refine hpieces [.var "a" 0, .var "b" 0] ?_ ?_
  · rintro front c back hs - hblank
    have hmem : c ∈ s := by
      rw [hs]
      exact List.mem_append_right front List.mem_cons_self
    have hc := List.all_eq_true.mp hspaces c hmem
    rw [hblank, Bool.not_true, Bool.false_or, beq_iff_eq] at hc
    exact .inl hc
  · have hsplit : s.pieces = ["a".toList, "b".toList] := by decide
    rw [hsplit]
    exact .cons (by cbv) (.cons (by cbv) .nil)

end Offside
