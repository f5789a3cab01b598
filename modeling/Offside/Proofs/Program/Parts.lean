import Mathlib.Data.List.Basic
import Offside.Proofs.Degrading
import Offside.Proofs.Program.Leading
import Offside.Proofs.Token.Relations

/-!
# The parts of a statement

The texts that a statement is put together from: names, expressions, and arguments
between brackets. What is in them is hidden from whatever looks for the text between the
parts: brackets that are opened in them are closed in them, and they have no sign of an
assignment.
-/

namespace Offside

open Text Nesting

variable {column depth : Nat} {c opening closing : Char} {t u front back : Text}
  {ts : List Token} {e : Expr}

/-- An identifier as a name. -/
def IsName (name : String) : Prop :=
  Text.isIdentifier name.toList = true

/-- A trimmed text that parses as an expression. -/
def IsExpression (t : Text) : Prop :=
  t.trim = t ∧ ∃ e, parseText t = .ok e

/-- A text that parses as a list between square brackets. -/
def IsArguments (t : Text) : Prop :=
  ∃ es, parseText ('[' :: (t ++ [']'])) = .ok (.list es)

/-! ## Texts that the search for a sign passes over -/

/-- The search for the sign of an assignment passes over the text, inside `depth`
brackets. -/
def Passed (depth : Nat) (t : Text) : Prop :=
  ∀ previous tail, tail.head? ≠ some '=' →
    cutAtAssignment? (plain depth) previous false (t ++ tail) =
      (cutAtAssignment? (plain depth) none false tail).map (prepend t)

/-- A text and what follows it are passed over together, if no sign of an assignment arises
where they meet. -/
theorem Passed.append (ht : Passed depth t) (hu : Passed depth u) (hhead : u.head? ≠ some '=') :
    Passed depth (t ++ u) := by
  intro previous tail htail
  have hbehind : (u ++ tail).head? ≠ some '=' := by
    cases u with
    | nil => exact htail
    | cons c cs => exact hhead
  rw [List.append_assoc, ht previous _ hbehind, hu none tail htail, map_prepend]

/-- Where a whole text is passed over, there is no assignment in it. -/
theorem Passed.cut_eq_none (h : Passed 0 t) : cutAtAssignment? start none false t = none := by
  have hwhole := h none [] (by decide)
  rwa [List.append_nil] at hwhole

/-- A text is passed over if no character outside its quotes and brackets is a sign, and it
leaves the reading where it was. -/
theorem passed_of_along (hsign : Along Signless (plain depth) t)
    (hread : (plain depth).read t = plain depth) : Passed depth t := by
  intro previous tail htail
  obtain ⟨last, hlast⟩ := cutAtAssignment?_append hsign previous
  rw [hlast, hread, cutAtAssignment?_of_head htail]

/-- A word is passed over. -/
theorem passed_of_continuesWord (h : ∀ c ∈ t, continuesWord c = true) : Passed 0 t := by
  have hreads : (plain 0).read t = plain 0 ∧ Along (Clear 0 0) (plain 0) t :=
    reads_flat (fun c hc => isFlat_of_continuesWord (h c hc)) 0
  refine passed_of_along ?_ hreads.1
  exact along_signless_of_forall (fun c hc => ne_equal_of_continuesWord (h c hc)) _

/-! ## Texts that may stand between brackets -/

/-- Inside brackets the text closes what it opens, and no more; and the search for the
sign of an assignment passes over it. -/
structure Enclosed (t : Text) : Prop where
  read : (plain 1).read t = plain 1
  clear : Along (Clear 0 1) (plain 1) t
  passed : Passed 1 t

/-- A text is enclosed if its tokens can be scanned, no sign of an assignment is among them,
and their brackets are closed. -/
theorem Scans.enclosed (h : Scans column t ts) (hapart : Apart false ts)
    (hclimb : climb? 0 1 1 ts = some 1) : Enclosed t where
  read := (h.reads hclimb).1
  clear := (h.reads hclimb).2
  passed := fun previous _ htail => h.cutAtAssignment? hapart hclimb htail previous

/-- An expression can be scanned, and its tokens are derived. -/
theorem IsExpression.scans (h : IsExpression t) :
    ∃ ts e, Scans 0 t ts ∧ Derives (.joined .or) ts e := by
  obtain ⟨-, e, hparse⟩ := h
  obtain ⟨ts, hts, he⟩ := parseText_eq_ok_iff.mp hparse
  exact ⟨ts, e, hts, he⟩

/-- No sign of an assignment stands among the tokens of an expression. -/
theorem Derives.apart_self {level : Level} (h : Derives level ts e) : Apart false ts := by
  have happend : Apart false (ts ++ []) := h.apart trivial
  rwa [List.append_nil] at happend

/-- An expression does not end the brackets that are put around it. -/
theorem IsExpression.enclosed (h : IsExpression t) : Enclosed t := by
  obtain ⟨ts, e, hts, he⟩ := h.scans
  exact hts.enclosed he.apart_self (he.climb? 0 1 1 (Nat.zero_le 1) (Nat.le_refl 1))

/-- There is no assignment in an expression. -/
theorem IsExpression.passed (h : IsExpression t) : Passed 0 t := by
  obtain ⟨ts, e, hts, he⟩ := h.scans
  intro previous tail htail
  exact hts.cutAtAssignment? he.apart_self (he.climb? 0 0 0 (Nat.le_refl 0) (Nat.le_refl 0))
    htail previous

/-- Arguments do not end the brackets that are put around them. -/
theorem IsArguments.enclosed (h : IsArguments t) : Enclosed t := by
  obtain ⟨es, hparse⟩ := h
  obtain ⟨us, hus, hopens⟩ := opens_of_parseText hparse
  obtain ⟨xs, u, vs, es', rfl, hu, hxs, ⟨rfl, -⟩ | ⟨-, hjoined⟩⟩ := hopens
  · have happend : Apart false (xs ++ []) := hxs.apart trivial
    rw [List.append_nil] at happend
    exact (hus.cut_last (by rw [hu]; rfl) rfl).enclosed happend
      (hxs.climb? 0 1 1 Nat.zero_lt_one (Nat.le_refl 1))
  · contradiction

/-- The brackets that a statement puts around a text. -/
inductive Brackets : Char → Char → Prop
  | round : Brackets '(' ')'
  | square : Brackets '[' ']'

/-- What is put in brackets is found between them. -/
theorem Enclosed.inside? (h : Enclosed t) (hbrackets : Brackets opening closing) :
    inside? opening closing (opening :: (t ++ [closing])) = some t := by
  have houter : outerCloser start (opening :: (t ++ [closing])) = some (closing, []) := by
    cases hbrackets <;>
      exact (outerCloser_append h.clear _).trans (by rw [h.read]; rfl)
  rw [Text.inside?, houter, beq_self_eq_true, beq_self_eq_true, Bool.and_self, if_pos rfl,
    List.dropLast_concat]

/-- Brackets are passed over with all that is in them. -/
theorem Enclosed.passed_brackets (h : Enclosed t) (hbrackets : Brackets opening closing) :
    Passed 0 (opening :: (t ++ [closing])) := by
  intro previous tail htail
  have hopening : opening ≠ '=' ∧ (plain 0).next opening = plain 1 := by
    cases hbrackets <;> decide
  have hclosing : closing ≠ '=' ∧ (plain 1).next closing = plain 0 := by
    cases hbrackets <;> decide
  have hinside := h.passed (some opening) (closing :: tail)
    (by rw [List.head?_cons, Ne, Option.some.injEq]; exact hclosing.1)
  rw [List.cons_append, cutAtAssignment?_cons_of_ne hopening.1, hopening.2, List.append_assoc,
    List.singleton_append, hinside, cutAtAssignment?_cons_of_ne hclosing.1, hclosing.2,
    cutAtAssignment?_of_head htail, map_prepend, map_prepend]
  rfl

/-! ## Expressions and names -/

theorem IsExpression.ne_nil (h : IsExpression t) : t ≠ [] := by
  obtain ⟨ts, e, hts, he⟩ := h.scans
  rintro rfl
  cases hts
  exact he.ne_nil rfl

theorem IsExpression.isEmpty_eq (h : IsExpression t) : t.isEmpty = false := by
  rw [Bool.eq_false_iff, Ne, List.isEmpty_iff]
  exact h.ne_nil

/-- An expression neither begins nor ends with a blank. -/
theorem IsExpression.trimmed (h : IsExpression t) : Trimmed t := by
  obtain ⟨-, -, -, -, -, htrimmed⟩ := exists_trim t
  rwa [h.1] at htrimmed

/-- An expression does not begin with a sign of equality. -/
theorem IsExpression.head?_ne (h : IsExpression t) : t.head? ≠ some '=' := by
  obtain ⟨ts, e, hts, he⟩ := h.scans
  have hapart : Apart true (ts ++ []) := he.apart trivial
  rw [List.append_nil] at hapart
  exact hts.head?_ne hapart

theorem isBlank_of_continuesWord (h : continuesWord c = true) : isBlank c = false :=
  isBlank_of_isFlat (isFlat_of_continuesWord h)

theorem trimmed_of_isIdentifier (h : t.isIdentifier = true) : Trimmed t :=
  trimmed_of_forall fun c hc => isBlank_of_continuesWord (continuesWord_of_isIdentifier h c hc)

theorem ne_nil_of_isIdentifier (h : t.isIdentifier = true) : t ≠ [] := by
  rintro rfl
  contradiction

/-- What begins with a name does not begin with a sign of equality. -/
theorem head?_ne_of_isIdentifier (h : t.isIdentifier = true) :
    (t ++ u).head? ≠ some '=' := by
  cases t with
  | nil => contradiction
  | cons c cs =>
    rw [List.cons_append, List.head?_cons, Ne, Option.some.injEq]
    exact ne_equal_of_continuesWord (continuesWord_of_isIdentifier h c List.mem_cons_self)

theorem blank_space : Blank [' '] := by
  intro c hc
  cases List.mem_singleton.mp hc
  rfl

/-! ## Cuts between the parts -/

/-- A text is cut at the first place where the first character of the separator is, if
the separator is there. -/
theorem cut?_append (h : c ∉ front) (cs back : Text) :
    cut? (c :: cs) (front ++ (c :: cs ++ back)) = some (front, back) := by
  induction front with
  | nil =>
    have hprefix : (c :: cs).isPrefixOf? (c :: (cs ++ back)) = some back :=
      List.isPrefixOf?_eq_some_iff_append_eq.mpr rfl
    rw [List.nil_append, List.cons_append, cut?, hprefix]
  | cons d ds ih =>
    have hne : (c == d) = false := by
      rw [beq_eq_false_iff_ne]
      rintro rfl
      exact h List.mem_cons_self
    have hprefix : (c :: cs).isPrefixOf? (d :: (ds ++ (c :: cs ++ back))) = none := by
      rw [List.isPrefixOf?, hne]
      rfl
    rw [List.cons_append, cut?, hprefix, ih fun hmem => h (List.mem_cons_of_mem d hmem)]
    rfl

/-- A header is read up to the colon at its end. -/
theorem beforeColon?_append (t : Text) : beforeColon? (t ++ [':']) = some t.trim := by
  have hsuffix : List.isSuffixOf? [':'] (t ++ [':']) = some t :=
    List.isSuffixOf?_eq_some_iff_append_eq.mpr rfl
  rw [beforeColon?, hsuffix]
  rfl

theorem Text.Trimmed.colon (h : Trimmed t) (hne : t ≠ []) : Trimmed (t ++ [':']) :=
  h.around (trimmed_singleton rfl) hne (List.cons_ne_nil _ _) []

/-! ## Listed texts -/

/-- Texts with commas between them. -/
def Text.listed (parts : List Text) : Text :=
  [',', ' '].intercalate parts

theorem listed_singleton (part : Text) : listed [part] = part :=
  List.intercalate_singleton

/-- Parts are listed with a comma and a blank between them. -/
theorem listed_cons_cons (part next : Text) (parts : List Text) :
    listed (part :: next :: parts) = part ++ ',' :: ' ' :: listed (next :: parts) := by
  rw [listed, List.intercalate_cons_cons, List.append_assoc]
  rfl

/-- Listed expressions have the tokens of a sequence. -/
theorem scans_listed {parts : List Text} (h : ∀ part ∈ parts, IsExpression part)
    (column : Nat) : ∃ ts es, Scans column (listed parts) ts ∧ Elements ts es := by
  induction parts generalizing column with
  | nil => exact ⟨[], [], .done, .nil⟩
  | cons part parts ih =>
    obtain ⟨ts, e, hts, he⟩ := (h part List.mem_cons_self).scans
    obtain ⟨f, hmoved⟩ := hts.move column
    cases parts with
    | nil =>
      rw [listed_singleton]
      exact ⟨_, [e.recolumn f], hmoved, .last (he.recolumn f)⟩
    | cons next parts =>
      obtain ⟨us, es, hus, hes⟩ := ih (fun part hpart => h part (List.mem_cons_of_mem _ hpart))
        (column + part.length + 1 + 1)
      let comma : Token := ⟨.comma, String.ofList [','], none, column + part.length⟩
      have hcomma : comma.kind = .comma := rfl
      refine ⟨_, _, ?_, .cons (he.recolumn f) hcomma hes⟩
      rw [listed_cons_cons]
      exact hmoved.append (delimited_cons rfl) (.of_mark rfl (.space rfl hus))

/-- Expressions that are listed are arguments. -/
theorem isArguments_listed {parts : List Text} (h : ∀ part ∈ parts, IsExpression part) :
    IsArguments (listed parts) := by
  obtain ⟨ts, es, hts, hes⟩ := scans_listed h 1
  exact ⟨es, parseText_list hts hes⟩

/-- A trimmed text without an outer comma, as the pieces of an argument list are. -/
structure IsPiece (t : Text) : Prop where
  trimmed : Trimmed t
  clear : Along (Clear 0 0) start t

/-- An expression is a piece of an argument list by itself. -/
theorem IsExpression.isPiece (h : IsExpression t) : IsPiece t := by
  obtain ⟨ts, e, hts, he⟩ := h.scans
  exact ⟨h.trimmed, (hts.reads_expression he).2⟩

/-- Reading an expression leaves no quote and no bracket open. -/
theorem IsExpression.read (h : IsExpression t) : start.read t = start := by
  obtain ⟨ts, e, hts, he⟩ := h.scans
  exact (hts.reads_expression he).1

theorem dropEmptyLast_eq_self_iff {parts : List Text} :
    dropEmptyLast parts = parts ↔ ∀ last ∈ parts.getLast?, last ≠ [] := by
  induction parts with
  | nil => exact ⟨fun _ => nofun, fun _ => rfl⟩
  | cons part parts ih =>
    cases parts with
    | nil =>
      rw [dropEmptyLast, List.getLast?_singleton]
      cases part <;> simp
    | cons next parts =>
      have hdrop : dropEmptyLast (part :: next :: parts) =
          part :: dropEmptyLast (next :: parts) := rfl
      rw [hdrop, List.cons_inj_right, ih, List.getLast?_cons_cons]

/-- Listed pieces are taken apart again, but for an empty one at the end: behind each of the
others the reading has to stand as at its start. -/
theorem pieces_listed_behind {parts : List Text} (hpieces : ∀ part ∈ parts, IsPiece part)
    (hread : ∀ part ∈ parts.dropLast, start.read part = start) (hfront : Blank front) :
    pieces (front ++ listed parts) = dropEmptyLast parts := by
  induction parts generalizing front with
  | nil =>
    rw [listed, List.intercalate_nil, List.append_nil,
      pieces_of_clear (along_clear_of_blank hfront start), wholePiece_of_blank hfront]
    rfl
  | cons part parts ih =>
    have hpart := hpieces part List.mem_cons_self
    have hstart : start.read front = start := read_of_blank hfront 0
    have hclear : Along (Clear 0 0) start (front ++ part) := by
      rw [along_append, hstart]
      exact ⟨along_clear_of_blank hfront start, hpart.clear⟩
    have htrim := hpart.trimmed.trim_eq hfront
    cases parts with
    | nil =>
      rw [listed_singleton, pieces_of_clear hclear, wholePiece, htrim]
      rfl
    | cons next parts =>
      have hbehind : start.read (front ++ part) = start := by
        rw [read_append, hstart]
        exact hread part List.mem_cons_self
      have hrest : pieces (' ' :: listed (next :: parts)) = dropEmptyLast (next :: parts) :=
        ih (fun part' hpart' => hpieces part' (List.mem_cons_of_mem part hpart'))
          (fun part' hpart' => hread part' (List.mem_cons_of_mem part hpart')) blank_space
      rw [listed_cons_cons, ← List.append_assoc, pieces_comma hclear hbehind, htrim, hrest]
      rfl

/-- Listing pieces and cutting the list gives them back, but for an empty one at the end. -/
theorem pieces_listed_of_isPiece {parts : List Text} (hpieces : ∀ part ∈ parts, IsPiece part)
    (hread : ∀ part ∈ parts.dropLast, start.read part = start) :
    pieces (listed parts) = dropEmptyLast parts :=
  pieces_listed_behind hpieces hread blank_nil

/-- Listed expressions are taken apart again. -/
theorem pieces_listed {parts : List Text} (h : ∀ part ∈ parts, IsExpression part) :
    pieces (listed parts) = parts := by
  have hread (part : Text) (hpart : part ∈ parts.dropLast) : start.read part = start :=
    (h part (List.mem_of_mem_dropLast hpart)).read
  rw [pieces_listed_of_isPiece (fun part hpart => (h part hpart).isPiece) hread,
    dropEmptyLast_eq_self_iff]
  intro last hlast
  exact (h last (List.mem_of_getLast? hlast)).ne_nil

/-- Trimmed texts with values, listed in brackets, have the list of the values. -/
theorem evaluateStrict_listed {α : Type} {scope : Scope} {f : α → Text} {g : α → Value}
    {xs : List α} (htrimmed : ∀ x ∈ xs, Trimmed (f x))
    (h : ∀ x ∈ xs, evaluateStrict scope (f x) = .ok (g x)) :
    evaluateStrict scope ('[' :: (listed (xs.map f) ++ [']'])) = .ok (.list (xs.map g)) := by
  have hvalues : HasValues scope (xs.map f) (xs.map g) :=
    List.forall₂_map_left_iff.mpr (List.forall₂_map_right_iff.mpr (List.forall₂_same.mpr h))
  have hexpressions : ∀ part ∈ xs.map f, IsExpression part := by
    intro part hpart
    obtain ⟨x, hx, rfl⟩ := List.mem_map.mp hpart
    obtain ⟨e, hparse, -⟩ := evaluateStrict_eq_ok_iff.mp (h x hx)
    exact ⟨(htrimmed x hx).trim_eq_self, e, hparse⟩
  have harguments := isArguments_listed hexpressions
  have hinside := harguments.enclosed.inside? .square
  obtain ⟨es, hparse⟩ := harguments
  obtain ⟨es, hes, hpieces⟩ := pieces_of_list hinside hparse
  cases hes
  -- what the elements give together is known from their texts
  have hall := evaluateEach_of_parsesAs hpieces scope
  rw [pieces_listed hexpressions, hvalues.evaluateEach] at hall
  refine evaluateStrict_eq_ok_iff.mpr ⟨_, hparse, ?_⟩
  cases heval : Expr.evalAll scope es with
  | error fault =>
    rw [heval] at hall
    cases hall
  | ok vs =>
    rw [heval] at hall
    cases hall
    rw [Expr.eval, heval]

/-! ## Joined names -/

/-- Names with commas between them. -/
def Text.joined (names : List String) : Text :=
  [',', ' '].intercalate (names.map String.toList)

/-- A name is an expression. -/
theorem IsName.isExpression {name : String} (h : IsName name) : IsExpression name.toList :=
  ⟨(trimmed_of_isIdentifier h).trim_eq_self, _, parseText_eq_ok_iff.mpr
    ⟨_, scans_identifier h 0, Derives.expression (.bare (.stands (.var rfl rfl)))⟩⟩

theorem isExpression_of_mem_names {names : List String} (h : ∀ p ∈ names, IsName p) :
    ∀ part ∈ names.map String.toList, IsExpression part := by
  intro part hpart
  obtain ⟨p, hp, rfl⟩ := List.mem_map.mp hpart
  exact (h p hp).isExpression

/-- The names of parameters do not end the brackets that are put around them. -/
theorem enclosed_joined {names : List String} (h : ∀ p ∈ names, IsName p) :
    Enclosed (joined names) :=
  (isArguments_listed (isExpression_of_mem_names h)).enclosed

/-- Joined names are taken apart again. -/
theorem pieces_joined {names : List String} (h : ∀ p ∈ names, IsName p) :
    pieces (joined names) = names.map String.toList :=
  pieces_listed (isExpression_of_mem_names h)

end Offside
