import Offside.Evaluation
import Offside.Proofs.Arguments

/-!
# Degrading evaluation extends strict evaluation

`evaluate` does not parse every text: it knows strings, constants, names, ranges and
lists by their text. Where strict evaluation gives a value each of these ways gives the
same, and a text that has no value otherwise stands for itself. Main result:
`evaluate_extends`.
-/

namespace Offside

open Text Nesting

variable {scope : Scope} {column : Nat} {c : Char} {s t inner : Text} {ts us : List Token}
  {e : Expr} {es : List Expr} {v : Value}

/-! ## Strict evaluation -/

/-- A text has a value exactly if it parses and its tree has one. -/
theorem evaluateStrict_eq_ok_iff :
    evaluateStrict scope t = .ok v ↔ ∃ e, parseText t = .ok e ∧ e.eval scope = .ok v := by
  unfold evaluateStrict
  constructor
  · intro h
    split at h
    next => contradiction
    next e hparse =>
      split at h
      next => contradiction
      next w heval =>
        cases h
        exact ⟨e, hparse, heval⟩
  · rintro ⟨e, hparse, heval⟩
    rw [hparse]
    dsimp only
    rw [heval]

/-- Columns do not matter to what a text gives. -/
theorem ParsesAs.evaluateStrict_eq (h : ParsesAs t e) (scope : Scope) :
    evaluateStrict scope t = (e.eval scope).mapError .runtime := by
  obtain ⟨e', hparse, hbare⟩ := h
  rw [evaluateStrict, hparse, ← Expr.eval_eq_of_bare_eq hbare]
  dsimp only
  cases e'.eval scope <;> rfl

/-- A text that stands for a tree has the value of the tree. -/
theorem ParsesAs.evaluateStrict (h : ParsesAs t e) (heval : e.eval scope = .ok v) :
    evaluateStrict scope t = .ok v := by
  rw [h.evaluateStrict_eq, heval]
  rfl

/-- A text that parses stands for its tree. -/
theorem parsesAs_of_parseText (h : parseText t = .ok e) : ParsesAs t e :=
  ⟨e, h, rfl⟩

/-- Without the blanks around it, a text that parses still stands for its tree. -/
theorem parsesAs_trim (h : parseText t = .ok e) : ParsesAs t.trim e := by
  obtain ⟨ts, hts, he⟩ := parseText_eq_ok_iff.mp h
  exact hts.parsesAs_trim he

theorem evaluateStrict_trim (h : evaluateStrict scope t = .ok v) :
    evaluateStrict scope t.trim = .ok v := by
  obtain ⟨e, hparse, heval⟩ := evaluateStrict_eq_ok_iff.mp h
  exact (parsesAs_trim hparse).evaluateStrict heval

/-! ## Texts of one token -/

theorem scans_of_onlyToken? {token : Token} (h : t.onlyToken? = some token) :
    Scans 0 t [token] := by
  unfold onlyToken? at h
  split at h
  next token' stop hscan =>
    cases h
    obtain ⟨ts, htokens, hts⟩ := scanFrom_eq_ok_iff.mp hscan
    have happend : [token] ++ [stop] = ts ++ [_] := htokens
    rw [List.append_inj_left' happend rfl]
    exact hts
  next => contradiction

/-- A text of one token has the value of what the token stands for. -/
theorem evaluateStrict_of_stands {token : Token} (h : Scans 0 t [token])
    (he : Stands token e) (heval : e.eval scope = .ok v) : evaluateStrict scope t = .ok v :=
  evaluateStrict_eq_ok_iff.mpr ⟨e, parseText_eq_ok_iff.mpr
    ⟨[token], h, Derives.expression (.bare (.stands he))⟩, heval⟩

/-- The shortcut for texts in quotes gives the value of the text. -/
theorem evaluateStrict_of_stringValue? (h : t.stringValue? scope = some v) :
    evaluateStrict scope t = .ok v := by
  unfold stringValue? at h
  split at h
  next lexeme content column honly =>
    cases h
    exact evaluateStrict_of_stands (scans_of_onlyToken? honly) (.text rfl rfl) rfl
  next lexeme raw column honly =>
    cases h
    exact evaluateStrict_of_stands (scans_of_onlyToken? honly) (.template rfl rfl) rfl
  next => contradiction

/-- The shortcut for constants gives the value of the text. -/
theorem evaluateStrict_of_constant? (h : t.constant? = some v) :
    evaluateStrict scope t = .ok v := by
  unfold constant? at h
  rw [evaluateStrict_eq_ok_iff]
  split at h
  next htrue =>
    cases h
    exact ⟨.truth true, by rw [eq_of_beq htrue]; cbv, rfl⟩
  next =>
    split at h
    next hfalse =>
      cases h
      exact ⟨.truth false, by rw [eq_of_beq hfalse]; cbv, rfl⟩
    next =>
      split at h
      next hnone =>
        cases h
        exact ⟨.nothing, by rw [eq_of_beq hnone]; cbv, rfl⟩
      next => contradiction

/-- An identifier is one token, the name. -/
theorem scans_identifier (h : t.isIdentifier = true) (column : Nat) :
    Scans column t
      [⟨.identifier, String.ofList t, some (.name (String.ofList t)), column⟩] := by
  have hends : EndsWord [] := by
    intro d hd
    contradiction
  have hdone : Scans (column + t.length) [] [] := .done
  have hname := hdone.of_name h hends
  rwa [List.append_nil] at hname

/-- The shortcut for bound names gives the value of the text. -/
theorem evaluateStrict_of_boundValue? (h : t.boundValue? scope = some v) :
    evaluateStrict scope t = .ok v := by
  unfold boundValue? at h
  split at h
  next hidentifier =>
    refine evaluateStrict_of_stands (scans_identifier hidentifier 0) (.var rfl rfl) ?_
    rw [Expr.eval, h]
  next => contradiction

/-! ## Bracketed texts -/

theorem exists_of_outerCloser {s : Nesting} {rest : Text} (h : outerCloser s t = some (c, rest)) :
    ∃ front, t = front ++ c :: rest := by
  induction t generalizing s with
  | nil => contradiction
  | cons d ds ih =>
    rw [outerCloser] at h
    split at h
    next =>
      cases h
      exact ⟨[], rfl⟩
    next =>
      obtain ⟨front, hds⟩ := ih h
      exact ⟨d :: front, by rw [hds, List.cons_append]⟩

/-- The bracket that a bracketed text opens with is closed by its last character. -/
theorem eq_of_inside? {opening closing : Char} (hne : isCloser opening = false)
    (hopener : isOpener opening = true) (hquote : isQuote opening = false)
    (h : t.inside? opening closing = some inner) :
    t = opening :: (inner ++ [closing]) ∧
      outerCloser (plain 1) (inner ++ [closing]) = some (closing, []) := by
  unfold inside? at h
  split at h
  next => contradiction
  next d ds =>
    split at h
    next hinside =>
      rw [Bool.and_eq_true, beq_iff_eq, beq_iff_eq] at hinside
      obtain ⟨rfl, houter⟩ := hinside
      cases h
      have hnext : start.next d = plain 1 := by
        simp only [start, next, hquote, hopener, Bool.false_eq_true, if_false, if_true]
      rw [outerCloser, hne, Bool.false_and, if_neg Bool.false_ne_true, hnext] at houter
      obtain ⟨front, rfl⟩ := exists_of_outerCloser houter
      rw [List.dropLast_concat]
      exact ⟨rfl, houter⟩
    next => contradiction

/-- An expression that opens with a bracket is that bracket, if its text says so. -/
theorem isJoined_of_outerCloser {closing : Closing} {build : List Expr → Expr}
    (h : Scans column s us) (hc : closing.kind.mark? = some c)
    (hbuild : ∀ es, (build es).isJoined = false) (hopens : Opens closing build us e)
    (houter : outerCloser (plain 1) s = some (c, [])) : e.isJoined = false := by
  obtain ⟨xs, u, vs, es, rfl, hu, hxs, ⟨-, rfl⟩ | ⟨hne, -⟩⟩ := hopens
  · exact hbuild es
  -- the bracket is closed in the middle, so its text is not the whole
  · have hmark : u.kind.mark? = some c := by rw [hu, hc]
    have hc' : isDelimiter c = true ∧ isCloser c = true ∧ (plain 1).level c = some 0 := by
      cases closing <;> cases hc <;> decide
    obtain ⟨front, back, rfl, hfront, hback⟩ := h.cut hmark hc'.1
    have hclear := hfront.reads (hxs.climb? 0 1 1 Nat.zero_lt_one (Nat.le_refl 1))
    rw [outerCloser_append hclear.2, hclear.1, outerCloser, hc'.2.1, hc'.2.2] at houter
    cases houter
    cases hback
    exact absurd rfl hne

/-- A list in brackets is evaluated by its pieces. -/
theorem pieces_of_list (h : t.inside? '[' ']' = some inner)
    (hparse : parseText t = .ok e) :
    ∃ es, e = .list es ∧ List.Forall₂ ParsesAs inner.pieces es := by
  obtain ⟨rfl, houter⟩ := eq_of_inside? rfl rfl rfl h
  obtain ⟨us, hus, hopens⟩ := opens_of_parseText hparse
  have hjoined := isJoined_of_outerCloser hus rfl (fun _ => rfl) hopens houter
  exact pieces_of_opens hus rfl hopens hjoined

theorem endsWord_of_blank {gap : Text} (hgap : Blank gap) (hc : continuesWord c = false)
    (hquote : isQuote c = false) : EndsWord (gap ++ c :: t) := by
  intro d hd
  cases gap with
  | nil =>
    cases hd
    exact ⟨hc, hquote⟩
  | cons b bs =>
    cases hd
    have hblank := hgap d List.mem_cons_self
    refine ⟨continuesWord_blank hblank, ?_⟩
    cases hquoted : isQuote d with
    | false => rfl
    | true =>
      rw [isBlank_of_isQuote hquoted] at hblank
      contradiction

/-- A call form is a name, blanks, and a bracket that reaches to the end. -/
theorem eq_of_callForm? {name : Text} (h : t.callForm? = some (name, inner)) :
    name.isIdentifier = true ∧ ∃ gap, Blank gap ∧
      t = name ++ (gap ++ '(' :: (inner ++ [')'])) ∧
      outerCloser (plain 1) (inner ++ [')']) = some (')', []) := by
  unfold callForm? at h
  dsimp only at h
  split at h
  next hidentifier =>
    obtain ⟨inner', hinside, heq⟩ := Option.map_eq_some_iff.mp h
    cases heq
    obtain ⟨hrest, houter⟩ := eq_of_inside? rfl rfl rfl hinside
    refine ⟨hidentifier, (t.dropWhile continuesWord).takeWhile isBlank, ?_, ?_, houter⟩
    · intro c hc
      exact List.all_eq_true.mp List.all_takeWhile c hc
    · rw [← hrest]
      show t = t.takeWhile continuesWord ++ ((t.dropWhile continuesWord).takeWhile isBlank ++
        (t.dropWhile continuesWord).dropWhile isBlank)
      rw [List.takeWhile_append_dropWhile, List.takeWhile_append_dropWhile]
  next => contradiction

/-- A call form that is an expression is a call of its name on its pieces. -/
theorem pieces_of_callForm {name : Text} (h : t.callForm? = some (name, inner))
    (hparse : parseText t = .ok e) :
    ∃ es, e = .call (String.ofList name) 0 es ∧ List.Forall₂ ParsesAs inner.pieces es := by
  obtain ⟨hidentifier, gap, hgap, rfl, houter⟩ := eq_of_callForm? h
  obtain ⟨ts, hts, he⟩ := parseText_eq_ok_iff.mp hparse
  obtain ⟨us, rfl, hus⟩ := hts.name_append hidentifier (endsWord_of_blank hgap (by decide) rfl)
  have hopening : TokenKind.leftParen.mark? = some '(' := rfl
  obtain ⟨vs, rfl, hvs⟩ := (hus.drop_front hgap).mark_cons hopening
  have hopens : Opens .arguments (.call (String.ofList name) 0) vs e :=
    he.opens (.call (.var rfl rfl) rfl) rfl
  have hjoined := isJoined_of_outerCloser hvs rfl (fun _ => rfl) hopens houter
  exact pieces_of_opens hvs rfl hopens hjoined

/-- The form of a range is the form of a call. -/
theorem callForm?_of_rangeArguments? {arguments : Text}
    (h : t.rangeArguments? = some arguments) : t.callForm? = some ("range".toList, arguments) := by
  unfold rangeArguments? at h
  split at h
  next name inner hcall =>
    split at h
    next hname =>
      cases h
      rw [← eq_of_beq hname]
      exact hcall
    next => contradiction
  next => contradiction

/-- A call of `range` is evaluated by its pieces. -/
theorem pieces_of_range {arguments : Text} (h : t.rangeArguments? = some arguments)
    (hparse : parseText t = .ok e) :
    ∃ es, e = .call "range" 0 es ∧ List.Forall₂ ParsesAs arguments.pieces es :=
  pieces_of_callForm (callForm?_of_rangeArguments? h) hparse

/-! ## The values of pieces -/

/-- The value of each of the texts is what strict evaluation gives. -/
def HasValues (scope : Scope) (texts : List Text) (vs : List Value) : Prop :=
  List.Forall₂ (fun t v => evaluateStrict scope t = .ok v) texts vs

theorem hasValues_of_parsesAs {texts : List Text} (h : List.Forall₂ ParsesAs texts es)
    {vs : List Value} (heval : Expr.evalAll scope es = .ok vs) : HasValues scope texts vs := by
  induction h generalizing vs with
  | nil =>
    cases heval
    exact .nil
  | cons ht hrest ih =>
    rw [Expr.evalAll] at heval
    split at heval
    next => contradiction
    next v hv =>
      split at heval
      next => contradiction
      next ws hws =>
        cases heval
        exact .cons (ht.evaluateStrict hv) (ih hws)

theorem HasValues.evaluateEach {texts : List Text} {vs : List Value}
    (h : HasValues scope texts vs) : evaluateEach scope texts = .ok vs := by
  induction h with
  | nil => rfl
  | cons ht hrest ih =>
    rw [Offside.evaluateEach, ht]
    dsimp only
    rw [ih]

/-- Where no text with a value degrades, texts with values evaluate to them. -/
theorem HasValues.map_evaluate {texts : List Text} {vs : List Value}
    (h : HasValues scope texts vs)
    (hvalue : ∀ t ∈ texts, ∀ v, evaluateStrict scope t = .ok v → evaluate scope t = .value v) :
    texts.map (fun t => (evaluate scope t).toValue) = vs := by
  induction h with
  | nil => rfl
  | @cons t v texts vs ht hrest ih =>
    rw [List.map_cons, hvalue t List.mem_cons_self v ht,
      ih fun u hu => hvalue u (List.mem_cons_of_mem t hu)]
    rfl

/-- Texts give together what the expressions that they are give. -/
theorem evaluateEach_of_parsesAs {texts : List Text} (h : List.Forall₂ ParsesAs texts es)
    (scope : Scope) :
    evaluateEach scope texts = (Expr.evalAll scope es).mapError .runtime := by
  induction h with
  | nil => rfl
  | @cons t e texts es ht hrest ih =>
    rw [evaluateEach, Expr.evalAll, ht.evaluateStrict_eq, ih]
    cases e.eval scope with
    | error fault => rfl
    | ok v => cases Expr.evalAll scope es <;> rfl

/-- A range gives what the call gives, if nothing else has its name. -/
theorem evaluateRange_of_free {arguments : Text} (h : List.Forall₂ ParsesAs arguments.pieces es)
    (hfree : scope.get? "range" = none) (column : Nat) :
    evaluateRange scope arguments =
      ((Expr.call "range" column es).eval scope).mapError .runtime := by
  have hname : Builtin.ofName? "range" = some .range := by decide
  have hcallee : Expr.callee scope "range" = .ok .range := by
    rw [Expr.callee, hfree, hname]
  rw [evaluateRange, evaluateEach_of_parsesAs h, Expr.eval, hcallee]
  cases Expr.evalAll scope es with
  | error fault => rfl
  | ok vs =>
    show _ = (Builtin.range.call vs).mapError Fault.runtime
    dsimp only [Except.mapError]
    cases Builtin.range.call vs <;> rfl

/-- The shortcut for ranges gives the value of the call. -/
theorem evaluateRange_of_call {arguments : Text}
    (h : List.Forall₂ ParsesAs arguments.pieces es)
    (heval : (Expr.call "range" column es).eval scope = .ok v) :
    evaluateRange scope arguments = .ok v := by
  have hfree : scope.get? "range" = none := by
    cases hbound : scope.get? "range" with
    | none => rfl
    | some w =>
      rw [Expr.eval, Expr.callee, hbound] at heval
      cases w <;> contradiction
  rw [evaluateRange_of_free h hfree column, heval]
  rfl

/-! ## Degrading evaluation -/

/-- What strict evaluation of the trimmed text gives, degrading evaluation gives too. -/
theorem evaluate_of_evaluateStrict (scope : Scope) (t : Text) :
    ∀ v, evaluateStrict scope t.trim = .ok v → evaluate scope t = .value v := by
  intro v hstrict
  obtain ⟨e, hparse, heval⟩ := evaluateStrict_eq_ok_iff.mp hstrict
  have hsame {w : Value} (hw : evaluateStrict scope t.trim = .ok w) :
      Evaluation.value w = .value v := by
    rw [hstrict] at hw
    cases hw
    rfl
  rw [evaluate]
  dsimp only
  -- the ways in which a text is known, in their order
  split
  next w hw => exact hsame (evaluateStrict_of_stringValue? hw)
  next =>
  split
  next w hw => exact hsame (evaluateStrict_of_constant? hw)
  next =>
  split
  next w hw => exact hsame (evaluateStrict_of_boundValue? hw)
  next =>
  split
  next arguments harguments =>
    obtain ⟨es, rfl, hpieces⟩ := pieces_of_range harguments hparse
    rw [evaluateRange_of_call hpieces heval]
  next =>
  split
  next inner hinside =>
    obtain ⟨es, rfl, hpieces⟩ := pieces_of_list hinside hparse
    rw [Expr.eval] at heval
    split at heval
    next => contradiction
    next vs hvs =>
      cases heval
      -- every piece is shorter than the text
      have hvalue : ∀ piece ∈ inner.pieces, ∀ w, evaluateStrict scope piece = .ok w →
          evaluate scope piece = .value w := by
        intro piece hpiece w hw
        have := length_inside?_lt hinside
        have := length_le_of_mem_pieces hpiece
        have := length_trim_le t
        exact evaluate_of_evaluateStrict scope piece w (evaluateStrict_trim hw)
      have hvalues : inner.pieces.attach.map (fun piece => (evaluate scope piece.1).toValue) =
          vs :=
        List.attach_map_val.trans ((hasValues_of_parsesAs hpieces hvs).map_evaluate hvalue)
      exact congrArg (fun vs => Evaluation.value (.list vs)) hvalues
  next =>
    rw [hstrict]
termination_by t.length

/-- What degrading evaluation knows by its text has a value when it is evaluated
strictly too. -/
theorem evaluate_of_fault {fault : Fault} (hinside : t.trim.inside? '[' ']' = none)
    (hrange : t.trim.rangeArguments? = none)
    (hstrict : evaluateStrict scope t.trim = .error fault) :
    evaluate scope t = .fallback t.trim := by
  have hnone {w : Value} : evaluateStrict scope t.trim ≠ .ok w := by
    rw [hstrict]
    intro heq
    contradiction
  rw [evaluate]
  dsimp only
  split
  next w hw => exact absurd (evaluateStrict_of_stringValue? hw) hnone
  next =>
  split
  next w hw => exact absurd (evaluateStrict_of_constant? hw) hnone
  next =>
  split
  next w hw => exact absurd (evaluateStrict_of_boundValue? hw) hnone
  next =>
  rw [hrange]
  dsimp only
  split
  next inner hsome =>
    rw [hinside] at hsome
    contradiction
  next => rw [hstrict]

/-- **Degrading evaluation extends strict evaluation.** A text with a value, as it stands
or trimmed, evaluates to it. A trimmed text with none, that is no bracketed list and no
range, is what evaluation gives back. -/
theorem evaluate_extends (scope : Scope) (t : Text) :
    (∀ v, evaluateStrict scope t = .ok v ∨ evaluateStrict scope t.trim = .ok v →
      evaluate scope t = .value v) ∧
    (∀ fault, t.trim.inside? '[' ']' = none → t.trim.rangeArguments? = none →
      evaluateStrict scope t.trim = .error fault → evaluate scope t = .fallback t.trim) := by
  constructor
  · rintro v (hstrict | hstrict)
    · exact evaluate_of_evaluateStrict scope t v (evaluateStrict_trim hstrict)
    · exact evaluate_of_evaluateStrict scope t v hstrict
  · intro fault hinside hrange hstrict
    exact evaluate_of_fault hinside hrange hstrict

/-- A list of constants has the value it has strictly; a name without one is text. -/
theorem evaluate_extends_constants :
    evaluate .empty "[None, True]".toList = .value (.list [.nothing, .truth true]) ∧
      evaluate .empty " x ".toList = .fallback "x".toList :=
  ⟨(evaluate_extends _ _).1 _ (.inl (by cbv)),
    (evaluate_extends _ _).2 _ (by decide) (by decide) (by cbv)⟩

end Offside
