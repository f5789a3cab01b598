import Offside.Proofs.Degrading

/-!
# Names that are bound are not called

Inside an expression only a name that nothing is bound to calls a builtin function. What
shows it for a whole tree is where the evaluation of the tree comes to: `ComesToCall` says
that it comes to a call of the name, with everything in front of it evaluated, and there it
stops. Texts of the call form do not all go this way:

> `bound_name_not_called`: a call of a bound name is text, alone, in parentheses or inside an
> expression; but where `range` stands alone what the name is bound to is not looked at.
-/

namespace Offside

open Text Nesting

/-- What a call of a name runs into inside an expression, if the name is bound to the value. -/
def Value.callFault : Value → RuntimeFault
  | .function f => .calledInExpression f
  | v => .notCallable v.kind

namespace Expr

variable {scope : Scope} {name : String} {v : Value} {vs : List Value} {e : Expr}
  {front back : List Expr} {fault : RuntimeFault}

/-- The evaluation of the expression comes to a call of the name: what is evaluated in front
of the call has a value, and does not decide without it. -/
inductive ComesToCall (scope : Scope) (name : String) : Expr → Prop
  | call {column : Nat} {arguments : List Expr} : ComesToCall scope name (.call name column arguments)
  | argument {called : String} {column : Nat} {b : Builtin} {front back : List Expr} {e : Expr}
    {vs : List Value} (hcallee : callee scope called = .ok b)
    (hfront : evalAll scope front = .ok vs) (h : ComesToCall scope name e) :
    ComesToCall scope name (.call called column (front ++ e :: back))
  | element {front back : List Expr} {e : Expr} {vs : List Value}
    (hfront : evalAll scope front = .ok vs) (h : ComesToCall scope name e) :
    ComesToCall scope name (.list (front ++ e :: back))
  | operand {op : UnaryOp} {column : Nat} {e : Expr} (h : ComesToCall scope name e) :
    ComesToCall scope name (.unary op column e)
  | left {op : ArithOp} {column : Nat} {e right : Expr} (h : ComesToCall scope name e) :
    ComesToCall scope name (.arith op column e right)
  | right {op : ArithOp} {column : Nat} {left e : Expr} {v : Value}
    (hleft : left.eval scope = .ok v) (h : ComesToCall scope name e) :
    ComesToCall scope name (.arith op column left e)
  | first {e : Expr} {links : List (Relation × Nat × Expr)} (h : ComesToCall scope name e) :
    ComesToCall scope name (.comparison e links)
  /-- the links in front hold, so that the chain goes on -/
  | link {first e : Expr} {front back : List (Relation × Nat × Expr)} {op : Relation}
    {column : Nat} {v : Value} (hfirst : first.eval scope = .ok v)
    (hfront : evalLinks scope v front = .ok (.truth true)) (h : ComesToCall scope name e) :
    ComesToCall scope name (.comparison first (front ++ (op, column, e) :: back))
  | decider {op : Connective} {e right : Expr} (h : ComesToCall scope name e) :
    ComesToCall scope name (.logical op e right)
  /-- the first operand is true for `and`, and is not for `or` -/
  | decided {op : Connective} {left e : Expr} {v : Value} (hleft : left.eval scope = .ok v)
    (hv : v.isTrue = (op == .and)) (h : ComesToCall scope name e) :
    ComesToCall scope name (.logical op left e)
  | container {column : Nat} {e index : Expr} (h : ComesToCall scope name e) :
    ComesToCall scope name (.subscript column e index)
  | index {column : Nat} {container e : Expr} {v : Value}
    (hcontainer : container.eval scope = .ok v) (h : ComesToCall scope name e) :
    ComesToCall scope name (.subscript column container e)

/-! ## Where evaluation stops -/

/-- A bound name calls nothing, whatever builtin it hides. -/
theorem callee_of_bound (hbound : scope.get? name = some v) :
    callee scope name = .error v.callFault := by
  rw [callee, hbound]
  cases v <;> rfl

/-- Expressions fail with the first of them that does. -/
theorem evalAll_of_fault (hfront : evalAll scope front = .ok vs)
    (he : e.eval scope = .error fault) : evalAll scope (front ++ e :: back) = .error fault := by
  induction front generalizing vs with
  | nil => rw [List.nil_append, evalAll, he]
  | cons d front ih =>
    rw [evalAll] at hfront
    split at hfront
    next => contradiction
    next w hw =>
      split at hfront
      next => contradiction
      next ws hws => rw [List.cons_append, evalAll, hw, ih hws]

/-- A comparison that has held so far fails with its next operand. -/
theorem evalLinks_of_fault {front back : List (Relation × Nat × Expr)} {op : Relation}
    {column : Nat} (hfront : evalLinks scope v front = .ok (.truth true))
    (he : e.eval scope = .error fault) :
    evalLinks scope v (front ++ (op, column, e) :: back) = .error fault := by
  induction front generalizing v with
  | nil => rw [List.nil_append, evalLinks, he]
  | cons link front ih =>
    obtain ⟨op', column', d⟩ := link
    rw [evalLinks] at hfront
    split at hfront
    next => contradiction
    next w hw =>
      split at hfront
      next => contradiction
      next => cases hfront
      next hholds =>
        rw [List.cons_append, evalLinks, hw]
        dsimp only
        rw [hholds]
        exact ih hfront

/-- **Evaluation stops at a call of a bound name.** -/
theorem ComesToCall.eval (h : ComesToCall scope name e) (hbound : scope.get? name = some v) :
    e.eval scope = .error v.callFault := by
  induction h with
  | call => rw [Expr.eval, callee_of_bound hbound]
  | argument hcallee hfront h ih => rw [Expr.eval, hcallee, evalAll_of_fault hfront ih]
  | element hfront h ih => rw [Expr.eval, evalAll_of_fault hfront ih]
  | operand h ih | left h ih | first h ih | decider h ih | container h ih => rw [Expr.eval, ih]
  | right hleft h ih => rw [Expr.eval, hleft, ih]
  | link hfirst hfront h ih =>
    rw [Expr.eval, hfirst]
    exact evalLinks_of_fault hfront ih
  | @decided op left e w hleft hw h ih =>
    rw [Expr.eval, hleft]
    cases op <;> (dsimp only; rw [hw]; exact ih)
  | index hcontainer h ih => rw [Expr.eval, hcontainer, ih]

end Expr

variable {scope : Scope} {name : String} {v : Value} {t inner arguments : Text} {e : Expr}
  {es : List Expr} {fault : Fault}

/-! ## Expressions -/

/-- A text that stands for a tree fails as the tree does. -/
theorem ParsesAs.evaluateStrict_of_fault {fault : RuntimeFault} (h : ParsesAs t e)
    (heval : e.eval scope = .error fault) :
    Offside.evaluateStrict scope t = .error (.runtime fault) := by
  rw [h.evaluateStrict_eq, heval]
  rfl

/-- An expression in parentheses is the same expression. -/
theorem parsesAs_group (h : parseText t = .ok e) : ParsesAs ('(' :: (t ++ [')'])) e := by
  obtain ⟨ts, hts, he⟩ := parseText_eq_ok_iff.mp h
  obtain ⟨f, hmoved⟩ := hts.move 1
  let opening : Token := ⟨.leftParen, String.ofList ['('], none, 0⟩
  let closing : Token := ⟨.rightParen, String.ofList [')'], none, 1 + t.length⟩
  have hopening : opening.kind = .leftParen := rfl
  have hclosing : closing.kind = .rightParen := rfl
  have hscan :
      Scans 0 ('(' :: (t ++ [')'])) (opening :: (ts.map (Token.recolumn f) ++ [closing])) :=
    .of_mark rfl (hmoved.append (delimited_cons rfl) (.of_mark rfl .done))
  exact ⟨e.recolumn f, parseText_eq_ok_iff.mpr ⟨_, hscan,
    Derives.expression (.bare (.group hopening (he.recolumn f) hclosing))⟩, e.bare_recolumn⟩

/-! ## Call forms -/

/-- A call form begins with a letter or an underscore and has a bracket in it. -/
theorem marks_of_callForm {called : Text} (h : t.callForm? = some (called, inner)) :
    (∃ c cs, t = c :: cs ∧ startsWord c = true) ∧ '(' ∈ t := by
  obtain ⟨hidentifier, gap, -, rfl, -⟩ := eq_of_callForm? h
  constructor
  · cases called with
    | nil => contradiction
    | cons c cs =>
      simp only [isIdentifier, Bool.and_eq_true] at hidentifier
      exact ⟨c, _, rfl, hidentifier.1.1⟩
  · exact List.mem_append_right _ (List.mem_append_right _ List.mem_cons_self)

/-- A call is no list. -/
theorem inside?_of_callForm {called : Text} (h : t.callForm? = some (called, inner)) :
    t.inside? '[' ']' = none := by
  obtain ⟨⟨c, cs, rfl, hc⟩, -⟩ := marks_of_callForm h
  have hne : (c == '[') = false := by
    rw [beq_eq_false_iff_ne]
    rintro rfl
    contradiction
  rw [inside?, hne, Bool.false_and, if_neg Bool.false_ne_true]

theorem constant?_of_callForm {called : Text} (h : t.callForm? = some (called, inner)) :
    t.constant? = none := by
  have hmem := (marks_of_callForm h).2
  have hne {word : String} (hword : '(' ∉ word.toList) : ¬ (t == word.toList) = true := by
    rw [beq_iff_eq]
    rintro rfl
    exact hword hmem
  rw [constant?, if_neg (hne (by decide)), if_neg (hne (by decide)), if_neg (hne (by decide))]

theorem boundValue?_of_callForm {called : Text} (h : t.callForm? = some (called, inner))
    (scope : Scope) : t.boundValue? scope = none := by
  obtain ⟨-, hmem⟩ := marks_of_callForm h
  refine if_neg fun hidentifier => ?_
  cases t with
  | nil => contradiction
  | cons c cs =>
    simp only [isIdentifier, Bool.and_eq_true] at hidentifier
    obtain ⟨⟨hc, hcs⟩, -⟩ := hidentifier
    rcases List.mem_cons.mp hmem with rfl | hmem
    · contradiction
    · exact absurd (List.all_eq_true.mp hcs '(' hmem) (by decide)

/-- The first token of a call form is its name, so it is no string. -/
theorem stringValue?_of_callForm {called : Text} (h : t.callForm? = some (called, inner))
    (scope : Scope) : t.stringValue? scope = none := by
  obtain ⟨hidentifier, gap, hgap, ht, -⟩ := eq_of_callForm? h
  have hkind {token : Token} (honly : t.onlyToken? = some token) : token.kind = .identifier := by
    have hscans := scans_of_onlyToken? honly
    rw [ht] at hscans
    obtain ⟨us, hus, -⟩ := hscans.name_append hidentifier
      (endsWord_of_blank hgap (by decide) rfl)
    cases hus
    rfl
  unfold stringValue?
  split
  next honly => cases hkind honly
  next honly => cases hkind honly
  next => rfl

/-- What a range gives that stands alone: its value, or the whole text. -/
def evaluateRangeOr (scope : Scope) (arguments whole : Text) : Evaluation :=
  match evaluateRange scope arguments with
  | .ok v => .value v
  | .error _ => .fallback whole

/-- A call form of `range` is evaluated without its name. -/
theorem evaluate_of_rangeForm (h : t.trim.callForm? = some ("range".toList, arguments)) :
    evaluate scope t = evaluateRangeOr scope arguments t.trim := by
  have hrange : t.trim.rangeArguments? = some arguments := by
    rw [rangeArguments?, h]
    exact if_pos (beq_self_eq_true _)
  rw [evaluate]
  dsimp only
  rw [stringValue?_of_callForm h, constant?_of_callForm h, boundValue?_of_callForm h, hrange]
  rfl

/-- A call of another name is no range. -/
theorem rangeArguments?_of_ne {called : Text} (h : t.callForm? = some (called, inner))
    (hne : called ≠ "range".toList) : t.rangeArguments? = none := by
  rw [rangeArguments?, h]
  exact if_neg (by rwa [beq_iff_eq])

/-- No call form of a bound name has a value. -/
theorem evaluateStrict_of_callForm (h : t.callForm? = some (name.toList, inner))
    (hbound : scope.get? name = some v) : ∃ fault, evaluateStrict scope t = .error fault := by
  cases hparse : parseText t with
  | error fault => exact ⟨fault, by rw [evaluateStrict, hparse]⟩
  | ok e =>
    obtain ⟨es, rfl, -⟩ := pieces_of_callForm h hparse
    rw [String.ofList_toList] at hparse
    have heval : (Expr.call name 0 es).eval scope = .error v.callFault :=
      Expr.ComesToCall.call.eval hbound
    exact ⟨_, (parsesAs_of_parseText hparse).evaluateStrict_of_fault heval⟩

/-! ## Names that are bound -/

/-- A text without a value is what evaluation gives back, unless it is a list in brackets
or a range whose name is bound. -/
theorem evaluate_of_parsesAs {fault : RuntimeFault} (h : ParsesAs t.trim e)
    (heval : e.eval scope = .error fault) (hinside : t.trim.inside? '[' ']' = none)
    (hrange : scope.get? "range" = none ∨ t.trim.rangeArguments? = none) :
    evaluate scope t = .fallback t.trim := by
  cases harguments : t.trim.rangeArguments? with
  | none => exact evaluate_of_fault hinside harguments (h.evaluateStrict_of_fault heval)
  | some arguments =>
    have hfree := hrange.resolve_right (by rw [harguments]; exact Option.some_ne_none _)
    obtain ⟨e', hparse, hbare⟩ := h
    obtain ⟨es, rfl, hpieces⟩ := pieces_of_range harguments hparse
    have hcall := (Expr.eval_eq_of_bare_eq hbare).trans heval
    rw [evaluate_of_rangeForm (callForm?_of_rangeArguments? harguments), evaluateRangeOr,
      evaluateRange_of_free hpieces hfree 0, hcall]
    rfl

/-- A text in parentheses has no blank ends, and is neither a list nor of the call form. -/
theorem group_forms (s : Text) :
    Text.trim ('(' :: (s ++ [')'])) = '(' :: (s ++ [')']) ∧
      Text.inside? '[' ']' ('(' :: (s ++ [')'])) = none ∧
      Text.rangeArguments? ('(' :: (s ++ [')'])) = none := by
  have hword : ('(' :: (s ++ [')'])).takeWhile continuesWord = [] :=
    List.takeWhile_cons_of_neg (by decide)
  have hcall : Text.callForm? ('(' :: (s ++ [')'])) = none := by
    rw [callForm?, hword]
    exact if_neg Bool.false_ne_true
  refine ⟨(trimmed_of_ends (by decide) (by decide) s).trim_eq_self, ?_, ?_⟩
  · have hne : ('(' == '[') = false := by decide
    rw [inside?, hne, Bool.false_and, if_neg Bool.false_ne_true]
  · rw [rangeArguments?, hcall]

/-- A name that is bound is not called inside an expression: where evaluation comes to a
call of it, it stops with the fault of what the name is bound to, and the text stands for
itself, in parentheses too. A text that is nothing but a call of the name stands for itself
whatever its arguments are, except for a range: its value does not depend on the name. -/
theorem bound_name_not_called (scope : Scope) (name : String) (v : Value)
    (hbound : scope.get? name = some v) :
    (∀ t arguments, t.trim.callForm? = some (name.toList, arguments) →
      evaluate scope t =
        if name = "range" then evaluateRangeOr scope arguments t.trim else .fallback t.trim) ∧
    ∀ t e, parseText t = .ok e → e.ComesToCall scope name →
      evaluateStrict scope t = .error (.runtime v.callFault) ∧
      evaluate scope ('(' :: (t ++ [')'])) = .fallback ('(' :: (t ++ [')'])) ∧
      (t.trim.inside? '[' ']' = none →
        scope.get? "range" = none ∨ t.trim.rangeArguments? = none →
          evaluate scope t = .fallback t.trim) := by
  constructor
  · intro t arguments hcall
    split
    next hname =>
      rw [hname] at hcall
      exact evaluate_of_rangeForm hcall
    next hname =>
      have hne : name.toList ≠ "range".toList := fun heq => hname (String.toList_inj.mp heq)
      obtain ⟨fault, hfault⟩ := evaluateStrict_of_callForm hcall hbound
      exact evaluate_of_fault (inside?_of_callForm hcall) (rangeArguments?_of_ne hcall hne) hfault
  · intro t e hparse hcomes
    have heval := hcomes.eval hbound
    refine ⟨(parsesAs_of_parseText hparse).evaluateStrict_of_fault heval, ?_, ?_⟩
    · obtain ⟨htrim, hinside, hrange⟩ := group_forms t
      have hgroup := parsesAs_group hparse
      rw [← htrim] at hinside hrange hgroup
      rw [evaluate_of_parsesAs hgroup heval hinside (.inr hrange), htrim]
    · intro hinside hrange
      exact evaluate_of_parsesAs (parsesAs_trim hparse) heval hinside hrange

/-- A rebound `len` is not called, and neither is a name that stands for a function; the
second operand of an `or` is evaluated where the first does not decide. -/
theorem bound_name_not_called_values :
    let scope := Bindings.ofList [("len", .nothing), ("f", .function "g")]
    evaluate scope " len([1])".toList = .fallback "len([1])".toList ∧
      evaluateStrict scope "False or len([f()])".toList =
        .error (.runtime (.notCallable .noneType)) ∧
      evaluate scope "(True and f(None))".toList = .fallback "(True and f(None))".toList := by
  intro scope
  have hlen : scope.get? "len" = some .nothing := by cbv
  have hf : scope.get? "f" = some (.function "g") := by cbv
  have hor : parseText "False or len([f()])".toList =
      .ok (.logical .or (.truth false) (.call "len" 9 [.list [.call "f" 14 []]])) := by
    cbv
  have hand : parseText "True and f(None)".toList =
      .ok (.logical .and (.truth true) (.call "f" 9 [.nothing])) := by
    cbv
  refine ⟨?_, ?_, ?_⟩
  · exact (bound_name_not_called scope "len" .nothing hlen).1 _ "[1]".toList (by decide)
  · exact ((bound_name_not_called scope "len" .nothing hlen).2 _ _ hor
      (.decided rfl rfl .call)).1
  · exact ((bound_name_not_called scope "f" (.function "g") hf).2 _ _ hand
      (.decided rfl rfl .call)).2.1

/-- A range alone is built although the name of a function stands in its place; in
parentheses it is not. -/
theorem range_called_although_bound :
    let scope := Bindings.ofList [("range", .function "range")]
    scope.get? "range" = some (.function "range") ∧
      evaluate scope "range(True)".toList = .value (.list [.number 0]) ∧
      evaluate scope "(range(True))".toList = .fallback "(range(True))".toList := by
  intro scope
  have hpieces : evaluateEach scope (Text.pieces "True".toList) = .ok [.truth true] := by cbv
  have hcall : Builtin.range.call [.truth true] = .ok (.list [.number 0]) := by rfl
  have hform : Text.callForm? (Text.trim "range(True)".toList) =
      some ("range".toList, "True".toList) := by
    decide
  refine ⟨by cbv, ?_, by cbv⟩
  rw [evaluate_of_rangeForm hform, evaluateRangeOr, evaluateRange, hpieces]
  dsimp only
  rw [hcall]

end Offside
