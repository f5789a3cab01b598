import Offside.Proofs.Degrading
import Offside.Proofs.Expr.Names

/-!
# Names that are not written

What a text evaluates to depends on the scope, and on no more of it than the names that are
written in the text. There are many ways to the scope: the variables and the calls of an
expression, the text that is a bound name, the arguments of a range, the elements of a list that
are evaluated one by one, and the templates, with a way of their own where they are printed. A
text need not be an expression for that, nor one that has a value.

> `evaluation_reads_names`: in two scopes that agree on what is written in a text, it has the
> same value, or it is replaced by the same text, or it fails with the same fault; and a print of
> it shows the same line.
-/

namespace Offside

open Text

variable {a b : Scope} {t inner : Text} {texts : List Text}

/-- Strict evaluation looks at no name that is not written in the text. -/
theorem Scope.AgreeOn.evaluateStrict (h : a.AgreeOn b t) :
    evaluateStrict a t = evaluateStrict b t := by
  unfold Offside.evaluateStrict
  cases hparse : parseText t with
  | error fault => rfl
  | ok e =>
    have heval := e.eval_congr fun u hu => h.mono (isInfix_of_mem_read hparse hu)
    dsimp only
    rw [heval]

/-- A condition looks at no name that is not written in it. -/
theorem Scope.AgreeOn.evaluateCondition (h : a.AgreeOn b t) :
    evaluateCondition a t = evaluateCondition b t := by
  rw [Offside.evaluateCondition, Offside.evaluateCondition, h.evaluateStrict]

/-! ## The ways in which a text is known -/

/-- The body of a template stands in its text. -/
theorem isInfix_of_templateBody? (h : t.templateBody? = some inner) : inner <:+: t := by
  unfold templateBody? at h
  split at h
  next lexeme raw column honly =>
    cases h
    exact (scans_of_onlyToken? honly).isInfix_of_mem_read List.mem_cons_self List.mem_cons_self
  next => contradiction

/-- A template that is a whole text is filled in alike. -/
theorem Scope.AgreeOn.interpolate_templateBody? (h : a.AgreeOn b t)
    (hbody : t.templateBody? = some inner) :
    interpolate a (unescape inner) = interpolate b (unescape inner) :=
  (h.mono (isInfix_of_templateBody? hbody)).interpolate_unescape

/-- The shortcut for texts in quotes looks at no name that is not written. -/
theorem Scope.AgreeOn.stringValue? (h : a.AgreeOn b t) : t.stringValue? a = t.stringValue? b := by
  unfold Text.stringValue?
  split
  next => rfl
  next lexeme raw column honly =>
    have hbody : t.templateBody? = some raw.toList := by rw [templateBody?, honly]
    rw [h.interpolate_templateBody? hbody]
  next => rfl

/-- The shortcut for bound names looks at the name that is written. -/
theorem Scope.AgreeOn.boundValue? (h : a.AgreeOn b t) : t.boundValue? a = t.boundValue? b := by
  rw [Text.boundValue?, Text.boundValue?, h.get?_ofList List.infix_rfl]

theorem Scope.AgreeOn.evaluateEach (h : ∀ t ∈ texts, a.AgreeOn b t) :
    evaluateEach a texts = evaluateEach b texts := by
  induction texts with
  | nil => rfl
  | cons t texts ih =>
    obtain ⟨ht, htexts⟩ := List.forall_mem_cons.mp h
    rw [Offside.evaluateEach, Offside.evaluateEach, ht.evaluateStrict, ih htexts]

/-- The shortcut for ranges looks at no name that is not written. -/
theorem Scope.AgreeOn.evaluateRange (h : a.AgreeOn b t) :
    evaluateRange a t = evaluateRange b t := by
  rw [Offside.evaluateRange, Offside.evaluateRange,
    evaluateEach fun piece hpiece => h.mono (isInfix_of_mem_pieces hpiece)]

theorem isInfix_of_rangeArguments? (h : t.rangeArguments? = some inner) : inner <:+: t :=
  isInfix_of_callForm? (callForm?_of_rangeArguments? h)

/-! ## Degrading evaluation -/

/-- Also what cannot be evaluated is replaced by the same text. -/
theorem Scope.AgreeOn.evaluate {t : Text} (h : a.AgreeOn b t) : evaluate a t = evaluate b t := by
  have hwhole : a.AgreeOn b t.trim := h.mono (isInfix_trim t)
  rw [Offside.evaluate, Offside.evaluate]
  dsimp only
  rw [hwhole.stringValue?, hwhole.boundValue?, hwhole.evaluateStrict]
  -- the ways in which a text is known, in their order
  split
  next => rfl
  next =>
  split
  next => rfl
  next =>
  split
  next => rfl
  next =>
  split
  next arguments harguments =>
    rw [(hwhole.mono (isInfix_of_rangeArguments? harguments)).evaluateRange]
  next =>
  split
  next inner hinside =>
    have hpieces : ∀ piece ∈ inner.pieces.attach,
        (Offside.evaluate a piece.1).toValue = (Offside.evaluate b piece.1).toValue := by
      rintro ⟨piece, hpiece⟩ -
      have hwithin := (isInfix_of_mem_pieces hpiece).trans (isInfix_of_inside? hinside)
      -- every piece is shorter than the text
      have := length_inside?_lt hinside
      have := length_le_of_mem_pieces hpiece
      have := length_trim_le t
      rw [(hwhole.mono hwithin).evaluate]
    rw [List.map_congr_left hpieces]
  next => rfl
termination_by t.length

/-! ## Printing -/

theorem Scope.AgreeOn.shownArgument (h : a.AgreeOn b t) :
    shownArgument a t = shownArgument b t := by
  unfold Offside.shownArgument
  cases hbody : t.templateBody? with
  | some body => exact congrArg String.ofList (h.interpolate_templateBody? hbody)
  | none =>
    dsimp only
    rw [h.evaluate]

/-- A printed line depends on no name that is not written in its arguments. -/
theorem Scope.AgreeOn.printedLine (h : a.AgreeOn b t) : printedLine a t = printedLine b t := by
  have hshown : ∀ piece ∈ t.pieces, Offside.shownArgument a piece = Offside.shownArgument b piece :=
    fun piece hpiece => (h.mono (isInfix_of_mem_pieces hpiece)).shownArgument
  rw [Offside.printedLine, Offside.printedLine, List.map_congr_left hshown]

/-! ## What is not written -/

/-- A scope agrees on a text with every scope that has another binding of a name that is not
written in it. -/
theorem Scope.agreeOn_insert {name : String} (h : ¬name.toList <:+: t) (v : Value) :
    a.AgreeOn (Bindings.insert a name v) t := by
  intro other hother
  have hne : other ≠ name := by
    rintro rfl
    exact h hother
  rw [Bindings.get?_insert, if_neg hne]

/-- **Names that are not written do not matter.** In two scopes that bind every name that is
written in a text to the same value, or bind it in neither, the text evaluates to the same
value or to the same replacement, strict evaluation gives the same value or the same fault, also
as a condition, and a print of it shows the same line. -/
theorem evaluation_reads_names {a b : Scope} {t : Text} (h : a.AgreeOn b t) :
    evaluate a t = evaluate b t ∧ evaluateStrict a t = evaluateStrict b t ∧
      evaluateCondition a t = evaluateCondition b t ∧ printedLine a t = printedLine b t :=
  ⟨h.evaluate, h.evaluateStrict, h.evaluateCondition, h.printedLine⟩

/-- A list with a template that has an escape in it, and with an element that is not bound. -/
theorem evaluation_reads_names_other :
    evaluate (Bindings.insert (.ofList [("x", .truth true)]) "z" .nothing)
      "[f'\\t\x7bx\x7d', y]".toList = .value (.list [.text "\tTrue", .text "y"]) := by
  have hwritten : ¬"z".toList <:+: "[f'\\t\x7bx\x7d', y]".toList := by decide
  have hagree := Scope.agreeOn_insert (a := .ofList [("x", .truth true)]) hwritten .nothing
  have h := (evaluation_reads_names hagree).1
  rw [← h]
  cbv

end Offside
