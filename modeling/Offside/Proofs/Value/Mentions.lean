import Offside.Evaluation

/-!
# Which functions values mention

A function value is a name, and values are copied, joined, repeated and taken apart in
many ways. None of these makes up a name. A value *mentions* a function if the function
stands in it, at any depth of its lists, and it is `Within` a set of names if it mentions
no other function; so each operation is told what to keep in one line, and the results are
put together along the syntax of expressions:

> `evaluation_mentions`: the value of a text mentions only functions that the scope
> mentions in which the text is evaluated.
-/

namespace Offside

variable {P Q : String → Prop} {scope : Scope} {v w : Value} {vs ws : List Value} {f : String}

/-- The function of a name stands in the value, at any depth of its lists. -/
inductive Value.Mentions (f : String) : Value → Prop
  | function : Mentions f (.function f)
  | element {v : Value} {vs : List Value} (hmem : v ∈ vs) (h : Mentions f v) :
      Mentions f (.list vs)

/-- The function of a name stands in a value that the scope binds. -/
def Scope.Mentions (f : String) (scope : Scope) : Prop :=
  ∃ name v, scope.get? name = some v ∧ v.Mentions f

/-- The value mentions functions of these names only. -/
def Value.Within (P : String → Prop) (v : Value) : Prop :=
  ∀ f, v.Mentions f → P f

/-- The scope mentions functions of these names only. -/
def Scope.Within (P : String → Prop) (scope : Scope) : Prop :=
  ∀ name v, scope.get? name = some v → v.Within P

/-- The result is a fault or a value within these names. -/
def Yields (P : String → Prop) (result : Except RuntimeFault Value) : Prop :=
  ∀ v, result = .ok v → v.Within P

/-! ## Values -/

namespace Value

@[simp]
theorem within_text (content : String) : (text content).Within P := nofun

@[simp]
theorem within_number (x : Float) : (number x).Within P := nofun

@[simp]
theorem within_truth (b : Bool) : (truth b).Within P := nofun

@[simp]
theorem within_nothing : nothing.Within P := nofun

theorem within_function (h : P f) : (function f).Within P := by
  rintro _ ⟨⟩
  exact h

/-- A list mentions what its elements mention. -/
theorem within_list_iff : (list vs).Within P ↔ ∀ v ∈ vs, v.Within P := by
  constructor
  · intro h v hv f hf
    exact h f (.element hv hf)
  · rintro h f (_ | ⟨hmem, hf⟩)
    exact h _ hmem f hf

/-- Being within holds for more functions as well. -/
theorem Within.mono (hPQ : ∀ f, P f → Q f) (h : v.Within P) : v.Within Q :=
  fun f hf => hPQ f (h f hf)

end Value

open Value

theorem Scope.Within.mono (hPQ : ∀ f, P f → Q f) (h : scope.Within P) : scope.Within Q :=
  fun name v hv => (h name v hv).mono hPQ

/-- A scope is within the names that it mentions. -/
theorem Scope.within_mentions (scope : Scope) : scope.Within fun f => scope.Mentions f :=
  fun name v hv _ hf => ⟨name, v, hv, hf⟩

theorem Scope.within_empty : Scope.Within P {} := nofun

/-- Binding a name keeps a scope within where the value is. -/
theorem Scope.Within.insert (h : scope.Within P) (name : String) (hv : v.Within P) :
    Scope.Within P (Bindings.insert scope name v) := by
  intro other w hw
  rw [Bindings.get?_insert] at hw
  split at hw
  next =>
    cases hw
    exact hv
  next => exact h other w hw

theorem yields_ok (h : v.Within P) : Yields P (.ok v) := by
  rintro _ ⟨⟩
  exact h

/-- A result that is a value is within where the value is. -/
@[simp]
theorem yields_ok_iff : Yields P (.ok v) ↔ v.Within P :=
  ⟨fun h => h v rfl, yields_ok⟩

@[simp]
theorem yields_error {fault : RuntimeFault} : Yields P (.error fault) := nofun

/-! ## Operators -/

/-- An operator with one operand gives numbers and truths only. -/
theorem UnaryOp.yields_apply (op : UnaryOp) (v : Value) : Yields P (op.apply v) := by
  unfold UnaryOp.apply
  split <;> simp

/-- Arithmetic gives numbers only. -/
theorem ArithOp.yields_numeric (op : ArithOp) (v w : Value) : Yields P (op.numeric v w) := by
  unfold ArithOp.numeric
  repeat' split
  all_goals simp

/-- What is repeated is in each part of the result. -/
theorem mem_repeat {n : Nat} (h : v ∈ n.repeat (vs ++ ·) []) : v ∈ vs := by
  induction n with
  | zero => cases h
  | succ n ih =>
    rw [Nat.repeat, List.mem_append] at h
    exact h.elim id ih

/-- A repeated list mentions what the list does. -/
theorem yields_repeated? {result : Except RuntimeFault Value} (hv : v.Within P)
    (h : repeated? v w = some result) : Yields P result := by
  unfold repeated? at h
  split at h
  next =>
    cases h
    split
    next => exact yields_ok (within_text _)
    next => exact yields_error
  next =>
    cases h
    split
    next =>
      refine yields_ok (within_list_iff.mpr fun u hu => ?_)
      exact within_list_iff.mp hv u (mem_repeat hu)
    next => exact yields_error
  next => contradiction

/-- What an operator gives is made of its operands. -/
theorem ArithOp.yields_apply (op : ArithOp) (hv : v.Within P) (hw : w.Within P) :
    Yields P (op.apply v w) := by
  unfold ArithOp.apply
  split
  next =>
    split
    next => exact yields_ok (within_text _)
    next vs ws =>
      refine yields_ok (within_list_iff.mpr fun u hu => ?_)
      rcases List.mem_append.mp hu with hu | hu
      · exact within_list_iff.mp hv u hu
      · exact within_list_iff.mp hw u hu
    next => exact ArithOp.yields_numeric .add _ _
  next =>
    split
    next result _ h => exact yields_repeated? hv h
    next result _ h => exact yields_repeated? hw h
    next => exact ArithOp.yields_numeric .mul _ _
  next => exact op.yields_numeric _ _

/-- An item of a value is within where the value is. -/
theorem Value.yields_subscript (hv : v.Within P) : Yields P (v.subscript w) := by
  unfold subscript
  split
  next elements =>
    split
    next => exact yields_error
    next p _ =>
      split
      next element helement =>
        exact yields_ok (within_list_iff.mp hv element (List.mem_of_getElem? helement))
      next => exact yields_error
  next =>
    dsimp only
    split
    next => exact yields_error
    next =>
      split
      next => exact yields_ok (within_text _)
      next => exact yields_error
  next => exact yields_error

/-! ## Builtin functions -/

namespace Builtin

/-- The extreme of some values is one of them. -/
theorem yields_extremeFrom (b : Builtin) (wanted : Ordering) (hv : v.Within P)
    (hvs : ∀ w ∈ vs, w.Within P) : Yields P (b.extremeFrom wanted v vs) := by
  induction vs generalizing v with
  | nil => exact yields_ok hv
  | cons w ws ih =>
    have hw := hvs w List.mem_cons_self
    have hws : ∀ u ∈ ws, u.Within P := fun u hu => hvs u (List.mem_cons_of_mem w hu)
    rw [extremeFrom]
    split
    next => exact yields_error
    next =>
      split
      next => exact ih hw hws
      next => exact ih hv hws

/-- The extreme of some values is one of them. -/
theorem yields_extreme (b : Builtin) (wanted : Ordering) (hv : v.Within P)
    (hvs : ∀ w ∈ vs, w.Within P) : Yields P (b.extreme wanted v vs) := by
  unfold extreme
  split
  next => exact yields_error
  next w ws =>
    have hws := within_list_iff.mp hv
    exact yields_extremeFrom b wanted (hws w List.mem_cons_self)
      fun u hu => hws u (List.mem_cons_of_mem w hu)
  next => exact yields_extremeFrom b wanted hv hvs

/-- The members of a range are numbers. -/
theorem yields_progression (start stop step : Int) : Yields P (progression start stop step) := by
  rw [progression]
  split
  next => exact yields_error
  next =>
    dsimp only
    split
    next =>
      refine yields_ok (within_list_iff.mpr fun v hv => ?_)
      rw [progressionOnto_eq, List.append_nil] at hv
      obtain ⟨k, -, rfl⟩ := List.mem_map.mp hv
      exact within_number _
    next => exact yields_error

/-- A range mentions no function, whatever its bounds are. -/
theorem yields_rangeOf (v : Value) (second third : Option Value) :
    Yields P (rangeOf v second third) := by
  rw [rangeOf]
  split
  next => exact yields_error
  next => exact yields_error
  next => exact yields_error
  next => exact yields_progression _ _ _
  next => exact yields_progression _ _ _
  next => exact yields_progression _ _ _

/-- A length is a number. -/
theorem yields_length (v : Value) : Yields P (length v) := by
  unfold length
  split <;> simp

/-- The text of a value mentions no function, even where the value is one. -/
theorem yields_toText (v : Option Value) : Yields P (toText v) := by
  unfold toText
  split <;> simp

/-- An integer mentions no function. -/
theorem yields_toInteger (v : Option Value) : Yields P (toInteger v) := by
  unfold toInteger
  repeat' split
  all_goals simp

/-- A float mentions no function. -/
theorem yields_toFloat (v : Option Value) : Yields P (toFloat v) := by
  unfold toFloat
  repeat' split
  all_goals simp

/-- A truth mentions no function. -/
theorem yields_toTruth (v : Option Value) : Yields P (toTruth v) := by
  unfold toTruth
  split <;> simp

theorem yields_magnitude (v : Value) : Yields P (magnitude v) := by
  unfold magnitude
  split <;> simp

/-- A total is a number. -/
theorem yields_total (v : Value) : Yields P (total v) := by
  unfold total
  repeat' split
  all_goals simp

theorem yields_roundTo (v : Value) (places : Option Value) : Yields P (roundTo v places) := by
  unfold roundTo
  repeat' split
  all_goals simp

end Builtin

/-- What a function of this form gives mentions only what its arguments mention. Those
that take up to three arguments give a text, a number, a truth or a list of numbers; those
that take any number of them may give one of them back. -/
def Form.Keeps (P : String → Prop) : Form → Prop
  | one g => ∀ v, Yields P (g v)
  | upToOne g => ∀ v, Yields P (g v)
  | oneOrTwo g => ∀ v w, Yields P (g v w)
  | upToThree g => ∀ v w u, Yields P (g v w u)
  | oneOrMore g => ∀ v vs, v.Within P → (∀ w ∈ vs, w.Within P) → Yields P (g v vs)

/-- A builtin whose form keeps within does so for every number of arguments that it takes. -/
theorem Form.Keeps.yields {form : Form} {result : Except RuntimeFault Value} (h : form.Keeps P)
    (hvs : ∀ v ∈ vs, v.Within P) (happly : form.applyTo? vs = some result) :
    Yields P result := by
  unfold applyTo? at happly
  split at happly <;> cases happly
  next => exact h _
  next => exact h _
  next => exact h _
  next => exact h _ _
  next => exact h _ _
  next => exact h _ _ _
  next => exact h _ _ _
  next => exact h _ _ _
  next g v vs =>
    exact h v vs (hvs v List.mem_cons_self) fun w hw => hvs w (List.mem_cons_of_mem v hw)

namespace Builtin

/-- No builtin gives a value that mentions more than its arguments do. -/
theorem keeps_form (b : Builtin) : b.form.Keeps P := by
  cases b with
  | len => exact yields_length
  | str => exact yields_toText
  | int => exact yields_toInteger
  | float => exact yields_toFloat
  | bool => exact yields_toTruth
  | abs => exact yields_magnitude
  | min => exact fun _ _ => yields_extreme .min .lt
  | max => exact fun _ _ => yields_extreme .max .gt
  | sum => exact yields_total
  | round => exact yields_roundTo
  | range => exact yields_rangeOf

/-- What a builtin function gives mentions only what its arguments mention. -/
theorem yields_call (b : Builtin) (hvs : ∀ v ∈ vs, v.Within P) : Yields P (b.call vs) := by
  unfold call
  split
  next result h => exact b.keeps_form.yields hvs h
  next => exact yields_error

end Builtin

/-! ## Expressions -/

namespace Expr

/-- A chain of comparisons gives a truth. -/
theorem yields_evalLinks (links : List (Relation × Nat × Expr)) (v : Value) :
    Yields P (evalLinks scope v links) := by
  induction links generalizing v with
  | nil => exact yields_ok (within_truth true)
  | cons link links ih =>
    obtain ⟨op, column, operand⟩ := link
    rw [evalLinks]
    split
    next => exact yields_error
    next right _ =>
      split
      next => exact yields_error
      next => exact yields_ok (within_truth false)
      next => exact ih right

mutual

/-- The value of an expression mentions only what the scope mentions. -/
theorem yields_eval (hscope : scope.Within P) (e : Expr) : Yields P (e.eval scope) := by
  cases e with
  | number x => exact yields_ok (within_number x)
  | text content => exact yields_ok (within_text content)
  | truth b => exact yields_ok (within_truth b)
  | nothing => exact yields_ok within_nothing
  | template raw => exact yields_ok (within_text _)
  | var name column =>
    rw [eval]
    split
    next v hv => exact yields_ok (hscope name v hv)
    next => exact yields_error
  | list elements =>
    rw [eval]
    split
    next => exact yields_error
    next vs hvs => exact yields_ok (within_list_iff.mpr (within_of_evalAll hscope elements vs hvs))
  | unary op column operand =>
    rw [eval]
    split
    next => exact yields_error
    next v _ => exact op.yields_apply v
  | arith op column left right =>
    rw [eval]
    split
    next => exact yields_error
    next v hv =>
      split
      next => exact yields_error
      next w hw =>
        exact op.yields_apply (yields_eval hscope left v hv) (yields_eval hscope right w hw)
  | comparison first links =>
    rw [eval]
    split
    next => exact yields_error
    next v _ => exact yields_evalLinks links v
  | logical op left right =>
    rw [eval]
    split
    next => exact yields_error
    next v hv =>
      split
      next => exact yields_ok (yields_eval hscope left v hv)
      next => exact yields_ok (yields_eval hscope left v hv)
      next => exact yields_eval hscope right
  | call name column arguments =>
    rw [eval]
    split
    next => exact yields_error
    next b _ =>
      split
      next => exact yields_error
      next vs hvs => exact b.yields_call (within_of_evalAll hscope arguments vs hvs)
  | subscript column container index =>
    rw [eval]
    split
    next => exact yields_error
    next v hv =>
      split
      next => exact yields_error
      next => exact yields_subscript (yields_eval hscope container v hv)

/-- Elements that are evaluated one after the other are within where the scope is. -/
theorem within_of_evalAll (hscope : scope.Within P) (es : List Expr) (vs : List Value)
    (h : evalAll scope es = .ok vs) : ∀ v ∈ vs, v.Within P := by
  cases es with
  | nil =>
    cases h
    intro v hv
    contradiction
  | cons e es =>
    rw [evalAll] at h
    split at h
    next => contradiction
    next v hv =>
      split at h
      next => contradiction
      next ws hws =>
        cases h
        intro w hw
        rcases List.mem_cons.mp hw with rfl | hw
        · exact yields_eval hscope e w hv
        · exact within_of_evalAll hscope es ws hws w hw

end

end Expr

/-! ## Texts -/

/-- A text that is evaluated as a whole gives a value within its scope. -/
theorem within_of_evaluateStrict {t : Text} (hscope : scope.Within P)
    (h : evaluateStrict scope t = .ok v) : v.Within P := by
  unfold evaluateStrict at h
  split at h
  next => contradiction
  next e _ =>
    split at h
    next => contradiction
    next w hw =>
      cases h
      exact e.yields_eval hscope v hw

/-- Texts that are evaluated one by one, none with a fault, give values within their scope. -/
theorem within_of_evaluateEach {ts : List Text} (hscope : scope.Within P)
    (h : evaluateEach scope ts = .ok vs) : ∀ v ∈ vs, v.Within P := by
  induction ts generalizing vs with
  | nil =>
    cases h
    intro v hv
    contradiction
  | cons t ts ih =>
    rw [evaluateEach] at h
    split at h
    next => contradiction
    next v hv =>
      split at h
      next => contradiction
      next ws hws =>
        cases h
        intro w hw
        rcases List.mem_cons.mp hw with rfl | hw
        · exact within_of_evaluateStrict hscope hv
        · exact ih hws w hw

theorem within_of_evaluateRange {arguments : Text} (hscope : scope.Within P)
    (h : evaluateRange scope arguments = .ok v) : v.Within P := by
  unfold evaluateRange at h
  split at h
  next => contradiction
  next vs hvs =>
    split at h
    next => contradiction
    next w hw =>
      cases h
      exact Builtin.range.yields_call (within_of_evaluateEach hscope hvs) v hw

theorem within_of_stringValue? {t : Text} (h : t.stringValue? scope = some v) : v.Within P := by
  unfold Text.stringValue? at h
  split at h
  next => cases h; exact within_text _
  next => cases h; exact within_text _
  next => contradiction

theorem within_of_constant? {t : Text} (h : t.constant? = some v) : v.Within P := by
  unfold Text.constant? at h
  split at h
  next => cases h; exact within_truth true
  next =>
    split at h
    next => cases h; exact within_truth false
    next =>
      split at h
      next => cases h; exact within_nothing
      next => contradiction

/-- What a name is bound to is within where the scope is. -/
theorem within_of_boundValue? {t : Text} (hscope : scope.Within P)
    (h : t.boundValue? scope = some v) : v.Within P := by
  unfold Text.boundValue? at h
  split at h
  next => exact hscope _ v h
  next => contradiction

/-- Also what degrading evaluation makes of a text mentions only what the scope mentions. -/
theorem within_evaluate (hscope : scope.Within P) (t : Text) :
    (evaluate scope t).toValue.Within P := by
  rw [evaluate]
  dsimp only
  -- the ways in which a text is known, in their order
  split
  next w hw => exact within_of_stringValue? hw
  next =>
  split
  next w hw => exact within_of_constant? hw
  next =>
  split
  next w hw => exact within_of_boundValue? hscope hw
  next =>
  split
  next arguments _ =>
    split
    next w hw => exact within_of_evaluateRange hscope hw
    next => exact within_text _
  next =>
  split
  next inner hinside =>
    refine within_list_iff.mpr fun w hw => ?_
    obtain ⟨⟨piece, hpiece⟩, -, rfl⟩ := List.mem_map.mp hw
    have := Text.length_inside?_lt hinside
    have := Text.length_le_of_mem_pieces hpiece
    have := Text.length_trim_le t
    exact within_evaluate hscope piece
  next =>
  split
  next w hw => exact within_of_evaluateStrict hscope hw
  next => exact within_text _
termination_by t.length

/-- **Evaluation makes up no functions.** The value of a text, strictly or where a text
stands for what cannot be evaluated, mentions only functions that the scope mentions. -/
theorem evaluation_mentions (scope : Scope) (t : Text) :
    (∀ v, evaluateStrict scope t = .ok v → ∀ f, v.Mentions f → scope.Mentions f) ∧
    ∀ f, (evaluate scope t).toValue.Mentions f → scope.Mentions f :=
  ⟨fun _ h => within_of_evaluateStrict scope.within_mentions h,
    within_evaluate scope.within_mentions t⟩

end Offside
