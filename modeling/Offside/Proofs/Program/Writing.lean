import Mathlib
import Offside.Machine.Assignment
import Offside.Proofs.Program.Parts

/-!
# Statements are read back from their lines

How a statement is written on a line, and which statements can be written: names have to
be identifiers, expressions have to parse, and arguments have to parse between brackets.
What stands in these parts does not matter otherwise. Main result:

> `classify_text`: the line of a well-formed statement is read as that statement.

The forms of statements are told apart by the text alone, so this needs that the texts of
the parts hide what separates the parts: an expression closes the brackets that it opens,
and has no sign of an assignment.
-/

namespace Offside

open Text Nesting

variable {x f keyword : String} {t word value : Text} {ps : List String} {target : Target}
  {build : Text → Statement}

/-! ## Statements as text -/

/-- A text in round brackets. -/
def Text.parenthesized (t : Text) : Text :=
  '(' :: (t ++ [')'])

/-- What stands behind the target of an assignment. -/
def Text.assigning (op : Option ArithOp) (value : Text) : Text :=
  ' ' :: ((op.elim "" ArithOp.symbol).toList ++ '=' :: ' ' :: value)

/-- The line of a statement. -/
def Statement.text : Statement → Text
  | print arguments => "print".toList ++ arguments.parenthesized
  | define name parameters =>
    "def".toList ++ ' ' :: (name.toList ++ (Text.joined parameters).parenthesized ++ [':'])
  | assign target op value => target.text ++ Text.assigning op value
  | ifHolds condition => "if".toList ++ ' ' :: (condition ++ [':'])
  | elseIf condition => "elif".toList ++ ' ' :: (condition ++ [':'])
  | otherwise => "else".toList ++ [':']
  | forEach loopVariable iterable =>
    "for".toList ++ ' ' :: (loopVariable.toList ++ (" in ".toList ++ iterable) ++ [':'])
  | whileHolds condition => "while".toList ++ ' ' :: (condition ++ [':'])
  | call name arguments => name.toList ++ arguments.parenthesized
  | leave none => "return".toList
  | leave (some value) => "return".toList ++ ' ' :: value
  | breakLoop => "break".toList
  | continueLoop => "continue".toList
  | pass => "pass".toList
  | append list value => list.toList ++ '.' :: ("append".toList ++ value.parenthesized)
  | unrecognized => []

/-- The name of a target is an identifier, and its index is an expression. -/
def Target.WellFormed : Target → Prop
  | name n => IsName n
  | element n index => IsName n ∧ IsExpression index

/-- The names of a statement are identifiers, and its other parts are expressions or
arguments. A call of `print` is not a statement of its own. -/
def Statement.WellFormed : Statement → Prop
  | print arguments => IsArguments arguments
  | define name parameters => IsName name ∧ ∀ p ∈ parameters, IsName p
  | assign target _ value => target.WellFormed ∧ IsExpression value
  | ifHolds condition | elseIf condition | whileHolds condition => IsExpression condition
  | forEach loopVariable iterable => IsName loopVariable ∧ IsExpression iterable
  | call name arguments => IsName name ∧ name ≠ "print" ∧ IsArguments arguments
  | leave (some value) => IsExpression value
  | append list value => IsName list ∧ IsExpression value
  | otherwise | leave none | breakLoop | continueLoop | pass => True
  | unrecognized => False

/-! ## Calls -/

theorem endsWord_parenthesized : EndsWord t.parenthesized :=
  endsWord_cons (by decide) rfl

/-- A name in front of brackets has the call form. -/
theorem callForm?_parenthesized (hword : word.isIdentifier = true) (h : Enclosed t) :
    callForm? (word ++ t.parenthesized) = some (word, t) := by
  have hstart : trimStart t.parenthesized = t.parenthesized :=
    trimStart_of_first fun c hc => by cases hc; rfl
  have hinside : inside? '(' ')' t.parenthesized = some t := h.inside? .round
  rw [callForm?_of_isIdentifier hword endsWord_parenthesized, hstart, hinside]
  rfl

/-- There is no assignment in a call. -/
theorem passed_parenthesized (hword : word.isIdentifier = true) (h : Enclosed t) :
    Passed 0 (word ++ t.parenthesized) :=
  (passed_of_continuesWord (continuesWord_of_isIdentifier hword)).append
    (h.passed_brackets .round) (by rw [parenthesized, List.head?_cons]; decide)

theorem trimmed_parenthesized (hword : word.isIdentifier = true) :
    Trimmed (word ++ t.parenthesized) :=
  (trimmed_of_isIdentifier hword).around (trimmed_singleton rfl) (ne_nil_of_isIdentifier hword)
    (List.cons_ne_nil _ _) ('(' :: t)

/-- A print of arguments is read back as one. -/
theorem classify_print (h : IsArguments t) :
    classify ("print".toList ++ t.parenthesized) = .ok (.print t) := by
  have hprint : Text.isIdentifier "print".toList = true := by decide
  rw [classify_of_name hprint endsWord_parenthesized, List.findSome?_cons, LineForm.print,
    callForm?_parenthesized hprint h.enclosed]
  rfl

/-- A call of any other name is read back as one. -/
theorem classify_call (hf : IsName f) (hne : f ≠ "print") (h : IsArguments t) :
    classify (f.toList ++ t.parenthesized) = .ok (.call f t) := by
  have hcall := callForm?_parenthesized hf h.enclosed
  have hprint : LineForm.print (f.toList ++ t.parenthesized) = none := by
    rw [LineForm.print, hcall]
    refine if_neg fun heq => hne ?_
    exact String.toList_injective (eq_of_beq heq)
  have hassign := assign_eq_none (passed_parenthesized hf h.enclosed).cut_eq_none
  have hform : LineForm.call (f.toList ++ t.parenthesized) = some (.ok (.call f t)) := by
    rw [LineForm.call, hcall, Option.map_some]
    dsimp only
    rw [String.ofList_toList]
  rw [classify_of_name hf endsWord_parenthesized]
  simp only [List.findSome?_cons, hprint, hassign, hform, Option.getD_some]

/-- A character that is no sign of equality and opens nothing is passed over. -/
theorem passed_char {c : Char} (hc : c ≠ '=') (hnext : start.next c = start) : Passed 0 [c] :=
  passed_of_along ⟨fun heq => absurd heq hc, trivial⟩ hnext

/-- An append is read back as one. -/
theorem classify_append (hx : IsName x) (h : IsExpression t) :
    classify (x.toList ++ '.' :: ("append".toList ++ t.parenthesized)) = .ok (.append x t) := by
  have happend : Text.isIdentifier "append".toList = true := by decide
  have hends : EndsWord ('.' :: ("append".toList ++ t.parenthesized)) :=
    endsWord_cons (by decide) rfl
  have hcall : callForm? (x.toList ++ '.' :: ("append".toList ++ t.parenthesized)) = none := by
    refine callForm?_of_head hx hends ?_
    rw [trimStart_of_first fun c hc => by cases hc; rfl, List.head?_cons]
    decide
  have hpassed : Passed 0 (x.toList ++ '.' :: ("append".toList ++ t.parenthesized)) := by
    have hhead : ("append".toList ++ t.parenthesized).head? ≠ some '=' :=
      head?_ne_of_isIdentifier happend
    have hbehind : Passed 0 (['.'] ++ ("append".toList ++ t.parenthesized)) :=
      (passed_char (by decide) rfl).append (passed_parenthesized happend h.enclosed) hhead
    exact (passed_of_continuesWord (continuesWord_of_isIdentifier hx)).append hbehind
      (by rw [List.head?_cons]; decide)
  have hdot : '.' ∉ x.toList := not_mem_of_isIdentifier hx rfl
  have hword : LineForm.word (x.toList ++ '.' :: ("append".toList ++ t.parenthesized)) = none := by
    have hne (w : Text) (hw : '.' ∉ w) :
        ((x.toList ++ '.' :: ("append".toList ++ t.parenthesized)) == w) = false := by
      rw [beq_eq_false_iff_ne]
      rintro rfl
      exact hw (List.mem_append_right _ List.mem_cons_self)
    rw [LineForm.word, hne _ (by decide), hne _ (by decide), hne _ (by decide)]
    rfl
  have hform : LineForm.append (x.toList ++ '.' :: ("append".toList ++ t.parenthesized)) =
      some (.ok (.append x t)) := by
    have hcut : cut? ['.'] (x.toList ++ '.' :: ("append".toList ++ t.parenthesized)) =
        some (x.toList, "append".toList ++ t.parenthesized) := cut?_append hdot [] _
    have hname : Text.isIdentifier x.toList = true := hx
    simp only [LineForm.append, hcut, (trimmed_of_isIdentifier hx).trim_eq_self, hname, if_true,
      (trimmed_parenthesized happend).trim_eq_self, callForm?_parenthesized happend h.enclosed,
      beq_self_eq_true, h.1, String.ofList_toList]
  rw [classify_of_name hx hends]
  simp only [List.findSome?_cons, print_eq_none hcall, assign_eq_none hpassed.cut_eq_none,
    call_eq_none hcall, hword, hform, Option.getD_some]

/-! ## Assignments -/

/-- A target is a name and what is behind it. -/
def Target.parts : Target → String × Text
  | name n => (n, [])
  | element n index => (n, '[' :: (index ++ [']']))

/-- A target is written as its name with what follows it. -/
theorem Target.text_eq (target : Target) :
    target.text = target.parts.1.toList ++ target.parts.2 := by
  cases target with
  | name n => exact (List.append_nil _).symm
  | element n index =>
    rw [text, parts, List.append_assoc]
    rfl

theorem Target.WellFormed.isName (h : target.WellFormed) : IsName target.parts.1 := by
  cases target with
  | name n => exact h
  | element n index => exact h.1

/-- There is no assignment in a target. -/
theorem Target.WellFormed.passed (h : target.WellFormed) : Passed 0 target.text := by
  have hname := passed_of_continuesWord (continuesWord_of_isIdentifier h.isName)
  rw [Target.text_eq]
  cases target with
  | name n => rwa [Target.parts, List.append_nil]
  | element n index =>
    exact hname.append (h.2.enclosed.passed_brackets .square)
      (by rw [Target.parts, List.head?_cons]; decide)

theorem Target.WellFormed.trimmed (h : target.WellFormed) : Trimmed target.text := by
  have hname := trimmed_of_isIdentifier h.isName
  rw [Target.text_eq]
  cases target with
  | name n => rwa [Target.parts, List.append_nil]
  | element n index =>
    exact hname.around (trimmed_singleton rfl) (ne_nil_of_isIdentifier h.1) (List.cons_ne_nil _ _)
      ('[' :: index)

/-- A target is read back from its text. -/
theorem target?_text (h : target.WellFormed) : target? target.text = some target := by
  have hname : Text.isIdentifier target.parts.1.toList = true := h.isName
  rw [Target.text_eq]
  cases target with
  | name n =>
    dsimp only [Target.parts] at hname ⊢
    rw [List.append_nil, target?, hname, if_pos rfl, String.ofList_toList]
  | element n index =>
    dsimp only [Target.parts] at hname ⊢
    have hword (c : Char) (hc : c ∈ n.toList) : (c != '[') = true := by
      rw [bne_iff_ne]
      rintro rfl
      exact not_mem_of_isIdentifier hname rfl hc
    have hnot : Text.isIdentifier (n.toList ++ '[' :: (index ++ [']'])) = false := by
      rw [Bool.eq_false_iff]
      intro hidentifier
      exact not_mem_of_isIdentifier hidentifier rfl (List.mem_append_right _ List.mem_cons_self)
    have htake : (n.toList ++ '[' :: (index ++ [']'])).takeWhile (· != '[') = n.toList := by
      rw [List.takeWhile_append_of_pos hword, List.takeWhile_cons_of_neg (by decide),
        List.append_nil]
    have hdrop : (n.toList ++ '[' :: (index ++ [']'])).dropWhile (· != '[') =
        '[' :: (index ++ [']']) := by
      rw [List.dropWhile_append_of_pos hword, List.dropWhile_cons_of_neg (by decide)]
    simp only [target?, hnot, Bool.false_eq_true, if_false, htake, hdrop,
      (trimmed_of_isIdentifier hname).trim_eq_self, hname, if_true,
      h.2.enclosed.inside? .square, Option.map_some, String.ofList_toList, h.2.1]

/-- The sign is found behind the operator. -/
theorem cutAtAssignment?_assigning (op : Option ArithOp) (value : Text) :
    cutAtAssignment? (plain 0) none false (assigning op value) =
      some (' ' :: (op.elim "" ArithOp.symbol).toList, ' ' :: value) := by
  rcases op with _ | op
  · rfl
  · cases op <;> rfl

theorem trimStart_assigning (op : Option ArithOp) (value : Text) :
    (trimStart (assigning op value)).head? ≠ some '(' := by
  rcases op with _ | op
  · exact (by decide : some '=' ≠ some '(')
  · cases op
    · exact (by decide : some '+' ≠ some '(')
    · exact (by decide : some '-' ≠ some '(')
    · exact (by decide : some '*' ≠ some '(')
    · exact (by decide : some '*' ≠ some '(')
    · exact (by decide : some '/' ≠ some '(')
    · exact (by decide : some '/' ≠ some '(')
    · exact (by decide : some '%' ≠ some '(')

/-- What a text ends with is found from its end. -/
theorem isSuffixOf?_append (t symbol back : Text) :
    symbol.isSuffixOf? (t ++ back) = (symbol.reverse.isPrefixOf? (back.reverse ++ t.reverse)).map
      List.reverse := by
  rw [List.isSuffixOf?, List.reverse_append]

/-- The operator of an augmented assignment is cut off behind the target. -/
theorem cutOperator_append (op : Option ArithOp) (t : Text) :
    cutOperator (t ++ ' ' :: (op.elim "" ArithOp.symbol).toList) = (t ++ [' '], op) := by
  rcases op with _ | op
  · simp [cutOperator, assignmentOperators, isSuffixOf?_append, ArithOp.symbol, List.isPrefixOf?]
  · cases op <;>
      simp [cutOperator, assignmentOperators, isSuffixOf?_append, ArithOp.symbol, List.isPrefixOf?]

/-- An assignment is no call. -/
theorem callForm?_assigning (h : target.WellFormed) (op : Option ArithOp) (value : Text) :
    callForm? (target.text ++ assigning op value) = none ∧
      EndsWord (target.parts.2 ++ assigning op value) := by
  have hends : EndsWord (target.parts.2 ++ assigning op value) := by
    cases target <;> exact endsWord_cons (by decide) rfl
  refine ⟨?_, hends⟩
  rw [Target.text_eq, List.append_assoc]
  refine callForm?_of_head h.isName hends ?_
  cases target with
  | name n => exact trimStart_assigning op value
  | element n index => exact (by decide : some '[' ≠ some '(')

/-- An assignment is read back as one, with its operator and whatever signs are in it. -/
theorem classify_assign (htarget : target.WellFormed) (op : Option ArithOp)
    (hvalue : IsExpression value) :
    classify (target.text ++ assigning op value) = .ok (.assign target op value) := by
  obtain ⟨hcall, hends⟩ := callForm?_assigning htarget op value
  have hcut : cutAtAssignment? start none false (target.text ++ assigning op value) =
      some (target.text ++ ' ' :: (op.elim "" ArithOp.symbol).toList, ' ' :: value) := by
    rw [start, htarget.passed none _ (by rw [assigning, List.head?_cons]; decide),
      cutAtAssignment?_assigning]
    rfl
  have hleft : Text.trim (target.text ++ [' ']) = target.text :=
    trim_append_append blank_nil htarget.trimmed blank_space
  have hright : Text.trim (' ' :: value) = value := hvalue.trimmed.trim_eq blank_space
  have hform : LineForm.assign (target.text ++ assigning op value) =
      some (.ok (.assign target op value)) := by
    simp only [LineForm.assign, hcut, cutOperator_append, hleft, target?_text htarget, hright,
      hvalue.isEmpty_eq, Bool.false_eq_true, if_false]
  have hprint := print_eq_none hcall
  rw [Target.text_eq, List.append_assoc] at hprint hform ⊢
  rw [classify_of_name htarget.isName hends]
  simp only [List.findSome?_cons, hprint, hform, Option.getD_some]

/-! ## Headers and other lines with a keyword -/

/-- What stands between a keyword and the colon is read back. -/
theorem header?_eq (ht : Trimmed t) (hne : t ≠ []) :
    header? keyword (keyword.toList ++ ' ' :: (t ++ [':'])) = some (.ok t) := by
  have hends : EndsWord (' ' :: (t ++ [':'])) := endsWord_cons (by decide) rfl
  have htrim : Text.trim (' ' :: (t ++ [':'])) = t ++ [':'] := (ht.colon hne).trim_eq blank_space
  simp only [header?, afterKeyword?_self hends, htrim, Option.map_some, beforeColon?_append,
    ht.trim_eq_self]

/-- Behind a keyword and a blank, texts without the sign of an assignment have none. -/
theorem cutAtAssignment?_keyword (hkeyword : keyword.toList ∈ reservedWords) (ht : Passed 0 t)
    (hhead : t.head? ≠ some '=') :
    cutAtAssignment? start none false (keyword.toList ++ ' ' :: t) = none := by
  have hbehind : Passed 0 ([' '] ++ t) := (passed_char (by decide) rfl).append ht hhead
  exact ((passed_of_continuesWord (continuesWord_of_reserved hkeyword)).append hbehind
    (by rw [List.singleton_append, List.head?_cons]; decide)).cut_eq_none

theorem Passed.colon (ht : Passed 0 t) : Passed 0 (t ++ [':']) :=
  ht.append (passed_char (by decide) rfl) (by decide)

theorem head?_colon {t : Text} (h : t.head? ≠ some '=') : (t ++ [':']).head? ≠ some '=' := by
  cases t with
  | nil => decide
  | cons c cs => exact h

/-- An `if`, an `elif` and a `while` are read back with their condition. -/
theorem classify_conditional (hmem : (keyword, .conditional keyword build) ∈ LineForm.keyworded)
    (h : IsExpression t) :
    classify (keyword.toList ++ ' ' :: (t ++ [':'])) = .ok (build t) := by
  refine classify_of_keyword hmem (endsWord_cons (by decide) rfl) ?_ ?_
  · exact cutAtAssignment?_keyword (reserved_of_keyworded hmem) h.passed.colon
      (head?_colon h.head?_ne)
  · rw [LineForm.conditional, header?_eq h.trimmed h.ne_nil, Option.map_some]
    dsimp only
    rw [h.isEmpty_eq, if_neg Bool.false_ne_true]

/-- A `for` is read back with its variable and what it goes over. -/
theorem classify_forEach (hx : IsName x) (h : IsExpression t) :
    classify ("for".toList ++ ' ' :: (x.toList ++ (" in ".toList ++ t) ++ [':'])) =
      .ok (.forEach x t) := by
  have hmem : ("for", LineForm.forEach) ∈ LineForm.keyworded := by
    simp [LineForm.keyworded]
  have hname : Text.isIdentifier x.toList = true := hx
  refine classify_of_keyword hmem (endsWord_cons (by decide) rfl) ?_ ?_
  · have hread : start.read " in ".toList = start := by decide
    have hin : Passed 0 " in ".toList :=
      passed_of_along (along_signless_of_forall (ne_equal_of_all (by decide)) _) hread
    have hhead : (" in ".toList ++ t).head? ≠ some '=' := by
      have hblank : " in ".toList.head? = some ' ' := by decide
      rw [List.head?_append, hblank, Option.some_or]
      decide
    have hpassed : Passed 0 (x.toList ++ (" in ".toList ++ t)) :=
      (passed_of_continuesWord (continuesWord_of_isIdentifier hx)).append
        (hin.append h.passed h.head?_ne) hhead
    exact cutAtAssignment?_keyword (reserved_of_keyworded hmem) hpassed.colon
      (head?_colon (head?_ne_of_isIdentifier hx))
  · have htrimmed : Trimmed (x.toList ++ (" in ".toList ++ t)) :=
      (trimmed_of_isIdentifier hx).around h.trimmed (ne_nil_of_isIdentifier hx) h.ne_nil _
    have hne : x.toList ++ (" in ".toList ++ t) ≠ [] :=
      List.append_ne_nil_of_left_ne_nil (ne_nil_of_isIdentifier hx) _
    have hblank : ' ' ∉ x.toList := not_mem_of_isIdentifier hx rfl
    have hcut : cut? " in ".toList (x.toList ++ (" in ".toList ++ t)) = some (x.toList, t) :=
      cut?_append hblank "in ".toList t
    rw [LineForm.forEach, header?_eq htrimmed hne, Option.map_some]
    simp only [hcut, (trimmed_of_isIdentifier hx).trim_eq_self, hname, h.1, h.isEmpty_eq,
      Bool.not_true, Bool.false_eq_true, if_false, String.ofList_toList]

/-- Names are accepted as parameters. -/
theorem parameters_eq_ok (h : ∀ p ∈ ps, IsName p) :
    Text.parameters (ps.map String.toList) = .ok ps := by
  induction ps with
  | nil => rfl
  | cons p ps ih =>
    have hp : Text.isIdentifier p.toList = true := h p List.mem_cons_self
    rw [List.map_cons, Text.parameters, parameter, hp, if_pos rfl,
      ih fun q hq => h q (List.mem_cons_of_mem p hq)]
    simp only [String.ofList_toList]

/-- A `def` is read back with its name and its parameters. -/
theorem classify_define (hf : IsName f) (hps : ∀ p ∈ ps, IsName p) :
    classify ("def".toList ++ ' ' :: (f.toList ++ (joined ps).parenthesized ++ [':'])) =
      .ok (.define f ps) := by
  have hmem : ("def", LineForm.define) ∈ LineForm.keyworded := by
    simp [LineForm.keyworded]
  have hjoined := enclosed_joined hps
  have hends : EndsWord (' ' :: (f.toList ++ (joined ps).parenthesized ++ [':'])) :=
    endsWord_cons (by decide) rfl
  refine classify_of_keyword hmem hends ?_ ?_
  · exact cutAtAssignment?_keyword (reserved_of_keyworded hmem)
      (passed_parenthesized hf hjoined).colon (head?_colon (head?_ne_of_isIdentifier hf))
  · have htrimmed : Trimmed (f.toList ++ (joined ps).parenthesized) := trimmed_parenthesized hf
    have hne : f.toList ++ (joined ps).parenthesized ≠ [] :=
      List.append_ne_nil_of_left_ne_nil (ne_nil_of_isIdentifier hf) _
    have htrim : Text.trim (' ' :: (f.toList ++ (joined ps).parenthesized ++ [':'])) =
        f.toList ++ (joined ps).parenthesized ++ [':'] := (htrimmed.colon hne).trim_eq blank_space
    simp only [LineForm.define, afterKeyword?_self hends, htrim, Option.map_some,
      beforeColon?_append, htrimmed.trim_eq_self, callForm?_parenthesized hf hjoined,
      pieces_joined hps, parameters_eq_ok hps, String.ofList_toList]

/-- A `return` is read back with what stands behind it. -/
theorem classify_leave (h : IsExpression t) :
    classify ("return".toList ++ ' ' :: t) = .ok (.leave (some t)) := by
  have hmem : ("return", LineForm.leave) ∈ LineForm.keyworded := by
    simp [LineForm.keyworded]
  have hends : EndsWord (' ' :: t) := endsWord_cons (by decide) rfl
  refine classify_of_keyword hmem hends ?_ ?_
  · exact cutAtAssignment?_keyword (reserved_of_keyworded hmem) h.passed h.head?_ne
  · have htrim : Text.trim (' ' :: t) = t := h.trimmed.trim_eq blank_space
    rw [LineForm.leave, afterKeyword?_self hends, htrim, Option.map_some, h.isEmpty_eq,
      if_neg Bool.false_ne_true]

/-! ## Statements are read back from their lines -/

/-- **Statements are read back from their lines.** The line of a well-formed statement is
read as the statement with exactly these parts, whatever the expressions, the index and
the arguments in it look like. -/
theorem classify_text (s : Statement) (h : s.WellFormed) : classify s.text = .ok s := by
  cases s with
  | print arguments => exact classify_print h
  | define name parameters => exact classify_define h.1 h.2
  | assign target op value => exact classify_assign h.1 op h.2
  | ifHolds condition => exact classify_conditional (by simp [LineForm.keyworded]) h
  | elseIf condition => exact classify_conditional (by simp [LineForm.keyworded]) h
  | otherwise => decide
  | forEach loopVariable iterable => exact classify_forEach h.1 h.2
  | whileHolds condition => exact classify_conditional (by simp [LineForm.keyworded]) h
  | call name arguments => exact classify_call h.1 h.2.1 h.2.2
  | leave value =>
    cases value with
    | none => decide
    | some value => exact classify_leave h
  | breakLoop => decide
  | continueLoop => decide
  | pass => decide
  | append list value => exact classify_append h.1 h.2
  | unrecognized => contradiction

/-- Equals signs in an index and in a value. -/
theorem classify_text_element :
    parseText "b<='='".toList = .ok (.comparison (.var "b" 0) [(.le, 1, .text "=")]) ∧
      classify "x[a['=']] //= b<='='".toList =
        .ok (.assign (.element "x" "a['=']".toList) (some .floorDiv) "b<='='".toList) := by
  have hscan : scan "b<='='".toList = .ok [⟨.identifier, "b", some (.name "b"), 0⟩,
      ⟨.lessEqual, "<=", none, 1⟩, ⟨.string, "'='", some (.text "="), 3⟩, ⟨.eof, "", none, 6⟩] := by
    cbv
  have hparse : parseText "b<='='".toList =
      .ok (.comparison (.var "b" 0) [(.le, 1, .text "=")]) := by
    rw [parseText, hscan]
    cbv
  have hindex : IsExpression "a['=']".toList :=
    ⟨by decide, .subscript 1 (.var "a" 0) (.text "="), by cbv⟩
  have hvalue : IsExpression "b<='='".toList := ⟨by decide, _, hparse⟩
  have hname : IsName "x" := by
    unfold IsName
    decide
  refine ⟨hparse, ?_⟩
  exact classify_text (.assign (.element "x" "a['=']".toList) (some .floorDiv) "b<='='".toList)
    ⟨⟨hname, hindex⟩, hvalue⟩

end Offside
