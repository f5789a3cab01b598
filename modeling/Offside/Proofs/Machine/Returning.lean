import Offside.Proofs.Machine.Keeping
import Offside.Proofs.Machine.Renumbering

/-!
# What a function returns is not looked at

The text behind `return` is not evaluated: a line that returns ends the call, whatever it says
it returns, and where no call is going on it is a fault, whatever it says. So lines are alike
here if they are the same but for that text, and functions are if the lines of their bodies
are.

> `returned_texts_unseen`: programs that are alike end in the same way from machines that are
> alike, and no program that is run afterwards can tell the machines apart.
-/

namespace Offside

open Machine

/-- The line is left by returning. -/
def Line.Returns (line : Line) : Prop :=
  ∃ value, classify line.text = .ok (.leave value)

/-- Two lines with the same number and indentation, and with the same text unless both
return. -/
structure Line.SameButReturned (line line' : Line) : Prop where
  number_eq : line'.number = line.number
  indent_eq : line'.indent = line.indent
  text_eq : line'.text = line.text ∨ line.Returns ∧ line'.Returns

/-- Two functions that are the same but for what the lines of their bodies return. -/
structure Function.SameButReturned (f f' : Function) : Prop where
  name_eq : f'.name = f.name
  parameters_eq : f'.parameters = f.parameters
  captured_eq : f'.captured = f.captured
  body : List.Forall₂ Line.SameButReturned f.body f'.body

/-- Lines are alike if they are the same but for what they return, functions are if the
lines of their bodies are, and tables if the functions of each name are. -/
def Likeness.returning : Likeness where
  line := Line.SameButReturned
  function := Function.SameButReturned
  table b b' := b.Rel Function.SameButReturned b'
  parameters_eq := Function.SameButReturned.parameters_eq
  captured_eq := Function.SameButReturned.captured_eq
  rel h := h
  insert h hf name := h.insert hf name

/-- The machines have the same scopes and have printed the same, and their functions are the
same but for what they return. -/
def Machine.SameButReturned (m m' : Machine) : Prop :=
  Likeness.returning.Machines m m'

variable {limits : Limits} {line line' : Line} {lines lines' rest rest' : List Line}
  {m m' : Machine}

/-! ## Lines -/

theorem Line.SameButReturned.refl (line : Line) : line.SameButReturned line :=
  ⟨rfl, rfl, .inl rfl⟩

/-- A line is as blank with another text returned. -/
theorem Line.SameButReturned.isBlank_eq (h : line.SameButReturned line') :
    line'.isBlank = line.isBlank := by
  rcases h.text_eq with htext | ⟨⟨value, hclass⟩, ⟨value', hclass'⟩⟩
  · rw [Line.isBlank, Line.isBlank, htext]
  · have hblank := not_isBlank_of_classify hclass (by simp)
    have hblank' := not_isBlank_of_classify hclass' (by simp)
    rw [Bool.eq_false_iff.mpr hblank, Bool.eq_false_iff.mpr hblank']

/-- A line that returns does so whatever stands behind `return`. -/
theorem outcomes_of_returns (hreturns : line.Returns) (hreturns' : line'.Returns)
    (hline : line.SameButReturned line') (hm : m.SameButReturned m') (c c' : Context)
    (chains chains' : Chains) (n n' : Nat) :
    Likeness.returning.Outcomes (Likeness.Nexts Eq n n') (m.runLine c chains line rest)
      (m'.runLine c' chains' line' rest') := by
  obtain ⟨value, hclass⟩ := hreturns
  obtain ⟨value', hclass'⟩ := hreturns'
  rw [runLine_of_classify m c chains rest hclass (by simp) rfl,
    runLine_of_classify m' c' chains' rest' hclass' (by simp) rfl, perform, perform, hm.frames_eq]
  split
  next => exact .intro hm (.error (.malformed _ hline))
  next => exact .intro hm (.ok (.exit .returned))

/-! ## Runs -/

/-- Lines that return other texts run alike. -/
theorem linewise_returning : Likeness.returning.Linewise where
  indent_eq := Line.SameButReturned.indent_eq
  isBlank_eq := Line.SameButReturned.isBlank_eq
  text_eq_or hline := hline.text_eq.imp_right fun ⟨hreturns, hreturns'⟩ _ _ hm c c' chains _ _ _ _ =>
    outcomes_of_returns hreturns hreturns' hline hm c c' chains chains _ _
  function h _ _ _ := ⟨rfl, rfl, rfl, h⟩
  body := Function.SameButReturned.body

/-! ## Programs -/

variable {source source' : Text}

/-- The programs are the same but for what their lines return. -/
def Text.SameButReturned (source source' : Text) : Prop :=
  List.Forall₂ Line.SameButReturned (sourceLines source) (sourceLines source')

theorem Text.SameButReturned.refl (source : Text) : source.SameButReturned source :=
  List.forall₂_same.mpr fun line _ => .refl line

/-- Programs that return other texts have the same outcome and print the same. -/
theorem interpret_returning (limits : Limits) (hsource : source.SameButReturned source')
    (hm : m.SameButReturned m') :
    (interpret limits source' m').2 = (interpret limits source m).2 ∧
      (interpret limits source m).1.SameButReturned (interpret limits source' m').1 := by
  have hrun := linewise_returning.runUnder limits hsource hm
  rw [interpret, interpret]
  generalize runUnder limits (sourceLines source) m = o,
    runUnder limits (sourceLines source') m' = o' at hrun ⊢
  obtain ⟨hafter, hr⟩ := hrun
  obtain rfl := hr.eq_of_number Line.SameButReturned.number_eq
  cases ‹Except Failure Completion› with
  | error failure => exact ⟨rfl, hafter⟩
  | ok completion => exact ⟨rfl, hafter⟩

/-- Sessions that return other texts go on alike from program to program. -/
theorem session_returning (limits : Limits) (hm : m.SameButReturned m') (sources : List Text) :
    List.Forall₂ Machine.SameButReturned (session limits m sources)
      (session limits m' sources) := by
  induction sources generalizing m m' with
  | nil => exact .cons hm .nil
  | cons source sources ih =>
    exact .cons hm (ih (interpret_returning limits (.refl source) hm).2)

/-- **What is returned is never seen.** Take two programs whose lines have the same numbers,
indentations and texts, except that a line may return different things in the two, or nothing,
or something that is no expression; and run them where the functions that are defined differ
in the same way. Both end in the same way, with the same failure at the same line, print the
same, and leave the same scopes and functions of the same names. However many programs are run
afterwards, each of them ends in the same way in both sessions and leaves machines that differ
no more. -/
theorem returned_texts_unseen (limits : Limits) (hsource : source.SameButReturned source')
    (hm : m.SameButReturned m') :
    let (m₁, result) := interpret limits source m
    let (m₁', result') := interpret limits source' m'
    result' = result ∧ m₁'.output = m₁.output ∧ m₁'.globals = m₁.globals ∧
      m₁'.frames = m₁.frames ∧
      (∀ name, m₁'.functions.contains name = m₁.functions.contains name) ∧
      ∀ sources, List.Forall₂ (fun n n' => n.SameButReturned n' ∧
          ∀ next, (interpret limits next n').2 = (interpret limits next n).2)
        (session limits m₁ sources) (session limits m₁' sources) := by
  obtain ⟨hresult, hafter⟩ := interpret_returning limits hsource hm
  have hnames := Bindings.Rel.contains_eq hafter.functions
  refine ⟨hresult, hafter.output_eq, hafter.globals_eq, hafter.frames_eq, hnames, fun sources => ?_⟩
  refine (session_returning limits hafter sources).imp fun n n' hn => ⟨hn, fun next => ?_⟩
  exact (interpret_returning limits (.refl next) hn).1

/-- A function that returns nothing, or what is no expression, and a line outside of it that
fails because it returns. -/
theorem returned_texts_unseen_invalid :
    let source : Text := "def f():\n  return\nf()\nreturn 'x".toList
    let source' : Text := "def f():\n  return 1 +\nf()\nreturn".toList
    Text.SameButReturned source source' ∧
      (interpret {} source {}).2 = .error (.malformed .leaveOutside 4) ∧
      (interpret {} source' {}).2 = .error (.malformed .leaveOutside 4) := by
  intro source source'
  have hlines : sourceLines source = [⟨1, 0, "def f():".toList⟩, ⟨2, 2, "return".toList⟩,
      ⟨3, 0, "f()".toList⟩, ⟨4, 0, "return 'x".toList⟩] := by decide +kernel
  have hlines' : sourceLines source' = [⟨1, 0, "def f():".toList⟩, ⟨2, 2, "return 1 +".toList⟩,
      ⟨3, 0, "f()".toList⟩, ⟨4, 0, "return".toList⟩] := by decide +kernel
  have hsource : Text.SameButReturned source source' := by
    rw [Text.SameButReturned, hlines, hlines']
    have hbody : classify "return".toList = .ok (.leave none) := rfl
    have hbody' : classify "return 1 +".toList = .ok (.leave (some "1 +".toList)) := rfl
    have hlast : classify "return 'x".toList = .ok (.leave (some "'x".toList)) := rfl
    exact .cons (.refl _) (.cons ⟨rfl, rfl, .inr ⟨⟨_, hbody⟩, _, hbody'⟩⟩
      (.cons (.refl _) (.cons ⟨rfl, rfl, .inr ⟨⟨_, hlast⟩, _, hbody⟩⟩ .nil)))
  have hresult : (interpret {} source {}).2 = .error (.malformed .leaveOutside 4) := by
    decide +kernel
  have hempty : Machine.SameButReturned {} {} := ⟨rfl, rfl, rfl, rfl, fun _ => .none⟩
  exact ⟨hsource, hresult, (returned_texts_unseen {} hsource hempty).1.trans hresult⟩

end Offside
