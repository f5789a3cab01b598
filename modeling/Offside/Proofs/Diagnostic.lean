import Mathlib
import Offside.CommandLine.Terminal
import Offside.Proofs.Machine.Failing
import Offside.Proofs.Text.Pieces

/-!
# Failures are shown at their line

The number of a failure is that of a line of the source text, also when the line is run
again from the block of a loop or from a body that was kept. The lines of the program and
the lines that a diagnostic looks up are cut from the source in the same way, so the
diagnostic finds the line as it was written:

> `failure_shows_line`: a program that fails does so on a line of its source that is not
> blank, and the diagnostic shows that line, marked from end to end.
-/

namespace Offside

open Machine

variable {limits : Limits} {source raw : Text} {number : Nat} {failure : Failure}

/-! ## Marks -/

/-- A mark of some carets behind some spaces, between what its emphasis starts and ends
with. -/
def pointer (before after : Emphasis → String) (indent width : Nat) : String :=
  String.ofList (List.replicate indent ' ') ++
    (before .mark ++ String.ofList (List.replicate width '^') ++ after .mark)

/-- Texts that are shown as they are have nothing around them. -/
theorem frames_plain : Painting.plain.Frames (fun _ => "") fun _ => "" := by
  intro e s _
  rw [String.empty_append, String.append_empty]
  rfl

/-- A text without escape characters has no reset in it. -/
theorem resumed_eq_self (e : Emphasis) {t : Text} (h : '\x1b' ∉ t) : e.resumed t = t := by
  induction t with
  | nil => rfl
  | cons c cs ih =>
    obtain ⟨hc, hcs⟩ := List.ne_and_not_mem_of_not_mem_cons h
    rw [Emphasis.resumed, ih hcs]
    rintro rest rfl
    exact absurd rfl hc

/-- On a terminal a text is put between the sequences of its emphasis. -/
theorem frames_terminal : Painting.terminal.Frames Emphasis.start fun _ => Emphasis.reset := by
  intro e s h
  rw [Painting.terminal, resumed_eq_self e h, String.ofList_toList]

/-- A mark has no escape characters in it, so it is framed. -/
theorem Painting.Frames.carets {paint : Painting} {before after : Emphasis → String}
    (hpaint : paint.Frames before after) (e : Emphasis) (width : Nat) :
    let carets := String.ofList (List.replicate width '^')
    paint e carets = before e ++ carets ++ after e := by
  refine hpaint e _ ?_
  rw [String.toList_ofList, List.mem_replicate]
  rintro ⟨-, h⟩
  exact absurd h (by decide)

/-- A line that is not blank is marked from end to end. -/
theorem markedLine_eq {paint : Painting} {before after : Emphasis → String}
    (hpaint : paint.Frames before after) (h : raw.trim ≠ []) :
    markedLine paint raw = String.ofList raw ++ "\n" ++
      pointer before after (raw.takeWhile isBlank).length raw.trim.length ++ "\n" := by
  have hwidth : max raw.trim.length 1 = raw.trim.length :=
    Nat.max_eq_left (List.length_pos_of_ne_nil h)
  rw [markedLine, pointer, ← hpaint.carets, hwidth]
  simp only [String.append_assoc]

/-! ## Lines of a source text -/

theorem mem_sourceLines {line : Line} (h : line ∈ sourceLines source) :
    ∃ raw, 1 ≤ line.number ∧ source.lines[line.number - 1]? = some raw ∧
      line = Line.ofRaw line.number raw := by
  obtain ⟨⟨raw, number⟩, hmem, rfl⟩ := List.mem_map.mp h
  obtain ⟨hle, hget⟩ := List.mk_mem_zipIdx_iff_le_and_getElem?_sub.mp hmem
  exact ⟨raw, hle, hget, rfl⟩

theorem trim_ne_nil_of_ofRaw (h : (Line.ofRaw number raw).isBlank = false) : raw.trim ≠ [] := by
  intro hnil
  obtain ⟨front, back, hraw, hfront, hback, _⟩ := Text.exists_trim raw
  rw [hnil, List.nil_append] at hraw
  have hstart : raw.trimStart = [] :=
    List.dropWhile_eq_nil_iff.mpr (hraw ▸ hfront.append hback)
  rw [Line.isBlank, Line.ofRaw, hstart] at h
  cases h

/-- **A failure is shown at its line.** If a program fails that is run from scratch, the
number of the failure is that of a line of its source, and the line is not blank behind a
comment. It is the line that was run when the failure arose, in the innermost of the loops
and calls that were open. The diagnostic ends with this line as it was written, and with one
caret for each character of its trimmed text, behind one space for each blank in front of
it; in whatever way it is painted, only what the emphasis starts and ends with stands around
the carets. -/
theorem failure_shows_line (h : (Machine.interpret limits source {}).2 = .error failure) :
    1 ≤ failure.line ∧ failure.line ≤ source.lines.length ∧
    ∃ raw, source.lines[failure.line - 1]? = some raw ∧
      (Line.ofRaw failure.line raw).isBlank = false ∧
      (Point.start limits (sourceLines source) {}).FailsOn limits
        (Line.ofRaw failure.line raw) failure ∧
      ∀ (paint : Painting) before after, paint.Frames before after → ∀ origin,
        failure.diagnostic paint origin source =
          failure.heading paint origin ++ String.ofList raw ++ "\n" ++
            pointer before after (raw.takeWhile isBlank).length raw.trim.length ++ "\n" := by
  have hstart : (Point.start limits (sourceLines source) {}).StandsIn (sourceLines source) :=
    ⟨List.Subset.refl _, fun name f hf => by cases hf⟩
  obtain ⟨line, hfails⟩ := Point.run_failed_iff.mp (interpret_failed_iff.mp h)
  obtain ⟨raw, hone, hget, hline⟩ := mem_sourceLines (hfails.mem hstart)
  rw [← hfails.line_eq] at hone hget hline
  subst hline
  have hle : failure.line ≤ source.lines.length := by
    obtain ⟨hlt, _⟩ := List.getElem?_eq_some_iff.mp hget
    omega
  refine ⟨hone, hle, raw, hget, hfails.isBlank_eq, hfails, fun paint _ _ hpaint origin => ?_⟩
  rw [Failure.diagnostic, hget]
  dsimp only
  rw [markedLine_eq hpaint (trim_ne_nil_of_ofRaw hfails.isBlank_eq)]
  simp only [String.append_assoc]

/-- A function that is called in a loop and calls one that is not defined, where lines end
in two ways and the failing one is indented and has a comment. -/
theorem failure_shows_line_in_body :
    let source : Text := "def f():\r\n\tg()  # here\r\n\nfor c in 'a':\n  f()".toList
    let failure : Failure := .runtime (.runtime (.unbound "g")) 2
    let raw : Text := "\tg()  # here".toList
    (Machine.interpret {} source {}).2 = .error failure ∧
      1 ≤ failure.line ∧ failure.line ≤ source.lines.length ∧
      source.lines[failure.line - 1]? = some raw ∧
      (Line.ofRaw failure.line raw).isBlank = false ∧
      (Point.start {} (sourceLines source) {}).FailsOn {} (Line.ofRaw failure.line raw) failure ∧
      diagnostic false (.file "demo.py") source failure =
        "pylite: runtime error: name 'g' is not defined\nin demo.py, at line 2:\n" ++
          "\tg()  # here\n ^^^^^^^^^^^\n" ∧
      diagnostic true (.file "demo.py") source failure =
        "pylite: \x1b[1;31mruntime error\x1b[0m: " ++
          "\x1b[1;37mname 'g' is not defined\x1b[0m\nin demo.py, at line 2:\n" ++
          "\tg()  # here\n \x1b[1;34m^^^^^^^^^^^\x1b[0m\n" := by
  intro source failure raw
  let body : Line := ⟨2, 1, "g()".toList⟩
  let line : Line := ⟨4, 0, "for c in 'a':".toList⟩
  let inner : Line := ⟨5, 2, "f()".toList⟩
  let m : Machine := Machine.define {} "f" [] [body]
  let f : Function := ⟨"f", [], [body], m.globals⟩
  let round : Machine := Machine.bind { m with loopDepth := 1 } "c" (.text "a")
  have hlines : sourceLines source =
      [⟨1, 0, "def f():".toList⟩, body, ⟨3, 0, []⟩, line, inner] := by decide +kernel
  have hreach : Reaches {} (entryWithin {} 200) {} (sourceLines source) {} {} [line, inner] m := by
    rw [hlines]
    exact .on rfl (.on rfl .here)
  have hloop : Descends {} 200 line [inner] m .loop (Point.block 200 line [inner] round) := by
    have helements : m.elements "'a'".toList = .ok [.text "a"] := by cbv
    exact .forEach rfl (by decide) helements .here
  have hcall : Descends {} 200 inner [] round .call
      ⟨199, {}, [body], { round with frames := [f.frame []], loopDepth := 0 }⟩ := by
    have hclass : classify inner.text = .ok (.call "f" []) := by cbv
    exact .call hclass (.intro rfl (f := f) rfl (Nat.le_refl 0))
  have hbody : (Point.run {} ⟨199, {}, [body],
      { round with frames := [f.frame []], loopDepth := 0 }⟩).2 = .error failure := by
    rw [Point.run_cons]
    rfl
  have hfailed : (Machine.interpret {} source {}).2 = .error failure := by
    rw [interpret_failed_iff]
    refine (congrArg Prod.snd hreach.runLines_eq).trans ?_
    exact hloop.run_failed (hcall.run_failed hbody)
  obtain ⟨hone, hle, raw', hget, hblank, hfails, hshown⟩ := failure_shows_line hfailed
  obtain rfl : raw' = raw := by
    have hraw : source.lines[failure.line - 1]? = some raw := by decide +kernel
    exact Option.some.inj (hget.symm.trans hraw)
  refine ⟨hfailed, hone, hle, hget, hblank, hfails, ?_, ?_⟩
  · refine (hshown _ _ _ frames_plain _).trans ?_
    decide +kernel
  · refine (hshown _ _ _ frames_terminal _).trans ?_
    decide +kernel

end Offside
