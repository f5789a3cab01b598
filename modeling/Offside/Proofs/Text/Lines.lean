import Offside.Program.Line
import Offside.Proofs.Text.Pieces

/-!
# Texts joined at a line break

Two texts that are joined by a line feed fall into the lines of the first and the lines
of the second (`lines_append`). A line feed behind the first text alone makes little
difference: it may close an empty line, or take along a carriage return that stood at
the end (`lines_closed`). As a source line, a line with that carriage return is the line
without it, unless both are blank:

> `ofRaw_return`: a carriage return at the end of a raw line is not seen, except in the
> indentation of a blank line.
-/

namespace Offside

namespace Text

theorem consFirst_append (c : Char) {parts : List Text} (h : parts ≠ []) (more : List Text) :
    consFirst c (parts ++ more) = consFirst c parts ++ more := by
  obtain ⟨part, rest, rfl⟩ := List.exists_cons_of_ne_nil h
  rfl

/-- A text with a character has a line. -/
theorem consFirst_ne_nil (c : Char) (parts : List Text) : consFirst c parts ≠ [] := by
  cases parts <;> exact List.cons_ne_nil _ _

/-- A character that is no line break, and not part of one, stands in the first line. -/
theorem lines_cons {c : Char} {cs : Text} (hbreak : c ≠ '\n')
    (hreturn : ∀ rest, c = '\r' → cs ≠ '\n' :: rest) :
    lines (c :: cs) = consFirst c (lines cs) := by
  rw [lines]
  · rfl
  · exact hreturn
  · exact hbreak

/-- Induction along the lines of a text: in front of it stands a line break of either
sort, or a character of its first line. -/
theorem lines_induction {motive : Text → Prop} (nil : motive [])
    (crlf : ∀ cs, motive cs → motive ('\r' :: '\n' :: cs))
    (lf : ∀ cs, motive cs → motive ('\n' :: cs))
    (char : ∀ c cs, c ≠ '\n' → (∀ rest, c = '\r' → cs ≠ '\n' :: rest) → motive cs →
      motive (c :: cs)) (s : Text) : motive s := by
  induction s using lines.induct with
  | case1 => exact nil
  | case2 cs ih => exact crlf cs ih
  | case3 cs ih => exact lf cs ih
  | case4 c cs hreturn hbreak _ ih =>
    exact char c cs hbreak (fun rest hc heq => hreturn rest hc heq) ih
  | case5 c cs hreturn hbreak line rest _ ih =>
    exact char c cs hbreak (fun rest hc heq => hreturn rest hc heq) ih

/-- Only the empty text has no lines. -/
theorem lines_eq_nil_iff (s : Text) : s.lines = [] ↔ s = [] := by
  induction s using lines_induction with
  | nil => exact ⟨fun _ => rfl, fun _ => rfl⟩
  | crlf cs => exact ⟨nofun, nofun⟩
  | lf cs => exact ⟨nofun, nofun⟩
  | char c cs hbreak hreturn =>
    rw [lines_cons hbreak hreturn]
    exact ⟨fun h => absurd h (consFirst_ne_nil c _), nofun⟩

/-- In front of a line feed a character that is no line break is still none, unless it
is the carriage return that the line feed takes along. -/
theorem not_return_append {c : Char} {cs : Text} (hreturn : ∀ rest, c = '\r' → cs ≠ '\n' :: rest)
    (hlast : ¬(c = '\r' ∧ cs = [])) (t : Text) :
    ∀ rest, c = '\r' → cs ++ '\n' :: t ≠ '\n' :: rest := by
  intro rest hc heq
  cases cs with
  | nil => exact hlast ⟨hc, rfl⟩
  | cons d ds =>
    rw [List.cons_append, List.cons.injEq] at heq
    exact hreturn ds hc (by rw [heq.1])

/-- Joined at a line feed, two texts keep their lines. -/
theorem lines_append (s t : Text) : (s ++ '\n' :: t).lines = (s ++ ['\n']).lines ++ t.lines := by
  induction s using lines_induction with
  | nil => rfl
  | crlf cs ih => exact congrArg (List.cons []) ih
  | lf cs ih => exact congrArg (List.cons []) ih
  | char c cs hbreak hreturn ih =>
    by_cases hlast : c = '\r' ∧ cs = []
    · obtain ⟨rfl, rfl⟩ := hlast
      rfl
    · have hsome : lines (cs ++ ['\n']) ≠ [] := by
        rw [Ne, lines_eq_nil_iff]
        exact List.append_ne_nil_of_right_ne_nil cs (List.cons_ne_nil _ _)
      rw [List.cons_append, List.cons_append,
        lines_cons hbreak (not_return_append hreturn hlast t),
        lines_cons hbreak (not_return_append hreturn hlast []), ih, consFirst_append c hsome]

/-- What a line feed at the end of a text makes of its lines: it closes the last of
them, or an empty one, or it takes along the carriage return at the end. -/
inductive Closed : List Text → List Text → Prop
  | last (parts : List Text) : Closed parts parts
  | empty (parts : List Text) : Closed parts (parts ++ [[]])
  | carriage (front : List Text) (last : Text) : Closed (front ++ [last ++ ['\r']]) (front ++ [last])

theorem Closed.cons {parts parts' : List Text} (h : Closed parts parts') (part : Text) :
    Closed (part :: parts) (part :: parts') := by
  cases h with
  | last => exact .last _
  | empty => exact .empty (part :: parts)
  | carriage front last => exact .carriage (part :: front) last

theorem Closed.consFirst {parts parts' : List Text} (h : Closed parts parts') (c : Char) :
    Closed (consFirst c parts) (consFirst c parts') := by
  cases h with
  | last => exact .last _
  | empty =>
    cases parts with
    | nil => exact .last [[c]]
    | cons part rest => exact .empty ((c :: part) :: rest)
  | carriage front last =>
    cases front with
    | nil => exact .carriage [] (c :: last)
    | cons part rest => exact .carriage ((c :: part) :: rest) last

/-- A line break at the end closes the last line and starts no other. -/
theorem lines_closed (s : Text) : Closed s.lines (s ++ ['\n']).lines := by
  induction s using lines_induction with
  | nil => exact .empty []
  | crlf cs ih => exact ih.cons []
  | lf cs ih => exact ih.cons []
  | char c cs hbreak hreturn ih =>
    by_cases hlast : c = '\r' ∧ cs = []
    · obtain ⟨rfl, rfl⟩ := hlast
      exact .carriage [] []
    · rw [List.cons_append, lines_cons hbreak (not_return_append hreturn hlast []),
        lines_cons hbreak hreturn]
      exact ih.consFirst c

/-- What stands in front of a comment, if one character more is read. -/
theorem beforeComment_concat (s : Nesting) (t : Text) {c : Char} (hc : c ≠ '#') :
    beforeComment s (t ++ [c]) = beforeComment s t ∨
      beforeComment s (t ++ [c]) = beforeComment s t ++ [c] := by
  induction t generalizing s with
  | nil =>
    right
    show (if c == '#' && (s.level c).isSome then [] else [c]) = [c]
    rw [if_neg (by simp [hc])]
  | cons d ds ih =>
    rw [List.cons_append, beforeComment, beforeComment]
    split
    next => exact .inl rfl
    next =>
      rcases ih (s.next d) with h | h
      · exact .inl (by rw [h])
      · exact .inr (by rw [h]; rfl)

end Text

/-- A carriage return at the end of a raw line is not seen in the source line, except in
the indentation of a blank one. -/
theorem ofRaw_return (number : Nat) (raw : Text) :
    Line.ofRaw number (raw ++ ['\r']) = Line.ofRaw number raw ∨
      (Line.ofRaw number (raw ++ ['\r'])).isBlank ∧ (Line.ofRaw number raw).isBlank := by
  have hreturn : isBlank '\r' = true := by decide
  have hback : Text.Blank ['\r'] := by
    intro c hc
    rw [List.mem_singleton.mp hc]
    exact hreturn
  by_cases hstart : raw.trimStart = []
  · -- Such a line has no text at all, with or without the carriage return.
    have hstart' : Text.trimStart (raw ++ ['\r']) = [] := by
      show List.dropWhile isBlank (raw ++ ['\r']) = []
      rw [List.dropWhile_append, show List.dropWhile isBlank raw = [] from hstart]
      rfl
    right
    constructor
    · rw [Line.isBlank, Line.ofRaw, hstart']
      rfl
    · rw [Line.isBlank, Line.ofRaw, hstart]
      rfl
  · left
    have hstart' : Text.trimStart (raw ++ ['\r']) = raw.trimStart ++ ['\r'] := by
      show List.dropWhile isBlank (raw ++ ['\r']) = List.dropWhile isBlank raw ++ ['\r']
      rw [List.dropWhile_append, if_neg]
      rwa [List.isEmpty_iff]
    have htext : (Text.stripComment (raw.trimStart ++ ['\r'])).trimEnd =
        (Text.stripComment raw.trimStart).trimEnd := by
      unfold Text.stripComment
      rcases Text.beforeComment_concat .start raw.trimStart (c := '\r') (by decide) with h | h
      · rw [h]
      · rw [h, Text.trimEnd_append _ hback]
    have hindent : List.takeWhile isBlank (raw ++ ['\r']) = List.takeWhile isBlank raw := by
      rw [List.takeWhile_append, if_neg]
      intro hlength
      have hsplit :=
        congrArg List.length (List.takeWhile_append_dropWhile (p := isBlank) (l := raw))
      rw [List.length_append, hlength] at hsplit
      have hzero : (List.dropWhile isBlank raw).length = 0 := by omega
      exact hstart (List.eq_nil_of_length_eq_zero hzero)
    rw [Line.ofRaw, Line.ofRaw, hstart', htext, hindent]

end Offside
