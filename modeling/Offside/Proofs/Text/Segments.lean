import Offside.Evaluation
import Offside.Proofs.Access.Placeholders

/-!
# Templates by segments

A template is written in segments: text without braces, a doubled brace, and a placeholder. The
reading goes from the left and takes the first brace that it finds, and still no end of a
segment is read together with the beginning of the next one:

> `interpolate_segment`: a segment at the front of a text is read by itself, whatever is
> behind it.

So a template means what its segments mean, one behind the other, and what is put in for a
placeholder is not read again, whether there are braces in it or not.

> `interpolate_segments`
-/

namespace Offside.Text

open Access

/-- A part of a template that is read by itself. -/
inductive Segment where
  | plain (t : Text) (h : ∀ c ∈ t, isBrace c = false)
  | opening
  | closing
  | placeholder (inner : Text) (hclosed : '\x7d' ∉ inner) (hfirst : inner.head? ≠ some '\x7b')

namespace Segment

/-- How a segment is written. -/
def written : Segment → Text
  | plain t _ => t
  | opening => ['\x7b', '\x7b']
  | closing => ['\x7d', '\x7d']
  | placeholder inner _ _ => '\x7b' :: inner ++ ['\x7d']

/-- What a segment stands for: a placeholder for the value that the name in it is bound to, and
for itself where it holds no bound name. -/
def meaning (scope : Scope) : Segment → Text
  | plain t _ => t
  | opening => ['\x7b']
  | closing => ['\x7d']
  | placeholder inner _ _ =>
    match inner.trim.boundValue? scope with
    | some v => v.display.toList
    | none => '\x7b' :: inner ++ ['\x7d']

end Segment

/-- A character as it is written in a template, so that it stands for itself. -/
def doubled (c : Char) : Text :=
  if isBrace c then [c, c] else [c]

/-- A placeholder is the value bound to it, or its own text if there is none. -/
theorem placeholder_eq (scope : Scope) (inner : Text) :
    placeholder scope inner =
      match inner.trim.boundValue? scope with
      | some v => v.display.toList
      | none => '\x7b' :: inner ++ ['\x7d'] := by
  rw [placeholder, boundValue?]
  by_cases hname : inner.trim.isIdentifier = true
  · rw [if_pos hname, hname]
    rfl
  · rw [if_neg hname]
    cases scope.get? (String.ofList inner.trim) with
    | none => rfl
    | some v => exact if_neg hname

/-- **A segment is read by itself**, whatever is behind it. -/
theorem interpolate_segment (scope : Scope) (segment : Segment) (rest : Text) :
    interpolate scope (segment.written ++ rest) =
      segment.meaning scope ++ interpolate scope rest := by
  cases segment with
  | plain t h => exact interpolate_append h rest
  | opening => exact interpolate_doubled rfl rest
  | closing => exact interpolate_doubled rfl rest
  | placeholder inner hclosed hfirst =>
    -- The brace behind the inner text is the first one that closes, and the first character
    -- of the inner text, or that brace itself, does not double the one that opens.
    have hwritten : ('\x7b' :: inner ++ ['\x7d']) ++ rest =
        '\x7b' :: (inner ++ '\x7d' :: rest) := by
      rw [List.append_assoc]
      rfl
    have hhead : (inner ++ '\x7d' :: rest).head? ≠ some '\x7b' := by
      cases inner with
      | nil => exact nofun
      | cons c cs => exact hfirst
    have hcut : cut? ['\x7d'] (inner ++ '\x7d' :: rest) = some (inner, rest) :=
      cut?_append hclosed [] rest
    rw [Segment.written, hwritten, interpolate_opening hhead, hcut, Segment.meaning]
    dsimp only
    rw [placeholder_eq]

/-- Segments are replaced one by one, whatever follows them. -/
theorem interpolate_segments_append (scope : Scope) (segments : List Segment) (rest : Text) :
    interpolate scope (segments.flatMap Segment.written ++ rest) =
      segments.flatMap (Segment.meaning scope) ++ interpolate scope rest := by
  induction segments with
  | nil => rfl
  | cons segment segments ih =>
    rw [List.flatMap_cons, List.append_assoc, interpolate_segment, ih, List.flatMap_cons,
      List.append_assoc]

/-- A text whose braces are all doubled stands for itself. -/
theorem interpolate_doubled_braces (scope : Scope) (t : Text) :
    interpolate scope (t.flatMap doubled) = t := by
  induction t with
  | nil => rw [List.flatMap_nil, interpolate]
  | cons c cs ih =>
    rw [List.flatMap_cons, doubled]
    cases hbrace : isBrace c with
    | true => exact (interpolate_doubled hbrace _).trans (congrArg (c :: ·) ih)
    | false => exact (interpolate_plain hbrace _).trans (congrArg (c :: ·) ih)

/-- **A template means what its segments mean.** What stands behind them is read as if they
were not there, and a text with its braces doubled stands for itself. -/
theorem interpolate_segments (scope : Scope) :
    (∀ segments : List Segment, interpolate scope (segments.flatMap Segment.written) =
      segments.flatMap (Segment.meaning scope)) ∧
    (∀ (segments : List Segment) (rest : Text),
      interpolate scope (segments.flatMap Segment.written ++ rest) =
        segments.flatMap (Segment.meaning scope) ++ interpolate scope rest) ∧
    ∀ t : Text, interpolate scope (t.flatMap doubled) = t := by
  refine ⟨fun segments => ?_, interpolate_segments_append scope, interpolate_doubled_braces scope⟩
  have happend := interpolate_segments_append scope segments []
  rwa [List.append_nil, interpolate, List.append_nil] at happend

/-- A text with braces, a number and a list, between signs that could be misread: doubled
braces next to a placeholder, blanks in one, and placeholders that stand for nothing. -/
theorem interpolate_segments_bound :
    let scope : Scope := .ofList [("x", .text "\x7by\x7d"), ("y", .text "no"), ("n", .number 2.5),
      ("xs", .list [.text "a\x7d", .nothing])]
    let segments : List Segment := [.plain ['x', '='] (by simp [isBrace]),
      .placeholder " x ".toList (by decide) (by decide), .opening,
      .placeholder "n".toList (by decide) (by decide), .closing,
      .placeholder "xs".toList (by decide) (by decide),
      .placeholder "u".toList (by decide) (by decide), .placeholder [] (by decide) (by decide)]
    let shown := "x=\x7by\x7d\x7b2.5\x7d['a\x7d', None]\x7bu\x7d\x7b\x7d".toList
    segments.flatMap Segment.written =
        "x=\x7b x \x7d\x7b\x7b\x7bn\x7d\x7d\x7d\x7bxs\x7d\x7bu\x7d\x7b\x7d".toList ∧
      interpolate scope (segments.flatMap Segment.written) = shown ∧
      interpolate scope (shown.flatMap doubled) = shown := by
  intro scope segments shown
  have hmeaning : segments.flatMap (Segment.meaning scope) = shown := by decide +kernel
  obtain ⟨hsegments, -, hdoubled⟩ := interpolate_segments scope
  exact ⟨by decide +kernel, (hsegments segments).trans hmeaning, hdoubled shown⟩

end Offside.Text
