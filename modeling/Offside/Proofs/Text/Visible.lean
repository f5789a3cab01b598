import Offside.Proofs.Text.Reading

/-!
# What is visible outside quotes

The characters that a reading sees outside quotes, each with its offset in the text and
with the number of brackets around it. A text in which no number sign is visible has no
comment:

> `beforeComment_append`: up to the end of such a text nothing is taken for a comment.
-/

namespace Offside

open Nesting

/-- A character outside quotes, with its offset and the brackets around it. -/
structure Visible where
  offset : Nat
  char : Char
  depth : Nat
  deriving Repr, DecidableEq

namespace Text

variable {s : Nesting} {t u : Text} {depth offset : Nat}

/-- The characters outside quotes, for a reading that stands at `s` with `offset`
characters in front. -/
def visibleFrom (s : Nesting) (offset : Nat) : Text → List Visible
  | [] => []
  | c :: cs =>
    match s.level c with
    | some depth => ⟨offset, c, depth⟩ :: visibleFrom (s.next c) (offset + 1) cs
    | none => visibleFrom (s.next c) (offset + 1) cs

/-- The characters of a text that are outside quotes. -/
def visible (t : Text) : List Visible :=
  visibleFrom start 0 t

/-- The visible characters of a text are those of its parts. -/
theorem visibleFrom_append :
    visibleFrom s offset (t ++ u) =
      visibleFrom s offset t ++ visibleFrom (s.read t) (offset + t.length) u := by
  induction t generalizing s offset with
  | nil => rfl
  | cons c cs ih =>
    have hoffset : offset + 1 + cs.length = offset + (c :: cs).length := by
      rw [List.length_cons]
      omega
    rw [List.cons_append, visibleFrom, visibleFrom, Nesting.read]
    cases s.level c <;> simp only [ih, hoffset, List.cons_append]

/-- Of a hidden text nothing is seen. -/
theorem visibleFrom_hidden (h : Along Hidden s t) (offset : Nat) :
    visibleFrom s offset t = [] := by
  induction t generalizing s offset with
  | nil => rfl
  | cons c cs ih =>
    have hc : s.level c = none := h.1
    rw [visibleFrom, hc]
    exact ih h.2 (offset + 1)

/-- What is seen of a text stands in it. -/
theorem offset_of_mem_visibleFrom {v : Visible} (h : v ∈ visibleFrom s offset t) :
    offset ≤ v.offset ∧ v.offset < offset + t.length := by
  induction t generalizing s offset with
  | nil => contradiction
  | cons c cs ih =>
    have hcs (hmem : v ∈ visibleFrom (s.next c) (offset + 1) cs) :
        offset ≤ v.offset ∧ v.offset < offset + (c :: cs).length := by
      have := ih hmem
      rw [List.length_cons]
      omega
    rw [visibleFrom] at h
    split at h
    next =>
      rcases List.mem_cons.mp h with rfl | h
      · rw [List.length_cons]
        dsimp only
        omega
      · exact hcs h
    next => exact hcs h

/-- A comment starts behind a text in which no number sign is visible, or later. -/
theorem beforeComment_append (h : ∀ v ∈ visibleFrom s offset t, v.char ≠ '#') (u : Text) :
    beforeComment s (t ++ u) = t ++ beforeComment (s.read t) u := by
  induction t generalizing s offset with
  | nil => rfl
  | cons c cs ih =>
    have hcomment : (c == '#' && (s.level c).isSome) = false := by
      rw [Bool.and_eq_false_iff, beq_eq_false_iff_ne]
      cases hlevel : s.level c with
      | none => exact .inr rfl
      | some depth =>
        rw [visibleFrom, hlevel] at h
        exact .inl (h ⟨offset, c, depth⟩ List.mem_cons_self)
    have hcs : ∀ v ∈ visibleFrom (s.next c) (offset + 1) cs, v.char ≠ '#' := by
      intro v hv
      refine h v ?_
      rw [visibleFrom]
      split
      · exact List.mem_cons_of_mem _ hv
      · exact hv
    rw [List.cons_append, beforeComment, hcomment, if_neg Bool.false_ne_true, ih hcs]
    rfl

end Text

end Offside
