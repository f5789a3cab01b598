import Offside.Text.Blank

/-!
# Lines and cuts

How a source text falls into lines, and how a text is cut at the first
occurrence of a separator.
-/

namespace Offside.Text

/-- The lines of a text. A line feed ends a line and takes a carriage return
right before it along; a carriage return elsewhere is an ordinary character,
and a final line feed opens no further line. -/
def lines : Text → List Text
  | [] => []
  | '\r' :: '\n' :: cs => [] :: lines cs
  | '\n' :: cs => [] :: lines cs
  | c :: cs =>
    match lines cs with
    | [] => [[c]]
    | line :: rest => (c :: line) :: rest

/-- The parts before and after the first occurrence of a separator. -/
def cut? (separator : Text) : Text → Option (Text × Text)
  | [] => if separator.isEmpty then some ([], []) else none
  | c :: cs =>
    match separator.isPrefixOf? (c :: cs) with
    | some after => some ([], after)
    | none => (cut? separator cs).map fun (before, after) => (c :: before, after)

theorem length_of_isPrefixOf? {separator t after : Text}
    (h : separator.isPrefixOf? t = some after) : separator.length + after.length = t.length := by
  induction separator generalizing t with
  | nil =>
    cases h
    exact Nat.zero_add _
  | cons d ds ih =>
    cases t with
    | nil => cases h
    | cons c cs =>
      change (if d == c then ds.isPrefixOf? cs else none) = some after at h
      split at h
      · have := ih h
        simp only [List.length_cons]
        omega
      · simp at h

/-- A cut loses the separator and nothing else. -/
theorem length_of_cut? {separator t before after : Text}
    (h : cut? separator t = some (before, after)) :
    before.length + separator.length + after.length = t.length := by
  induction t generalizing before with
  | nil => cases separator <;> simp_all [cut?]
  | cons c cs ih =>
    rw [cut?] at h
    split at h
    · rename_i rest hrest
      have := length_of_isPrefixOf? hrest
      simp only [Option.some.injEq, Prod.mk.injEq] at h
      obtain ⟨rfl, rfl⟩ := h
      simpa using this
    · obtain ⟨⟨b, a⟩, ha, heq⟩ := Option.map_eq_some_iff.1 h
      simp only [Prod.mk.injEq] at heq
      obtain ⟨rfl, rfl⟩ := heq
      have := ih ha
      simp only [List.length_cons]
      omega

end Offside.Text
