import Offside.Text.Identifier
import Offside.Text.Nesting

/-!
# The call form and the pieces of an argument list

A text has the call form when it is an identifier, possibly blanks, and one
pair of round brackets that reaches to the end.

An argument list is cut at the commas outside quotes and brackets. Blanks
around a piece do not count, and a comma at the end opens no further piece.
Every piece is at most as long as the text it was cut from.
-/

namespace Offside.Text

/-- The name and the raw text between the brackets of a call form. -/
def callForm? (t : Text) : Option (Text × Text) :=
  let name := t.takeWhile continuesWord
  if isIdentifier name then
    (inside? '(' ')' (trimStart (t.dropWhile continuesWord))).map fun inner => (name, inner)
  else none

/-- Puts a character in front of the first part. -/
def consFirst (c : Char) : List Text → List Text
  | [] => [[c]]
  | part :: parts => (c :: part) :: parts

/-- The parts between the commas at depth zero, for a reading that stands at
`s`. There is one part more than there are such commas. -/
def cutAtCommas (s : Nesting) : Text → List Text
  | [] => [[]]
  | c :: cs =>
    if c == ',' && s.level c == some 0 then [] :: cutAtCommas (s.next c) cs
    else consFirst c (cutAtCommas (s.next c) cs)

/-- All parts but the last, and the last unless it is empty. -/
def dropEmptyLast : List Text → List Text
  | [] => []
  | [part] => if part.isEmpty then [] else [part]
  | part :: parts => part :: dropEmptyLast parts

/-- The trimmed pieces of an argument list. -/
def pieces (t : Text) : List Text :=
  dropEmptyLast ((cutAtCommas Nesting.start t).map trim)

/-- No part between commas is longer than the text. -/
theorem length_le_of_mem_cutAtCommas {part : Text} (s : Nesting) (t : Text)
    (h : part ∈ cutAtCommas s t) : part.length ≤ t.length := by
  induction t generalizing s part with
  | nil => simp_all [cutAtCommas]
  | cons c cs ih =>
    rw [cutAtCommas] at h
    split at h
    · rcases List.mem_cons.1 h with rfl | h
      · simp
      · exact Nat.le_succ_of_le (ih _ h)
    · cases hc : cutAtCommas (s.next c) cs with
      | nil =>
        rw [hc, consFirst] at h
        simp_all
      | cons p ps =>
        rw [hc, consFirst] at h
        rcases List.mem_cons.1 h with rfl | h
        · have : p.length ≤ cs.length := ih (s.next c) (by simp [hc])
          simpa using this
        · exact Nat.le_succ_of_le (ih (s.next c) (by simp [hc, h]))

theorem mem_of_mem_dropEmptyLast {part : Text} (parts : List Text)
    (h : part ∈ dropEmptyLast parts) : part ∈ parts := by
  fun_induction dropEmptyLast parts with
  | case1 => simp at h
  | case2 => simp at h
  | case3 => exact h
  | case4 p ps _ ih =>
    rcases List.mem_cons.1 h with rfl | h
    · simp
    · exact List.mem_cons_of_mem _ (ih h)

/-- No piece is longer than the text. -/
theorem length_le_of_mem_pieces {piece t : Text} (h : piece ∈ t.pieces) :
    piece.length ≤ t.length := by
  obtain ⟨part, hpart, rfl⟩ := List.mem_map.1 (mem_of_mem_dropEmptyLast _ h)
  exact Nat.le_trans (length_trim_le _) (length_le_of_mem_cutAtCommas _ _ hpart)

end Offside.Text
