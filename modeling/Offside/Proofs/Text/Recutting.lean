import Offside.Proofs.Program.Parts

/-!
# Cutting pieces again

An argument list is cut into pieces whatever is in it: brackets may be unbalanced or of the
wrong sort, and quotes may be left open. Two facts are enough to know how a piece is cut when
it is read again. It is trimmed and has no outer comma, so it stays whole (`IsPiece`); and
behind each piece but the last the reading stands as at its start, also without the blanks
around the piece, so nothing in it reaches behind the comma. Main result:

> `pieces_stable`: a piece is its own only piece, and pieces with commas between them are
> those pieces again, exactly if the last is not empty.
-/

namespace Offside

open Text Nesting

variable {t : Text}

theorem isPiece_trim (h : Along (Clear 0 0) start t) : IsPiece t.trim := by
  obtain ⟨front, back, ht, hfront, -, htrimmed⟩ := exists_trim t
  have hread : start.read front = start := read_of_blank hfront 0
  rw [ht, along_append, along_append, hread] at h
  exact ⟨htrimmed, h.2.1⟩

/-- The blanks around a text do not change where the reading stands behind it, if that is
outside quotes. -/
theorem read_trim (h : start.read t = start) : start.read t.trim = start := by
  obtain ⟨front, back, ht, hfront, hback, -⟩ := exists_trim t
  have hread : start.read front = start := read_of_blank hfront 0
  rw [ht, read_append, read_append, hread] at h
  exact eq_plain_of_read_blank ((quoting_plain 0).read t.trim) hback h

/-- Every piece of a text is a piece on its own. -/
theorem isPiece_of_mem_pieces (t : Text) : ∀ part ∈ t.pieces, IsPiece part := by
  intro part hpart
  induction t using commas_induction with
  | uncut t hclear =>
    rw [pieces_of_clear hclear, wholePiece] at hpart
    split at hpart
    next => cases hpart
    next =>
      rw [List.mem_singleton.mp hpart]
      exact isPiece_trim hclear
  | cut first rest hclear hread ih =>
    rw [pieces_comma hclear hread rest, List.mem_cons] at hpart
    rcases hpart with rfl | hrest
    · exact isPiece_trim hclear
    · exact ih hrest

/-- Behind every piece but the last no quote and no bracket is open. -/
theorem read_of_mem_dropLast_pieces (t : Text) :
    ∀ part ∈ t.pieces.dropLast, start.read part = start := by
  intro part hpart
  induction t using commas_induction with
  | uncut t hclear =>
    rw [pieces_of_clear hclear, wholePiece] at hpart
    split at hpart <;> cases hpart
  | cut first rest hclear hread ih =>
    rw [pieces_comma hclear hread rest] at hpart
    cases hrest : rest.pieces with
    | nil =>
      rw [hrest] at hpart
      cases hpart
    | cons next parts =>
      rw [hrest, List.dropLast_cons_cons, List.mem_cons] at hpart
      rcases hpart with rfl | hbehind
      · exact read_trim hread
      · exact ih (hrest ▸ hbehind)

/-- **Pieces are stable**, whatever they were cut from. Each one that is not empty is its own
only piece, and together, with commas between them, they are cut into the same pieces again,
exactly if the last one is not empty. -/
theorem pieces_stable (t : Text) :
    (∀ part ∈ t.pieces, part ≠ [] → part.pieces = [part]) ∧
      ((listed t.pieces).pieces = t.pieces ↔ ∀ last ∈ t.pieces.getLast?, last ≠ []) := by
  constructor
  · intro part hpart hne
    have hpiece := isPiece_of_mem_pieces t part hpart
    rw [pieces_of_clear hpiece.clear, wholePiece, hpiece.trimmed.trim_eq_self,
      if_neg (by rwa [List.isEmpty_iff])]
  · rw [pieces_listed_of_isPiece (isPiece_of_mem_pieces t) (read_of_mem_dropLast_pieces t)]
    exact dropEmptyLast_eq_self_iff

/-- A closing bracket too many, an empty piece, and a bracket and a quote that are left open:
the comma in the bracket and the last backslash belong to the last piece. -/
theorem pieces_stable_malformed :
    let t : Text := "],\u00a0, f(x, 'y, \\ ".toList
    let last : Text := "f(x, 'y, \\".toList
    let parts : List Text := ["]".toList, [], last]
    t.pieces = parts ∧ last.pieces = [last] ∧ (listed parts).pieces = parts := by
  intro t last parts
  have hparts : t.pieces = parts := by decide
  have hstable := pieces_stable t
  rw [hparts] at hstable
  exact ⟨hparts, hstable.1 last (by decide) (by decide), hstable.2.mpr (by decide)⟩

/-- An empty piece at the end is not cut off again. -/
example : pieces (listed (pieces "a,,".toList)) = ["a".toList] := by decide

end Offside
