import Mathlib.Data.List.Forall2
import Mathlib.Data.List.TakeWhile
import Mathlib.Data.Nat.Basic
import Mathlib.Order.Monotone.Basic
import Offside.Proofs.Program.Nested

/-!
# Outlines

What is left of some lines without those that are blank is their outline. A block can
be read off it, since blank lines neither begin nor end one: it is the part in front
that is indented deeper than the header.

> `outline_take_blockLength` and `outline_drop_blockLength`: the outline of a block, and
> of what stands behind it.

Nor does it matter how deep a line is indented, only which of two lines is indented
deeper. So two outlines are the same if they have the same texts, and the indentations
of the one come from those of the other by a map that is strictly increasing on them.
-/

namespace Offside

/-- The lines that are not blank. -/
def outline (lines : List Line) : List Line :=
  lines.filter fun line => !line.isBlank

/-- A line with the same text, and with the indentation that `φ` gives for one of `widths`. -/
structure Shifted (widths : Set Nat) (φ : Nat → Nat) (line line' : Line) : Prop where
  text_eq : line'.text = line.text
  mem : line.indent ∈ widths
  indent_eq : line'.indent = φ line.indent

/-- Lines that have the same texts in the same order and are indented in the same order,
wherever there may be blank lines among them. -/
def SameOutline (lines lines' : List Line) : Prop :=
  ∃ (widths : Set Nat) (φ : Nat → Nat), StrictMonoOn φ widths ∧
    List.Forall₂ (Shifted widths φ) (outline lines) (outline lines')

variable {indent : Nat} {line : Line} {lines rest : List Line}

/-- A blank line is not in the outline. -/
theorem outline_cons_of_blank (hline : line.isBlank = true) :
    outline (line :: rest) = outline rest :=
  List.filter_cons_of_neg (by simpa using hline)

theorem outline_cons (hline : ¬line.isBlank = true) :
    outline (line :: rest) = line :: outline rest :=
  List.filter_cons_of_pos (by simpa using hline)

/-- Blank lines in front are not in the outline. -/
theorem outline_dropWhile_isBlank (lines : List Line) :
    outline (lines.dropWhile Line.isBlank) = outline lines := by
  induction lines with
  | nil => rfl
  | cons line rest ih =>
    by_cases hline : line.isBlank
    · rw [List.dropWhile_cons_of_pos hline, ih, outline_cons_of_blank hline]
    · rw [List.dropWhile_cons_of_neg hline]

/-- Behind the blank lines in front stand the first line of the outline and the rest. -/
theorem exists_of_outline_cons {shown : List Line} (h : outline lines = line :: shown) :
    ∃ rest, lines.dropWhile Line.isBlank = line :: rest ∧ outline rest = shown := by
  rw [← outline_dropWhile_isBlank] at h
  cases hlines : lines.dropWhile Line.isBlank with
  | nil =>
    rw [hlines] at h
    cases h
  | cons first rest =>
    have hfirst := List.head?_dropWhile_not Line.isBlank lines
    rw [hlines] at hfirst h
    rw [outline_cons (by simpa using hfirst)] at h
    cases h
    exact ⟨rest, rfl, rfl⟩

theorem dropWhile_of_outline_nil (h : outline lines = []) :
    lines.dropWhile Line.isBlank = [] := by
  rw [List.dropWhile_eq_nil_iff]
  intro line hline
  by_contra hblank
  have hmem : line ∈ outline lines := List.mem_filter.mpr ⟨hline, by simpa using hblank⟩
  rw [h] at hmem
  cases hmem

/-! ## Blocks -/

/-- The outline of a block is the deeper lines at the front of the outline. -/
theorem outline_take_blockLength (indent : Nat) (lines : List Line) :
    outline (lines.take (blockLength indent lines)) =
      (outline lines).takeWhile fun line => indent < line.indent := by
  induction lines with
  | nil => rfl
  | cons line rest ih =>
    rw [blockLength]
    by_cases hline : line.isBlank
    · rw [if_pos hline, outline_cons_of_blank hline, ← ih]
      cases blockLength indent rest with
      | zero => rfl
      | succ n =>
        show outline (line :: rest.take (n + 1)) = _
        rw [outline_cons_of_blank hline]
    · rw [if_neg hline, outline_cons hline]
      by_cases hindent : line.indent ≤ indent
      · rw [if_pos hindent, List.takeWhile_cons_of_neg (by simpa using hindent)]
        rfl
      · rw [if_neg hindent, List.takeWhile_cons_of_pos (by simpa using hindent), ← ih]
        exact outline_cons hline

/-- The outline behind a block starts at the first line that is not deeper. -/
theorem outline_drop_blockLength (indent : Nat) (lines : List Line) :
    outline (lines.drop (blockLength indent lines)) =
      (outline lines).dropWhile fun line => indent < line.indent := by
  have hwhole : outline (lines.take (blockLength indent lines)) ++
      outline (lines.drop (blockLength indent lines)) = outline lines := by
    rw [outline, outline, ← List.filter_append, List.take_append_drop]
    rfl
  rw [outline_take_blockLength] at hwhole
  exact List.append_cancel_left (hwhole.trans List.takeWhile_append_dropWhile.symm)

/-- A block does not end with a blank line, so one with an empty outline is empty. -/
theorem blockLength_eq_zero_iff_outline (indent : Nat) (lines : List Line) :
    blockLength indent lines = 0 ↔ outline (lines.take (blockLength indent lines)) = [] := by
  rw [outline_take_blockLength]
  induction lines with
  | nil => simp [blockLength, outline]
  | cons line rest ih =>
    by_cases hline : line.isBlank
    · rw [blockLength_cons_blank hline, outline_cons_of_blank hline]
      exact ih
    · rw [blockLength, if_neg hline, outline_cons hline]
      by_cases hindent : line.indent ≤ indent
      · rw [if_pos hindent, List.takeWhile_cons_of_neg (by simpa using hindent)]
        exact ⟨fun _ => rfl, fun _ => rfl⟩
      · rw [if_neg hindent, List.takeWhile_cons_of_pos (by simpa using hindent)]
        exact iff_of_false (Nat.succ_ne_zero _) (List.cons_ne_nil _ _)

/-! ## Outlines side by side -/

variable {R S : Line → Line → Prop} {lines' : List Line} {p p' : Line → Bool}

theorem forall₂_and (h : List.Forall₂ R lines lines') (h' : List.Forall₂ S lines lines') :
    List.Forall₂ (fun line line' => R line line' ∧ S line line') lines lines' := by
  induction h with
  | nil => exact .nil
  | cons hline _ ih =>
    cases h' with
    | cons hline' hrest' => exact .cons ⟨hline, hline'⟩ (ih hrest')

/-- Lists that are alike have fronts that are alike, if both tests agree. -/
theorem forall₂_takeWhile (h : List.Forall₂ R lines lines')
    (hp : ∀ line line', R line line' → p' line' = p line) :
    List.Forall₂ R (lines.takeWhile p) (lines'.takeWhile p') := by
  induction h with
  | nil => exact .nil
  | @cons line line' rest rest' hline _ ih =>
    rw [List.takeWhile_cons, List.takeWhile_cons, hp line line' hline]
    split
    next => exact .cons hline ih
    next => exact .nil

/-- Lists that are alike have rests that are alike, if both tests agree. -/
theorem forall₂_dropWhile (h : List.Forall₂ R lines lines')
    (hp : ∀ line line', R line line' → p' line' = p line) :
    List.Forall₂ R (lines.dropWhile p) (lines'.dropWhile p') := by
  induction h with
  | nil => exact .nil
  | @cons line line' rest rest' hline hrest ih =>
    rw [List.dropWhile_cons, List.dropWhile_cons, hp line line' hline]
    split
    next => exact ih
    next => exact .cons hline hrest

/-- Lines that are shifted alike are in the same block. -/
theorem Shifted.deeper {widths : Set Nat} {φ : Nat → Nat} (hφ : StrictMonoOn φ widths)
    {header header' line line' : Line} (hheader : Shifted widths φ header header')
    (hline : Shifted widths φ line line') :
    decide (header'.indent < line'.indent) = decide (header.indent < line.indent) := by
  rw [hheader.indent_eq, hline.indent_eq, decide_eq_decide]
  exact hφ.lt_iff_lt hheader.mem hline.mem

/-- Every line of some lines has itself as its counterpart. -/
theorem SameOutline.refl (lines : List Line) : SameOutline lines lines :=
  ⟨Set.univ, id, strictMono_id.strictMonoOn _,
    List.forall₂_same.mpr fun _ _ => ⟨rfl, Set.mem_univ _, rfl⟩⟩

end Offside
