import Offside.Program.Line

/-!
# Where blocks end

A block is decided by the lines under its header alone. Two facts carry every
argument about runs that are cut at the end of a block:

> `blockLength_append`: lines that open no deeper block cannot make a block
> before them longer.

> `blockLength_drop_self`: what stands behind a block opens no deeper block.

So a header inside a block has the same block whether the lines behind the outer
block are there or not.
-/

namespace Offside

/-- Every line that is not blank is indented deeper than `indent`. -/
def Nested (indent : Nat) (lines : List Line) : Prop :=
  ∀ line ∈ lines, line.isBlank = false → indent < line.indent

theorem blockLength_cons_blank {indent : Nat} {line : Line} {rest : List Line}
    (hline : line.isBlank = true) :
    blockLength indent (line :: rest) = 0 ↔ blockLength indent rest = 0 := by
  rw [blockLength, if_pos hline]
  cases blockLength indent rest <;> simp

/-- The lines open no block under an indentation exactly if the first of them that
is not blank is not indented deeper. -/
theorem blockLength_eq_zero_iff {indent : Nat} {lines : List Line} :
    blockLength indent lines = 0 ↔
      ∀ line ∈ (lines.dropWhile Line.isBlank).head?, line.indent ≤ indent := by
  induction lines with
  | nil => simp [blockLength]
  | cons line rest ih =>
    by_cases hline : line.isBlank
    · rw [blockLength_cons_blank hline, ih, List.dropWhile_cons_of_pos hline]
    · rw [blockLength, if_neg hline, List.dropWhile_cons_of_neg hline]
      by_cases hle : line.indent ≤ indent <;> simp [hle]

/-- Lines that open no block under an indentation open none under a deeper one. -/
theorem blockLength_eq_zero_of_le {shallow deep : Nat} {lines : List Line}
    (hle : shallow ≤ deep) (h : blockLength shallow lines = 0) : blockLength deep lines = 0 := by
  rw [blockLength_eq_zero_iff] at h ⊢
  intro line hmem
  exact Nat.le_trans (h line hmem) hle

/-- Lines that open no block do not lengthen a block before them. -/
theorem blockLength_append {indent : Nat} (lines : List Line) {after : List Line}
    (h : blockLength indent after = 0) :
    blockLength indent (lines ++ after) = blockLength indent lines := by
  induction lines with
  | nil => rw [List.nil_append, h, blockLength]
  | cons line rest ih => rw [List.cons_append, blockLength, blockLength, ih]

/-- What stands behind a block opens no block under its header. -/
theorem blockLength_drop_self (indent : Nat) (lines : List Line) :
    blockLength indent (lines.drop (blockLength indent lines)) = 0 := by
  induction lines with
  | nil => rfl
  | cons line rest ih =>
    by_cases hline : line.isBlank
    · cases hn : blockLength indent rest with
      | zero =>
        have hzero : blockLength indent (line :: rest) = 0 :=
          (blockLength_cons_blank hline).mpr hn
        rw [hzero, List.drop_zero, hzero]
      | succ n =>
        rw [blockLength, if_pos hline, hn]
        rw [hn] at ih
        exact ih
    · by_cases hle : line.indent ≤ indent
      · have hzero : blockLength indent (line :: rest) = 0 := by
          rw [blockLength, if_neg hline, if_pos hle]
        rw [hzero, List.drop_zero, hzero]
      · rw [blockLength, if_neg hline, if_neg hle, List.drop_succ_cons]
        exact ih

/-- The lines of a block are indented deeper than its header. -/
theorem nested_take_blockLength (indent : Nat) (lines : List Line) :
    Nested indent (lines.take (blockLength indent lines)) := by
  induction lines with
  | nil => intro line hmem; simp at hmem
  | cons line rest ih =>
    intro other hmem hother
    rw [blockLength] at hmem
    split at hmem
    next hline =>
      split at hmem
      next => simp at hmem
      next n hn =>
        rw [List.take_succ_cons, List.mem_cons] at hmem
        rcases hmem with rfl | hrest
        · rw [hline] at hother
          exact absurd hother (by simp)
        · rw [hn] at ih
          exact ih other hrest hother
    next hline =>
      split at hmem
      next => simp at hmem
      next hlt =>
        rw [List.take_succ_cons, List.mem_cons] at hmem
        rcases hmem with rfl | hrest
        · exact Nat.lt_of_not_le hlt
        · exact ih other hrest hother

end Offside
