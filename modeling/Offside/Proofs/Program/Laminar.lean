import Offside.Proofs.Access.Slice
import Offside.Proofs.Program.Nested

/-!
# Blocks by position

Where blocks end, said by the indices of lines. The last index of a block is decided by the
lines behind the header alone (`isBlockEnd_iff`), and blocks lie inside each other or apart:
one that begins in a block ends there.

Bodies are run on slices of a program, and on slices of these. What keeps their blocks is that
the lines behind a slice open no block under one of its lines:

> `StandsAt.block_eq`: a header has the same block in a slice as in the whole program.

It goes from a slice to a slice of it (`StandsAt.trans`), so it holds of every `PartOf` a
program.
-/

namespace Offside

open Access

variable {lines program part rest : List Line} {line : Line}
  {header inner last index start start' indent n : Nat}

/-! ## Where a block ends -/

/-- Nested lines are a block as a whole, if the last of them is not blank. -/
theorem blockLength_eq_length (h : Nested indent lines)
    (hlast : ∀ line ∈ lines.getLast?, line.isBlank = false) :
    blockLength indent lines = lines.length := by
  induction lines with
  | nil => rfl
  | cons line rest ih =>
    have hrest : Nested indent rest := fun other hother =>
      h other (List.mem_cons_of_mem line hother)
    by_cases hline : line.isBlank
    · cases rest with
      | nil =>
        rw [hlast line rfl] at hline
        contradiction
      | cons next rest =>
        rw [blockLength, if_pos hline, ih hrest hlast]
        rfl
    · have hindent := h line List.mem_cons_self (by simpa using hline)
      rw [blockLength, if_neg hline, if_neg (Nat.not_le.mpr hindent), List.length_cons]
      cases rest with
      | nil => rfl
      | cons next rest => rw [ih hrest hlast]

/-- A block does not end with a blank line. -/
theorem getLast?_take_blockLength (indent : Nat) (lines : List Line) :
    ∀ line ∈ (lines.take (blockLength indent lines)).getLast?, line.isBlank = false := by
  intro last hlast
  induction lines with
  | nil => cases hlast
  | cons line rest ih =>
    rw [blockLength] at hlast
    split at hlast
    next =>
      cases hn : blockLength indent rest with
      | zero =>
        rw [hn] at hlast
        cases hlast
      | succ n =>
        rw [hn] at hlast ih
        cases rest with
        | nil => cases hn
        | cons next rest => exact ih hlast
    next hline =>
      split at hlast
      next => cases hlast
      next =>
        rw [List.take_succ_cons] at hlast
        cases hblock : rest.take (blockLength indent rest) with
        | nil =>
          rw [hblock] at hlast
          cases hlast
          simpa using hline
        | cons next block =>
          rw [hblock] at hlast ih
          exact ih hlast

/-- A block is what is nested under its header and does not end with a blank line, if it goes
on no further. -/
theorem blockLength_eq_iff (hn : n ≤ lines.length) :
    blockLength indent lines = n ↔
      Nested indent (lines.take n) ∧ (∀ line ∈ (lines.take n).getLast?, line.isBlank = false) ∧
        ∀ line ∈ ((lines.drop n).dropWhile Line.isBlank).head?, line.indent ≤ indent := by
  constructor
  · rintro rfl
    exact ⟨nested_take_blockLength indent lines, getLast?_take_blockLength indent lines,
      blockLength_eq_zero_iff.mp (blockLength_drop_self indent lines)⟩
  · rintro ⟨hnested, hlast, hbehind⟩
    have hcut := blockLength_append (lines.take n) (blockLength_eq_zero_iff.mpr hbehind)
    rwa [List.take_append_drop, blockLength_eq_length hnested hlast, List.length_take,
      Nat.min_eq_left hn] at hcut

/-! ## Behind a header -/

/-- The lines of the block under the header at an index. -/
def blockLines (lines : List Line) (header : Nat) : List Line :=
  lines.extract (header + 1) (blockEnd lines header + 1)

section Behind

variable (h : lines.drop header = line :: rest)
include h

/-- The lines are those in front of the header, the header, and the rest. -/
theorem length_of_drop : lines.length = header + rest.length + 1 := by
  have hlt := lt_length_of_drop h
  have hlength := congrArg List.length h
  rw [List.length_drop, List.length_cons] at hlength
  omega

theorem drop_behind (n : Nat) : lines.drop (header + n + 1) = rest.drop n := by
  rw [Nat.add_right_comm, ← List.drop_drop, drop_succ h]

theorem getElem?_behind (n : Nat) : lines[header + n + 1]? = rest[n]? := by
  rw [← drop_succ h, List.getElem?_drop, Nat.add_right_comm]

/-- The lines behind a header are the first of the rest. -/
theorem extract_behind (n : Nat) : lines.extract (header + 1) (header + n + 1) = rest.take n := by
  rw [List.extract_eq_take_drop, drop_succ h]
  congr 1
  omega

/-- The block of a header ends as far behind it as the block is long. -/
theorem blockEnd_of_drop : blockEnd lines header = header + blockLength line.indent rest := by
  rw [blockEnd, h]

/-- The lines of a block are the first of the rest. -/
theorem blockLines_of_drop :
    blockLines lines header = rest.take (blockLength line.indent rest) := by
  rw [blockLines, blockEnd_of_drop h, extract_behind h]

/-- A stretch behind the header ends with a line that is not blank if it ends with one among
the rest. -/
theorem last_shown_iff (hn : n ≤ rest.length) :
    (header + n = header ∨ ∃ other, lines[header + n]? = some other ∧ other.isBlank = false) ↔
      ∀ other ∈ (rest.take n).getLast?, other.isBlank = false := by
  cases n with
  | zero =>
    refine ⟨fun _ other hother => ?_, fun _ => .inl rfl⟩
    cases hother
  | succ k =>
    obtain ⟨last, hlast⟩ : ∃ last, rest[k]? = some last := ⟨_, List.getElem?_eq_getElem hn⟩
    have hget : lines[header + (k + 1)]? = some last := (getElem?_behind h k).trans hlast
    rw [hget, List.getLast?_take, if_neg (Nat.succ_ne_zero k), Nat.add_sub_cancel, hlast,
      Option.some_or]
    constructor
    · intro hshown other hother
      cases hother
      rcases hshown with heq | ⟨other, hother, hshown⟩
      · omega
      · cases hother
        exact hshown
    · intro hshown
      exact .inr ⟨last, rfl, hshown last rfl⟩

end Behind

/-- What makes an index the last one of the block under a header with this indentation. The
lines between them are indented deeper, the line at the index is not blank unless it is the
header, and the first line behind it that is not blank is indented no deeper. -/
structure IsBlockEnd (lines : List Line) (header indent last : Nat) : Prop where
  header_le : header ≤ last
  last_lt : last < lines.length
  deeper : Nested indent (lines.extract (header + 1) (last + 1))
  shown : last = header ∨ ∃ line, lines[last]? = some line ∧ line.isBlank = false
  behind : ∀ line ∈ ((lines.drop (last + 1)).dropWhile Line.isBlank).head?, line.indent ≤ indent

/-- **A block ends at one place:** the end of the characterisation is the end that is
computed. -/
theorem isBlockEnd_iff (h : lines[header]? = some line) :
    IsBlockEnd lines header line.indent last ↔ last = blockEnd lines header := by
  obtain ⟨rest, hdrop⟩ := exists_drop_of_getElem? h
  have hlength := length_of_drop hdrop
  rw [blockEnd_of_drop hdrop]
  constructor
  · intro hend
    obtain ⟨n, rfl⟩ := Nat.exists_eq_add_of_le hend.header_le
    have hn : n ≤ rest.length := by
      have hlt := hend.last_lt
      omega
    have hdeeper := hend.deeper
    have hbehind := hend.behind
    rw [extract_behind hdrop] at hdeeper
    rw [drop_behind hdrop] at hbehind
    rw [(blockLength_eq_iff hn).mpr ⟨hdeeper, (last_shown_iff hdrop hn).mp hend.shown, hbehind⟩]
  · rintro rfl
    have hn := blockLength_le line.indent rest
    obtain ⟨hdeeper, hlast, hbehind⟩ := (blockLength_eq_iff hn).mp rfl
    refine ⟨Nat.le_add_right _ _, by omega, ?_, (last_shown_iff hdrop hn).mpr hlast, ?_⟩
    · rwa [extract_behind hdrop]
    · rwa [drop_behind hdrop]

/-- A block ends inside the program. -/
theorem blockEnd_lt (h : lines[header]? = some line) : blockEnd lines header < lines.length :=
  ((isBlockEnd_iff h).mpr rfl).last_lt

/-- A block is all lines behind its header up to its end. -/
theorem length_blockLines (h : lines[header]? = some line) :
    header + (blockLines lines header).length = blockEnd lines header := by
  obtain ⟨rest, hdrop⟩ := exists_drop_of_getElem? h
  rw [blockLines_of_drop hdrop, blockEnd_of_drop hdrop, List.length_take,
    Nat.min_eq_left (blockLength_le _ _)]

/-- A line of a block, by its index in all lines. -/
theorem getElem?_blockLines (h : lines[header]? = some line) (hlt : header < inner)
    (hle : inner ≤ blockEnd lines header) :
    (blockLines lines header)[inner - (header + 1)]? = lines[inner]? := by
  obtain ⟨rest, hdrop⟩ := exists_drop_of_getElem? h
  obtain ⟨n, rfl⟩ := Nat.exists_eq_add_of_lt hlt
  have hindex : header + n + 1 - (header + 1) = n := by omega
  have hn : n < blockLength line.indent rest := by
    rw [blockEnd_of_drop hdrop] at hle
    omega
  rw [blockLines_of_drop hdrop, hindex, List.getElem?_take_of_lt hn, getElem?_behind hdrop]

/-! ## Lines that keep their blocks -/

/-- Some lines stand in a program at an index, and what is behind them there opens no block
under one of them that is not blank. -/
def StandsAt (program : List Line) (start : Nat) (part : List Line) : Prop :=
  ∃ behind, program.drop start = part ++ behind ∧
    ∀ line ∈ part, line.isBlank = false → blockLength line.indent behind = 0

/-- A program stands at its own start. -/
theorem standsAt_self (program : List Line) : StandsAt program 0 program :=
  ⟨[], (List.append_nil program).symm, fun _ _ _ => rfl⟩

/-- A block stands under its header: what is behind it is indented no deeper than that. -/
theorem standsAt_blockLines (h : lines[header]? = some line) :
    StandsAt lines (header + 1) (blockLines lines header) := by
  obtain ⟨rest, hdrop⟩ := exists_drop_of_getElem? h
  rw [blockLines_of_drop hdrop]
  refine ⟨rest.drop (blockLength line.indent rest),
    (drop_succ hdrop).trans (List.take_append_drop _ _).symm, fun other hother hshown => ?_⟩
  have hdeeper := nested_take_blockLength line.indent rest other hother hshown
  exact blockLength_eq_zero_of_le (Nat.le_of_lt hdeeper) (blockLength_drop_self line.indent rest)

/-- A part of a part stands where both offsets together say. -/
theorem StandsAt.trans (h : StandsAt program start part) (h' : StandsAt part start' lines)
    (hstart : start' ≤ part.length) : StandsAt program (start + start') lines := by
  obtain ⟨behind, hdrop, hbehind⟩ := h
  obtain ⟨behind', hdrop', hbehind'⟩ := h'
  refine ⟨behind' ++ behind, ?_, fun line hline hshown => ?_⟩
  · rw [← List.drop_drop, hdrop, List.drop_append_of_le_length hstart, hdrop', List.append_assoc]
  · have hmem : line ∈ part := by
      refine List.mem_of_mem_drop (i := start') ?_
      rw [hdrop']
      exact List.mem_append_left behind' hline
    rw [blockLength_append behind' (hbehind line hmem hshown), hbehind' line hline hshown]

/-- **Lines that stand in a program have their blocks there**: a header that is not blank has
the same block among them as in the whole program. -/
theorem StandsAt.block_eq (h : StandsAt program start part) (hline : part[index]? = some line)
    (hshown : line.isBlank = false) :
    program[start + index]? = some line ∧
      blockEnd program (start + index) = start + blockEnd part index ∧
      blockLines program (start + index) = blockLines part index := by
  obtain ⟨behind, hdrop, hbehind⟩ := h
  obtain ⟨rest, hpart⟩ := exists_drop_of_getElem? hline
  have hprogram : program.drop (start + index) = line :: (rest ++ behind) := by
    rw [← List.drop_drop, hdrop,
      List.drop_append_of_le_length (Nat.le_of_lt (lt_length_of_drop hpart)), hpart,
      List.cons_append]
  have hlength : blockLength line.indent (rest ++ behind) = blockLength line.indent rest :=
    blockLength_append rest (hbehind line (List.mem_of_getElem? hline) hshown)
  refine ⟨getElem?_of_drop hprogram, ?_, ?_⟩
  · rw [blockEnd_of_drop hprogram, blockEnd_of_drop hpart, hlength, Nat.add_assoc]
  · rw [blockLines_of_drop hprogram, blockLines_of_drop hpart, hlength,
      List.take_append_of_le_length (blockLength_le _ _)]

/-- A block that begins in another one ends there, and it is the same by itself. -/
theorem blockEnd_inner {other : Line} (h : lines[header]? = some line) (hlt : header < inner)
    (hle : inner ≤ blockEnd lines header) (hother : lines[inner]? = some other)
    (hshown : other.isBlank = false) :
    blockEnd lines inner ≤ blockEnd lines header ∧
      header + 1 + blockEnd (blockLines lines header) (inner - (header + 1)) =
        blockEnd lines inner := by
  have hget := (getElem?_blockLines h hlt hle).trans hother
  have hsame := ((standsAt_blockLines h).block_eq hget hshown).2.1
  rw [Nat.add_sub_cancel' hlt] at hsame
  have hinside := blockEnd_lt hget
  have hlength := length_blockLines h
  exact ⟨by omega, hsame.symm⟩

/-! ## Parts of a program -/

/-- What is cut out of a program: all of it, a block of it, a block of that, and so on, with
the index in the program at which it begins. -/
inductive PartOf (program : List Line) : Nat → List Line → Prop
  | whole : PartOf program 0 program
  | block {start header : Nat} {part : List Line} (hpart : PartOf program start part)
      (hheader : header < part.length) :
      PartOf program (start + (header + 1)) (blockLines part header)

/-- Blocks of blocks stand in the program as slices. -/
theorem PartOf.standsAt (h : PartOf program start part) : StandsAt program start part := by
  induction h with
  | whole => exact standsAt_self program
  | block _ hheader ih =>
    exact ih.trans (standsAt_blockLines (List.getElem?_eq_getElem hheader)) hheader

end Offside
