import Offside.Proofs.Access.Slice
import Offside.Proofs.Machine.Sequencing

/-!
# Running lines by a cursor

A run of lines again, as a cursor that goes over them. The line at the cursor is looked up,
and so is the header of a block; the block under a header is a slice of the lines. That the
slice is in range rests on two facts: a block ends where its lines end or before, and the
cursor goes behind the block at most. Main result: `runFrom?_eq`. It is about any lines, so
it holds of the program, of the block of a loop and of the body of a function alike.
-/

namespace Offside.Access

variable {line : Line} {rest : List Line} {m : Machine}

/-! ## Blocks by position -/

/-- The index of the last line of the block under the header at an index. -/
def blockEnd? (lines : List Line) (header : Nat) : Option Nat := do
  let line ← lines[header]?
  return header + blockLength line.indent (lines.drop (header + 1))

/-- The lines of the block under the header at an index. -/
def under? (lines : List Line) (header : Nat) : Option (List Line) := do
  let last ← blockEnd? lines header
  slice? lines (header + 1) (last + 1)

/-- Looking for the end of a block never leaves the lines. -/
theorem blockEnd?_eq {lines : List Line} {header : Nat} (h : lines.drop header = line :: rest) :
    blockEnd? lines header = some (blockEnd lines header) := by
  rw [blockEnd?, getElem?_of_drop h, blockEnd, h, drop_succ h]
  rfl

/-- The lines under a header are cut out between offsets that are in range. -/
theorem under?_eq {lines : List Line} {header : Nat} (h : lines.drop header = line :: rest) :
    under? lines header = some (rest.take (blockLength line.indent rest)) := by
  rw [under?, blockEnd?_eq h, blockEnd, h]
  show slice? lines (header + 1) (header + blockLength line.indent rest + 1) = _
  rw [Nat.add_right_comm, slice?_of_drop (drop_succ h) (lt_length_of_drop h) (blockLength_le _ _)]

/-! ## A line and its block -/

/-- A line sees of the lines behind it only those of its block. -/
theorem runLine_take (limits : Limits) (entry : Entry) (run : List Line → Run) (chains : Chains) :
    m.runLine
        ⟨limits, entry, fun n => run ((rest.take (blockLength line.indent rest)).take n)⟩ chains
        line (rest.take (blockLength line.indent rest)) =
      m.runLine ⟨limits, entry, fun n => run (rest.take n)⟩ chains line rest := by
  have hblock (n : Nat) (hn : n ≤ (rest.take (blockLength line.indent rest)).length) :
      run (rest.take n) = run ((rest.take (blockLength line.indent rest)).take n) := by
    rw [List.take_take, Nat.min_eq_left (Nat.le_trans hn (List.length_take_le _ rest))]
  -- the block is run in front of what stands behind it, and with no chains around it
  have hfront : m.runLine ⟨limits, entry, fun n => run (rest.take n)⟩ (chains.onto {}) line
        (rest.take (blockLength line.indent rest) ++ rest.drop (blockLength line.indent rest)) =
      Outcome.map (Next.onto {}) (m.runLine
        ⟨limits, entry, fun n => run ((rest.take (blockLength line.indent rest)).take n)⟩ chains
        line (rest.take (blockLength line.indent rest))) :=
    Machine.runLine_append m
      (fun _ => ⟨Chains.under_empty _, blockLength_drop_self line.indent rest⟩) hblock
  rw [Chains.onto_empty, List.take_append_drop, map_onto_empty] at hfront
  exact hfront.symm

/-! ## The cursor -/

/-- Runs lines from a cursor on. -/
def runFrom? (limits : Limits) (entry : Entry) (chains : Chains) (lines : List Line)
    (cursor : Nat) (m : Machine) : Option (Outcome Completion) := do
  if cursor < lines.length then
    let line ← lines[cursor]?
    let block ← under? lines cursor
    let context : Context :=
      ⟨limits, entry, fun length => Machine.runLines limits entry {} (block.take length)⟩
    match m.runLine context chains line block with
    | (m', .error failure) => return (m', .error failure)
    | (m', .ok (.exit completion)) => return (m', .ok completion)
    | (m', .ok (.goOn chains' skipped)) =>
      runFrom? limits entry chains' lines (cursor + 1 + skipped) m'
  else return (m, .ok .finished)
termination_by lines.length - cursor

/-- **The cursor stays in range**, and so does each block: a run by the cursor is the run of
the lines from there on. -/
theorem runFrom?_eq (limits : Limits) (entry : Entry) (chains : Chains) (lines : List Line)
    (cursor : Nat) (m : Machine) :
    runFrom? limits entry chains lines cursor m =
      some (Machine.runLines limits entry chains (lines.drop cursor) m) := by
  rw [runFrom?]
  cases hdrop : lines.drop cursor with
  | nil =>
    rw [if_neg (Nat.not_lt.mpr (List.drop_eq_nil_iff.mp hdrop)), Machine.runLines]
    rfl
  | cons line rest =>
    have hcursor : cursor < lines.length := lt_length_of_drop hdrop
    rw [if_pos hcursor, getElem?_of_drop hdrop, under?_eq hdrop, Machine.runLines]
    dsimp only [Option.bind_eq_bind, Option.bind_some]
    rw [runLine_take limits entry (Machine.runLines limits entry {}) chains]
    generalize m.runLine _ chains line rest = outcome
    obtain ⟨m', failure | ⟨⟨chains', skipped⟩ | completion⟩⟩ := outcome
    · rfl
    · show runFrom? limits entry chains' lines (cursor + 1 + skipped) m' = _
      rw [runFrom?_eq limits entry chains' lines (cursor + 1 + skipped) m', ← List.drop_drop,
        drop_succ hdrop]
    · rfl
termination_by lines.length - cursor

end Offside.Access
