import Offside.Text.Lines
import Offside.Text.Nesting

/-!
# Source lines and blocks

A program is read line by line. Of a line matter its number, how many blanks it
starts with, and its text without comment and blank ends.

The block under a header runs until the next line that is not blank and not
indented deeper than the header; blank lines at its end do not belong to it.
-/

namespace Offside

/-- A line of a program. Numbers count from one; the indentation counts blank
characters of any sort. -/
structure Line where
  number : Nat
  indent : Nat
  text : Text
  deriving Repr, DecidableEq

/-- Whether a line holds nothing but blanks and a comment. -/
def Line.isBlank (line : Line) : Bool :=
  line.text.isEmpty

/-- The source line with a number and a raw text. -/
def Line.ofRaw (number : Nat) (raw : Text) : Line where
  number := number
  indent := (raw.takeWhile Offside.isBlank).length
  text := (raw.trimStart.stripComment).trimEnd

/-- The lines of a program. -/
def sourceLines (source : Text) : List Line :=
  (source.lines.zipIdx 1).map fun (raw, number) => Line.ofRaw number raw

/-- How many of the lines after a header with this indentation are its block. -/
def blockLength (indent : Nat) : List Line → Nat
  | [] => 0
  | line :: rest =>
    if line.isBlank then
      match blockLength indent rest with
      | 0 => 0
      | n + 1 => n + 2
    else if line.indent ≤ indent then 0
    else blockLength indent rest + 1

/-- A block is no longer than the lines that follow. -/
theorem blockLength_le (indent : Nat) (lines : List Line) :
    blockLength indent lines ≤ lines.length := by
  induction lines with
  | nil => simp [blockLength]
  | cons line rest ih =>
    rw [blockLength]
    grind

/-- The index of the last line of the block under the header at an index; the
index of the header itself if its block is empty. -/
def blockEnd (lines : List Line) (header : Nat) : Nat :=
  match lines.drop header with
  | [] => header
  | line :: rest => header + blockLength line.indent rest

end Offside
