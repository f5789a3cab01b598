import Mathlib.Data.Set.Basic
import Offside.Proofs.Machine.Bodies
import Offside.Proofs.Program.Laminar

/-!
# Replayed lines see the blocks of their program

The blocks of branches are run in their place among all lines, those of loops and the bodies of
functions on slices of them, and a body may hold loops and definitions again. Everywhere the
block under a line is found anew, among the lines that are left there. These are always the end
of a part of a program that was run (`EndsPart`), so what is found is the block that stands
there in that program:

> `blocks_laminar`: where blocks end, that they lie inside each other or apart, and that they
> are the same in every part of a program and at every point of a run.
-/

namespace Offside

open Machine Access

variable {programs : Set (List Line)} {line : Line} {rest : List Line}

/-- The lines are those that a part of one of some programs ends with. -/
def EndsPart (programs : Set (List Line)) (lines : List Line) : Prop :=
  ∃ program ∈ programs, ∃ start part, PartOf program start part ∧ lines <:+ part

theorem endsPart_self {program : List Line} (h : program ∈ programs) : EndsPart programs program :=
  ⟨program, h, 0, program, .whole, List.suffix_rfl⟩

theorem cuttable_endsPart (programs : Set (List Line)) : Cuttable (EndsPart programs) where
  drop := by
    rintro line rest ⟨program, hprogram, start, part, hpart, hends⟩ n
    refine ⟨program, hprogram, start, part, hpart, ?_⟩
    exact ((List.drop_suffix n rest).trans (List.suffix_cons line rest)).trans hends
  block := by
    rintro line rest ⟨program, hprogram, start, part, hpart, front, hfront⟩
    have hdrop : part.drop front.length = line :: rest := by rw [← hfront, List.drop_left]
    refine ⟨program, hprogram, _, _, .block hpart (lt_length_of_drop hdrop), [], ?_⟩
    exact (blockLines_of_drop hdrop).symm

/-- A line that is not blank has the block under it where it stands in a program, too. -/
theorem EndsPart.block_eq (h : EndsPart programs (line :: rest)) (hshown : line.isBlank = false) :
    ∃ program ∈ programs, ∃ index, program[index]? = some line ∧
      blockEnd program index = index + blockLength line.indent rest ∧
      blockLines program index = rest.take (blockLength line.indent rest) := by
  obtain ⟨program, hprogram, start, part, hpart, front, hfront⟩ := h
  have hdrop : part.drop front.length = line :: rest := by rw [← hfront, List.drop_left]
  obtain ⟨hline, hend, hlines⟩ := hpart.standsAt.block_eq (getElem?_of_drop hdrop) hshown
  refine ⟨program, hprogram, start + front.length, hline, ?_, ?_⟩
  · rw [hend, blockEnd_of_drop hdrop, Nat.add_assoc]
  · rw [hlines, blockLines_of_drop hdrop]

/-- **Blocks are laminar and stable under slicing.** A block ends at the one index up to which
all lines that are not blank are indented deeper than the header, where the line is not blank
unless it is the header, and behind which the first line that is not blank is indented no
deeper. A block that begins in another one, at a line that is not blank, ends in it, and it ends
at the same line if it is looked for in the slice that the other one is. So it is in slices of
slices. And at every point that a run comes to, inside any loops and calls, the block under a
line is the one that stands under that line in the whole program it comes from: the program that
is run, or one by which functions were defined before. -/
theorem blocks_laminar (limits : Limits) :
    (∀ lines header line, lines[header]? = some line →
      ∀ last, IsBlockEnd lines header line.indent last ↔ last = blockEnd lines header) ∧
    (∀ lines header line, lines[header]? = some line →
      ∀ inner other, header < inner → inner ≤ blockEnd lines header →
        lines[inner]? = some other → other.isBlank = false →
        blockEnd lines inner ≤ blockEnd lines header ∧
          header + 1 + blockEnd (blockLines lines header) (inner - (header + 1)) =
            blockEnd lines inner) ∧
    (∀ program start part, PartOf program start part →
      ∀ index line, part[index]? = some line → line.isBlank = false →
        program[start + index]? = some line ∧
          blockEnd program (start + index) = start + blockEnd part index ∧
          blockLines program (start + index) = blockLines part index) ∧
    ∀ programs, ∀ lines ∈ programs, ∀ m : Machine, m.MadeOf (EndsPart programs) →
      ∀ constructs q, Comes limits (Point.start limits lines m) constructs q →
        (q.run limits).1.MadeOf (EndsPart programs) ∧
        ∀ line rest, q.lines = line :: rest → line.isBlank = false →
          ∃ program ∈ programs, ∃ index, program[index]? = some line ∧
            blockEnd program index = index + blockLength line.indent rest ∧
            blockLines program index = rest.take (blockLength line.indent rest) := by
  refine ⟨fun lines header line h last => isBlockEnd_iff h,
    fun lines header line h inner other hlt hle => blockEnd_inner h hlt hle,
    fun program start part hpart index line => hpart.standsAt.block_eq, ?_⟩
  intro programs lines hlines m hm constructs q hcomes
  have hP := cuttable_endsPart programs
  have hq : q.MadeOf (EndsPart programs) := hcomes.madeOf hP ⟨endsPart_self hlines, hm⟩
  refine ⟨hP.run hq, fun line rest hrest hshown => ?_⟩
  have hends : EndsPart programs (line :: rest) := hrest ▸ hq.lines
  exact hends.block_eq hshown

/-- A branch in a loop in a function, with blank lines in front of it and behind it: found in
the block of the loop during a call, its block is the one in the program. -/
theorem blocks_laminar_replayed :
    let condition : Line := ⟨4, 4, "if c:".toList⟩
    let print : Line := ⟨5, 8, "print(c)".toList⟩
    let lines : List Line := [⟨1, 0, "def f():".toList⟩, ⟨2, 2, "for c in 'a':".toList⟩,
      ⟨3, 0, []⟩, condition, print, ⟨6, 1, []⟩, ⟨7, 0, "f()".toList⟩]
    let body := blockLines lines 0
    let block := blockLines body 0
    IsBlockEnd lines 0 0 4 ∧ blockEnd lines 1 ≤ blockEnd lines 0 ∧
      0 + 1 + blockEnd body (1 - (0 + 1)) = blockEnd lines 1 ∧
      blockEnd lines (2 + 1) = 2 + blockEnd block 1 ∧
      ∃ q, Comes {} (Point.start {} lines {}) [.call, .loop] q ∧ q.lines = [condition, print] ∧
        ∃ program ∈ ({lines} : Set (List Line)), ∃ index, program[index]? = some condition ∧
          blockEnd program index = index + 1 ∧ blockLines program index = [print] := by
  intro condition print lines body block
  have hlaminar := blocks_laminar {}
  have hbody : PartOf lines (0 + (0 + 1)) body := .block .whole (by decide)
  have hblock : PartOf lines (0 + (0 + 1) + (0 + 1)) block := .block hbody (by decide)
  have hinner := hlaminar.2.1 lines 0 _ rfl 1 _ (by decide) (by decide) rfl rfl
  refine ⟨(hlaminar.1 lines 0 _ rfl 4).mpr rfl, hinner.1, hinner.2,
    (hlaminar.2.2.1 lines 2 block hblock 1 condition rfl rfl).2.1, ?_⟩
  -- the call is reached behind the definition and a blank line, and the branch in the loop
  -- behind another one
  have hloop : classify "for c in 'a':".toList = .ok (.forEach "c" "'a'".toList) := rfl
  have hcall : classify "f()".toList = .ok (.call "f" []) := rfl
  let defined : Machine := Machine.define {} "f" [] body
  let called : Machine := { defined with frames := [defined.scope] }
  have hvalue : called.elements "'a'".toList = .ok [.text "a"] := by cbv
  let q : Point := ⟨199, {}, [condition, print],
    Machine.bind { called with loopDepth := 1 } "c" (.text "a")⟩
  have hcomes : Comes {} (Point.start {} lines {}) [.call, .loop] q := by
    refine .into (.on rfl (.on rfl .here)) (.call hcall (.intro rfl rfl (by decide))) ?_
    exact .into .here (.forEach hloop (by decide) hvalue .here) (.along (.on rfl .here))
  have hempty : Machine.MadeOf (EndsPart {lines}) {} := by
    intro name f hf
    cases hf
  have hrun := hlaminar.2.2.2 {lines} lines rfl {} hempty _ q hcomes
  exact ⟨q, hcomes, rfl, hrun.2 condition [print] rfl rfl⟩

end Offside
