import Mathlib
import Offside.Proofs.Machine.Sequencing

/-!
# One branch of a chain is run

A chain is an `if` with its block and the branches that follow at the same
indentation, only blank lines between them. The branches are run in their place,
among all the other lines, and one table of open chains is shared by everything
nested in them. The main statement is that nothing of this shows:

> `runLines_chain`: where an `if` line is reached, the run goes on as if the block
> of the first branch whose condition holds were run by itself, and then what
> stands behind the chain.

No other condition is evaluated and no line of another branch is looked at. While
the chain lasts, the table holds the chains around it and, on top of them, whether
a branch was taken: `runLines_further` is the run from there, in both cases, and
`runLines_behind` says that behind the chain its own entry is forgotten.
-/

namespace Offside

/-- A branch: its header, the condition if it has one, and its block. -/
structure Branch where
  header : Line
  condition : Option Text
  body : List Line
  deriving Repr, DecidableEq

/-- The branches at an indentation that the lines go on with, up to the first line
that is no further branch, and the lines behind them. A branch without a condition
is the last. A header without a block is no branch. -/
def furtherBranches (indent : Nat) (lines : List Line) : List Branch × List Line :=
  match _h : lines.dropWhile Line.isBlank with
  | [] => ([], lines)
  | line :: rest =>
    if line.indent = indent ∧ blockLength indent rest ≠ 0 then
      let length := blockLength indent rest
      match classify line.text with
      | .ok (.elseIf condition) =>
        let (branches, behind) := furtherBranches indent (rest.drop length)
        (⟨line, some condition, rest.take length⟩ :: branches, behind)
      | .ok .otherwise => ([⟨line, none, rest.take length⟩], rest.drop length)
      | _ => ([], lines)
    else ([], lines)
termination_by lines.length
decreasing_by
  have hlength := (List.dropWhile_sublist (p := Line.isBlank) (l := lines)).length_le
  rw [_h, List.length_cons] at hlength
  rw [List.length_drop]
  omega

/-- The chain that an `if` line begins, and the lines behind it. -/
def chainFrom (line : Line) (condition : Text) (rest : List Line) : List Branch × List Line :=
  let length := blockLength line.indent rest
  let (branches, behind) := furtherBranches line.indent (rest.drop length)
  (⟨line, some condition, rest.take length⟩ :: branches, behind)

namespace Machine

/-- The block of the first branch whose condition holds, or no lines. Conditions are
evaluated in order, and none after one that holds or fails. -/
def chosen (m : Machine) : List Branch → Except Failure (List Line)
  | [] => .ok []
  | ⟨_, none, body⟩ :: _ => .ok body
  | ⟨header, some condition, body⟩ :: branches =>
    match m.condition condition header with
    | .error failure => .error failure
    | .ok true => .ok body
    | .ok false => m.chosen branches

/-- Runs the block of the chosen branch by itself, with no chain open, and if it
comes to its end what stands behind the chain, with the chains around it open. -/
def runChosen (limits : Limits) (entry : Entry) (around : Chains)
    (chain : List Branch × List Line) : Run := fun m =>
  match m.chosen chain.1 with
  | .error failure => (m, .error failure)
  | .ok body =>
    Run.followedBy (runLines limits entry {} body) (runLines limits entry around chain.2) m

/-- A run of lines that has come to some of them, with a machine and chains of its
own. -/
inductive Reaches (limits : Limits) (entry : Entry) :
    Chains → List Line → Machine → Chains → List Line → Machine → Prop
  | here {chains : Chains} {lines : List Line} {m : Machine} :
    Reaches limits entry chains lines m chains lines m
  | on {chains chains' chains'' : Chains} {line : Line} {rest lines : List Line}
      {m m' m'' : Machine} {skipped : Nat}
      (hline : m.runLine ⟨limits, entry, fun n => runLines limits entry {} (rest.take n)⟩
        chains line rest = (m', .ok (.goOn chains' skipped)))
      (hrest : Reaches limits entry chains' (rest.drop skipped) m' chains'' lines m'') :
    Reaches limits entry chains (line :: rest) m chains'' lines m''

variable {limits : Limits} {entry : Entry} {indent : Nat}

/-- A run gives what it gives from any place that it reaches. -/
theorem Reaches.runLines_eq {chains chains' : Chains} {lines lines' : List Line}
    {m m' : Machine} (h : Reaches limits entry chains lines m chains' lines' m') :
    runLines limits entry chains lines m = runLines limits entry chains' lines' m' := by
  induction h with
  | here => rfl
  | on hline _ ih => rw [runLines, hline]; exact ih

/-- Blank lines in front of a run do nothing. -/
theorem runLines_dropWhile_isBlank (chains : Chains) (lines : List Line) (m : Machine) :
    runLines limits entry chains (lines.dropWhile Line.isBlank) m =
      runLines limits entry chains lines m := by
  induction lines with
  | nil => rfl
  | cons line rest ih =>
    by_cases hblank : line.isBlank
    · rw [List.dropWhile_cons_of_pos hblank, ih, runLines.eq_def limits entry chains (line :: rest)]
      dsimp only
      rw [runLine, if_pos hblank]
      rfl
    · rw [List.dropWhile_cons_of_neg hblank]

/-- A line that does not go on with a chain sees nothing of it. -/
theorem runLine_set_below (m : Machine) (context : Context) (chains : Chains) {line : Line}
    {rest : List Line} (hblank : line.isBlank = false) (hindent : line.indent ≤ indent)
    (hbranch : ∀ statement, classify line.text = .ok statement → statement.isBranch = true →
      line.indent = indent → blockLength indent rest = 0) (taken : Bool) :
    m.runLine context ((chains.below indent).set indent taken) line rest =
      m.runLine context (chains.below indent) line rest := by
  rw [runLine, runLine, if_neg (by simp [hblank]), if_neg (by simp [hblank])]
  cases hclass : classify line.text with
  | error fault => rfl
  | ok statement =>
    dsimp only
    by_cases hsame : statement.isBranch = true ∧ line.indent = indent
    · -- the line has no block, which is noticed before the table is consulted
      have hlength := hbranch statement hclass hsame.1 hsame.2
      rw [← hsame.2] at hlength
      cases statement <;> simp only [Statement.isBranch, Bool.false_eq_true, false_and] at hsame
      all_goals rw [perform, perform, header, header, hlength]
    · have hkept : (if statement.isBranch then line.indent + 1 else line.indent) ≤ indent := by
        split
        next hyes =>
          have hne : line.indent ≠ indent := fun heq => hsame ⟨hyes, heq⟩
          omega
        next => exact hindent
      rw [Chains.below_set_of_le _ hkept]

/-- Behind a chain its entry in the table is forgotten. -/
theorem runLines_behind (chains : Chains) {lines : List Line}
    (hbehind : blockLength indent lines = 0)
    (hbranch : ∀ line rest statement, lines.dropWhile Line.isBlank = line :: rest →
      classify line.text = .ok statement → statement.isBranch = true →
      line.indent = indent → blockLength indent rest = 0) (taken : Bool) (m : Machine) :
    runLines limits entry ((chains.below indent).set indent taken) lines m =
      runLines limits entry (chains.below indent) lines m := by
  rw [← runLines_dropWhile_isBlank _ lines, ← runLines_dropWhile_isBlank _ lines]
  rw [blockLength_eq_zero_iff] at hbehind
  cases hlines : lines.dropWhile Line.isBlank with
  | nil => rw [runLines, runLines]
  | cons line rest =>
    rw [hlines] at hbehind
    have hblank : line.isBlank = false := by
      have := List.head?_dropWhile_not Line.isBlank lines
      rw [hlines] at this
      simpa using this
    have hline (context : Context) :
        m.runLine context ((chains.below indent).set indent taken) line rest =
          m.runLine context (chains.below indent) line rest :=
      runLine_set_below m context chains hblank (hbehind line rfl) (fun statement hclass hyes heq =>
        hbranch line rest statement hlines hclass hyes heq) taken
    rw [runLines, runLines, hline]

/-! ## The headers of branches -/

theorem classify_nil : classify [] = .ok .unrecognized := rfl

/-- A header with a block under it runs as its keyword does. -/
theorem header_of_block (m : Machine) (keyword : String) {line : Line} {rest : List Line}
    (hblock : blockLength line.indent rest ≠ 0) (run : Nat → Outcome Next) :
    m.header keyword line rest run = run (blockLength line.indent rest) := by
  rw [header]
  split
  next hzero => exact absurd hzero hblock
  next n hlength => rw [hlength]

/-- A line with a statement on it is not blank. -/
theorem not_isBlank_of_classify {line : Line} {statement : Statement}
    (hclass : classify line.text = .ok statement) (hstatement : statement ≠ .unrecognized) :
    ¬line.isBlank = true := by
  intro hblank
  rw [List.isEmpty_iff.mp hblank, classify_nil] at hclass
  cases hclass
  exact hstatement rfl

/-- A line that begins a statement of its own closes the chains at its indentation. -/
theorem runLine_of_classify (m : Machine) (context : Context) (chains : Chains) {line : Line}
    (rest : List Line) {statement : Statement} (hclass : classify line.text = .ok statement)
    (hstatement : statement ≠ .unrecognized) (hbranch : statement.isBranch = false) :
    m.runLine context chains line rest =
      m.perform context (chains.below line.indent) line rest statement := by
  rw [runLine, if_neg (not_isBlank_of_classify hclass hstatement), hclass]
  dsimp only
  rw [hbranch]
  rfl

/-- The first line of a chain forgets the chains that are as deep, and decides on its
condition. -/
theorem runLine_ifHolds (m : Machine) (context : Context) (chains : Chains) {line : Line}
    {rest : List Line} {condition : Text} (hclass : classify line.text = .ok (.ifHolds condition))
    (hblock : blockLength line.indent rest ≠ 0) :
    m.runLine context chains line rest =
      m.branch (chains.below line.indent) line condition (blockLength line.indent rest) := by
  rw [runLine_of_classify m context chains rest hclass (by simp) rfl, perform,
    header_of_block m "if" hblock]

/-- A further branch finds the chain at its own indentation as it was left. -/
theorem runLine_of_isBranch (m : Machine) (context : Context) (chains : Chains) {line : Line}
    (rest : List Line) {statement : Statement} (hclass : classify line.text = .ok statement)
    (hbranch : statement.isBranch = true) (taken : Bool) :
    m.runLine context ((chains.below line.indent).set line.indent taken) line rest =
      m.perform context ((chains.below line.indent).set line.indent taken) line rest statement := by
  have hstatement : statement ≠ .unrecognized := by
    rintro rfl
    cases hbranch
  have hkept := (((chains.upTo_below_self line.indent).set taken).under
    (Nat.lt_add_one line.indent)).below_eq
  rw [runLine, if_neg (not_isBlank_of_classify hclass hstatement), hclass]
  dsimp only
  rw [if_pos hbranch, hkept]

/-- A further branch decides on its condition if none was taken, and is passed over
otherwise. -/
theorem runLine_elseIf (m : Machine) (context : Context) (chains : Chains) {line : Line}
    {rest : List Line} {condition : Text} (hclass : classify line.text = .ok (.elseIf condition))
    (hblock : blockLength line.indent rest ≠ 0) (taken : Bool) :
    m.runLine context ((chains.below line.indent).set line.indent taken) line rest =
      if taken then
        (m, .ok (.goOn ((chains.below line.indent).set line.indent true)
          (blockLength line.indent rest)))
      else
        m.branch ((chains.below line.indent).set line.indent false) line condition
          (blockLength line.indent rest) := by
  rw [runLine_of_isBranch m context chains rest hclass rfl, perform,
    header_of_block m "elif" hblock, Chains.taken?_set]
  cases taken <;> rfl

/-- The last branch is run if none was taken, and closes the chain. -/
theorem runLine_otherwise (m : Machine) (context : Context) (chains : Chains) {line : Line}
    {rest : List Line} (hclass : classify line.text = .ok .otherwise)
    (hblock : blockLength line.indent rest ≠ 0) (taken : Bool) :
    m.runLine context ((chains.below line.indent).set line.indent taken) line rest =
      (m, .ok (.goOn (chains.below line.indent)
        (if taken then blockLength line.indent rest else 0))) := by
  rw [runLine_of_isBranch m context chains rest hclass rfl, perform,
    header_of_block m "else" hblock, Chains.taken?_set, Chains.close_set_below]
  cases taken <;> rfl

/-! ## The rest of a chain -/

/-- A block in its place, in front of what stands behind it. -/
theorem runLines_block (chains : Chains) (hchains : chains.UpTo indent) (rest : List Line)
    (m : Machine) :
    runLines limits entry chains rest m =
      Run.followedBy (runLines limits entry {} (rest.take (blockLength indent rest)))
        (runLines limits entry chains (rest.drop (blockLength indent rest))) m := by
  have hempty : (({} : Chains).onto chains) = chains := rfl
  have hnone : ({} : Chains).Beyond indent := by
    intro e he
    cases he
  have happend : runLines limits entry (({} : Chains).onto chains)
        (rest.take (blockLength indent rest) ++ rest.drop (blockLength indent rest)) m =
      Run.followedBy (runLines limits entry {} (rest.take (blockLength indent rest)))
        (runLines limits entry chains (rest.drop (blockLength indent rest))) m :=
    runLines_append hchains (blockLength_drop_self indent rest) _ m hnone
      (nested_take_blockLength indent rest)
  rw [List.take_append_drop, hempty] at happend
  exact happend

/-- What stands behind a chain does not begin with a line that goes on with it. -/
theorem runLines_no_branch (chains : Chains) {lines : List Line}
    (hbehind : blockLength indent lines = 0)
    (hnone : (furtherBranches indent lines).1 = []) (taken : Bool) (m : Machine) :
    runLines limits entry ((chains.below indent).set indent taken) lines m =
      runLines limits entry (chains.below indent) lines m := by
  refine runLines_behind chains hbehind ?_ taken m
  intro line rest statement hlines hclass hyes hindent
  refine Decidable.byContradiction fun hblock => ?_
  have hline : line.indent = indent ∧ blockLength indent rest ≠ 0 := ⟨hindent, hblock⟩
  rw [furtherBranches] at hnone
  split at hnone
  next h =>
    rw [hlines] at h
    cases h
  next h =>
    rw [hlines] at h
    cases h
    rw [if_pos hline] at hnone
    cases statement <;> simp only [Statement.isBranch, Bool.false_eq_true] at hyes
    all_goals
      rw [hclass] at hnone
      cases hnone

theorem runChosen_nil (around : Chains) (behind : List Line) (m : Machine) :
    runChosen limits entry around ([], behind) m = runLines limits entry around behind m := by
  rw [runChosen, chosen]
  dsimp only
  rw [Run.followedBy, runLines]

/-- A header with a condition, in front of its block, when the rest of the chain is
known to be run as it should. -/
theorem runLines_conditional {before table chains : Chains} {line : Line} {rest : List Line}
    {condition : Text} {branches : List Branch} {behind : List Line} (m : Machine)
    (hline : m.runLine ⟨limits, entry, fun n => runLines limits entry {} (rest.take n)⟩
      before line rest = m.branch table line condition (blockLength line.indent rest))
    (htable : ∀ taken, table.set line.indent taken =
      (chains.below line.indent).set line.indent taken)
    (hrest : ∀ (taken : Bool) (m : Machine),
      runLines limits entry ((chains.below line.indent).set line.indent taken)
          (rest.drop (blockLength line.indent rest)) m =
        runChosen limits entry (chains.below line.indent)
          (if taken then [] else branches, behind) m) :
    runLines limits entry before (line :: rest) m =
      runChosen limits entry (chains.below line.indent)
        (⟨line, some condition, rest.take (blockLength line.indent rest)⟩ :: branches, behind)
        m := by
  rw [runLines, hline, branch, runChosen, chosen]
  cases m.condition condition line with
  | error failure => rfl
  | ok holds =>
    dsimp only
    rw [htable]
    cases holds with
    | false => exact hrest false m
    | true =>
      have hpassed : runLines limits entry ((chains.below line.indent).set line.indent true)
          (rest.drop (blockLength line.indent rest)) =
            runLines limits entry (chains.below line.indent) behind := by
        funext m'
        exact (hrest true m').trans (runChosen_nil _ behind m')
      refine (runLines_block _ ((chains.upTo_below_self line.indent).set true) rest m).trans ?_
      rw [hpassed]

/-- The rest of a chain, when it stands at `taken`: if a branch was taken, all
further ones are passed over. -/
theorem runLines_further (chains : Chains) (lines : List Line)
    (hbehind : blockLength indent lines = 0) (taken : Bool) (m : Machine) :
    runLines limits entry ((chains.below indent).set indent taken) lines m =
      runChosen limits entry (chains.below indent)
        (if taken then [] else (furtherBranches indent lines).1, (furtherBranches indent lines).2)
        m := by
  have hend {lines : List Line} (hbehind : blockLength indent lines = 0)
      (hnone : furtherBranches indent lines = ([], lines)) (taken : Bool) (m : Machine) :
      runLines limits entry ((chains.below indent).set indent taken) lines m =
        runChosen limits entry (chains.below indent) (if taken then [] else [], lines) m := by
    rw [runLines_no_branch chains hbehind (congrArg Prod.fst hnone), ite_self, runChosen_nil]
  fun_induction furtherBranches indent lines generalizing taken m with
  | case1 lines hlines =>
    refine hend hbehind ?_ taken m
    rw [furtherBranches]
    split <;> simp_all
  | case2 lines line rest hlines hline length condition hclass branches behind hfurther ih =>
    obtain ⟨rfl, hblock⟩ := hline
    have hrest := ih (blockLength_drop_self line.indent rest)
    rw [hfurther] at hrest
    rw [← runLines_dropWhile_isBlank _ lines, hlines]
    have hheader := runLine_elseIf m
      ⟨limits, entry, fun n => runLines limits entry {} (rest.take n)⟩ chains hclass hblock taken
    cases taken with
    | true =>
      rw [runLines, hheader]
      exact hrest true m
    | false => exact runLines_conditional m hheader (Chains.set_set _ _ false) hrest
  | case3 lines line rest hlines hline length hclass =>
    obtain ⟨rfl, hblock⟩ := hline
    rw [← runLines_dropWhile_isBlank _ lines, hlines, runLines,
      runLine_otherwise m _ chains hclass hblock]
    cases taken with
    | true => exact (runChosen_nil _ _ m).symm
    | false => exact runLines_block _ (chains.upTo_below_self line.indent) rest m
  | case4 lines line rest hlines hline helse hotherwise =>
    refine hend hbehind ?_ taken m
    rw [furtherBranches]
    split <;> simp_all
  | case5 lines line rest hlines hline =>
    refine hend hbehind ?_ taken m
    rw [furtherBranches]
    split <;> simp_all

/-! ## The whole chain -/

/-- **One branch of a chain is run.** Where a run of lines reaches an `if` with a
block, it goes on as if the block of the first branch whose condition holds were
run by itself. A condition that fails before is the outcome, and so is a block that
does not come to its end; otherwise the lines behind the chain are next. -/
theorem runLines_chain {chains chains' : Chains} {lines rest : List Line} {line : Line}
    {condition : Text} {m m' : Machine}
    (hreach : Reaches limits entry chains lines m chains' (line :: rest) m')
    (hclass : classify line.text = .ok (.ifHolds condition))
    (hblock : blockLength line.indent rest ≠ 0) :
    runLines limits entry chains lines m =
      runChosen limits entry (chains'.below line.indent) (chainFrom line condition rest) m' := by
  rw [hreach.runLines_eq]
  refine runLines_conditional m' (runLine_ifHolds m' _ chains' hclass hblock) (fun _ => rfl) ?_
  intro taken m
  exact runLines_further chains' _ (blockLength_drop_self line.indent rest) taken m

/-- A chain behind another line whose second branch is chosen. Its block has a chain of its
own; the first branch would break off, the third has a condition that could not be
evaluated, and the last would break off as well. -/
theorem runLines_chain_behind_line :
    let line : Line := ⟨2, 0, "if x:".toList⟩
    let block : List Line := [⟨5, 1, "if z:".toList⟩, ⟨6, 3, "return".toList⟩, ⟨7, 9, []⟩,
      ⟨8, 1, "else:".toList⟩, ⟨9, 2, "print('inner')".toList⟩]
    let behind : List Line := [⟨14, 0, "print('behind')".toList⟩]
    let rest : List Line :=
      ⟨3, 2, "break".toList⟩ :: ⟨4, 0, "elif y:".toList⟩ :: block ++
        ⟨10, 0, "elif w:".toList⟩ :: ⟨11, 1, "return".toList⟩ ::
        ⟨12, 0, "else:".toList⟩ :: ⟨13, 1, "break".toList⟩ :: behind
    let scope : Scope := .ofList [("x", .truth false), ("y", .truth true), ("z", .truth false)]
    let m : Machine := { globals := scope }
    Reaches {} none {} (⟨1, 0, "pass".toList⟩ :: line :: rest) m {} (line :: rest) m ∧
      classify line.text = .ok (.ifHolds "x".toList) ∧ blockLength line.indent rest ≠ 0 ∧
      m.chosen (chainFrom line "x".toList rest).1 = .ok block ∧
      runLines {} none {} (⟨1, 0, "pass".toList⟩ :: line :: rest) m =
        runChosen {} none {} (chainFrom line "x".toList rest) m ∧
      runLines {} none {} (⟨1, 0, "pass".toList⟩ :: line :: rest) m =
        ({ m with output := #["inner", "behind"] }, .ok .finished) := by
  intro line block behind rest scope m
  have hreach : Reaches {} none {} (⟨1, 0, "pass".toList⟩ :: line :: rest) m {} (line :: rest) m :=
    .on rfl .here
  have hclass : classify line.text = .ok (.ifHolds "x".toList) := rfl
  have hblock : blockLength line.indent rest ≠ 0 := by decide
  have hchain : chainFrom line "x".toList rest =
      ([⟨line, some "x".toList, [⟨3, 2, "break".toList⟩]⟩,
        ⟨⟨4, 0, "elif y:".toList⟩, some "y".toList, block⟩,
        ⟨⟨10, 0, "elif w:".toList⟩, some "w".toList, [⟨11, 1, "return".toList⟩]⟩,
        ⟨⟨12, 0, "else:".toList⟩, none, [⟨13, 1, "break".toList⟩]⟩], behind) := by
    decide +kernel
  have hchosen : m.chosen (chainFrom line "x".toList rest).1 = .ok block := by
    rw [hchain]
    cbv
  have hinner : runLines {} none {} block m = ({ m with output := #["inner"] }, .ok .finished) := by
    cbv
  have hbehind : runLines {} none {} behind { m with output := #["inner"] } =
      ({ m with output := #["inner", "behind"] }, .ok .finished) := by cbv
  have hsame : runLines {} none {} (⟨1, 0, "pass".toList⟩ :: line :: rest) m =
      runChosen {} none {} (chainFrom line "x".toList rest) m :=
    runLines_chain hreach hclass hblock
  refine ⟨hreach, hclass, hblock, hchosen, hsame, hsame.trans ?_⟩
  rw [runChosen, hchosen, hchain]
  dsimp only
  rw [Run.followedBy, hinner]
  exact hbehind

end Machine

end Offside
