import Mathlib.Data.List.TakeWhile
import Mathlib.Data.Option.Basic
import Offside.Proofs.Machine.Renumbering
import Offside.Proofs.Machine.Signals
import Offside.Proofs.Text.Lines

/-!
# One program after another

A session runs its sources one by one, and each finds what the ones before have printed,
named and defined. It could as well be given their joined text, if the second source
does not go on with a block or a chain of the first: where a line number belongs to the
second source it is then counted from the start of the joined text, and nothing else is
different.

> `runLines_joined`: lines in front of lines that stand alone are run by themselves, and
> then the others with no chain open.

> `interpret_joined`: a source that succeeds and one that stands alone, one after the
> other, do what their joined text does.

In a failure, and in the body of a function, the number of a line does not tell where
the line comes from. So the second run is done with marked numbers (`earlier` and
`later`), and both outcomes are read off the marked one by `unmark`.
-/

namespace Offside

open Machine

/-- Lines that do not go on with what may stand before them: the first that is not blank
is not indented, and it is no further branch. -/
def StandsAlone (lines : List Line) : Prop :=
  ∀ line ∈ (lines.dropWhile Line.isBlank).head?, line.indent = 0 ∧
    ∀ statement, classify line.text = .ok statement → statement.isBranch = false

variable {limits : Limits} {entry : Entry} {lines behind : List Line}

/-- Lines that stand alone start with no block of a line above them. -/
theorem StandsAlone.blockLength_eq_zero (h : StandsAlone lines) (indent : Nat) :
    blockLength indent lines = 0 := by
  rw [blockLength_eq_zero_iff]
  intro line hline
  rw [(h line hline).1]
  exact Nat.zero_le indent

/-- Whether lines stand alone does not depend on their numbers. -/
theorem StandsAlone.renumber (h : StandsAlone lines) (number : Nat → Nat) :
    StandsAlone (lines.map (Line.renumber number)) := by
  intro line hline
  rw [List.dropWhile_map, List.head?_map, Option.mem_map] at hline
  obtain ⟨original, horiginal, rfl⟩ := hline
  exact h original horiginal

/-- Lines that stand alone do not see the chains that were left open before them. -/
theorem StandsAlone.runLines_eq (h : StandsAlone lines) (chains : Chains) (m : Machine) :
    runLines limits entry chains lines m = runLines limits entry {} lines m := by
  rw [← runLines_dropWhile_isBlank chains lines, ← runLines_dropWhile_isBlank {} lines]
  cases hlines : lines.dropWhile Line.isBlank with
  | nil => rw [runLines, runLines]
  | cons line rest =>
    obtain ⟨hindent, hbranch⟩ := h line (by rw [hlines]; rfl)
    have hnone (chains : Chains) : chains.below 0 = {} := by
      show Chains.mk (chains.entries.filter _) = _
      rw [List.filter_eq_nil_iff.mpr (by simp)]
    have hline (context : Context) :
        m.runLine context chains line rest = m.runLine context {} line rest := by
      rw [runLine, runLine]
      split
      next hblank =>
        have hfirst := List.head?_dropWhile_not Line.isBlank lines
        rw [hlines] at hfirst
        simp [hblank] at hfirst
      next =>
        split
        next => rfl
        next statement hclass =>
          rw [if_neg (by rw [hbranch statement hclass]; simp), hindent, hnone, hnone]
    rw [runLines, runLines, hline]

/-- **Lines in front of lines that stand alone** are run by themselves and, if they come
to their end, the others after them. -/
theorem runLines_joined (hbehind : StandsAlone behind) (chains : Chains) (lines : List Line)
    (m : Machine) :
    runLines limits entry chains (lines ++ behind) m =
      Run.followedBy (runLines limits entry chains lines) (runLines limits entry {} behind) m := by
  -- Whatever the first lines leave open, a line without indentation forgets it.
  have hjoined : runLines limits entry (chains.onto {}) (lines ++ behind) m =
      Run.followedBy (runLines limits entry chains lines) (runLines limits entry {} behind) m := by
    refine runLines_before (fun _ => True) (fun _ => True)
      (fun _ _ _ _ _ _ _ _ _ _ _ => trivial) ?_ ?_ lines m trivial (fun _ _ => trivial)
    · intro line _ _
      exact ⟨Chains.under_empty line.indent, hbehind.blockLength_eq_zero line.indent⟩
    · intro inner _ m
      rw [Chains.onto_empty]
      exact hbehind.runLines_eq inner m
  rwa [Chains.onto_empty] at hjoined

/-- Blank lines do nothing. -/
theorem runLines_blanks {blanks : List Line} (hblanks : ∀ line ∈ blanks, line.isBlank)
    (chains : Chains) (m : Machine) :
    runLines limits entry chains blanks m = (m, .ok .finished) := by
  rw [← runLines_dropWhile_isBlank, List.dropWhile_eq_nil_iff.mpr hblanks, runLines]

/-- Blank lines at the end of a program change nothing. -/
theorem runLines_append_blanks {blanks : List Line} (hblanks : ∀ line ∈ blanks, line.isBlank)
    (chains : Chains) (lines : List Line) (m : Machine) :
    runLines limits entry chains (lines ++ blanks) m = runLines limits entry chains lines m := by
  have halone : StandsAlone blanks := by
    intro line hline
    rw [List.dropWhile_eq_nil_iff.mpr hblanks] at hline
    cases hline
  rw [runLines_joined halone, Run.followedBy]
  split
  next m' h => rw [h, runLines_blanks hblanks]
  all_goals next h => rw [h]

/-! ## The lines of a joined text -/

/-- The source lines with these raw texts, numbered from `first` on. -/
def numberedLines (first : Nat) (raws : List Text) : List Line :=
  (raws.zipIdx first).map fun (raw, number) => Line.ofRaw number raw

/-- The lines of two texts are numbered on from one to the other. -/
theorem numberedLines_append (first : Nat) (raws more : List Text) :
    numberedLines first (raws ++ more) =
      numberedLines first raws ++ numberedLines (first + raws.length) more := by
  unfold numberedLines
  rw [List.zipIdx_append, List.map_append]

/-- Lines that are numbered from a later number are the same lines numbered anew. -/
theorem numberedLines_add (first shift : Nat) (raws : List Text) :
    numberedLines (first + shift) raws =
      (numberedLines first raws).map (Line.renumber (· + shift)) := by
  induction raws generalizing first with
  | nil => rfl
  | cons raw rest ih =>
    have hrest := ih (first + 1)
    rw [Nat.add_right_comm] at hrest
    exact congrArg (List.cons (Line.ofRaw (first + shift) raw)) hrest

/-- The number of lines that a text takes up in front of another that is joined to it. -/
def lineCount (s : Text) : Nat :=
  (Text.lines (s ++ ['\n'])).length

/-- The lines of a joined text: the numbers of the second part go on from the first. -/
theorem sourceLines_append (s t : Text) :
    sourceLines (s ++ '\n' :: t) =
      sourceLines (s ++ ['\n']) ++ (sourceLines t).map (Line.renumber (· + lineCount s)) := by
  show numberedLines 1 _ = numberedLines 1 _ ++ (numberedLines 1 _).map _
  rw [Text.lines_append, numberedLines_append, numberedLines_add]
  rfl

/-- A line feed behind a text changes nothing but blank lines at the end. -/
theorem sourceLines_break (s : Text) :
    ∃ front before after, sourceLines s = front ++ before ∧
      sourceLines (s ++ ['\n']) = front ++ after ∧
      (∀ line ∈ before, line.isBlank) ∧ ∀ line ∈ after, line.isBlank := by
  show ∃ front before after, numberedLines 1 s.lines = front ++ before ∧
    numberedLines 1 (s ++ ['\n']).lines = front ++ after ∧ _
  have hclosed := Text.lines_closed s
  generalize s.lines = parts, (s ++ ['\n']).lines = parts' at hclosed ⊢
  cases hclosed with
  | last => exact ⟨_, [], [], (List.append_nil _).symm, (List.append_nil _).symm, nofun, nofun⟩
  | empty =>
    refine ⟨_, [], _, (List.append_nil _).symm, numberedLines_append 1 parts [[]], nofun, ?_⟩
    intro line hline
    rw [List.mem_singleton.mp hline]
    rfl
  | carriage front last =>
    rw [numberedLines_append, numberedLines_append]
    show ∃ _ _ _, _ ++ [Line.ofRaw _ _] = _ ∧ _ ++ [Line.ofRaw _ _] = _ ∧ _
    rcases ofRaw_return (1 + front.length) last with h | ⟨hbefore, hafter⟩
    · rw [h]
      exact ⟨_, [], [], (List.append_nil _).symm, (List.append_nil _).symm, nofun, nofun⟩
    · refine ⟨_, _, _, rfl, rfl, ?_, ?_⟩
      · intro line hline
        rwa [List.mem_singleton.mp hline]
      · intro line hline
        rwa [List.mem_singleton.mp hline]

/-! ## A session and its joined text -/

/-- Runs the lines of a program. -/
def Machine.interpretLines (limits : Limits) (lines : List Line) (m : Machine) : Outcome Unit :=
  match runUnder limits lines m with
  | (m', .error failure) => (m', .error failure)
  | (m', .ok _) => (m', .ok ())

theorem interpret_eq_interpretLines (limits : Limits) (source : Text) (m : Machine) :
    interpret limits source m = interpretLines limits (sourceLines source) m := rfl

/-- Programs that differ in their line numbers run alike. -/
theorem interpretLines_renumber (number : Nat → Nat) (limits : Limits) (lines : List Line)
    (m : Machine) :
    interpretLines limits (lines.map (Line.renumber number)) (m.renumber number) =
      (interpretLines limits lines m).renumber number := by
  rw [interpretLines, interpretLines, runUnder_renumber]
  obtain ⟨m', failure | completion⟩ := runUnder limits lines m <;> rfl

/-- A source that succeeds has come to the end of its lines. -/
theorem runUnder_of_interpret {m m₁ : Machine} {source : Text} (hframes : m.frames = [])
    (hdepth : m.loopDepth = 0) (h : interpret limits source m = (m₁, .ok ())) :
    runUnder limits (sourceLines source) m = (m₁, .ok .finished) := by
  obtain ⟨chains, hcomes⟩ := interpret_comes hframes hdepth h
  rw [runUnder_eq, hcomes.run_eq, Point.run_nil]

/-- Behind a source that succeeds, a joined text goes on with the lines of the second. -/
theorem interpret_append {m m₁ : Machine} {s₁ s₂ : Text} (hframes : m.frames = [])
    (hdepth : m.loopDepth = 0) (hfirst : interpret limits s₁ m = (m₁, .ok ()))
    (hsecond : StandsAlone (sourceLines s₂)) :
    interpret limits (s₁ ++ '\n' :: s₂) m =
      interpretLines limits ((sourceLines s₂).map (Line.renumber (· + lineCount s₁))) m₁ := by
  have hrun := runUnder_of_interpret hframes hdepth hfirst
  have hlength : m₁.frames.length = m.frames.length := by
    have hextends := runUnder_extends limits (sourceLines s₁) m
    rw [hrun] at hextends
    exact hextends.frames
  -- The line feed may add a blank line or take a carriage return off a line: see past both.
  obtain ⟨front, before, after, hbreak, hbreak', hbefore, hafter⟩ := sourceLines_break s₁
  rw [runUnder, runWithin_eq, hbreak, runLines_append_blanks hbefore] at hrun
  rw [interpret_eq_interpretLines, sourceLines_append, hbreak', interpretLines, interpretLines,
    runUnder, runUnder, runWithin_eq, runWithin_eq, hlength,
    runLines_joined (hsecond.renumber _), Run.followedBy, runLines_append_blanks hafter, hrun]

/-- The mark of a line that was there before: an even number. -/
def earlier (number : Nat) : Nat := 2 * number

/-- The mark of a line of the later source: an odd number. -/
def later (number : Nat) : Nat := 2 * number + 1

/-- The number that was marked, where those of the later source are counted on from `shift`. -/
def unmark (shift mark : Nat) : Nat :=
  mark / 2 + if mark % 2 = 1 then shift else 0

theorem unmark_comp_earlier (shift : Nat) : unmark shift ∘ earlier = id := by
  funext n
  show 2 * n / 2 + (if 2 * n % 2 = 1 then shift else 0) = n
  rw [if_neg (by omega)]
  omega

theorem unmark_comp_later (shift : Nat) : unmark shift ∘ later = (· + shift) := by
  funext n
  show (2 * n + 1) / 2 + (if (2 * n + 1) % 2 = 1 then shift else 0) = n + shift
  rw [if_pos (by omega)]
  omega

/-- Both ways of reading off a run with marked numbers. -/
theorem interpretLines_unmark (limits : Limits) (lines : List Line) (m : Machine) (shift : Nat) :
    interpretLines limits (lines.map (Line.renumber (· + shift))) m =
      (interpretLines limits (lines.map (Line.renumber later)) (m.renumber earlier)).renumber
        (unmark shift) := by
  rw [← interpretLines_renumber, Line.map_renumber_renumber, Machine.renumber_renumber,
    unmark_comp_later, unmark_comp_earlier, Machine.renumber_id]

/-- **A session and its joined text.** Both are read off one run of the second source with
marked numbers. Taking the marks off gives what the second source does after the first;
counting its lines on from those of the first gives what the joined text does. So what is
printed and named is the same, and functions and failures differ in the numbers of lines of
the second source only. -/
theorem interpret_joined {m m₁ : Machine} {s₁ s₂ : Text} (hframes : m.frames = [])
    (hdepth : m.loopDepth = 0) (hfirst : interpret limits s₁ m = (m₁, .ok ()))
    (hsecond : StandsAlone (sourceLines s₂)) :
    let marked := interpretLines limits ((sourceLines s₂).map (Line.renumber later))
      (m₁.renumber earlier)
    interpret limits s₂ m₁ = marked.renumber (unmark 0) ∧
      interpret limits (s₁ ++ '\n' :: s₂) m = marked.renumber (unmark (lineCount s₁)) := by
  intro marked
  constructor
  · have hsame : (sourceLines s₂).map (Line.renumber (· + 0)) = sourceLines s₂ := List.map_id _
    rw [interpret_eq_interpretLines, ← interpretLines_unmark, hsame]
  · rw [interpret_append hframes hdepth hfirst hsecond]
    exact interpretLines_unmark limits _ m₁ _

/-- A function of the first source is called by the second, and fails at its own line. -/
theorem interpret_joined_call :
    let s₁ := "def f():\n  break\n".toList
    let s₂ := "# go on\nf()".toList
    let m₁ := (interpret {} s₁ {}).1
    let marked := interpretLines {} ((sourceLines s₂).map (Line.renumber later))
      (m₁.renumber earlier)
    interpret {} s₂ m₁ = marked.renumber (unmark 0) ∧
      interpret {} (s₁ ++ '\n' :: s₂) {} = marked.renumber (unmark (lineCount s₁)) := by
  intro s₁ s₂ m₁
  have hlines : sourceLines s₁ = [⟨1, 0, "def f():".toList⟩, ⟨2, 2, "break".toList⟩] := by
    decide +kernel
  have hreach : Reaches {} (entryWithin {} 200) {} (sourceLines s₁) {} {} []
      (Machine.define {} "f" [] [⟨2, 2, "break".toList⟩]) := by
    rw [hlines]
    exact .on rfl .here
  have hrun : runUnder {} (sourceLines s₁) {} =
      (Machine.define {} "f" [] [⟨2, 2, "break".toList⟩], .ok .finished) := by
    rw [runUnder, runWithin_eq]
    exact hreach.runLines_eq.trans (by rw [runLines])
  have hfirst : interpret {} s₁ {} = (m₁, .ok ()) := by
    show _ = ((interpret {} s₁ {}).1, _)
    rw [interpret, hrun]
  have hsecond : StandsAlone (sourceLines s₂) := by
    intro line hline
    have hcall : line = ⟨2, 0, "f()".toList⟩ := by
      have hlines : sourceLines s₂ = [⟨1, 0, []⟩, ⟨2, 0, "f()".toList⟩] := by decide +kernel
      rw [hlines] at hline
      cases hline
      rfl
    rw [hcall]
    refine ⟨rfl, fun statement hclass => ?_⟩
    have hclassify : classify "f()".toList = .ok (.call "f" []) := by cbv
    cases hclassify.symm.trans hclass
    rfl
  exact interpret_joined rfl rfl hfirst hsecond

end Offside
