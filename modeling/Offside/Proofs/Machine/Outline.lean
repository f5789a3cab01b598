import Offside.Proofs.Machine.Likeness
import Offside.Proofs.Program.Outline

/-!
# Outlines decide on runs

Blank lines do nothing, and of an indentation only matters which others it is deeper
than: for the ends of blocks, and for the chains that a line closes. So lines with the
same outline do the same.

> `runUnder_outline`: two lists of lines with the same outline, run on the same machine,
> print the same, leave the same scopes and end in the same way. A failure is at the
> corresponding line, and the functions that are defined have bodies with the same
> outline.

Two runs are walked through side by side, with the chains of the second at the
indentations that the map of the outlines gives (`Chains.Moved`).
-/

namespace Offside

open Machine

variable {widths : Set Nat} {φ : Nat → Nat}

/-! ## Chains -/

/-- The same chains at the indentations that `φ` gives for those in `widths`. -/
structure Chains.Moved (widths : Set Nat) (φ : Nat → Nat) (chains chains' : Chains) : Prop where
  mem : ∀ e ∈ chains.entries, e.1 ∈ widths
  entries_eq : chains'.entries = chains.entries.map fun e => (φ e.1, e.2)

namespace Chains

variable {c c' : Chains} {i i' : Nat}

theorem moved_empty : Moved widths φ {} {} :=
  ⟨nofun, rfl⟩

/-- Chains that correspond still do when both are filtered by tests that agree. -/
theorem Moved.filter (h : Moved widths φ c c') {p p' : Nat × Bool → Bool}
    (hp : ∀ e : Nat × Bool, e.1 ∈ widths → p' (φ e.1, e.2) = p e) :
    Moved widths φ ⟨c.entries.filter p⟩ ⟨c'.entries.filter p'⟩ where
  mem e he := h.mem e (List.mem_filter.mp he).1
  entries_eq := by
    show c'.entries.filter p' = (c.entries.filter p).map _
    rw [h.entries_eq, List.filter_map]
    exact congrArg (List.map _) (List.filter_congr fun e he => hp e (h.mem e he))

/-- Chains that correspond still do when the deeper ones are dropped. -/
theorem Moved.below (hφ : StrictMonoOn φ widths) (h : Moved widths φ c c') (hi : i ∈ widths) :
    Moved widths φ (c.below i) (c'.below (φ i)) :=
  h.filter fun _ he => decide_eq_decide.mpr (hφ.lt_iff_lt he hi)

theorem Moved.below_succ (hφ : StrictMonoOn φ widths) (h : Moved widths φ c c')
    (hi : i ∈ widths) : Moved widths φ (c.below (i + 1)) (c'.below (φ i + 1)) := by
  refine h.filter fun e he => decide_eq_decide.mpr ?_
  rw [Nat.lt_succ_iff, Nat.lt_succ_iff]
  exact hφ.le_iff_le he hi

theorem Moved.close (hφ : StrictMonoOn φ widths) (h : Moved widths φ c c') (hi : i ∈ widths) :
    Moved widths φ (c.close i) (c'.close (φ i)) := by
  refine h.filter fun e he => ?_
  rw [Bool.eq_iff_iff, bne_iff_ne, bne_iff_ne]
  exact not_congr (hφ.eq_iff_eq he hi)

/-- Chains that correspond still do when one is opened at the same place. -/
theorem Moved.set (hφ : StrictMonoOn φ widths) (h : Moved widths φ c c') (hi : i ∈ widths)
    (taken : Bool) : Moved widths φ (c.set i taken) (c'.set (φ i) taken) := by
  have hclose := h.close hφ hi
  refine ⟨?_, congrArg (List.cons (φ i, taken)) hclose.entries_eq⟩
  intro e he
  rcases List.mem_cons.mp he with rfl | he
  · exact hi
  · exact hclose.mem e he

/-- Chains that correspond have taken the same branches. -/
theorem Moved.taken?_eq (hφ : StrictMonoOn φ widths) (h : Moved widths φ c c')
    (hi : i ∈ widths) : c'.taken? (φ i) = c.taken? i := by
  rw [taken?, taken?, h.entries_eq]
  have hmem := h.mem
  generalize c.entries = entries at hmem
  induction entries with
  | nil => rfl
  | cons e rest ih =>
    have he := hφ.eq_iff_eq hi (hmem e (List.mem_cons_self ..))
    rw [List.map_cons, List.lookup_cons, List.lookup_cons,
      ih fun other hother => hmem other (List.mem_cons_of_mem e hother)]
    have hsame : (φ i == φ e.1) = (i == e.1) := by
      rw [Bool.eq_iff_iff, beq_iff_eq, beq_iff_eq]
      exact he
    rw [hsame]

/-- Chains that are moved go together at the indentations that are. -/
theorem matched_moved (hφ : StrictMonoOn φ widths) :
    Matched (fun i i' => i ∈ widths ∧ i' = φ i) (Moved widths φ) where
  taken?_eq h hi := hi.2 ▸ h.taken?_eq hφ hi.1
  set h hi taken := hi.2 ▸ h.set hφ hi.1 taken
  close h hi := hi.2 ▸ h.close hφ hi.1
  below h hi := hi.2 ▸ h.below hφ hi.1
  below_succ h hi := hi.2 ▸ h.below_succ hφ hi.1

end Chains

/-! ## Runs -/

variable {R : Line → Line → Prop}

/-- Two functions that differ in the blank lines, the indentations and the numbers of
their bodies, where `R` says which lines correspond. -/
structure SameButLayout (R : Line → Line → Prop) (f f' : Function) : Prop where
  name_eq : f'.name = f.name
  parameters_eq : f'.parameters = f.parameters
  captured_eq : f'.captured = f.captured
  body : SameOutline f.body f'.body
  lines : List.Forall₂ R (outline f.body) (outline f'.body)

/-- Lines are alike if `R` says so, functions if they have the same outline, and tables if
the functions of each name are alike. -/
def Likeness.outlined (R : Line → Line → Prop) : Likeness where
  line := R
  function := SameButLayout R
  table b b' := b.Rel (SameButLayout R) b'
  parameters_eq := SameButLayout.parameters_eq
  captured_eq := SameButLayout.captured_eq
  rel h := h
  insert h hf name := h.insert hf name

/-- Lines with the same outline run alike, in calls and under chains that correspond. -/
theorem runs_outline {limits : Limits} {entry entry' : Entry} (hφ : StrictMonoOn φ widths)
    (hentry : (Likeness.outlined R).Entries entry entry') (lines : List Line) :
    ∀ {lines' : List Line} {chains chains' : Chains}, Chains.Moved widths φ chains chains' →
      List.Forall₂ (fun line line' => R line line' ∧ Shifted widths φ line line')
        (outline lines) (outline lines') →
      (Likeness.outlined R).Runs (runLines limits entry chains lines)
        (runLines limits entry' chains' lines') := by
  intro lines' chains chains' hchains hlines m m' hm
  -- Both runs first pass the blank lines in front. They do not stand at the same places, so
  -- the induction is on the lines of the one run, and the outlines tell what the other has.
  rw [← runLines_dropWhile_isBlank chains lines, ← runLines_dropWhile_isBlank chains' lines']
  generalize houtline : outline lines = shown, houtline' : outline lines' = shown' at hlines
  cases hlines with
  | nil =>
    rw [dropWhile_of_outline_nil houtline, dropWhile_of_outline_nil houtline', runLines, runLines]
    exact .intro hm (.ok rfl)
  | @cons line line' _ _ hline hrest =>
    obtain ⟨hR, hshifted⟩ := hline
    obtain ⟨rest, hfront, rfl⟩ := exists_of_outline_cons houtline
    obtain ⟨rest', hfront', rfl⟩ := exists_of_outline_cons houtline'
    have hshorter : rest.length < lines.length := by
      have hle := (List.dropWhile_sublist Line.isBlank (l := lines)).length_le
      rw [hfront, List.length_cons] at hle
      omega
    have hdeeper {other other' : Line} (hother : R other other' ∧ Shifted widths φ other other') :
        decide (line'.indent < other'.indent) = decide (line.indent < other.indent) :=
      hshifted.deeper hφ hother.2
    have hblock : List.Forall₂ (fun line line' => R line line' ∧ Shifted widths φ line line')
        (outline (rest.take (blockLength line.indent rest)))
        (outline (rest'.take (blockLength line'.indent rest'))) := by
      rw [outline_take_blockLength, outline_take_blockLength]
      exact forall₂_takeWhile hrest fun _ _ => hdeeper
    have hbehind : List.Forall₂ (fun line line' => R line line' ∧ Shifted widths φ line line')
        (outline (rest.drop (blockLength line.indent rest)))
        (outline (rest'.drop (blockLength line'.indent rest'))) := by
      rw [outline_drop_blockLength, outline_drop_blockLength]
      exact forall₂_dropWhile hrest fun _ _ => hdeeper
    rw [hfront, hfront']
    refine Likeness.runs_cons hentry (Chains.matched_moved hφ) hchains
      ⟨hshifted.mem, hshifted.indent_eq⟩ hR hshifted.text_eq ⟨?_, ?_, ?_⟩ ?_ ?_ hm
    · rw [blockLength_eq_zero_iff_outline line'.indent, blockLength_eq_zero_iff_outline line.indent,
        ← List.length_eq_zero_iff, ← List.length_eq_zero_iff, hblock.length_eq]
    · intro name parameters captured
      exact ⟨rfl, rfl, rfl, ⟨widths, φ, hφ, hblock.imp fun _ _ => And.right⟩,
        hblock.imp fun _ _ => And.left⟩
    · exact runs_outline hφ hentry _ Chains.moved_empty hblock
    · intro c c' hc
      exact runs_outline hφ hentry _ hc hrest
    · intro c c' hc
      exact runs_outline hφ hentry _ hc hbehind
termination_by lines.length
decreasing_by
  · rw [List.length_take]
    omega
  · exact hshorter
  · rw [List.length_drop]
    omega

/-- The lines that correspond in two lists with the same outline: those at one place of
both outlines, and each line of a function that was there before to itself. -/
inductive Corresponds (lines lines' : List Line) (m : Machine) : Line → Line → Prop
  | shown {line line' : Line} (h : (line, line') ∈ (outline lines).zip (outline lines')) :
      Corresponds lines lines' m line line'
  | kept {name : String} {f : Function} {line : Line} (hf : m.functions.get? name = some f)
      (hline : line ∈ f.body) : Corresponds lines lines' m line line

/-- **Only the outline matters.** Lines whose texts are the same, and whose indentations are
in the same order, do the same to a machine, wherever blank lines stand among them: they
print the same, leave the same scopes, and end in the same way, where a failure has the same
cause at the corresponding line. The functions that they define differ in blank lines,
indentations and numbers only. -/
theorem runUnder_outline (limits : Limits) {lines lines' : List Line}
    (h : SameOutline lines lines') (m : Machine) :
    (Likeness.outlined (Corresponds lines lines' m)).Outcomes Eq (runUnder limits lines m)
      (runUnder limits lines' m) := by
  obtain ⟨widths, φ, hφ, hshifted⟩ := h
  have hlines : List.Forall₂ (Corresponds lines lines' m) (outline lines) (outline lines') :=
    List.forall₂_iff_zip.mpr ⟨hshifted.length_eq, fun hmem => .shown hmem⟩
  have hm : (Likeness.outlined (Corresponds lines lines' m)).Machines m m := by
    refine ⟨rfl, rfl, rfl, rfl, fun name => ?_⟩
    cases hf : m.functions.get? name with
    | none => exact .none
    | some f =>
      exact .some ⟨rfl, rfl, rfl, SameOutline.refl f.body,
        List.forall₂_same.mpr fun line hline => .kept hf (List.mem_filter.mp hline).1⟩
  have hentry := Likeness.entries_within (k := Likeness.outlined (Corresponds lines lines' m))
    limits fun entry entry' hentry f f' hf => by
      obtain ⟨_, _, hφ, hbody⟩ := hf.body
      exact runs_outline hφ hentry f.body Chains.moved_empty (forall₂_and hf.lines hbody)
  rw [runUnder, runUnder, runWithin_eq, runWithin_eq]
  exact runs_outline hφ (hentry _) lines Chains.moved_empty (forall₂_and hlines hshifted) hm

/-- A chain in a loop, both branches of which are run, in front of a line that fails. In the
second layout the blocks are indented by other widths, and there are blank lines in the blocks
and between the branches. -/
theorem runUnder_outline_chain :
    let lines : List Line := [⟨1, 0, "for x in [True, False]:".toList⟩, ⟨2, 2, "if x:".toList⟩,
      ⟨3, 4, "print('yes')".toList⟩, ⟨4, 2, "else:".toList⟩, ⟨5, 3, "print('no')".toList⟩,
      ⟨6, 0, "f()".toList⟩]
    let lines' : List Line := [⟨1, 1, "for x in [True, False]:".toList⟩, ⟨2, 0, []⟩,
      ⟨3, 5, "if x:".toList⟩, ⟨4, 5, []⟩, ⟨5, 9, "print('yes')".toList⟩, ⟨6, 2, []⟩,
      ⟨7, 5, "else:".toList⟩, ⟨8, 7, "print('no')".toList⟩, ⟨9, 9, []⟩, ⟨10, 1, "f()".toList⟩]
    let failure : Nat → Failure := .runtime (.runtime (.unbound "f"))
    SameOutline lines lines' ∧ (Likeness.outlined (Corresponds lines lines' {})).Outcomes Eq
        (runUnder {} lines {}) (runUnder {} lines' {}) ∧
      (runUnder {} lines {}).1.output = #["yes", "no"] ∧
      (runUnder {} lines {}).2 = .error (failure 6) ∧
      (runUnder {} lines' {}).1.output = #["yes", "no"] ∧
      (runUnder {} lines' {}).2 = .error (failure 10) := by
  intro lines lines' failure
  have hincreasing : StrictMonoOn (fun i : Nat => 2 * i + 1) Set.univ := by
    intro i _ j _ hij
    show 2 * i + 1 < 2 * j + 1
    omega
  have hshifted {line line' : Line} (htext : line'.text = line.text)
      (hindent : line'.indent = 2 * line.indent + 1) :
      Shifted Set.univ (fun i => 2 * i + 1) line line' := ⟨htext, trivial, hindent⟩
  have houtline : SameOutline lines lines' :=
    ⟨Set.univ, fun i => 2 * i + 1, hincreasing,
      .cons (hshifted rfl rfl) (.cons (hshifted rfl rfl) (.cons (hshifted rfl rfl)
        (.cons (hshifted rfl rfl) (.cons (hshifted rfl rfl) (.cons (hshifted rfl rfl) .nil)))))⟩
  refine ⟨houtline, runUnder_outline {} houtline {}, ?_, ?_, ?_, ?_⟩
  all_goals decide +kernel

end Offside
