import Offside.Proofs.Machine.Bodies
import Offside.Proofs.Machine.Limits

/-!
# Where a failure arises

A failure is raised by one line and passed on unchanged by every loop and every call that
is open around it, so its number is the number of the line that raised it. A point `FailsOn`
a line if its run comes to the line, which fails there although nothing that it descends to
does: the line that is run in the innermost activation.

> `Point.run_failed_iff`: the run from a point fails exactly where it fails on a line.

The line stands in the program. It may be run again from the block of a loop, or from the
body of a function that was defined long before, so what every run keeps is that all bodies
are made of lines of the program (`Machine.DefinedIn`), and with it that every point stands
in the program (`Comes.standsIn`).
-/

namespace Offside

open Machine

variable {limits : Limits} {room number : Nat} {chains : Chains} {line : Line}
  {rest program : List Line} {m : Machine} {failure : Failure}

/-! ## Lines that fail by themselves -/

/-- An outcome is no failure, or it is one with this line number. -/
def Outcome.FailsAt {α : Type} (number : Nat) (outcome : Outcome α) : Prop :=
  ∀ failure, outcome.2 = .error failure → failure.line = number

/-- The run from a point does not fail. -/
def Point.Succeeds (limits : Limits) (p : Point) : Prop :=
  ∀ failure, (p.run limits).2 ≠ .error failure

/-- An outcome that is no failure fails nowhere else. -/
theorem failsAt_ok {α : Type} (a : α) : Outcome.FailsAt number (m, .ok a) := nofun

theorem failsAt_error {α : Type} (h : failure.line = number) :
    Outcome.FailsAt number ((m, .error failure) : Outcome α) := by
  intro failure' heq
  cases heq
  exact h

/-- A loop fails where its run fails: a signal that its block gives is no failure. -/
theorem behindLoop_failsAt {run : Run} (length : Nat)
    (h : (run { m with loopDepth := m.loopDepth + 1 }).FailsAt number) :
    (behindLoop chains length (Run.inLoop run m)).FailsAt number := by
  rw [Run.inLoop]
  generalize run { m with loopDepth := m.loopDepth + 1 } = outcome at h
  obtain ⟨m', failure | completion⟩ := outcome
  · exact failsAt_error (h failure rfl)
  · cases completion <;> exact failsAt_ok _

/-- A loop that fails in a round fails as the round does. -/
theorem Run.Stops.round_failed {round loop : Outcome Completion} (h : Run.Stops round loop)
    (hfailed : loop.2 = .error failure) : round.2 = .error failure := by
  cases h with
  | failed => exact hfailed
  | broken => cases hfailed
  | returned => cases hfailed

/-- A loop over values whose rounds do not fail does not fail. -/
theorem forEach_failsAt {body : Value → Run} {vs : List Value}
    (hround : ∀ v ws m', Run.EachRounds body vs m (v :: ws) m' →
      ∀ failure, (body v m').2 ≠ .error failure) :
    (Run.forEach body vs m).FailsAt number := by
  intro failure hfailed
  rcases Run.forEach_ends body vs m with ⟨m', _, hend⟩ | ⟨v, ws, m', hrounds, hstops⟩
  · rw [hend] at hfailed
    cases hfailed
  · exact absurd (hstops.round_failed hfailed) (hround v ws m' hrounds failure)

/-- A loop whose rounds do not fail fails at its condition, if at all. -/
theorem whileHolds_failsAt {condition : Machine → Except Failure Bool} {body : Run}
    {warning : String} {n : Nat}
    (hcondition : ∀ m failure, condition m = .error failure → failure.line = number)
    (hround : ∀ k m', Run.WhileRounds condition body n m (k + 1) m' → condition m' = .ok true →
      ∀ failure, (body m').2 ≠ .error failure) :
    (Run.whileHolds condition body warning n m).FailsAt number := by
  intro failure hfailed
  rcases Run.whileHolds_ends condition body warning n m with
    ⟨k, m', _, hend⟩ | ⟨k, m', hrounds, hholds, hstops⟩
  · rcases hend with ⟨failure', hfails, hend⟩ | hend | hend <;> rw [hend] at hfailed
    · cases hfailed
      exact hcondition m' failure hfails
    · cases hfailed
    · cases hfailed
  · exact absurd (hstops.round_failed hfailed) (hround k m' hrounds hholds failure)

/-- A builtin fails at the line that calls it. -/
theorem callBuiltin_failsAt (name : String) (vs : List Value) :
    (m.callBuiltin name vs number).FailsAt number := by
  rw [callBuiltin]
  split
  next => exact failsAt_error rfl
  next =>
    split
    next => exact failsAt_error rfl
    next => exact failsAt_ok _

/-- A call fails on its own line if the body that it enters does not fail: because there
is no such function, because of its arguments, or because it is one call too many. -/
theorem call_failsAt {name : String} {arguments : Text}
    (h : ∀ q, Enters room m name arguments q → q.Succeeds limits) :
    (m.call (entryWithin limits room) name arguments number).FailsAt number := by
  by_cases hbody : ∃ q, Enters room m name arguments q
  · obtain ⟨q, hq⟩ := hbody
    have hrun := h q hq
    rw [hq.call_eq, Point.Succeeds] at *
    generalize q.run limits = outcome at hrun
    obtain ⟨m', failure | completion⟩ := outcome
    · exact absurd rfl (hrun failure)
    · exact failsAt_ok _
  · rw [call]
    cases hfunction : m.functions.get? name with
    | none => exact callBuiltin_failsAt name _
    | some f =>
      dsimp only
      unfold enter
      split
      next => exact failsAt_error rfl
      next harguments =>
        cases room with
        | zero => exact failsAt_error rfl
        | succ left =>
          exact absurd ⟨_, .intro rfl hfunction (Nat.not_lt.mp harguments)⟩ hbody

/-- A line whose failure does not come from the lines that it descends to fails with its
own number. -/
theorem runLine_failsAt (chains : Chains)
    (hinside : ∀ construct q, Descends limits room line rest m construct q → q.Succeeds limits) :
    (m.runLine (context limits room rest) chains line rest).FailsAt line.number := by
  rcases runLine_performs m (context limits room rest) chains line rest with
    ⟨_, hrun⟩ | ⟨failure, hfailure, hrun⟩ | ⟨statement, _, hclass, hperforms⟩
  · rw [hrun]
    exact failsAt_ok _
  · rw [hrun]
    exact failsAt_error hfailure
  · generalize m.runLine (context limits room rest) chains line rest = outcome at hperforms ⊢
    cases hperforms with
    | fails hfailure => exact failsAt_error hfailure
    | forEach hblock helements =>
      refine behindLoop_failsAt _ (forEach_failsAt fun v ws m' hrounds => ?_)
      exact hinside _ _ (.forEach hclass hblock helements hrounds)
    | whileHolds hblock =>
      refine behindLoop_failsAt _ (whileHolds_failsAt (fun _ _ => condition_line) ?_)
      intro k m' hrounds hholds
      exact hinside _ _ (.whileHolds hclass hblock hrounds hholds)
    | callFails hcall =>
      refine failsAt_error (call_failsAt (fun q henters => ?_) _ (congrArg Prod.snd hcall))
      exact hinside _ q (.call hclass henters)
    -- what is left does not fail
    | _ => exact failsAt_ok _

/-- The run from a point comes to a line that fails by itself. The constructs are the loops
and calls that are open around the line. -/
inductive Point.FailsOn (limits : Limits) (p : Point) (line : Line) (failure : Failure) : Prop
  | intro {constructs : List Construct} {room : Nat} {chains : Chains} {rest : List Line}
      {m : Machine} (hcomes : Comes limits p constructs ⟨room, chains, line :: rest, m⟩)
      (hfailed : (m.runLine (context limits room rest) chains line rest).2 = .error failure)
      (hinside : ∀ construct q, Descends limits room line rest m construct q →
        q.Succeeds limits) : Point.FailsOn limits p line failure

/-- A run fails on the line that a run inside its first line fails on. -/
theorem Point.FailsOn.descends {line' : Line} {construct : Construct} {q : Point}
    (h : q.FailsOn limits line' failure)
    (hdescends : Descends limits room line rest m construct q) :
    Point.FailsOn limits ⟨room, chains, line :: rest, m⟩ line' failure := by
  cases h with
  | intro hcomes hfailed hinside => exact .intro (hcomes.descends hdescends) hfailed hinside

/-- A run fails on the line that it fails on behind its first line. -/
theorem Point.FailsOn.on {line' : Line} {chains' : Chains} {m' : Machine} {skipped : Nat}
    (h : Point.FailsOn limits ⟨room, chains', rest.drop skipped, m'⟩ line' failure)
    (hline : m.runLine (context limits room rest) chains line rest =
      (m', .ok (.goOn chains' skipped))) :
    Point.FailsOn limits ⟨room, chains, line :: rest, m⟩ line' failure := by
  cases h with
  | intro hcomes hfailed hinside => exact .intro (hcomes.on hline) hfailed hinside

/-- The number of a failure is that of the line it arises on. -/
theorem Point.FailsOn.line_eq {p : Point} (h : p.FailsOn limits line failure) :
    failure.line = line.number := by
  cases h with
  | intro _ hfailed hinside => exact runLine_failsAt _ hinside failure hfailed

/-- No blank line fails. -/
theorem Point.FailsOn.isBlank_eq {p : Point} (h : p.FailsOn limits line failure) :
    line.isBlank = false := by
  cases h with
  | intro _ hfailed _ =>
    refine Bool.eq_false_iff.mpr fun hblank => ?_
    rw [runLine, if_pos hblank] at hfailed
    cases hfailed

/-- **Every failure arises on a line** that the run comes to. -/
theorem Point.exists_failsOn {p : Point} (h : (p.run limits).2 = .error failure) :
    ∃ line, p.FailsOn limits line failure := by
  induction p using Point.induction limits with
  | nil room chains m =>
    rw [Point.run_nil] at h
    cases h
  | cons room chains line rest m ihdescends ihon =>
    rw [Point.run_cons] at h
    split at h
    next m' failure' hline =>
      cases h
      have hfailed := congrArg Prod.snd hline
      -- Either the failure comes from inside the line, or the line is the one looked for.
      by_cases hinside : ∃ construct q, Descends limits room line rest m construct q ∧
          ∃ failure', (q.run limits).2 = .error failure'
      · obtain ⟨construct, q, hdescends, failure', hq⟩ := hinside
        have hsame := (hdescends.runLine_failed chains hq).symm.trans hfailed
        cases hsame
        obtain ⟨line', hline'⟩ := ihdescends construct q hdescends hq
        exact ⟨line', hline'.descends hdescends⟩
      · refine ⟨line, .intro (.refl _) hfailed fun construct q hdescends failure' hq => ?_⟩
        exact hinside ⟨construct, q, hdescends, failure', hq⟩
    next => cases h
    next m' chains' skipped hline =>
      obtain ⟨line', hline'⟩ := ihon m' chains' skipped hline h
      exact ⟨line', hline'.on hline⟩

/-- A run fails with every failure of a run that it comes to. -/
theorem Comes.run_failed {p q : Point} {constructs : List Construct}
    (h : Comes limits p constructs q) (hfailed : (q.run limits).2 = .error failure) :
    (p.run limits).2 = .error failure := by
  induction h with
  | along hreach => rwa [(Comes.along hreach).run_eq]
  | into hreach hdescends _ ih =>
    rw [(Comes.along hreach).run_eq]
    exact hdescends.run_failed (ih hfailed)

/-- **A failure arises on one line.** A run fails with what a line that it comes to raises
by itself, however many loops and calls are open around that line. -/
theorem Point.run_failed_iff {p : Point} :
    (p.run limits).2 = .error failure ↔ ∃ line, p.FailsOn limits line failure := by
  constructor
  · exact Point.exists_failsOn
  · rintro ⟨line, hcomes, hfailed, _⟩
    exact hcomes.run_failed (Point.run_failed_of_runLine hfailed)

/-! ## The lines of a program -/

/-- All functions that are defined have bodies of lines of a program. -/
def Machine.DefinedIn (program : List Line) (m : Machine) : Prop :=
  ∀ name f, m.functions.get? name = some f → f.body ⊆ program

/-- The lines that are left, and those of all functions, are lines of a program. -/
structure Point.StandsIn (program : List Line) (p : Point) : Prop where
  lines : p.lines ⊆ program
  functions : p.machine.DefinedIn program

theorem cuttable_subset (program : List Line) : Cuttable (· ⊆ program) where
  drop h _ := List.Subset.trans (List.drop_subset _ _) (List.subset_of_cons_subset h)
  block h := List.Subset.trans (List.take_subset _ _) (List.subset_of_cons_subset h)

/-- Every point that a run comes to stands in its program. -/
theorem Comes.standsIn {p q : Point} {constructs : List Construct}
    (h : Comes limits p constructs q) (hp : p.StandsIn program) : q.StandsIn program := by
  have hq := h.madeOf (cuttable_subset program) ⟨hp.lines, hp.functions⟩
  exact ⟨hq.lines, hq.machine⟩

/-- The line that a run fails on is one of the program. -/
theorem Point.FailsOn.mem {p : Point} (h : p.FailsOn limits line failure)
    (hp : p.StandsIn program) : line ∈ program := by
  cases h with
  | intro hcomes _ _ => exact (hcomes.standsIn hp).lines List.mem_cons_self

end Offside
