import Mathlib
import Offside.Proofs.Machine.Agreement
import Offside.Proofs.Machine.Keeping

/-!
# A loop and its cap

Without a cap, a loop under a condition goes on until the condition fails or does not hold,
or a round of its body breaks off, returns or fails. It may never come to that, so it is a
relation here (`Unrolls`), which also says in what steps the loop gets there. The loop of
the machine takes steps as well (`whileTraced`), and does nothing but that
(`whileTraced_snd`).

> `Unrolls.whileTraced_eq`: where the loop without a cap ends within the cap, the loop of
> the machine takes the same steps to the same end.

> `whileTraced_cut`: where it does not, all rounds of the cap are gone through, the
> condition holds once more, and the loop warns as its last step.

> `loop_under_cap`: both for the line of a loop, wherever in a run it stands.
-/

namespace Offside

open Machine

/-- What a loop under a condition does: it looks at the condition, runs its body, or warns
that it stops. -/
inductive LoopStep where
  | test
  | round
  | warning
  deriving Repr, DecidableEq

namespace Run

/-! ## The loop without a cap -/

/-- The loop that goes on as long as its condition holds comes to an end, in so many steps
and with an outcome. -/
inductive Unrolls (condition : Machine → Except Failure Bool) (body : Run) :
    Machine → List LoopStep → Outcome Completion → Prop
  | failed {m : Machine} {failure : Failure} (hfails : condition m = .error failure) :
      Unrolls condition body m [.test] (m, .error failure)
  | ended {m : Machine} (hends : condition m = .ok false) :
      Unrolls condition body m [.test] (m, .ok .finished)
  | stopped {m : Machine} {outcome : Outcome Completion} (hholds : condition m = .ok true)
      (hstops : Stops (body m) outcome) : Unrolls condition body m [.test, .round] outcome
  | next {m m' : Machine} {steps : List LoopStep} {outcome : Outcome Completion}
      (hholds : condition m = .ok true) (hround : Passes body m m')
      (hrest : Unrolls condition body m' steps outcome) :
      Unrolls condition body m (.test :: .round :: steps) outcome

/-! ## The loop of the machine, step by step -/

/-- The steps of a loop behind a round, and what it gives, where `again` is the rest of its
rounds. -/
def tracedRound (again : Machine → List LoopStep × Outcome Completion) :
    Outcome Completion → List LoopStep × Outcome Completion
  | (m, .error failure) => ([], (m, .error failure))
  | (m, .ok .broken) => ([], (m, .ok .finished))
  | (m, .ok .returned) => ([], (m, .ok .returned))
  | (m, .ok .finished) => again m
  | (m, .ok .continued) => again m

/-- The steps of a loop that may go so many rounds, and what it gives. -/
def whileTraced (condition : Machine → Except Failure Bool) (body : Run) (warning : String) :
    (rounds : Nat) → Machine → List LoopStep × Outcome Completion
  | rounds, m =>
    match condition m with
    | .error failure => ([.test], (m, .error failure))
    | .ok false => ([.test], (m, .ok .finished))
    | .ok true =>
      match rounds with
      | 0 => ([.test, .warning], (m.print warning, .ok .finished))
      | rounds + 1 =>
        let (steps, outcome) := tracedRound (whileTraced condition body warning rounds) (body m)
        (.test :: .round :: steps, outcome)

/-- The steps of a loop that is stopped. -/
def stepsToCap : Nat → List LoopStep
  | 0 => [.test, .warning]
  | n + 1 => .test :: .round :: stepsToCap n

variable {condition : Machine → Except Failure Bool} {body : Run} {warning : String} {n : Nat}
  {m m' : Machine} {steps : List LoopStep} {outcome : Outcome Completion}

/-- A round that ends as rounds do adds no steps of its own to those behind it. -/
theorem Passes.tracedRound_eq (h : Passes body m m')
    (again : Machine → List LoopStep × Outcome Completion) :
    tracedRound again (body m) = again m' := by
  rcases h with h | h <;> rw [h] <;> rfl

/-- A round that ends the loop is followed by no step. -/
theorem Stops.tracedRound_eq {round : Outcome Completion} (h : Stops round outcome)
    (again : Machine → List LoopStep × Outcome Completion) :
    tracedRound again round = ([], outcome) := by
  cases h <;> rfl

/-- What is traced does not change what a round leads to. -/
theorem tracedRound_snd {again : Run} {traced : Machine → List LoopStep × Outcome Completion}
    (h : ∀ m, (traced m).2 = again m) (round : Outcome Completion) :
    (tracedRound traced round).2 = afterRound again round := by
  obtain ⟨m, failure | completion⟩ := round
  · rfl
  · cases completion with
    | finished => exact h m
    | continued => exact h m
    | broken => rfl
    | returned => rfl

/-- A condition that fails is tested, and the loop fails. -/
theorem whileTraced_failed {failure : Failure} (hfails : condition m = .error failure)
    (body : Run) (warning : String) (n : Nat) :
    whileTraced condition body warning n m = ([.test], (m, .error failure)) := by
  rw [whileTraced.eq_def]
  dsimp only
  rw [hfails]

/-- A condition that does not hold is tested, and the loop ends. -/
theorem whileTraced_ended (hends : condition m = .ok false) (body : Run) (warning : String)
    (n : Nat) : whileTraced condition body warning n m = ([.test], (m, .ok .finished)) := by
  rw [whileTraced.eq_def]
  dsimp only
  rw [hends]

/-- At the cap a condition that holds is tested, and the warning is printed. -/
theorem whileTraced_zero (hholds : condition m = .ok true) (body : Run) (warning : String) :
    whileTraced condition body warning 0 m =
      ([.test, .warning], (m.print warning, .ok .finished)) := by
  rw [whileTraced, hholds]

/-- Below the cap a condition that holds is tested, and a round is run in front of the
others. -/
theorem whileTraced_succ (hholds : condition m = .ok true) (body : Run) (warning : String)
    (n : Nat) :
    whileTraced condition body warning (n + 1) m =
      let behind := tracedRound (whileTraced condition body warning n) (body m)
      (.test :: .round :: behind.1, behind.2) := by
  rw [whileTraced, hholds]

/-- The steps are those of the loop that the machine runs. -/
theorem whileTraced_snd (condition : Machine → Except Failure Bool) (body : Run)
    (warning : String) (n : Nat) (m : Machine) :
    (whileTraced condition body warning n m).2 = whileHolds condition body warning n m := by
  induction n generalizing m with
  | zero =>
    rw [whileTraced, whileHolds]
    cases condition m with
    | error failure => rfl
    | ok holds => cases holds <;> rfl
  | succ n ih =>
    cases hcondition : condition m with
    | error failure => rw [whileTraced_failed hcondition, whileHolds, hcondition]
    | ok holds =>
      cases holds with
      | false => rw [whileTraced_ended hcondition, whileHolds, hcondition]
      | true =>
        rw [whileTraced_succ hcondition, whileHolds_succ hcondition]
        exact tracedRound_snd ih (body m)

/-! ## Within the cap -/

/-- The loop without a cap never warns. -/
theorem Unrolls.warning_not_mem (h : Unrolls condition body m steps outcome) :
    .warning ∉ steps := by
  induction h with
  | failed => decide
  | ended => decide
  | stopped => decide
  | next _ _ _ ih =>
    intro hmem
    simp only [List.mem_cons, reduceCtorEq, false_or] at hmem
    exact ih hmem

/-- **Within its cap** a loop takes the steps of the one without a cap. -/
theorem Unrolls.whileTraced_eq (h : Unrolls condition body m steps outcome)
    (hcap : steps.count .round ≤ n) (warning : String) :
    whileTraced condition body warning n m = (steps, outcome) := by
  induction h generalizing n with
  | failed hfails => exact whileTraced_failed hfails body warning n
  | ended hends => exact whileTraced_ended hends body warning n
  | stopped hholds hstops =>
    -- the round that ends the loop is one of those that the cap allows
    obtain ⟨k, rfl⟩ : ∃ k, n = k + 1 := Nat.exists_eq_add_one.mpr hcap
    rw [whileTraced_succ hholds, hstops.tracedRound_eq]
  | @next _ _ steps _ hholds hround _ ih =>
    rw [List.count_cons_of_ne (by decide), List.count_cons_self] at hcap
    obtain ⟨k, rfl⟩ : ∃ k, n = k + 1 := Nat.exists_eq_add_one.mpr (by omega)
    rw [whileTraced_succ hholds, hround.tracedRound_eq, ih (Nat.le_of_succ_le_succ hcap)]

/-- The loop without a cap comes to one end only, in one way. -/
theorem Unrolls.unique {steps' : List LoopStep} {outcome' : Outcome Completion}
    (h : Unrolls condition body m steps outcome) (h' : Unrolls condition body m steps' outcome') :
    steps = steps' ∧ outcome = outcome' := by
  let cap := max (steps.count .round) (steps'.count .round)
  have hsame := (h.whileTraced_eq (Nat.le_max_left _ _ : _ ≤ cap) "").symm.trans
    (h'.whileTraced_eq (Nat.le_max_right _ _) "")
  exact Prod.mk.inj hsame

/-! ## At the cap -/

/-- Up to the cap the condition is tested once more than there are rounds. -/
theorem count_test_stepsToCap (n : Nat) : (stepsToCap n).count .test = n + 1 := by
  induction n with
  | zero => rfl
  | succ n ih =>
    rw [stepsToCap, List.count_cons_self, List.count_cons_of_ne (by decide), ih]

theorem count_round_stepsToCap (n : Nat) : (stepsToCap n).count .round = n := by
  induction n with
  | zero => rfl
  | succ n ih =>
    rw [stepsToCap, List.count_cons_of_ne (by decide), List.count_cons_self, ih]

theorem count_warning_stepsToCap (n : Nat) : (stepsToCap n).count .warning = 1 := by
  induction n with
  | zero => rfl
  | succ n ih =>
    rw [stepsToCap, List.count_cons_of_ne (by decide), List.count_cons_of_ne (by decide), ih]

theorem getLast?_stepsToCap (n : Nat) : (stepsToCap n).getLast? = some .warning := by
  induction n with
  | zero => rfl
  | succ n ih => rw [stepsToCap, List.getLast?_cons, List.getLast?_cons, ih]; rfl

/-- Where a loop does not end at once, its condition holds. -/
theorem holds_of_unrolls
    (h : ∀ steps outcome, Unrolls condition body m steps outcome → n < steps.count .round) :
    condition m = .ok true := by
  cases hcondition : condition m with
  | error failure => exact absurd (h _ _ (.failed hcondition)) (Nat.not_lt_zero n)
  | ok holds =>
    cases holds with
    | false => exact absurd (h _ _ (.ended hcondition)) (Nat.not_lt_zero n)
    | true => rfl

/-- **At its cap** a loop that would go on has gone all its rounds, and warns. -/
theorem whileTraced_cut
    (h : ∀ steps outcome, Unrolls condition body m steps outcome → n < steps.count .round)
    (warning : String) :
    ∃ m', WhileRounds condition body n m 0 m' ∧
      whileTraced condition body warning n m =
        (stepsToCap n, (m'.print warning, .ok .finished)) := by
  induction n generalizing m with
  | zero => exact ⟨m, .here, whileTraced_zero (holds_of_unrolls h) body warning⟩
  | succ n ih =>
    have hholds := holds_of_unrolls h
    rcases passes_or_stops body m with ⟨m', hround⟩ | hstops
    · have hlater : ∀ steps outcome, Unrolls condition body m' steps outcome →
          n < steps.count .round := by
        intro steps outcome hrest
        have hcount := h _ _ (.next hholds hround hrest)
        rw [List.count_cons_of_ne (by decide), List.count_cons_self] at hcount
        exact Nat.lt_of_succ_lt_succ hcount
      obtain ⟨m'', hrounds, htraced⟩ := ih hlater
      refine ⟨m'', .next hholds hround hrounds, ?_⟩
      rw [whileTraced_succ hholds, hround.tracedRound_eq, htraced]
      rfl
    · -- a loop that ends with its first round does so within every cap
      have hcount := h _ _ (.stopped hholds (hstops fun m => (m, .ok .finished)))
      exact absurd hcount (by simp)

/-- What a loop gives, when it is left. -/
def leaveLoop (outcome : Outcome Completion) : Outcome Completion :=
  ({ outcome.1 with loopDepth := outcome.1.loopDepth - 1 }, outcome.2)

end Run

/-! ## The line of a loop -/

variable {limits : Limits} {room : Nat} {line : Line} {rest : List Line} {condition : Text}

/-- The line of a loop does what the loop does, step by step. -/
theorem runLine_whileTraced (chains : Chains) (m : Machine)
    (hclass : classify line.text = .ok (.whileHolds condition))
    (hblock : blockLength line.indent rest ≠ 0) :
    m.runLine (context limits room rest) chains line rest =
      behindLoop (chains.below line.indent) (blockLength line.indent rest)
        (Run.leaveLoop (Run.whileTraced (fun m => m.condition condition line)
          (fun m => (Point.block room line rest m).run limits) limits.warning limits.loopCap
          { m with loopDepth := m.loopDepth + 1 }).2) := by
  rw [runLine_whileHolds m _ chains hclass hblock, Machine.whileHolds, Run.whileTraced_snd]
  rfl

/-- **A loop and its cap.** Wherever a loop under a condition stands, and whenever it is
entered: where the loop without a cap would end after no more rounds than the cap allows,
the line does just that, and does not warn. Otherwise it goes as many rounds as the cap
allows, looks at the condition once more than that, warns as the last thing it does, and the
run goes on behind the loop. The body runs under the same limits in every round, so the
loops in it have their cap to themselves each time. -/
theorem loop_under_cap (hclass : classify line.text = .ok (.whileHolds condition))
    (hblock : blockLength line.indent rest ≠ 0) (chains : Chains) (m : Machine) :
    let holds (m : Machine) := m.condition condition line
    let body (m : Machine) := (Point.block room line rest m).run limits
    let inside : Machine := { m with loopDepth := m.loopDepth + 1 }
    let traced := Run.whileTraced holds body limits.warning limits.loopCap inside
    let outcome := m.runLine (context limits room rest) chains line rest
    let behind := behindLoop (chains.below line.indent) (blockLength line.indent rest)
    outcome = behind (Run.leaveLoop traced.2) ∧
    (∀ steps ended, Run.Unrolls holds body inside steps ended →
      steps.count .round ≤ limits.loopCap →
      outcome = behind (Run.leaveLoop ended) ∧ traced.1 = steps ∧ .warning ∉ steps) ∧
    ((∀ steps ended, Run.Unrolls holds body inside steps ended →
      limits.loopCap < steps.count .round) →
      ∃ m', Run.WhileRounds holds body limits.loopCap inside 0 m' ∧
        traced.1.count .round = limits.loopCap ∧ traced.1.count .test = limits.loopCap + 1 ∧
        traced.1.count .warning = 1 ∧ traced.1.getLast? = some .warning ∧
        outcome =
          ({ m' with output := m'.output.push limits.warning, loopDepth := m.loopDepth },
            .ok (.goOn (chains.below line.indent) (blockLength line.indent rest)))) := by
  intro holds body inside traced outcome behind
  have houtcome : outcome = behind (Run.leaveLoop traced.2) :=
    runLine_whileTraced chains m hclass hblock
  refine ⟨houtcome, ?_, ?_⟩
  · intro steps ended hunrolls hcap
    have htraced : traced = (steps, ended) := hunrolls.whileTraced_eq hcap limits.warning
    rw [houtcome, htraced]
    exact ⟨rfl, rfl, hunrolls.warning_not_mem⟩
  · intro hlong
    obtain ⟨m', hrounds, htraced⟩ := Run.whileTraced_cut hlong limits.warning
    -- the rounds leave the depth of loops as they found it, so leaving the loop restores it
    have hdepth : m'.loopDepth = m.loopDepth + 1 :=
      (respected_extends.whileRounds hrounds fun _ m' _ _ =>
        Point.run_extends limits (Point.block room line rest m')).loopDepth
    have htraced : traced = (Run.stepsToCap limits.loopCap,
        (m'.print limits.warning, .ok .finished)) := htraced
    rw [houtcome, htraced]
    refine ⟨m', hrounds, Run.count_round_stepsToCap _, Run.count_test_stepsToCap _,
      Run.count_warning_stepsToCap _, Run.getLast?_stepsToCap _, ?_⟩
    show ({ m'.print limits.warning with loopDepth := m'.loopDepth - 1 }, _) = _
    rw [hdepth]
    rfl

/-- Under a cap of one round, a loop that breaks off in that round, and one that would go on
for ever. -/
theorem loop_under_cap_one :
    let limits : Limits := { loopCap := 1 }
    let line : Line := ⟨1, 0, "while True:".toList⟩
    let breaks : List Line := [⟨2, 2, "break".toList⟩]
    let passes : List Line := [⟨2, 2, "pass".toList⟩]
    Machine.runLine {} (context limits 0 breaks) {} line breaks = ({}, .ok (.goOn {} 1)) ∧
      Machine.runLine {} (context limits 0 passes) {} line passes =
        ({ output := #["Warning: loop stopped after 1 iterations (possible infinite loop)"] },
          .ok (.goOn {} 1)) := by
  intro limits line breaks passes
  let inside : Machine := { loopDepth := 1 }
  have hclass : classify line.text = .ok (.whileHolds "True".toList) := rfl
  have hholds : inside.condition "True".toList line = .ok true := by cbv
  constructor
  · have hbreak : (Point.block 0 line breaks inside).run limits = (inside, .ok .broken) :=
      (Point.run_cons {}).trans rfl
    have hstops : Run.Stops ((Point.block 0 line breaks inside).run limits)
        (inside, .ok .finished) := hbreak ▸ .broken
    exact ((loop_under_cap hclass (by decide) {} {}).2.1 _ _ (.stopped hholds hstops)
      (Nat.le_refl 1)).1
  · have hpass : (Point.block 0 line passes inside).run limits = (inside, .ok .finished) := by
      refine (Point.run_cons {}).trans ?_
      exact Point.run_nil {}
    -- the round leaves the machine as it is, so the loop would never end
    have hagain : ∀ m', Run.Passes (fun m => (Point.block 0 line passes m).run limits) inside m' →
        m' = inside := by
      rintro m' (hround | hround)
      · exact (Prod.mk.inj (hround.symm.trans hpass)).1
      · cases hround.symm.trans hpass
    have hlong : ∀ steps ended, ¬Run.Unrolls (fun m => m.condition "True".toList line)
        (fun m => (Point.block 0 line passes m).run limits) inside steps ended := by
      intro steps ended hunrolls
      generalize hstart : inside = start at hunrolls
      induction hunrolls with
      | failed hfails => cases (hstart ▸ hholds).symm.trans hfails
      | ended hends => cases (hstart ▸ hholds).symm.trans hends
      | stopped _ hstops =>
        rw [← hstart, hpass] at hstops
        cases hstops
      | next _ hround _ ih =>
        subst hstart
        exact ih (hagain _ hround).symm
    obtain ⟨m', hrounds, -, -, -, -, houtcome⟩ :=
      (loop_under_cap hclass (by decide) {} {}).2.2 fun steps ended hunrolls =>
        absurd hunrolls (hlong steps ended)
    have hsame : m' = inside := by
      cases hrounds with
      | next _ hround hrest =>
        cases hrest
        exact hagain _ hround
    have hwarning : limits.warning =
        "Warning: loop stopped after 1 iterations (possible infinite loop)" := by decide +kernel
    rw [houtcome, hsame, hwarning]
    rfl

end Offside
