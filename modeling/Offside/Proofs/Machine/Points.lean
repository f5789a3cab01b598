import Offside.Proofs.Machine.Branching

/-!
# The points of a run

A run of lines is nested: inside the line of a loop its block is run, round after
round, and inside the line of a call the body of a function. A *point* is a place
anywhere in there, and `Comes` relates the point where a run starts to every point
that it comes to, with the loops and calls that are open there. One line comes to
others by `Descends`, and whatever is shown of runs goes along this nesting:

> `Point.induction`: what follows for a point from the points that its first line
> descends to, and from the point behind that line, holds of all points.

The rounds of a loop are relations of their own (`EachRounds` and `WhileRounds`), so
that a round is known together with how the loop came to it. `forEach_ends` and
`whileHolds_ends` say how a loop ends after its rounds, and `Enters.call_eq` what a call
gives when the body of the function has been run.
-/

namespace Offside

/-! ## The rounds of a loop -/

namespace Run

/-- A round is gone through, so that its loop goes round again. -/
def Passes (round : Run) (m m' : Machine) : Prop :=
  round m = (m', .ok .finished) ∨ round m = (m', .ok .continued)

/-- What a loop makes of a round, where `again` is the rest of its rounds. -/
def afterRound (again : Run) : Outcome Completion → Outcome Completion
  | (m, .error failure) => (m, .error failure)
  | (m, .ok .broken) => (m, .ok .finished)
  | (m, .ok .returned) => (m, .ok .returned)
  | (m, .ok .finished) => again m
  | (m, .ok .continued) => again m

/-- A loop over values comes to the values that are left, at a machine of its own. -/
inductive EachRounds (body : Value → Run) : List Value → Machine → List Value → Machine → Prop
  | here {vs : List Value} {m : Machine} : EachRounds body vs m vs m
  | next {v : Value} {vs ws : List Value} {m m' m'' : Machine} (hround : Passes (body v) m m')
      (hrest : EachRounds body vs m' ws m'') : EachRounds body (v :: vs) m ws m''

/-- A loop under a condition comes to the rounds that it may still go, at a machine
of its own. -/
inductive WhileRounds (condition : Machine → Except Failure Bool) (body : Run) :
    Nat → Machine → Nat → Machine → Prop
  | here {n : Nat} {m : Machine} : WhileRounds condition body n m n m
  | next {n k : Nat} {m m' m'' : Machine} (hholds : condition m = .ok true)
      (hround : Passes body m m') (hrest : WhileRounds condition body n m' k m'') :
      WhileRounds condition body (n + 1) m k m''

/-- Behind a round that ends as rounds do the loop goes on. -/
theorem Passes.afterRound_eq {round : Run} {m m' : Machine} (h : Passes round m m')
    (again : Run) : afterRound again (round m) = again m' := by
  rcases h with h | h <;> rw [h] <;> rfl

/-- A round that is not gone through decides what its loop gives. -/
inductive Stops : Outcome Completion → Outcome Completion → Prop
  | failed {m : Machine} {failure : Failure} : Stops (m, .error failure) (m, .error failure)
  | broken {m : Machine} : Stops (m, .ok .broken) (m, .ok .finished)
  | returned {m : Machine} : Stops (m, .ok .returned) (m, .ok .returned)

/-- A round that ends its loop leaves the machine of the loop. -/
theorem Stops.machine_eq {round loop : Outcome Completion} (h : Stops round loop) :
    loop.1 = round.1 := by
  cases h <;> rfl

/-- A round that ends as rounds do does not end its loop. -/
theorem Passes.not_stops {round : Run} {m m' : Machine} {loop : Outcome Completion}
    (h : Passes round m m') : ¬Stops (round m) loop := by
  rcases h with h | h <;> rw [h] <;> exact nofun

/-- A round ends as rounds do, or it ends its loop. -/
theorem passes_or_stops (round : Run) (m : Machine) :
    (∃ m', Passes round m m') ∨ ∀ again, Stops (round m) (afterRound again (round m)) := by
  unfold Passes
  obtain ⟨m', failure | completion⟩ := round m
  · exact .inr fun _ => .failed
  · cases completion with
    | finished => exact .inl ⟨m', .inl rfl⟩
    | continued => exact .inl ⟨m', .inr rfl⟩
    | broken => exact .inr fun _ => .broken
    | returned => exact .inr fun _ => .returned

/-- A loop over values runs its body for the first of them, and then the rest of the loop if
the round lets it go on. -/
theorem forEach_cons (body : Value → Run) (v : Value) (vs : List Value) (m : Machine) :
    forEach body (v :: vs) m = afterRound (forEach body vs) (body v m) := by
  rw [forEach]
  obtain ⟨m', failure | completion⟩ := body v m
  · rfl
  · cases completion <;> rfl

/-- A loop whose condition holds runs its body, and then the loop with one round less if the
round lets it go on. -/
theorem whileHolds_succ {condition : Machine → Except Failure Bool} {m : Machine}
    (hholds : condition m = .ok true) (body : Run) (warning : String) (n : Nat) :
    whileHolds condition body warning (n + 1) m =
      afterRound (whileHolds condition body warning n) (body m) := by
  rw [whileHolds, hholds]
  dsimp only
  obtain ⟨m', failure | completion⟩ := body m
  · rfl
  · cases completion <;> rfl

/-- Behind its first rounds a loop is the loop over the values that are left. -/
theorem EachRounds.forEach_eq {body : Value → Run} {vs ws : List Value} {m m' : Machine}
    (h : EachRounds body vs m ws m') : forEach body vs m = forEach body ws m' := by
  induction h with
  | here => rfl
  | next hround _ ih => rw [forEach_cons, hround.afterRound_eq, ih]

/-- Behind its first rounds a loop is the loop with the rounds that are left. -/
theorem WhileRounds.whileHolds_eq {condition : Machine → Except Failure Bool} {body : Run}
    {n k : Nat} {m m' : Machine} (h : WhileRounds condition body n m k m') (warning : String) :
    whileHolds condition body warning n m = whileHolds condition body warning k m' := by
  induction h with
  | here => rfl
  | next hholds hround _ ih => rw [whileHolds_succ hholds, hround.afterRound_eq, ih]

/-- How a loop over values ends: behind its last value, or with a round. -/
theorem forEach_ends (body : Value → Run) (vs : List Value) (m : Machine) :
    (∃ m', EachRounds body vs m [] m' ∧ forEach body vs m = (m', .ok .finished)) ∨
      ∃ v ws m', EachRounds body vs m (v :: ws) m' ∧ Stops (body v m') (forEach body vs m) := by
  induction vs generalizing m with
  | nil => exact .inl ⟨m, .here, rfl⟩
  | cons v vs ih =>
    rw [forEach_cons]
    rcases passes_or_stops (body v) m with ⟨m', hround⟩ | hstops
    · rw [hround.afterRound_eq]
      rcases ih m' with ⟨m'', hrounds, hend⟩ | ⟨w, ws, m'', hrounds, hend⟩
      · exact .inl ⟨m'', .next hround hrounds, hend⟩
      · exact .inr ⟨w, ws, m'', .next hround hrounds, hend⟩
    · exact .inr ⟨v, vs, m, .here, hstops _⟩

/-- How a loop under a condition ends: where the condition fails or does not hold,
where it may not go round any more, or with a round. -/
theorem whileHolds_ends (condition : Machine → Except Failure Bool) (body : Run)
    (warning : String) (n : Nat) (m : Machine) :
    (∃ k m', WhileRounds condition body n m k m' ∧
      ((∃ failure, condition m' = .error failure ∧
          whileHolds condition body warning n m = (m', .error failure)) ∨
        whileHolds condition body warning n m = (m', .ok .finished) ∨
        whileHolds condition body warning n m = (m'.print warning, .ok .finished))) ∨
      ∃ k m', WhileRounds condition body n m (k + 1) m' ∧ condition m' = .ok true ∧
        Stops (body m') (whileHolds condition body warning n m) := by
  induction n generalizing m with
  | zero =>
    -- The condition is still looked at when no rounds are left: it decides on the warning.
    refine .inl ⟨0, m, .here, ?_⟩
    rw [whileHolds]
    split
    next failure hcondition => exact .inl ⟨failure, hcondition, rfl⟩
    next => exact .inr (.inl rfl)
    next => exact .inr (.inr rfl)
  | succ n ih =>
    cases hcondition : condition m with
    | error failure =>
      refine .inl ⟨n + 1, m, .here, .inl ⟨failure, hcondition, ?_⟩⟩
      rw [whileHolds, hcondition]
    | ok holds =>
      cases holds with
      | false =>
        refine .inl ⟨n + 1, m, .here, .inr (.inl ?_)⟩
        rw [whileHolds, hcondition]
      | true =>
        rw [whileHolds_succ hcondition]
        rcases passes_or_stops body m with ⟨m', hround⟩ | hstops
        · rw [hround.afterRound_eq]
          rcases ih m' with ⟨k, m'', hrounds, hend⟩ | ⟨k, m'', hrounds, hholds, hend⟩
          · exact .inl ⟨k, m'', .next hcondition hround hrounds, hend⟩
          · exact .inr ⟨k, m'', .next hcondition hround hrounds, hholds, hend⟩
        · exact .inr ⟨n, m, .here, hcondition, hstops _⟩

end Run

/-! ## Points -/

/-- What runs lines of its own inside a run of lines. -/
inductive Construct where
  | loop
  | call
  deriving Repr, DecidableEq

/-- A place in a run: how many calls more may go on, the open chains, the lines that
are left, and the machine. -/
structure Point where
  room : Nat
  chains : Chains
  lines : List Line
  machine : Machine

namespace Machine

/-- How functions are entered with room for some calls more. -/
def entryWithin (limits : Limits) : Nat → Entry
  | 0 => none
  | room + 1 => some (runWithin limits room)

theorem runWithin_eq (limits : Limits) (room : Nat) (lines : List Line) :
    runWithin limits room lines = runLines limits (entryWithin limits room) {} lines := by
  cases room <;> rfl

/-- What a line is run with in front of other lines. -/
def context (limits : Limits) (room : Nat) (rest : List Line) : Context :=
  ⟨limits, entryWithin limits room,
    fun length => runLines limits (entryWithin limits room) {} (rest.take length)⟩

end Machine

open Machine

/-- The run from a point to the end of its lines. -/
def Point.run (limits : Limits) (p : Point) : Outcome Completion :=
  runLines limits (entryWithin limits p.room) p.chains p.lines p.machine

/-- Where a run of lines under limits starts. -/
def Point.start (limits : Limits) (lines : List Line) (m : Machine) : Point :=
  ⟨limits.maxDepth - m.frames.length, {}, lines, m⟩

/-- A program is run from the point that it starts at. -/
theorem runUnder_eq (limits : Limits) (lines : List Line) (m : Machine) :
    runUnder limits lines m = (Point.start limits lines m).run limits := by
  rw [runUnder, runWithin_eq]
  rfl

/-- The block under a line, before a round of a loop at a machine. -/
def Point.block (room : Nat) (line : Line) (rest : List Line) (m : Machine) : Point :=
  ⟨room, {}, rest.take (blockLength line.indent rest), m⟩

/-- A call that is made with room for some calls more enters the body of a function. -/
inductive Enters (room : Nat) (m : Machine) (name : String) (arguments : Text) : Point → Prop
  | intro {f : Function} {left : Nat} (hroom : room = left + 1)
      (hfunction : m.functions.get? name = some f)
      (harguments : (m.arguments arguments).length ≤ f.parameters.length) :
      Enters room m name arguments ⟨left, {}, f.body,
        { m with frames := f.frame (m.arguments arguments) :: m.frames, loopDepth := 0 }⟩

/-- What a call gives, when the body that it entered has been run. -/
def Machine.behindCall (m : Machine) : Outcome Completion → Outcome Unit
  | (m', .error failure) =>
    ({ m' with frames := m'.frames.tail, loopDepth := m.loopDepth }, .error failure)
  | (m', .ok _) => ({ m' with frames := m'.frames.tail, loopDepth := m.loopDepth }, .ok ())

/-- A call that enters a body is the run of the body, and what the machine is behind it. -/
theorem Enters.call_eq {limits : Limits} {room : Nat} {m : Machine} {name : String}
    {arguments : Text} {q : Point} (h : Enters room m name arguments q) (number : Nat) :
    m.call (entryWithin limits room) name arguments number = m.behindCall (q.run limits) := by
  cases h with
  | @intro f left hroom hfunction harguments =>
    subst hroom
    rw [call, hfunction]
    dsimp only
    unfold enter
    rw [if_neg (Nat.not_lt.mpr harguments), entryWithin]
    dsimp only
    rw [Run.inCall, runWithin_eq, Point.run]
    dsimp only
    cases hrun : runLines limits (entryWithin limits left) {} f.body
      { m with frames := f.frame (m.arguments arguments) :: m.frames, loopDepth := 0 } with
    | mk m' result => cases result <;> rfl

/-- A call that enters no body changes nothing. -/
theorem call_of_not_enters {limits : Limits} {room : Nat} {m : Machine} {name : String}
    {arguments : Text} (h : ∀ q, ¬Enters room m name arguments q) (number : Nat) :
    (m.call (entryWithin limits room) name arguments number).1 = m := by
  rw [call]
  cases hfunction : m.functions.get? name with
  | none =>
    dsimp only
    rw [callBuiltin]
    cases Builtin.ofName? name with
    | none => rfl
    | some b =>
      dsimp only
      cases b.call (m.arguments arguments) <;> rfl
  | some f =>
    dsimp only
    unfold enter
    split
    next => rfl
    next harguments =>
      cases room with
      | zero => rfl
      | succ left => exact absurd (.intro rfl hfunction (Nat.not_lt.mp harguments)) (h _)

/-! ## How a run comes to a point -/

/-- A line comes to running lines of its own: the block under it, in one of the rounds
of a loop, or the body of a function. -/
inductive Descends (limits : Limits) (room : Nat) (line : Line) (rest : List Line) (m : Machine) :
    Construct → Point → Prop
  | forEach {name : String} {iterable : Text} {vs ws : List Value} {v : Value} {m' : Machine}
      (hclass : classify line.text = .ok (.forEach name iterable))
      (hblock : blockLength line.indent rest ≠ 0) (helements : m.elements iterable = .ok vs)
      (hrounds : Run.EachRounds
        (fun v m => (Point.block room line rest (m.bind name v)).run limits) vs
        { m with loopDepth := m.loopDepth + 1 } (v :: ws) m') :
      Descends limits room line rest m .loop (Point.block room line rest (m'.bind name v))
  | whileHolds {condition : Text} {n : Nat} {m' : Machine}
      (hclass : classify line.text = .ok (.whileHolds condition))
      (hblock : blockLength line.indent rest ≠ 0)
      (hrounds : Run.WhileRounds (fun m => m.condition condition line)
        (fun m => (Point.block room line rest m).run limits) limits.loopCap
        { m with loopDepth := m.loopDepth + 1 } (n + 1) m')
      (hholds : m'.condition condition line = .ok true) :
      Descends limits room line rest m .loop (Point.block room line rest m')
  | call {name : String} {arguments : Text} {q : Point}
      (hclass : classify line.text = .ok (.call name arguments))
      (henters : Enters room m name arguments q) :
      Descends limits room line rest m .call q

/-- A run comes from one point to another, inside the constructs that it has opened on
the way, the outermost first. -/
inductive Comes (limits : Limits) : Point → List Construct → Point → Prop
  | along {room : Nat} {chains chains' : Chains} {lines lines' : List Line} {m m' : Machine}
      (hreach : Reaches limits (entryWithin limits room) chains lines m chains' lines' m') :
      Comes limits ⟨room, chains, lines, m⟩ [] ⟨room, chains', lines', m'⟩
  | into {room : Nat} {chains chains' : Chains} {line : Line} {lines rest : List Line}
      {m m' : Machine} {construct : Construct} {constructs : List Construct} {q r : Point}
      (hreach : Reaches limits (entryWithin limits room) chains lines m chains' (line :: rest) m')
      (hdescends : Descends limits room line rest m' construct q)
      (hcomes : Comes limits q constructs r) :
      Comes limits ⟨room, chains, lines, m⟩ (construct :: constructs) r

variable {limits : Limits} {room : Nat} {line : Line} {rest : List Line} {m : Machine}

theorem Comes.refl (p : Point) : Comes limits p [] p :=
  .along .here

/-- A run comes to whatever it comes to behind its first line. -/
theorem Comes.on {chains chains' : Chains} {m' : Machine} {skipped : Nat}
    {constructs : List Construct} {q : Point}
    (hline : m.runLine (context limits room rest) chains line rest =
      (m', .ok (.goOn chains' skipped)))
    (h : Comes limits ⟨room, chains', rest.drop skipped, m'⟩ constructs q) :
    Comes limits ⟨room, chains, line :: rest, m⟩ constructs q := by
  cases h with
  | along hreach => exact .along (.on hline hreach)
  | into hreach hdescends hcomes => exact .into (.on hline hreach) hdescends hcomes

/-- A run comes to whatever the runs inside its first line come to. -/
theorem Comes.descends {chains : Chains} {construct : Construct} {constructs : List Construct}
    {q r : Point} (hdescends : Descends limits room line rest m construct q)
    (h : Comes limits q constructs r) :
    Comes limits ⟨room, chains, line :: rest, m⟩ (construct :: constructs) r :=
  .into .here hdescends h

/-- Where a line descends to there is less room, or there are fewer lines. -/
theorem Descends.lt {construct : Construct} {q : Point}
    (h : Descends limits room line rest m construct q) :
    q.room < room ∨ q.room = room ∧ q.lines.length < (line :: rest).length := by
  have hblock : (rest.take (blockLength line.indent rest)).length < (line :: rest).length := by
    rw [List.length_take, List.length_cons]
    omega
  cases h with
  | forEach => exact .inr ⟨rfl, hblock⟩
  | whileHolds => exact .inr ⟨rfl, hblock⟩
  | call _ henters =>
    cases henters with
    | intro hroom => exact .inl (hroom ▸ Nat.lt_succ_self _)

/-- **Induction along a run.** The first line of a point may descend to others, and what
stands behind it comes next. -/
theorem Point.induction (limits : Limits) {motive : Point → Prop}
    (nil : ∀ room chains m, motive ⟨room, chains, [], m⟩)
    (cons : ∀ room chains line rest m,
      (∀ construct q, Descends limits room line rest m construct q → motive q) →
      (∀ m' chains' skipped, m.runLine (context limits room rest) chains line rest =
        (m', .ok (.goOn chains' skipped)) → motive ⟨room, chains', rest.drop skipped, m'⟩) →
      motive ⟨room, chains, line :: rest, m⟩) (p : Point) : motive p :=
  match p with
  | ⟨room, chains, [], m⟩ => nil room chains m
  | ⟨room, chains, line :: rest, m⟩ =>
    -- A body that is entered may have more lines than are left here, but it has less room.
    cons room chains line rest m
      (fun _ q hdescends =>
        have := hdescends.lt
        Point.induction limits nil cons q)
      (fun m' chains' skipped _ =>
        Point.induction limits nil cons ⟨room, chains', rest.drop skipped, m'⟩)
termination_by (p.room, p.lines.length)
decreasing_by
  · rw [Prod.lex_def]
    exact this
  · rw [Prod.lex_def]
    refine .inr ⟨rfl, ?_⟩
    rw [List.length_drop, List.length_cons]
    omega

theorem Point.run_nil (chains : Chains) :
    Point.run limits ⟨room, chains, [], m⟩ = (m, .ok .finished) := by
  rw [Point.run, runLines]

/-- What a run makes of its first line. -/
theorem Point.run_cons (chains : Chains) :
    Point.run limits ⟨room, chains, line :: rest, m⟩ =
      match m.runLine (context limits room rest) chains line rest with
      | (m', .error failure) => (m', .error failure)
      | (m', .ok (.exit completion)) => (m', .ok completion)
      | (m', .ok (.goOn chains' skipped)) =>
        Point.run limits ⟨room, chains', rest.drop skipped, m'⟩ := by
  rw [Point.run, runLines]
  rfl

end Offside
