import Mathlib
import Offside.Proofs.Machine.Agreement
import Offside.Proofs.Machine.Keeping

/-!
# Signals stay in their construct

A `break`, a `continue` and a `return` end the run of the lines they stand in with a
signal, and whoever runs these lines has to take it. A call and the run of a whole program
take no notice of it, so that a signal which came to them would drop what follows. The main
statement is that it does not:

> `signals_stay`: loops take what their blocks signal, calls take a return and nothing
> else, and a program that does not fail has come to the end of its lines.

The depth that a machine counts is the number of loops and calls that are open around a
point (`Comes.depth`). A run that ends with a signal has come to a line that gives it
(`Point.run_ends`), and such a line fails where the depth is zero. A call hides the loops of
its caller, so a `break` in a function never stands in a loop outside it.
-/

namespace Offside

open Machine

variable {limits : Limits} {room : Nat} {chains : Chains} {line : Line} {rest : List Line}
  {m : Machine}

/-! ## How deep a point is -/

/-- How many loops the innermost call is in, inside constructs that are opened where it
is in `depth` loops. -/
def openLoops (depth : Nat) : List Construct → Nat
  | [] => depth
  | .loop :: constructs => openLoops (depth + 1) constructs
  | .call :: constructs => openLoops 0 constructs

/-- A run goes on from what was there when it started. -/
theorem Machine.Reaches.extends {chains' : Chains} {lines lines' : List Line} {m' : Machine}
    (h : Reaches limits (entryWithin limits room) chains lines m chains' lines' m') :
    Extends m m' :=
  respected_extends.kept.reaches (fun chains _ _ _ => runLine_extends chains) h

theorem Descends.room_eq {q : Point} (h : Descends limits room line rest m .loop q) :
    q.room = room := by
  cases h <;> rfl

theorem Descends.extends_loop {q : Point} (h : Descends limits room line rest m .loop q) :
    Extends { m with loopDepth := m.loopDepth + 1 } q.machine := by
  cases h with
  | @forEach name _ vs ws v m' _ _ _ hrounds =>
    refine (respected_extends.eachRounds hrounds fun w _ m'' _ => ?_).trans (extends_bind m' name v)
    exact (extends_bind m'' name w).trans (Point.run_extends limits (Point.block room line rest _))
  | whileHolds _ _ hrounds _ =>
    exact respected_extends.whileRounds hrounds fun _ _ _ _ =>
      Point.run_extends limits (Point.block room line rest _)

/-- The depth of a machine tells which constructs are open. -/
theorem Comes.depth {p q : Point} {constructs : List Construct} (h : Comes limits p constructs q) :
    q.machine.loopDepth = openLoops p.machine.loopDepth constructs ∧
      q.machine.frames.length = p.machine.frames.length + constructs.count .call := by
  induction h with
  | along hreach => exact ⟨hreach.extends.loopDepth, hreach.extends.frames⟩
  | @into room chains chains' line lines rest m m' construct constructs q r hreach hdescends _ ih =>
    have hm := hreach.extends
    cases construct with
    | loop =>
      have hq := hdescends.extends_loop
      refine ⟨?_, ?_⟩
      · rw [ih.1, hq.loopDepth, hm.loopDepth, openLoops]
      · rw [ih.2, hq.frames, hm.frames, List.count_cons_of_ne (by decide)]
    | call =>
      cases hdescends with
      | call _ henters =>
        cases henters
        refine ⟨ih.1, ?_⟩
        rw [ih.2, List.length_cons, hm.frames, List.count_cons_self]
        dsimp only
        omega

/-- Every call that is open takes one from the room. -/
theorem Comes.room_add {p q : Point} {constructs : List Construct}
    (h : Comes limits p constructs q) : q.room + constructs.count .call = p.room := by
  induction h with
  | along => rfl
  | @into room chains chains' line lines rest m m' construct constructs q r _ hdescends _ ih =>
    cases construct with
    | loop =>
      rw [List.count_cons_of_ne (by decide), ih, hdescends.room_eq]
    | call =>
      cases hdescends with
      | call _ henters =>
        cases henters with
        | intro hroom => rw [List.count_cons_self, ← Nat.add_assoc, ih, hroom]

/-- In a run under limits, as many calls more may go on as the calls that are going on
leave. -/
theorem Comes.room_eq {lines : List Line} {q : Point} {constructs : List Construct}
    (h : Comes limits (Point.start limits lines m) constructs q) :
    q.room = limits.maxDepth - q.machine.frames.length := by
  have hroom : q.room + constructs.count .call = limits.maxDepth - m.frames.length := h.room_add
  have hframes : q.machine.frames.length = m.frames.length + constructs.count .call := h.depth.2
  omega

/-! ## What a loop takes -/

/-- What is left of the loop at a line, when it has gone some of its rounds. -/
inductive LoopsOn (limits : Limits) (room : Nat) (line : Line) (rest : List Line) : Run → Prop
  | forEach {name : String} {iterable : Text} {vs : List Value}
      (hclass : classify line.text = .ok (.forEach name iterable)) :
      LoopsOn limits room line rest (Run.forEach
        (fun v m => (Point.block room line rest (m.bind name v)).run limits) vs)
  | whileHolds {condition : Text} {n : Nat}
      (hclass : classify line.text = .ok (.whileHolds condition)) :
      LoopsOn limits room line rest (Run.whileHolds (fun m => m.condition condition line)
        (fun m => (Point.block room line rest m).run limits) limits.warning n)

/-- A loop takes what its block signals to it. -/
theorem Descends.loop_line {q : Point} (h : Descends limits room line rest m .loop q)
    (chains : Chains) :
    ∃ again, LoopsOn limits room line rest again ∧
      m.runLine (context limits room rest) chains line rest =
        behindLoop (chains.below line.indent) (blockLength line.indent rest)
          (Run.inLoop (fun _ => Run.afterRound again (q.run limits)) m) := by
  cases h with
  | @forEach name iterable vs ws v m' hclass hblock helements hrounds =>
    refine ⟨_, @LoopsOn.forEach _ _ _ _ _ _ ws hclass, ?_⟩
    rw [runLine_forEach m _ chains hclass hblock, Machine.forEach, helements]
    dsimp only
    rw [Run.inLoop, Run.inLoop, ← Run.forEach_cons, ← hrounds.forEach_eq]
    rfl
  | @whileHolds condition n m' hclass hblock hrounds hholds =>
    refine ⟨_, .whileHolds (n := n) hclass, ?_⟩
    rw [runLine_whileHolds m _ chains hclass hblock, Machine.whileHolds]
    rw [Run.inLoop, Run.inLoop, ← Run.whileHolds_succ hholds, ← hrounds.whileHolds_eq]
    rfl

/-- A return in the block of a loop leaves the lines that the loop stands in. -/
theorem Descends.run_returned {q : Point} {m' : Machine}
    (h : Descends limits room line rest m .loop q) (hrun : q.run limits = (m', .ok .returned)) :
    Point.run limits ⟨room, chains, line :: rest, m⟩ =
      ({ m' with loopDepth := m'.loopDepth - 1 }, .ok .returned) := by
  obtain ⟨again, _, hline⟩ := h.loop_line chains
  rw [Point.run_cons, hline, hrun]
  rfl

/-! ## Where a signal comes from -/

/-- A loop over values returns in one of its rounds. -/
theorem forEach_returned {body : Value → Run} {vs : List Value} {m m' : Machine}
    (h : Run.forEach body vs m = (m', .ok .returned)) :
    ∃ v ws m'', Run.EachRounds body vs m (v :: ws) m'' ∧ body v m'' = (m', .ok .returned) := by
  rcases Run.forEach_ends body vs m with ⟨m'', _, hend⟩ | ⟨v, ws, m'', hrounds, hstops⟩
  · rw [hend] at h
    cases h
  · rw [h] at hstops
    generalize hround : body v m'' = round at hstops
    cases hstops
    exact ⟨v, ws, m'', hrounds, hround⟩

/-- A loop under a condition returns in one of its rounds. -/
theorem whileHolds_returned {condition : Machine → Except Failure Bool} {body : Run}
    {warning : String} {n : Nat} {m m' : Machine}
    (h : Run.whileHolds condition body warning n m = (m', .ok .returned)) :
    ∃ k m'', Run.WhileRounds condition body n m (k + 1) m'' ∧ condition m'' = .ok true ∧
      body m'' = (m', .ok .returned) := by
  rcases Run.whileHolds_ends condition body warning n m with
    ⟨k, m'', _, hend⟩ | ⟨k, m'', hrounds, hholds, hstops⟩
  · rcases hend with ⟨failure, _, hend⟩ | hend | hend <;> rw [hend] at h <;> cases h
  · rw [h] at hstops
    generalize hround : body m'' = round at hstops
    cases hstops
    exact ⟨k, m'', hrounds, hholds, hround⟩

theorem inLoop_returned {run : Run} {m m' : Machine}
    (h : Run.inLoop run m = (m', .ok .returned)) :
    ∃ m'', run { m with loopDepth := m.loopDepth + 1 } = (m'', .ok .returned) ∧
      m' = { m'' with loopDepth := m''.loopDepth - 1 } := by
  rw [Run.inLoop] at h
  cases hrun : run { m with loopDepth := m.loopDepth + 1 } with
  | mk m'' result =>
    rw [hrun] at h
    cases h
    exact ⟨m'', rfl, rfl⟩

/-- A loop leaves the lines only because its block has returned. -/
theorem Machine.Exits.cases_context {statement : Statement} {m' : Machine}
    {completion : Completion} (hclass : classify line.text = .ok statement)
    (h : Exits (context limits room rest) line rest m statement m' completion) :
    (statement = .breakLoop ∧ completion = .broken ∧ m' = m ∧ m.loopDepth ≠ 0) ∨
    (statement = .continueLoop ∧ completion = .continued ∧ m' = m ∧ m.loopDepth ≠ 0) ∨
    (∃ value, statement = .leave value ∧ completion = .returned ∧ m' = m ∧ m.frames ≠ []) ∨
    (completion = .returned ∧ ∃ q m'', Descends limits room line rest m .loop q ∧
      q.run limits = (m'', .ok .returned) ∧
      m' = { m'' with loopDepth := m''.loopDepth - 1 }) := by
  cases h with
  | breaks hdepth => exact .inl ⟨rfl, rfl, rfl, hdepth⟩
  | continues hdepth => exact .inr (.inl ⟨rfl, rfl, rfl, hdepth⟩)
  | returns hframes => exact .inr (.inr (.inl ⟨_, rfl, rfl, rfl, hframes⟩))
  | forEach hblock helements hloop =>
    obtain ⟨m'', hrun, hm'⟩ := inLoop_returned hloop
    obtain ⟨v, ws, start, hrounds, hreturned⟩ := forEach_returned hrun
    exact .inr (.inr (.inr ⟨rfl, _, m'', .forEach hclass hblock helements hrounds, hreturned, hm'⟩))
  | whileHolds hblock hloop =>
    obtain ⟨m'', hrun, hm'⟩ := inLoop_returned hloop
    obtain ⟨k, start, hrounds, hholds, hreturned⟩ := whileHolds_returned hrun
    exact .inr (.inr (.inr ⟨rfl, _, m'', .whileHolds hclass hblock hrounds hholds, hreturned, hm'⟩))

/-- How a run of lines ends: it comes to the end of its lines, or to a line among them
that gives the signal. A `return` may stand in loops, and leaves them all. -/
inductive Ends (limits : Limits) (p : Point) : Machine → Completion → Prop
  | finished {chains : Chains} {m : Machine}
      (hcomes : Comes limits p [] ⟨p.room, chains, [], m⟩) : Ends limits p m .finished
  | broken {chains : Chains} {line : Line} {rest : List Line} {m : Machine}
      (hcomes : Comes limits p [] ⟨p.room, chains, line :: rest, m⟩)
      (hclass : classify line.text = .ok .breakLoop) (hdepth : m.loopDepth ≠ 0) :
      Ends limits p m .broken
  | continued {chains : Chains} {line : Line} {rest : List Line} {m : Machine}
      (hcomes : Comes limits p [] ⟨p.room, chains, line :: rest, m⟩)
      (hclass : classify line.text = .ok .continueLoop) (hdepth : m.loopDepth ≠ 0) :
      Ends limits p m .continued
  | returned {n : Nat} {chains : Chains} {line : Line} {rest : List Line} {m : Machine}
      {value : Option Text}
      (hcomes : Comes limits p (List.replicate n .loop) ⟨p.room, chains, line :: rest, m⟩)
      (hclass : classify line.text = .ok (.leave value)) (hframes : m.frames ≠ []) :
      Ends limits p { m with loopDepth := m.loopDepth - n } .returned

/-- A run ends where it ends behind its first line. -/
theorem Ends.on {chains' : Chains} {m' m'' : Machine} {skipped : Nat} {completion : Completion}
    (hline : m.runLine (context limits room rest) chains line rest =
      (m', .ok (.goOn chains' skipped)))
    (h : Ends limits ⟨room, chains', rest.drop skipped, m'⟩ m'' completion) :
    Ends limits ⟨room, chains, line :: rest, m⟩ m'' completion := by
  cases h with
  | finished hcomes => exact .finished (hcomes.on hline)
  | broken hcomes hclass hdepth => exact .broken (hcomes.on hline) hclass hdepth
  | continued hcomes hclass hdepth => exact .continued (hcomes.on hline) hclass hdepth
  | returned hcomes hclass hframes => exact .returned (hcomes.on hline) hclass hframes

/-- A return inside a loop ends the run around it, which is then in one loop less. -/
theorem Ends.through {q : Point} {m' : Machine}
    (hdescends : Descends limits room line rest m .loop q) (h : Ends limits q m' .returned) :
    Ends limits ⟨room, chains, line :: rest, m⟩
      { m' with loopDepth := m'.loopDepth - 1 } .returned := by
  have hroom := hdescends.room_eq
  cases h with
  | @returned n _ _ _ _ _ hcomes hclass hframes =>
    rw [hroom] at hcomes
    exact .returned (n := n + 1) (hcomes.descends hdescends) hclass hframes

/-- A run that does not fail ends in one of these ways. -/
theorem Point.run_ends {p : Point} {m' : Machine} {completion : Completion}
    (h : p.run limits = (m', .ok completion)) : Ends limits p m' completion := by
  induction p using Point.induction limits generalizing m' completion with
  | nil room chains m =>
    rw [Point.run_nil] at h
    cases h
    exact .finished (.refl _)
  | cons room chains line rest m ihdescends ihon =>
    rw [Point.run_cons] at h
    split at h
    next => cases h
    next m'' completion' hline =>
      cases h
      obtain ⟨statement, hclass, hexits⟩ := runLine_exits hline
      rcases hexits.cases_context hclass with ⟨rfl, rfl, rfl, hdepth⟩ | ⟨rfl, rfl, rfl, hdepth⟩ |
        ⟨value, rfl, rfl, rfl, hframes⟩ | ⟨rfl, q, m'', hdescends, hrun, rfl⟩
      · exact .broken (.refl _) hclass hdepth
      · exact .continued (.refl _) hclass hdepth
      · exact .returned (n := 0) (.refl _) hclass hframes
      -- A `break` in the block has been taken by the loop: only a return comes through.
      · exact (ihdescends .loop q hdescends hrun).through hdescends
    next m'' chains' skipped hline => exact (ihon m'' chains' skipped hline h).on hline

/-- A run that has entered nothing is the run from where it has come to. -/
theorem Comes.run_eq {p q : Point} (h : Comes limits p [] q) : p.run limits = q.run limits := by
  cases h with
  | along hreach => exact hreach.runLines_eq

/-- A return inside any number of loops leaves all of them. -/
theorem Comes.run_returned {p q : Point} {n : Nat} {m' : Machine}
    (h : Comes limits p (List.replicate n .loop) q) (hrun : q.run limits = (m', .ok .returned)) :
    p.run limits = ({ m' with loopDepth := m'.loopDepth - n }, .ok .returned) := by
  induction n generalizing p with
  | zero => rw [h.run_eq, hrun]; rfl
  | succ n ih =>
    rw [List.replicate_succ] at h
    cases h with
    | into hreach hdescends hcomes =>
      exact hreach.runLines_eq.trans (hdescends.run_returned (ih hcomes))

/-- A run that comes to the end of its lines or to a signal ends there. -/
theorem Ends.run_eq {p : Point} {m' : Machine} {completion : Completion}
    (h : Ends limits p m' completion) : p.run limits = (m', .ok completion) := by
  cases h with
  | finished hcomes => rw [hcomes.run_eq, Point.run_nil]
  | broken hcomes hclass hdepth =>
    rw [hcomes.run_eq, Point.run_cons, runLine_of_classify _ _ _ _ hclass (by simp) rfl, perform,
      if_neg hdepth]
  | continued hcomes hclass hdepth =>
    rw [hcomes.run_eq, Point.run_cons, runLine_of_classify _ _ _ _ hclass (by simp) rfl, perform,
      if_neg hdepth]
  | returned hcomes hclass hframes =>
    refine hcomes.run_returned ?_
    rw [Point.run_cons, runLine_of_classify _ _ _ _ hclass (by simp) rfl, perform,
      if_neg (by simpa using hframes)]

/-- A loop is signalled only inside one, and a return only inside a call. -/
theorem Ends.depth {p : Point} {m' : Machine} {completion : Completion}
    (h : Ends limits p m' completion) :
    (p.machine.loopDepth = 0 → completion ≠ .broken ∧ completion ≠ .continued) ∧
      (p.machine.frames = [] → completion ≠ .returned) := by
  cases h with
  | finished => exact ⟨fun _ => ⟨nofun, nofun⟩, fun _ => nofun⟩
  | broken hcomes _ hdepth =>
    exact ⟨fun hzero => absurd (hcomes.depth.1.trans hzero) hdepth, fun _ => nofun⟩
  | continued hcomes _ hdepth =>
    exact ⟨fun hzero => absurd (hcomes.depth.1.trans hzero) hdepth, fun _ => nofun⟩
  | @returned n _ _ _ m _ hcomes _ hframes =>
    refine ⟨fun _ => ⟨nofun, nofun⟩, fun hnone _ => hframes ?_⟩
    -- Only loops have been opened on the way, so there are as many frames as at the start.
    have hlength := hcomes.depth.2
    rw [hnone, List.count_eq_zero_of_not_mem (by simp)] at hlength
    exact List.eq_nil_of_length_eq_zero hlength

/-- A call takes a return, and nothing else is signalled to it. -/
theorem Descends.call_line {q : Point} {m' : Machine} {completion : Completion}
    (h : Descends limits room line rest m .call q) (chains : Chains)
    (hrun : q.run limits = (m', .ok completion)) :
    (completion = .finished ∨ completion = .returned) ∧
      m.runLine (context limits room rest) chains line rest =
        ({ m' with frames := m'.frames.tail, loopDepth := m.loopDepth },
          .ok (.goOn (chains.below line.indent) 0)) := by
  cases h with
  | @call name arguments _ hclass henters =>
    constructor
    · have hdepth : q.machine.loopDepth = 0 := by cases henters; rfl
      obtain ⟨hbroken, hcontinued⟩ := (Point.run_ends hrun).depth.1 hdepth
      cases completion with
      | finished => exact .inl rfl
      | returned => exact .inr rfl
      | broken => exact absurd rfl hbroken
      | continued => exact absurd rfl hcontinued
    · rw [runLine_of_classify m _ chains rest hclass (by simp) rfl, perform, context,
        henters.call_eq, hrun]
      rfl

/-- A program that succeeds ends with a signal or at the end of its lines. -/
theorem interpret_eq_ok {source : Text} {m m' : Machine}
    (h : interpret limits source m = (m', .ok ())) :
    ∃ completion, runUnder limits (sourceLines source) m = (m', .ok completion) := by
  rw [interpret] at h
  split at h
  next => cases h
  next completion hrun => cases h; exact ⟨completion, hrun⟩

/-- A program that does not fail has come to the end of its lines. -/
theorem interpret_comes {source : Text} {m m' : Machine} (hframes : m.frames = [])
    (hdepth : m.loopDepth = 0) (h : interpret limits source m = (m', .ok ())) :
    ∃ chains, Comes limits (Point.start limits (sourceLines source) m) []
      ⟨limits.maxDepth - m.frames.length, chains, [], m'⟩ := by
  obtain ⟨completion, hlines⟩ := interpret_eq_ok h
  rw [runUnder_eq] at hlines
  have hends := Point.run_ends hlines
  obtain ⟨hloop, hreturn⟩ := hends.depth
  cases hends with
  | @finished chains _ hcomes => exact ⟨chains, hcomes⟩
  | broken => exact absurd rfl (hloop hdepth).1
  | continued => exact absurd rfl (hloop hdepth).2
  | returned => exact absurd rfl (hreturn hframes)

/-- **Signals stay in their construct.** A run of lines signals a loop only if it starts
inside one, and a return only inside a call; what a machine counts at a point is how many
loops of the innermost call, and how many calls, are open there. A run ends with a signal
where it comes to a line that gives it, and for a `break` or a `continue` no loop has been
opened on the way. The loop whose block ends so takes the signal: it stops, or goes on with
the rounds that are left, and only a return goes through it. A call takes a return and is
never signalled anything else. So a program that does not fail has come to the end of its
lines. -/
theorem signals_stay (limits : Limits) :
    (∀ lines m m' completion, runUnder limits lines m = (m', .ok completion) →
      (m.loopDepth = 0 → completion ≠ .broken ∧ completion ≠ .continued) ∧
      (m.frames = [] → completion ≠ .returned)) ∧
    (∀ p constructs q, Comes limits p constructs q →
      q.machine.loopDepth = openLoops p.machine.loopDepth constructs ∧
      q.machine.frames.length = p.machine.frames.length + constructs.count .call) ∧
    (∀ p m' completion, p.run limits = (m', .ok completion) ↔ Ends limits p m' completion) ∧
    (∀ room chains line rest m q, Descends limits room line rest m .loop q →
      ∃ again, LoopsOn limits room line rest again ∧
        m.runLine (context limits room rest) chains line rest =
          behindLoop (chains.below line.indent) (blockLength line.indent rest)
            (Run.inLoop (fun _ => Run.afterRound again (q.run limits)) m)) ∧
    (∀ room chains line rest m q m' completion, Descends limits room line rest m .call q →
      q.run limits = (m', .ok completion) →
      (completion = .finished ∨ completion = .returned) ∧
      m.runLine (context limits room rest) chains line rest =
        ({ m' with frames := m'.frames.tail, loopDepth := m.loopDepth },
          .ok (.goOn (chains.below line.indent) 0))) ∧
    ∀ source m m', m.frames = [] → m.loopDepth = 0 →
      interpret limits source m = (m', .ok ()) →
      ∃ chains, Comes limits (Point.start limits (sourceLines source) m) []
        ⟨limits.maxDepth, chains, [], m'⟩ := by
  refine ⟨?_, fun p constructs q => Comes.depth,
    fun p m' completion => ⟨Point.run_ends, Ends.run_eq⟩,
    fun room chains line rest m q hdescends => hdescends.loop_line chains,
    fun room chains line rest m q m' completion hdescends => hdescends.call_line chains, ?_⟩
  · intro lines m m' completion hrun
    rw [runUnder_eq] at hrun
    exact (Point.run_ends hrun).depth
  · intro source m m' hframes hdepth hrun
    have hroom : limits.maxDepth - m.frames.length = limits.maxDepth := by rw [hframes]; rfl
    obtain ⟨chains, hcomes⟩ := interpret_comes hframes hdepth hrun
    exact ⟨chains, hroom ▸ hcomes⟩

/-- A `break` in the block of a loop, inside a call: the block ends with the signal, and the
line of the loop takes it. -/
theorem signals_stay_break :
    let line : Line := ⟨1, 0, "for c in 'a':".toList⟩
    let rest : List Line := [⟨2, 2, "break".toList⟩]
    let m : Machine := { frames := [{}] }
    let q := Point.block 0 line rest (Machine.bind { m with loopDepth := 1 } "c" (.text "a"))
    Descends {} 0 line rest m .loop q ∧ q.run {} = (q.machine, .ok .broken) ∧
      ∃ again, LoopsOn {} 0 line rest again ∧
        m.runLine (context {} 0 rest) {} line rest =
          behindLoop (Chains.below {} line.indent) (blockLength line.indent rest)
            (Run.inLoop (fun _ => Run.afterRound again (q.run {})) m) := by
  intro line rest m q
  have hclass : classify line.text = .ok (.forEach "c" "'a'".toList) := rfl
  have hblock : blockLength line.indent rest ≠ 0 := by decide
  have helements : m.elements "'a'".toList = .ok [.text "a"] := by cbv
  have hbreak : classify "break".toList = .ok .breakLoop := rfl
  have hdescends : Descends {} 0 line rest m .loop q := .forEach hclass hblock helements .here
  have hrun : q.run {} = (q.machine, .ok .broken) :=
    ((signals_stay {}).2.2.1 q q.machine .broken).mpr (.broken (.refl q) hbreak (by decide))
  exact ⟨hdescends, hrun, (signals_stay {}).2.2.2.1 0 {} line rest m q hdescends⟩

end Offside
