import Mathlib.Logic.Relation
import Mathlib.Order.WellFounded
import Offside.Proofs.Machine.Agreement
import Offside.Proofs.Machine.Keeping

/-!
# Every run ends

To run lines from one place is to run the first of them, and whatever that leads to: the
block of a loop in each of its rounds, the body of a function, and the lines where it goes
on. Nothing here counts down: a call is allowed as long as the limits leave room for it
(`Place.unfold`). Still there is one way only to run lines so.

> `runs_end`: this recursion has exactly one solution. From one place to the next a call
> is one deeper, or as many calls are going on and fewer lines are left.

Since a call may run a body with more lines than are left, and one that is defined on the
way, the lines alone do not tell that a run ends, and since most lines call nothing, nor
do the calls: it is the two together, the calls first.
-/

namespace Offside

open Machine

/-! ## The rounds of a loop, counted -/

namespace Run

/-- The rounds that a loop over values goes, each with its value and the machine that it
starts at. -/
def eachStarts (body : Value → Run) : List Value → Machine → List (Value × Machine)
  | [], _ => []
  | v :: vs, m =>
    (v, m) ::
      match body v m with
      | (m', .ok .finished) => eachStarts body vs m'
      | (m', .ok .continued) => eachStarts body vs m'
      | (_, _) => []

/-- The rounds that a loop under a condition goes, each with the machine that it starts at. -/
def whileStarts (condition : Machine → Except Failure Bool) (body : Run) :
    Nat → Machine → List Machine
  | 0, _ => []
  | n + 1, m =>
    match condition m with
    | .ok true =>
      m ::
        match body m with
        | (m', .ok .finished) => whileStarts condition body n m'
        | (m', .ok .continued) => whileStarts condition body n m'
        | (_, _) => []
    | _ => []

section Starts

variable {body : Value → Run} {v : Value} {m m' : Machine} {outcome : Outcome Completion}

/-- A round that ends as rounds do is followed by the rounds for the values behind it. -/
theorem Passes.eachStarts_eq (h : Passes (body v) m m') (vs : List Value) :
    eachStarts body (v :: vs) m = (v, m) :: eachStarts body vs m' := by
  rw [eachStarts]
  rcases h with h | h <;> rw [h]

/-- A round that ends the loop is the last one. -/
theorem Stops.eachStarts_eq (h : Stops (body v m) outcome) (vs : List Value) :
    eachStarts body (v :: vs) m = [(v, m)] := by
  rw [eachStarts]
  generalize body v m = round at h
  cases h <;> rfl

variable {condition : Machine → Except Failure Bool} {body : Run}

/-- A loop whose condition does not hold goes no round. -/
theorem whileStarts_of_ne_true (h : condition m ≠ .ok true) (body : Run) (n : Nat) :
    whileStarts condition body n m = [] := by
  cases n with
  | zero => rfl
  | succ n =>
    rw [whileStarts]
    split
    next hholds => exact absurd hholds h
    next => rfl

/-- A round that ends as rounds do is followed by those of the loop with one round less. -/
theorem Passes.whileStarts_eq (h : Passes body m m') (hholds : condition m = .ok true) (n : Nat) :
    whileStarts condition body (n + 1) m = m :: whileStarts condition body n m' := by
  rw [whileStarts, hholds]
  rcases h with h | h <;> rw [h]

theorem Stops.whileStarts_eq (h : Stops (body m) outcome) (hholds : condition m = .ok true)
    (n : Nat) : whileStarts condition body (n + 1) m = [m] := by
  rw [whileStarts, hholds]
  generalize body m = round at h
  cases h <;> rfl

end Starts

/-- A loop over values goes no more rounds than there are values. -/
theorem length_eachStarts_le (body : Value → Run) (vs : List Value) (m : Machine) :
    (eachStarts body vs m).length ≤ vs.length := by
  induction vs generalizing m with
  | nil => exact Nat.le_refl 0
  | cons v vs ih =>
    rcases passes_or_stops (body v) m with ⟨m', hround⟩ | hstops
    · rw [hround.eachStarts_eq]
      exact Nat.succ_le_succ (ih m')
    · rw [(hstops (body v)).eachStarts_eq]
      exact Nat.succ_le_succ (Nat.zero_le _)

/-- A loop under a condition goes no more rounds than its cap. -/
theorem length_whileStarts_le (condition : Machine → Except Failure Bool) (body : Run) (n : Nat)
    (m : Machine) : (whileStarts condition body n m).length ≤ n := by
  induction n generalizing m with
  | zero => exact Nat.le_refl 0
  | succ n ih =>
    by_cases hholds : condition m = .ok true
    · rcases passes_or_stops body m with ⟨m', hround⟩ | hstops
      · rw [hround.whileStarts_eq hholds]
        exact Nat.succ_le_succ (ih m')
      · rw [(hstops body).whileStarts_eq hholds]
        exact Nat.succ_le_succ (Nat.zero_le _)
    · rw [whileStarts_of_ne_true hholds]
      exact Nat.zero_le _

/-- A round starts at a machine exactly if the rounds before it lead there. -/
theorem mem_eachStarts_iff {body : Value → Run} {vs : List Value} {m m' : Machine} {v : Value} :
    (v, m') ∈ eachStarts body vs m ↔ ∃ ws, EachRounds body vs m (v :: ws) m' := by
  constructor
  · intro h
    induction vs generalizing m with
    | nil => cases h
    | cons w vs ih =>
      rcases passes_or_stops (body w) m with ⟨m'', hround⟩ | hstops
      · rw [hround.eachStarts_eq, List.mem_cons] at h
        rcases h with heq | hlater
        · cases heq
          exact ⟨vs, .here⟩
        · obtain ⟨ws, hrounds⟩ := ih hlater
          exact ⟨ws, .next hround hrounds⟩
      · rw [(hstops (body w)).eachStarts_eq] at h
        cases List.mem_singleton.mp h
        exact ⟨vs, .here⟩
  · rintro ⟨ws, hrounds⟩
    generalize hleft : v :: ws = left at hrounds
    induction hrounds with
    | @here vs m =>
      cases hleft
      rw [eachStarts]
      exact List.mem_cons_self ..
    | next hround _ ih =>
      rw [hround.eachStarts_eq]
      exact List.mem_cons_of_mem _ (ih hleft)

/-- A round starts at a machine exactly if the rounds before it lead there and the condition
holds. -/
theorem mem_whileStarts_iff {condition : Machine → Except Failure Bool} {body : Run} {n : Nat}
    {m m' : Machine} :
    m' ∈ whileStarts condition body n m ↔
      ∃ k, WhileRounds condition body n m (k + 1) m' ∧ condition m' = .ok true := by
  constructor
  · intro h
    induction n generalizing m with
    | zero => cases h
    | succ n ih =>
      by_cases hholds : condition m = .ok true
      · rcases passes_or_stops body m with ⟨m'', hround⟩ | hstops
        · rw [hround.whileStarts_eq hholds] at h
          rcases List.mem_cons.mp h with rfl | hlater
          · exact ⟨n, .here, hholds⟩
          · obtain ⟨k, hrounds, hlast⟩ := ih hlater
            exact ⟨k, .next hholds hround hrounds, hlast⟩
        · rw [(hstops body).whileStarts_eq hholds] at h
          cases List.mem_singleton.mp h
          exact ⟨n, .here, hholds⟩
      · rw [whileStarts_of_ne_true hholds] at h
        cases h
  · rintro ⟨k, hrounds, hlast⟩
    generalize hleft : k + 1 = left at hrounds
    induction hrounds with
    | here =>
      subst hleft
      rw [whileStarts, hlast]
      exact List.mem_cons_self ..
    | next hholds hround _ ih =>
      rw [hround.whileStarts_eq hholds]
      exact List.mem_cons_of_mem _ (ih hlast hleft)

end Run

/-! ## Places -/

/-- Where a run is: the open chains, the lines that are left, and the machine. -/
structure Place where
  chains : Chains
  lines : List Line
  machine : Machine

namespace Place

/-- The run from a place to the end of its lines. -/
def run (limits : Limits) (p : Place) : Outcome Completion :=
  Point.run limits ⟨limits.maxDepth - p.machine.frames.length, p.chains, p.lines, p.machine⟩

/-- What a line is run with, where `run` is how to go on from other places. A body may be
entered if fewer calls are going on than the limits allow. -/
def context (limits : Limits) (run : Place → Outcome Completion) (rest : List Line)
    (m : Machine) : Context where
  limits := limits
  entry :=
    if m.frames.length < limits.maxDepth then some fun body m => run ⟨{}, body, m⟩ else none
  block length m := run ⟨{}, rest.take length, m⟩

/-- The run from a place by its first line, where `run` is how to go on from other places. -/
def unfold (limits : Limits) (run : Place → Outcome Completion) : Place → Outcome Completion
  | ⟨_, [], m⟩ => (m, .ok .finished)
  | ⟨chains, line :: rest, m⟩ =>
    match m.runLine (context limits run rest m) chains line rest with
    | (m', .error failure) => (m', .error failure)
    | (m', .ok (.exit completion)) => (m', .ok completion)
    | (m', .ok (.goOn chains' skipped)) => run ⟨chains', rest.drop skipped, m'⟩

/-- The block under a line, before a round of a loop at a machine. -/
def block (line : Line) (rest : List Line) (m : Machine) : Place :=
  ⟨{}, rest.take (blockLength line.indent rest), m⟩

/-- Where the loop on a line starts its rounds, in their order. -/
def rounds (limits : Limits) (line : Line) (rest : List Line) (m : Machine) : List Place :=
  if blockLength line.indent rest = 0 then []
  else
    match classify line.text with
    | .ok (.forEach name iterable) =>
      match m.elements iterable with
      | .error _ => []
      | .ok vs =>
        let body v (m : Machine) := (block line rest (m.bind name v)).run limits
        (Run.eachStarts body vs { m with loopDepth := m.loopDepth + 1 }).map fun (v, m') =>
          block line rest (m'.bind name v)
    | .ok (.whileHolds condition) =>
      let holds (m : Machine) := m.condition condition line
      let body (m : Machine) := (block line rest m).run limits
      (Run.whileStarts holds body limits.loopCap { m with loopDepth := m.loopDepth + 1 }).map
        (block line rest)
    | _ => []

end Place

/-- The ways in which the run from one place leads to another. -/
inductive Edge where
  | onward
  | round
  | call
  deriving Repr, DecidableEq

/-- The run from a place leads to that from another: where its first line goes on, in a
round of the loop on it, or in the body of the function that it calls. -/
inductive Leads (limits : Limits) : Edge → Place → Place → Prop
  | onward {chains chains' : Chains} {line : Line} {rest : List Line} {m m' : Machine}
      {skipped : Nat}
      (hline : m.runLine (Place.context limits (Place.run limits) rest m) chains line rest =
        (m', .ok (.goOn chains' skipped))) :
      Leads limits .onward ⟨chains, line :: rest, m⟩ ⟨chains', rest.drop skipped, m'⟩
  | round {chains : Chains} {line : Line} {rest : List Line} {m : Machine} {q : Place}
      (hround : q ∈ Place.rounds limits line rest m) :
      Leads limits .round ⟨chains, line :: rest, m⟩ q
  | call {chains : Chains} {line : Line} {rest : List Line} {m : Machine} {name : String}
      {arguments : Text} {f : Function} (hclass : classify line.text = .ok (.call name arguments))
      (hfunction : m.functions.get? name = some f)
      (harguments : (m.arguments arguments).length ≤ f.parameters.length)
      (hroom : m.frames.length < limits.maxDepth) :
      Leads limits .call ⟨chains, line :: rest, m⟩ ⟨{}, f.body,
        { m with frames := f.frame (m.arguments arguments) :: m.frames, loopDepth := 0 }⟩

variable {limits : Limits} {chains : Chains} {line : Line} {rest lines : List Line}
  {m m' : Machine} {p q : Place} {run : Place → Outcome Completion}

/-! ## Rounds -/

namespace Place

/-- The run from a place goes on from what its machine has printed, in the calls that are
going on. -/
theorem run_extends (p : Place) : Extends p.machine (p.run limits).1 :=
  Point.run_extends limits ⟨_, p.chains, p.lines, p.machine⟩

/-- The room for calls depends on how many are going on, and on nothing else. -/
theorem run_of_frames (h : m'.frames.length = m.frames.length) :
    Place.run limits ⟨chains, lines, m'⟩ =
      runLines limits (entryWithin limits (limits.maxDepth - m.frames.length)) chains lines m' := by
  rw [run, Point.run, h]

/-- Rounds over values are gone inside as many calls as the loop. -/
theorem frames_of_eachRounds {name : String} {vs ws : List Value} {v : Value}
    (h : Run.EachRounds (fun v m => (block line rest (m.bind name v)).run limits) vs
      { m with loopDepth := m.loopDepth + 1 } (v :: ws) m') :
    (m'.bind name v).frames.length = m.frames.length := by
  have hrounds := respected_extends.eachRounds h fun w _ m'' _ =>
    (extends_bind m'' name w).trans (run_extends (block line rest (m''.bind name w)))
  exact (extends_bind m' name v).frames.trans hrounds.frames

theorem frames_of_whileRounds {condition : Machine → Except Failure Bool} {n k : Nat}
    (h : Run.WhileRounds condition (fun m => (block line rest m).run limits) n
      { m with loopDepth := m.loopDepth + 1 } k m') : m'.frames.length = m.frames.length :=
  (respected_extends.whileRounds h fun _ m' _ _ => run_extends (block line rest m')).frames

/-- A loop over values starts its rounds in its block, with its variable bound. -/
theorem rounds_forEach {name : String} {iterable : Text} {vs : List Value}
    (hclass : classify line.text = .ok (.forEach name iterable))
    (hblock : blockLength line.indent rest ≠ 0) (helements : m.elements iterable = .ok vs) :
    rounds limits line rest m =
      (Run.eachStarts (fun v m => (block line rest (m.bind name v)).run limits) vs
        { m with loopDepth := m.loopDepth + 1 }).map fun e =>
          block line rest (e.2.bind name e.1) := by
  rw [rounds, if_neg hblock, hclass]
  dsimp only
  rw [helements]

/-- A loop under a condition starts its rounds in its block. -/
theorem rounds_whileHolds {condition : Text}
    (hclass : classify line.text = .ok (.whileHolds condition))
    (hblock : blockLength line.indent rest ≠ 0) :
    rounds limits line rest m =
      (Run.whileStarts (fun m => m.condition condition line)
        (fun m => (block line rest m).run limits) limits.loopCap
        { m with loopDepth := m.loopDepth + 1 }).map (block line rest) := by
  rw [rounds, if_neg hblock, hclass]

/-- A round runs the block of its loop, inside as many calls. -/
theorem eq_block_of_mem_rounds (h : q ∈ rounds limits line rest m) :
    ∃ m', q = block line rest m' ∧ m'.frames.length = m.frames.length := by
  by_cases hblock : blockLength line.indent rest = 0
  · rw [rounds, if_pos hblock] at h
    cases h
  · rw [rounds, if_neg hblock] at h
    split at h
    next name iterable hclass =>
      split at h
      next => cases h
      next vs helements =>
        obtain ⟨⟨v, m'⟩, hstart, rfl⟩ := List.mem_map.mp h
        obtain ⟨ws, hrounds⟩ := Run.mem_eachStarts_iff.mp hstart
        exact ⟨_, rfl, frames_of_eachRounds hrounds⟩
    next condition hclass =>
      obtain ⟨m', hstart, rfl⟩ := List.mem_map.mp h
      obtain ⟨k, hrounds, _⟩ := Run.mem_whileStarts_iff.mp hstart
      exact ⟨_, rfl, frames_of_whileRounds hrounds⟩
    next => cases h

/-! ## The recursion -/

/-- A line does the same with the room that is counted and with the room that the limits
leave. -/
theorem runLine_context (chains : Chains) :
    m.runLine (context limits (Place.run limits) rest m) chains line rest =
      m.runLine (Machine.context limits (limits.maxDepth - m.frames.length) rest) chains line
        rest := by
  -- Blocks are only run where as many calls are going on, so the room is the same there.
  refine (runLine_agrees chains ?_ ?_ ?_).symm
  · intro name iterable vs hclass helements hblock
    refine Run.forEach_agrees fun v ws m' hrounds => ?_
    exact (run_of_frames (frames_of_eachRounds hrounds)).symm
  · intro condition hclass hblock
    refine Run.whileHolds_agrees ?_ (.inl ⟨rfl, rfl⟩)
    intro k m' hrounds _
    exact (run_of_frames (frames_of_whileRounds hrounds)).symm
  · intro name arguments hclass
    refine call_agrees fun f _ _ => ?_
    show Option.map _ (entryWithin limits (limits.maxDepth - m.frames.length)) =
      Option.map _ (if m.frames.length < limits.maxDepth then _ else _)
    split
    next hroom =>
      obtain ⟨left, hleft⟩ : ∃ left, limits.maxDepth - m.frames.length = left + 1 :=
        Nat.exists_eq_add_one.mpr (Nat.sub_pos_of_lt hroom)
      have hinside : limits.maxDepth - (m.frames.length + 1) = left := by omega
      rw [hleft]
      refine congrArg some ?_
      dsimp only
      rw [runWithin_eq, ← hinside]
      rfl
    next hroom =>
      have hnone : limits.maxDepth - m.frames.length = 0 := by omega
      rw [hnone]
      rfl

/-- A line asks for no other places than those that it leads to. -/
theorem runLine_of_agrees
    (h : ∀ edge q, Leads limits edge ⟨chains, line :: rest, m⟩ q → run q = q.run limits) :
    m.runLine (context limits run rest m) chains line rest =
      m.runLine (context limits (Place.run limits) rest m) chains line rest := by
  refine runLine_agrees chains ?_ ?_ ?_
  · intro name iterable vs hclass helements hblock
    refine Run.forEach_agrees fun v ws m' hrounds => ?_
    refine h .round _ (.round ?_)
    rw [rounds_forEach hclass hblock helements]
    exact List.mem_map.mpr ⟨(v, m'), Run.mem_eachStarts_iff.mpr ⟨ws, hrounds⟩, rfl⟩
  · intro condition hclass hblock
    refine Run.whileHolds_agrees ?_ (.inl ⟨rfl, rfl⟩)
    intro k m' hrounds hholds
    refine h .round _ (.round ?_)
    rw [rounds_whileHolds hclass hblock]
    exact List.mem_map_of_mem (Run.mem_whileStarts_iff.mpr ⟨k, hrounds, hholds⟩)
  · intro name arguments hclass
    refine call_agrees fun f hfunction harguments => ?_
    show Option.map _ (if m.frames.length < limits.maxDepth then _ else _) =
      Option.map _ (if m.frames.length < limits.maxDepth then _ else _)
    split
    next hroom => exact congrArg some (h .call _ (.call hclass hfunction harguments hroom))
    next => rfl

/-- The run is what it is by its first line. -/
theorem unfold_run (p : Place) : p.unfold limits (Place.run limits) = p.run limits := by
  obtain ⟨chains, lines, m⟩ := p
  cases lines with
  | nil => rw [unfold, Place.run, Point.run_nil]
  | cons line rest =>
    have hextends : Extends m (m.runLine (Machine.context limits
        (limits.maxDepth - m.frames.length) rest) chains line rest).1 := runLine_extends chains
    rw [unfold, runLine_context]
    show _ = Point.run limits ⟨_, chains, line :: rest, m⟩
    rw [Point.run_cons]
    dsimp only
    generalize m.runLine _ chains line rest = outcome at hextends ⊢
    obtain ⟨m', failure | next⟩ := outcome
    · rfl
    · cases next with
      | exit completion => rfl
      | goOn chains' skipped => exact run_of_frames hextends.frames

/-- The run from a place asks for no others than it leads to. -/
theorem unfold_of_agrees (h : ∀ edge q, Leads limits edge p q → run q = q.run limits) :
    p.unfold limits run = p.run limits := by
  rw [← unfold_run]
  obtain ⟨chains, lines, m⟩ := p
  cases lines with
  | nil => rfl
  | cons line rest =>
    rw [unfold, unfold, runLine_of_agrees h]
    generalize hline : m.runLine _ chains line rest = outcome
    obtain ⟨m', failure | next⟩ := outcome
    · rfl
    · cases next with
      | exit completion => rfl
      | goOn chains' skipped => exact h .onward _ (.onward hline)

end Place

/-! ## What gets smaller -/

namespace Leads

theorem frames_onward (h : Leads limits .onward p q) :
    q.machine.frames.length = p.machine.frames.length := by
  cases h with
  | @onward chains _ line rest m _ _ hline =>
    have hextends : Extends m (m.runLine (context limits
        (limits.maxDepth - m.frames.length) rest) chains line rest).1 := runLine_extends chains
    rw [← Place.runLine_context, hline] at hextends
    exact hextends.frames

/-- Behind its first line a run goes on with fewer of the same lines. -/
theorem lines_onward (h : Leads limits .onward p q) :
    ∃ n, 0 < n ∧ n ≤ p.lines.length ∧ q.lines = p.lines.drop n := by
  cases h with
  | @onward _ _ _ _ _ _ skipped hline =>
    exact ⟨skipped + 1, Nat.succ_pos _, Nat.succ_le_succ (runLine_skips hline), rfl⟩

theorem frames_round (h : Leads limits .round p q) :
    q.machine.frames.length = p.machine.frames.length := by
  cases h with
  | round hround =>
    obtain ⟨m', rfl, hframes⟩ := Place.eq_block_of_mem_rounds hround
    exact hframes

/-- A round runs fewer lines, which stand side by side in those of its loop. -/
theorem lines_round (h : Leads limits .round p q) :
    q.lines <:+: p.lines ∧ q.lines.length < p.lines.length := by
  cases h with
  | @round _ line rest _ _ hround =>
    obtain ⟨m', rfl, _⟩ := Place.eq_block_of_mem_rounds hround
    constructor
    · exact (List.take_prefix _ rest).isInfix.trans (List.suffix_cons line rest).isInfix
    · show (rest.take _).length < rest.length + 1
      rw [List.length_take]
      omega

/-- A call is entered below the greatest depth and is one call deeper. -/
theorem frames_call (h : Leads limits .call p q) :
    p.machine.frames.length < limits.maxDepth ∧
      q.machine.frames.length = p.machine.frames.length + 1 := by
  cases h with
  | call _ _ _ hroom => exact ⟨hroom, rfl⟩

/-- One call more is going on, or there are as many and fewer lines. -/
theorem decreases {edge : Edge} (h : Leads limits edge p q) :
    Prod.Lex (· < ·) (· < ·) (limits.maxDepth - q.machine.frames.length, q.lines.length)
      (limits.maxDepth - p.machine.frames.length, p.lines.length) := by
  rw [Prod.lex_def]
  cases edge with
  | onward =>
    obtain ⟨n, hpos, hle, hlines⟩ := h.lines_onward
    refine .inr ⟨by rw [h.frames_onward], ?_⟩
    rw [hlines, List.length_drop]
    omega
  | round => exact .inr ⟨by rw [h.frames_round], h.lines_round.2⟩
  | call =>
    obtain ⟨hroom, hframes⟩ := h.frames_call
    refine .inl ?_
    dsimp only
    omega

/-- **No run goes from place to place for ever,** whatever the limits are. -/
theorem wellFounded (limits : Limits) : WellFounded fun q p => ∃ edge, Leads limits edge p q :=
  Subrelation.wf (fun ⟨_, h⟩ => h.decreases)
    (InvImage.wf (fun p : Place => (limits.maxDepth - p.machine.frames.length, p.lines.length))
      (Prod.lex ⟨_, Nat.lt_wfRel.wf⟩ ⟨_, Nat.lt_wfRel.wf⟩).wf)

end Leads

/-- Runs that satisfy the recursion are what lines do. -/
theorem Place.eq_run_of_unfold (h : ∀ p, run p = p.unfold limits run) : run = Place.run limits := by
  funext p
  induction p using (Leads.wellFounded limits).induction with
  | h p ih =>
    rw [h p]
    exact unfold_of_agrees fun edge q hleads => ih q ⟨edge, hleads⟩

/-- No more calls are ever going on than the limits allow. -/
theorem Place.frames_le (hstart : p.machine.frames.length ≤ limits.maxDepth)
    (h : Relation.ReflTransGen (fun p q => ∃ edge, Leads limits edge p q) p q) :
    q.machine.frames.length ≤ limits.maxDepth := by
  induction h with
  | refl => exact hstart
  | tail _ hleads ih =>
    obtain ⟨edge, hleads⟩ := hleads
    cases edge with
    | onward => rwa [hleads.frames_onward]
    | round => rwa [hleads.frames_round]
    | call =>
      obtain ⟨hroom, hframes⟩ := hleads.frames_call
      rw [hframes]
      exact hroom

/-- A loop over values starts no more rounds than it has values. -/
theorem Place.length_rounds_le_elements {name : String} {iterable : Text} {vs : List Value}
    (hclass : classify line.text = .ok (.forEach name iterable))
    (helements : m.elements iterable = .ok vs) :
    (rounds limits line rest m).length ≤ vs.length := by
  by_cases hblock : blockLength line.indent rest = 0
  · rw [rounds, if_pos hblock]
    exact Nat.zero_le _
  · rw [rounds_forEach hclass hblock helements, List.length_map]
    exact Run.length_eachStarts_le _ vs _

/-- A loop under a condition starts no more rounds than the cap allows. -/
theorem Place.length_rounds_le_loopCap {condition : Text}
    (hclass : classify line.text = .ok (.whileHolds condition)) :
    (rounds limits line rest m).length ≤ limits.loopCap := by
  by_cases hblock : blockLength line.indent rest = 0
  · rw [rounds, if_pos hblock]
    exact Nat.zero_le _
  · rw [rounds_whileHolds hclass hblock, List.length_map]
    exact Run.length_whileStarts_le _ _ _ _

/-- **Every run ends** within its limits. What lines do is the only solution of a recursion
that counts nothing down. It asks for no places but those that it leads to, and no way from
one to the next goes on for ever: onward at least one more line has been passed, in a round
of a loop there are fewer lines, and in a call any body at all may be run, but one call deeper
and never deeper than the limits allow. A loop over values goes no more rounds than there were
values when it began, whatever its block does to them, and a loop under a condition no more
than its cap. -/
theorem runs_end (limits : Limits) :
    (∀ lines m, runUnder limits lines m = Place.run limits ⟨{}, lines, m⟩) ∧
    (∀ run : Place → Outcome Completion,
      (∀ p, run p = p.unfold limits run) ↔ run = Place.run limits) ∧
    (∀ (run : Place → Outcome Completion) p,
      (∀ edge q, Leads limits edge p q → run q = q.run limits) →
      p.unfold limits run = p.run limits) ∧
    (WellFounded fun q p => ∃ edge, Leads limits edge p q) ∧
    (∀ p q, Leads limits .onward p q →
      ∃ n, 0 < n ∧ n ≤ p.lines.length ∧ q.lines = p.lines.drop n) ∧
    (∀ p q, Leads limits .round p q →
      q.lines <:+: p.lines ∧ q.lines.length < p.lines.length) ∧
    (∀ line rest m name iterable vs, classify line.text = .ok (.forEach name iterable) →
      m.elements iterable = .ok vs → (Place.rounds limits line rest m).length ≤ vs.length) ∧
    (∀ line rest m condition, classify line.text = .ok (.whileHolds condition) →
      (Place.rounds limits line rest m).length ≤ limits.loopCap) ∧
    ∀ p q, p.machine.frames.length ≤ limits.maxDepth →
      Relation.ReflTransGen (fun p q => ∃ edge, Leads limits edge p q) p q →
      q.machine.frames.length ≤ limits.maxDepth := by
  refine ⟨runUnder_eq limits, fun run => ⟨Place.eq_run_of_unfold, ?_⟩,
    fun run p => Place.unfold_of_agrees, Leads.wellFounded limits, fun p q => Leads.lines_onward,
    fun p q => Leads.lines_round,
    fun line rest m name iterable vs => Place.length_rounds_le_elements,
    fun line rest m condition => Place.length_rounds_le_loopCap, fun p q => Place.frames_le⟩
  rintro rfl p
  exact (Place.unfold_run p).symm

end Offside
