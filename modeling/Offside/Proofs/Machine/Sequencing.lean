import Offside.Proofs.Machine.Chains
import Offside.Proofs.Machine.Performing
import Offside.Proofs.Program.Nested

/-!
# Running a block in its place

The block under a branch is not cut out of the lines: it is simply what is run
next, in front of everything behind it and on top of the chains that are open
around it. The main statement says that this is no different from running the
block by itself, with no chain open, and then what stands behind it:

> `runLines_append`: for lines that are nested deeper than `indent`, in front of
> lines that open no deeper block.

One line of the block does the same to the machine in both settings
(`runLine_append`), and it never touches the chains around the block
(`runLine_beyond`). Programs that are run one after the other go together in the same
way: `runLines_before` is what both have in common.
-/

namespace Offside

/-- The same outcome with its result changed by `f`. -/
def Outcome.map {α β : Type} (f : α → β) : Outcome α → Outcome β
  | (m, .error failure) => (m, .error failure)
  | (m, .ok a) => (m, .ok (f a))

/-- The same place to go on, with further chains open around. -/
def Next.onto (outer : Chains) : Next → Next
  | goOn chains skipped => goOn (chains.onto outer) skipped
  | exit completion => exit completion

theorem map_onto_empty (outcome : Outcome Next) : Outcome.map (Next.onto {}) outcome = outcome := by
  obtain ⟨m, failure | ⟨chains, skipped⟩ | completion⟩ := outcome
  · rfl
  · rw [Outcome.map, Next.onto, Chains.onto_empty]
  · rfl

/-- Runs something and, if it came to its end, something else after it. -/
def Run.followedBy (first second : Run) : Run := fun m =>
  match first m with
  | (m', .ok .finished) => second m'
  | (m', .ok .broken) => (m', .ok .broken)
  | (m', .ok .continued) => (m', .ok .continued)
  | (m', .ok .returned) => (m', .ok .returned)
  | (m', .error failure) => (m', .error failure)

namespace Machine

variable {limits : Limits} {entry : Entry} {indent : Nat} {inner outer : Chains} {line : Line}
  {body behind : List Line}

/-! ## One line in two settings -/

/-- A statement that changes the machine leaves the chains around it alone. -/
theorem after_onto (m : Machine) (line : Line) (inner outer : Chains)
    (changed : Except Fault Machine) :
    m.after line (inner.onto outer) changed =
      Outcome.map (Next.onto outer) (m.after line inner changed) := by
  cases changed <;> rfl

/-- A loop leaves the chains around it alone. -/
theorem behindLoop_onto (inner outer : Chains) (length : Nat) (outcome : Outcome Completion) :
    behindLoop (inner.onto outer) length outcome =
      Outcome.map (Next.onto outer) (behindLoop inner length outcome) := by
  obtain ⟨m, failure | completion⟩ := outcome
  · rfl
  · cases completion <;> rfl

/-- A branch touches only chains that are as deep as its line. -/
theorem branch_onto (m : Machine) (houter : outer.Under line.indent) (condition : Text)
    (length : Nat) :
    m.branch (inner.onto outer) line condition length =
      Outcome.map (Next.onto outer) (m.branch inner line condition length) := by
  rw [branch, branch]
  cases m.condition condition line with
  | error failure => rfl
  | ok taken =>
    dsimp only
    rw [Chains.set_onto houter]
    rfl

/-- A header has the same block whether the lines behind are there or not. -/
theorem header_append (m : Machine) (keyword : String)
    (hbehind : blockLength line.indent behind = 0)
    {run run' : Nat → Outcome Next}
    (hrun : ∀ n ≤ body.length, run n = Outcome.map (Next.onto outer) (run' n)) :
    m.header keyword line (body ++ behind) run =
      Outcome.map (Next.onto outer) (m.header keyword line body run') := by
  rw [header, header, blockLength_append body hbehind]
  cases hlength : blockLength line.indent body with
  | zero => rfl
  | succ n =>
    refine hrun (n + 1) ?_
    exact hlength ▸ blockLength_le line.indent body

/-- A statement inside a block does the same whether the lines behind the block
and the chains around it are there or not. -/
theorem perform_append (m : Machine) (houter : outer.Under line.indent)
    (hopen : blockLength line.indent behind = 0) {block block' : Nat → Run}
    (hblock : ∀ n ≤ body.length, block n = block' n) (statement : Statement) :
    m.perform ⟨limits, entry, block⟩ (inner.onto outer) line (body ++ behind) statement =
      Outcome.map (Next.onto outer)
        (m.perform ⟨limits, entry, block'⟩ inner line body statement) := by
  cases statement with
  | print arguments => rfl
  | define name parameters =>
    rw [perform, perform]
    refine header_append m "def" hopen fun n hn => ?_
    rw [List.take_append_of_le_length hn]
    rfl
  | assign target op value => exact after_onto m line inner outer _
  | ifHolds condition =>
    exact header_append m "if" hopen fun n _ => branch_onto m houter condition n
  | elseIf condition =>
    rw [perform, perform]
    refine header_append m "elif" hopen fun n _ => ?_
    rw [Chains.taken?_onto houter]
    cases inner.taken? line.indent with
    | none => rfl
    | some taken =>
      cases taken
      · exact branch_onto m houter condition n
      · rfl
  | otherwise =>
    rw [perform, perform]
    refine header_append m "else" hopen fun n _ => ?_
    rw [Chains.taken?_onto houter, Chains.close_onto houter]
    cases inner.taken? line.indent with
    | none => rfl
    | some taken => cases taken <;> rfl
  | forEach name iterable =>
    rw [perform, perform]
    refine header_append m "for" hopen fun n hn => ?_
    rw [Machine.forEach, Machine.forEach]
    cases m.elements iterable with
    | error fault => rfl
    | ok vs =>
      dsimp only
      rw [hblock n hn]
      exact behindLoop_onto inner outer n _
  | whileHolds condition =>
    rw [perform, perform]
    refine header_append m "while" hopen fun n hn => ?_
    rw [Machine.whileHolds, Machine.whileHolds]
    dsimp only
    rw [hblock n hn]
    exact behindLoop_onto inner outer n _
  | call name arguments =>
    rw [perform, perform]
    obtain ⟨m', failure | ⟨⟩⟩ := m.call entry name arguments line.number <;> rfl
  | append list value => exact after_onto m line inner outer _
  | leave value =>
    rw [perform, perform]
    split <;> rfl
  | breakLoop =>
    rw [perform, perform]
    split <;> rfl
  | continueLoop =>
    rw [perform, perform]
    split <;> rfl
  | pass => rfl
  | unrecognized => rfl

/-- A line does the same whether the lines behind its block and the chains around it
are there or not. -/
theorem runLine_append (m : Machine)
    (hline : line.isBlank = false →
      outer.Under line.indent ∧ blockLength line.indent behind = 0)
    {block block' : Nat → Run} (hblock : ∀ n ≤ body.length, block n = block' n) :
    m.runLine ⟨limits, entry, block⟩ (inner.onto outer) line (body ++ behind) =
      Outcome.map (Next.onto outer) (m.runLine ⟨limits, entry, block'⟩ inner line body) := by
  rw [runLine, runLine]
  split
  next => rfl
  next hblank =>
    obtain ⟨houter, hopen⟩ := hline (by simpa using hblank)
    cases classify line.text with
    | error fault => rfl
    | ok statement =>
      have hkept : outer.Under (if statement.isBranch then line.indent + 1 else line.indent) := by
        refine houter.mono ?_
        split <;> omega
      dsimp only
      rw [Chains.below_onto hkept]
      exact perform_append m houter hopen hblock statement

/-! ## Where a line goes on -/

theorem behindLoop_goOn {m' : Machine} {chains chains' : Chains} {length n : Nat}
    {outcome : Outcome Completion}
    (h : behindLoop chains length outcome = (m', .ok (.goOn chains' n))) :
    chains' = chains ∧ n = length := by
  obtain ⟨m, failure | completion⟩ := outcome
  · cases h
  · cases completion <;> cases h <;> exact ⟨rfl, rfl⟩

/-- A statement goes on behind some of the lines that follow it, and changes no
chain but the one at its own indentation. -/
theorem Performs.goOn {m m' : Machine} {context : Context} {chains chains' : Chains}
    {rest : List Line} {statement : Statement} {n : Nat}
    (h : Performs context chains line rest m statement (m', .ok (.goOn chains' n))) :
    (chains' = chains ∨ (∃ taken, chains' = chains.set line.indent taken) ∨
      chains' = chains.close line.indent) ∧ n ≤ rest.length := by
  have hlength := blockLength_le line.indent rest
  generalize houtcome : (m', Except.ok (Next.goOn chains' n)) = outcome at h
  cases h with
  | fails => cases houtcome
  | skips hn => cases houtcome; exact ⟨.inl rfl, hn⟩
  | opens taken hn => cases houtcome; exact ⟨.inr (.inl ⟨taken, rfl⟩), hn⟩
  | closes hn => cases houtcome; exact ⟨.inr (.inr rfl), hn⟩
  | prints => cases houtcome; exact ⟨.inl rfl, Nat.zero_le _⟩
  | defines => cases houtcome; exact ⟨.inl rfl, hlength⟩
  | assigns => cases houtcome; exact ⟨.inl rfl, Nat.zero_le _⟩
  | appends => cases houtcome; exact ⟨.inl rfl, Nat.zero_le _⟩
  | forEach =>
    obtain ⟨rfl, rfl⟩ := behindLoop_goOn houtcome.symm
    exact ⟨.inl rfl, hlength⟩
  | whileHolds =>
    obtain ⟨rfl, rfl⟩ := behindLoop_goOn houtcome.symm
    exact ⟨.inl rfl, hlength⟩
  | callFails => cases houtcome
  | calls => cases houtcome; exact ⟨.inl rfl, Nat.zero_le _⟩
  | leaves => cases houtcome
  | breaks => cases houtcome
  | continues => cases houtcome

/-- A line goes on among the lines that follow it. -/
theorem runLine_skips {m m' : Machine} {context : Context} {chains chains' : Chains}
    {rest : List Line} {n : Nat}
    (h : m.runLine context chains line rest = (m', .ok (.goOn chains' n))) : n ≤ rest.length := by
  rcases runLine_performs m context chains line rest with
    ⟨_, hrun⟩ | ⟨failure, _, hrun⟩ | ⟨statement, _, _, hperforms⟩
  · rw [h] at hrun
    cases hrun
    exact Nat.zero_le _
  · rw [h] at hrun
    cases hrun
  · rw [h] at hperforms
    exact hperforms.goOn.2

/-- A line of a block leaves no chain open but deeper ones. -/
theorem runLine_beyond {m m' : Machine} {context : Context} {chains chains' : Chains}
    {rest : List Line} {n : Nat} (hchains : chains.Beyond indent)
    (hline : line.isBlank = false → indent < line.indent)
    (h : m.runLine context chains line rest = (m', .ok (.goOn chains' n))) :
    chains'.Beyond indent := by
  rcases runLine_performs m context chains line rest with
    ⟨_, hrun⟩ | ⟨failure, _, hrun⟩ | ⟨statement, hblank, _, hperforms⟩
  · rw [h] at hrun
    cases hrun
    exact hchains
  · rw [h] at hrun
    cases hrun
  · rw [h] at hperforms
    have hindent := hline hblank
    have hkept := hchains.below (if statement.isBranch then line.indent + 1 else line.indent)
    rcases hperforms.goOn.1 with rfl | ⟨taken, rfl⟩ | rfl
    · exact hkept
    · exact hkept.set hindent taken
    · exact hkept.close line.indent

theorem behindLoop_exit {m' : Machine} {chains : Chains} {length : Nat}
    {outcome : Outcome Completion} {completion : Completion}
    (h : behindLoop chains length outcome = (m', .ok (.exit completion))) :
    outcome = (m', .ok .returned) ∧ completion = .returned := by
  obtain ⟨m, failure | completion'⟩ := outcome
  · cases h
  · cases completion' <;> cases h
    exact ⟨rfl, rfl⟩

/-- How a statement ends the run of its lines: it gives a signal itself, or it is a loop
whose block has returned. -/
inductive Exits (context : Context) (line : Line) (rest : List Line) (m : Machine) :
    Statement → Machine → Completion → Prop
  | breaks (hdepth : m.loopDepth ≠ 0) : Exits context line rest m .breakLoop m .broken
  | continues (hdepth : m.loopDepth ≠ 0) : Exits context line rest m .continueLoop m .continued
  | returns {value : Option Text} (hframes : m.frames ≠ []) :
      Exits context line rest m (.leave value) m .returned
  | forEach {name : String} {iterable : Text} {vs : List Value} {m' : Machine}
      (hblock : blockLength line.indent rest ≠ 0) (helements : m.elements iterable = .ok vs)
      (hloop : Run.inLoop (Run.forEach (fun v m =>
        context.block (blockLength line.indent rest) (m.bind name v)) vs) m =
          (m', .ok .returned)) :
      Exits context line rest m (.forEach name iterable) m' .returned
  | whileHolds {condition : Text} {m' : Machine} (hblock : blockLength line.indent rest ≠ 0)
      (hloop : Run.inLoop (Run.whileHolds (fun m => m.condition condition line)
        (context.block (blockLength line.indent rest)) context.limits.warning
        context.limits.loopCap) m = (m', .ok .returned)) :
      Exits context line rest m (.whileHolds condition) m' .returned

/-- A statement that ends its lines is a signal, or a loop that a return has left. -/
theorem Performs.exits {m m' : Machine} {context : Context} {chains : Chains} {rest : List Line}
    {statement : Statement} {completion : Completion}
    (h : Performs context chains line rest m statement (m', .ok (.exit completion))) :
    Exits context line rest m statement m' completion := by
  generalize houtcome : (m', Except.ok (Next.exit completion)) = outcome at h
  cases h with
  | forEach hblock helements =>
    obtain ⟨hloop, rfl⟩ := behindLoop_exit houtcome.symm
    exact .forEach hblock helements hloop
  | whileHolds hblock =>
    obtain ⟨hloop, rfl⟩ := behindLoop_exit houtcome.symm
    exact .whileHolds hblock hloop
  | leaves hframes => cases houtcome; exact .returns hframes
  | breaks hdepth => cases houtcome; exact .breaks hdepth
  | continues hdepth => cases houtcome; exact .continues hdepth
  -- what is left fails or goes on
  | _ => cases houtcome

/-- A line that ends its lines has a statement that does. -/
theorem runLine_exits {m m' : Machine} {context : Context} {chains : Chains} {rest : List Line}
    {completion : Completion}
    (h : m.runLine context chains line rest = (m', .ok (.exit completion))) :
    ∃ statement, classify line.text = .ok statement ∧
      Exits context line rest m statement m' completion := by
  rcases runLine_performs m context chains line rest with
    ⟨_, hrun⟩ | ⟨failure, _, hrun⟩ | ⟨statement, _, hclass, hperforms⟩
  · rw [h] at hrun
    cases hrun
  · rw [h] at hrun
    cases hrun
  · rw [h] at hperforms
    exact ⟨statement, hclass, hperforms.exits⟩

/-- No statement leaves the lines as if they had come to their end. -/
theorem Exits.ne_finished {m m' : Machine} {context : Context} {rest : List Line}
    {statement : Statement} {completion : Completion}
    (h : Exits context line rest m statement m' completion) : completion ≠ .finished := by
  cases h <;> simp

/-! ## Many lines -/

/-- What is run first behind a block no longer sees the chains of the block. -/
theorem runLines_onto (hinner : inner.Beyond indent) (hbehind : blockLength indent behind = 0)
    (m : Machine) :
    runLines limits entry (inner.onto outer) behind m = runLines limits entry outer behind m := by
  induction behind with
  | nil => rw [runLines, runLines]
  | cons line rest ih =>
    rw [runLines, runLines]
    by_cases hblank : line.isBlank
    · rw [runLine, runLine, if_pos hblank, if_pos hblank]
      exact ih ((blockLength_cons_blank hblank).mp hbehind)
    · have hindent : line.indent ≤ indent := by
        rw [blockLength_eq_zero_iff, List.dropWhile_cons_of_neg hblank] at hbehind
        exact hbehind line rfl
      rw [runLine, runLine, if_neg hblank, if_neg hblank]
      cases classify line.text with
      | error fault => rfl
      | ok statement =>
        have hkept :
            (if statement.isBranch then line.indent + 1 else line.indent) ≤ indent + 1 := by
          split <;> omega
        dsimp only
        rw [Chains.below_onto_of_le hinner hkept]

/-- Running some lines in front of others is running them by themselves and, if they come
to their end, the others: if no block goes on from the one to the other, and if the chains
that may be left open, of which `Left` holds, are not seen behind. -/
theorem runLines_before (Left : Chains → Prop) (Before : Line → Prop)
    (hleft : ∀ line, Before line → ∀ {context chains chains' m m' rest n}, Left chains →
      runLine m context chains line rest = (m', .ok (.goOn chains' n)) → Left chains')
    (hopen : ∀ line, Before line → line.isBlank = false →
      outer.Under line.indent ∧ blockLength line.indent behind = 0)
    (hbehind : ∀ inner, Left inner → ∀ m,
      runLines limits entry (inner.onto outer) behind m = runLines limits entry outer behind m) :
    ∀ {inner : Chains} (body : List Line) (m : Machine), Left inner →
      (∀ line ∈ body, Before line) →
      runLines limits entry (inner.onto outer) (body ++ behind) m =
        Run.followedBy (runLines limits entry inner body) (runLines limits entry outer behind) m
  | inner, [], m, hinner, _ => by
    rw [List.nil_append, hbehind inner hinner, Run.followedBy, runLines]
  | inner, line :: rest, m, hinner, hbody => by
    have hline := hbody line (List.mem_cons_self ..)
    have hblock : ∀ n ≤ rest.length, runLines limits entry {} ((rest ++ behind).take n) =
        runLines limits entry {} (rest.take n) := by
      intro n hn
      rw [List.take_append_of_le_length hn]
    rw [List.cons_append, Run.followedBy, runLines, runLines,
      runLine_append m (hopen line hline) hblock]
    cases hrun : m.runLine ⟨limits, entry, fun n => runLines limits entry {} (rest.take n)⟩
        inner line rest with
    | mk m' result =>
      cases result with
      | error failure => rfl
      | ok next =>
        cases next with
        | exit completion =>
          obtain ⟨_, _, hexits⟩ := runLine_exits hrun
          cases completion with
          | finished => exact absurd rfl hexits.ne_finished
          | broken => rfl
          | continued => rfl
          | returned => rfl
        | goOn chains skipped =>
          have ih := runLines_before Left Before hleft hopen hbehind (rest.drop skipped) m'
            (hleft line hline hinner hrun)
            fun other hmem => hbody other (List.mem_cons_of_mem _ (List.mem_of_mem_drop hmem))
          rw [Run.followedBy] at ih
          dsimp only [Outcome.map, Next.onto]
          rw [List.drop_append_of_le_length (runLine_skips hrun)]
          exact ih
termination_by _ body => body.length
decreasing_by
  rw [List.length_drop, List.length_cons]
  omega

/-- **Running a block in its place** is running it by itself and, if it comes to
its end, what stands behind it. -/
theorem runLines_append (houter : outer.UpTo indent) (hbehind : blockLength indent behind = 0)
    (body : List Line) (m : Machine) (hinner : inner.Beyond indent)
    (hnested : Nested indent body) :
    runLines limits entry (inner.onto outer) (body ++ behind) m =
      Run.followedBy (runLines limits entry inner body) (runLines limits entry outer behind) m := by
  refine runLines_before (Chains.Beyond indent)
    (fun line => line.isBlank = false → indent < line.indent) ?_ ?_ ?_ body m hinner hnested
  · intro line hline _ _ _ _ _ _ _ hchains hrun
    exact runLine_beyond hchains hline hrun
  · intro line hline hblank
    have hindent := hline hblank
    exact ⟨houter.under hindent, blockLength_eq_zero_of_le (Nat.le_of_lt hindent) hbehind⟩
  · intro chains hchains m
    exact runLines_onto hchains hbehind m

end Machine

end Offside
