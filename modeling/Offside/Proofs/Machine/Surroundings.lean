import Offside.Proofs.Machine.Keeping

/-!
# A run in its surroundings

Inside a call only the scope of that call is active. What was printed before, the global
scope and the scopes of the other calls stand around it, and a run does not look at them:
it does the same in any `Surroundings`, and leaves them as they are.

> `runWithin_isLocal`: running lines inside a call, and then putting the machine into
> surroundings, is putting it there first and running the lines then.

So a call can be made in a machine that has nothing but the defined functions, and its
caller takes over what it printed and defined there:

> `call_eq_adopt`: what a call does is decided by the values of its arguments and the
> functions that are defined.
-/

namespace Offside

open Machine

/-- What a call finds around it: what has been printed, the global scope, and the scopes
of the calls that are going on. -/
structure Surroundings where
  output : Array String
  globals : Scope
  frames : List Scope

namespace Surroundings

/-- A machine in surroundings. -/
def around (s : Surroundings) (m : Machine) : Machine where
  output := s.output ++ m.output
  globals := s.globals
  frames := m.frames ++ s.frames
  functions := m.functions
  loopDepth := m.loopDepth

/-- An outcome in surroundings. -/
def outcome {α : Type} (s : Surroundings) (o : Outcome α) : Outcome α :=
  (s.around o.1, o.2)

end Surroundings

/-- A run is local if a machine that is inside a call is inside as many calls afterwards,
and if surroundings change nothing but what is around it. -/
def Run.IsLocal (run : Run) : Prop :=
  ∀ m : Machine, m.frames ≠ [] → (run m).1.frames.length = m.frames.length ∧
    ∀ s : Surroundings, run (s.around m) = s.outcome (run m)

variable {s : Surroundings} {m : Machine}

/-- A run that keeps the number of frames stays in a call. -/
theorem ne_nil_of_length_eq {m m' : Machine} (hlength : m'.frames.length = m.frames.length)
    (h : m.frames ≠ []) : m'.frames ≠ [] := by
  rw [← List.length_pos_iff, hlength, List.length_pos_iff]
  exact h

/-! ## Statements in surroundings -/

/-- In a call the active scope is that of the call, whatever is around it. -/
theorem scope_around (h : m.frames ≠ []) : (s.around m).scope = m.scope := by
  obtain ⟨frame, outer, hframes⟩ := List.exists_cons_of_ne_nil h
  rw [scope, scope, Surroundings.around, hframes]
  rfl

/-- In a call a name is bound in the scope of the call. -/
theorem bind_around (h : m.frames ≠ []) (name : String) (value : Value) :
    (s.around m).bind name value = s.around (m.bind name value) := by
  obtain ⟨frame, outer, hframes⟩ := List.exists_cons_of_ne_nil h
  simp only [Machine.bind, Surroundings.around, hframes, List.cons_append]

theorem print_around (line : String) : (s.around m).print line = s.around (m.print line) := by
  simp only [Machine.print, Surroundings.around, Array.push_append]

/-- A function that is defined in a call keeps the scope of the call. -/
theorem define_around (h : m.frames ≠ []) (name : String) (parameters : List String)
    (body : List Line) :
    (s.around m).define name parameters body = s.around (m.define name parameters body) := by
  have hbound := ne_nil_of_length_eq (extends_bind m name (.function name)).frames h
  rw [define, define, bind_around h, scope_around hbound]
  rfl

theorem condition_around (h : m.frames ≠ []) (t : Text) (line : Line) :
    (s.around m).condition t line = m.condition t line := by
  rw [condition, condition, scope_around h]

theorem elements_around (h : m.frames ≠ []) (t : Text) :
    (s.around m).elements t = m.elements t := by
  rw [elements, elements, scope_around h]

theorem arguments_around (h : m.frames ≠ []) (t : Text) :
    (s.around m).arguments t = m.arguments t := by
  rw [arguments, arguments, scope_around h]

/-- In a call a value is stored in the scope of the call. -/
theorem store_around (h : m.frames ≠ []) (target : Target) (value : Value) :
    (s.around m).store target value = (m.store target value).map s.around := by
  cases target with
  | name n =>
    rw [store, store, bind_around h]
    rfl
  | element n index =>
    rw [store, store, scope_around h]
    cases evaluateStrict m.scope index with
    | error fault => rfl
    | ok i =>
      dsimp only
      cases m.scope.get? n with
      | none => rfl
      | some v =>
        cases v with
        | list elements =>
          dsimp only
          cases assignedPosition elements.length i with
          | error fault => rfl
          | ok p =>
            dsimp only
            rw [bind_around h]
            rfl
        | _ => rfl

/-- The value of an assignment is found in the scope of the call. -/
theorem assignedValue_around (h : m.frames ≠ []) (target : Target) (op : Option ArithOp)
    (value : Text) :
    (s.around m).assignedValue target op value = m.assignedValue target op value := by
  unfold assignedValue
  rw [scope_around h]

/-- An assignment in a call changes the scope of the call. -/
theorem assign_around (h : m.frames ≠ []) (target : Target) (op : Option ArithOp)
    (value : Text) :
    (s.around m).assign target op value = (m.assign target op value).map s.around := by
  rw [assign, assign, assignedValue_around h]
  split
  next => rfl
  next => exact store_around h target _

/-- An append in a call changes the scope of the call. -/
theorem append_around (h : m.frames ≠ []) (list : String) (value : Text) :
    (s.around m).append list value = (m.append list value).map s.around := by
  rw [append, append, scope_around h]
  cases m.scope.get? list with
  | none => rfl
  | some v =>
    cases v with
    | list elements =>
      dsimp only
      rw [bind_around h]
      rfl
    | _ => rfl

theorem after_around (line : Line) (chains : Chains) (changed : Except Fault Machine) :
    (s.around m).after line chains (changed.map s.around) =
      s.outcome (m.after line chains changed) := by
  cases changed <;> rfl

theorem behindLoop_outcome (chains : Chains) (length : Nat) (o : Outcome Completion) :
    behindLoop chains length (s.outcome o) = s.outcome (behindLoop chains length o) := by
  obtain ⟨m, failure | completion⟩ := o
  · rfl
  · cases completion <;> rfl

/-- A condition in a call is the same in any surroundings. -/
theorem branch_around (h : m.frames ≠ []) (chains : Chains) (line : Line) (condition : Text)
    (length : Nat) :
    (s.around m).branch chains line condition length =
      s.outcome (m.branch chains line condition length) := by
  rw [branch, branch, condition_around h]
  split <;> rfl

/-- Whether a header lacks its block does not depend on what is around the machine. -/
theorem header_around (keyword : String) (line : Line) (rest : List Line)
    {run run' : Nat → Outcome Next} (hrun : ∀ n, run n = s.outcome (run' n)) :
    (s.around m).header keyword line rest run = s.outcome (m.header keyword line rest run') := by
  rw [header, header]
  split
  next => rfl
  next n _ => exact hrun (n + 1)

/-! ## Loops and calls in surroundings -/

/-- What a loop makes of a round is local if the rest of its rounds is. -/
theorem Run.IsLocal.afterRound {again : Run} (h : again.IsLocal) {o : Outcome Completion}
    (ho : o.1.frames ≠ []) :
    (Run.afterRound again o).1.frames.length = o.1.frames.length ∧
      ∀ s : Surroundings,
        Run.afterRound again (s.outcome o) = s.outcome (Run.afterRound again o) := by
  obtain ⟨m, failure | completion⟩ := o
  · exact ⟨rfl, fun _ => rfl⟩
  · cases completion with
    | finished => exact h m ho
    | continued => exact h m ho
    | broken => exact ⟨rfl, fun _ => rfl⟩
    | returned => exact ⟨rfl, fun _ => rfl⟩

/-- A loop over values is local if its body is. -/
theorem Run.IsLocal.forEach {body : Value → Run} (hbody : ∀ v, (body v).IsLocal)
    (vs : List Value) : (Run.forEach body vs).IsLocal := by
  induction vs with
  | nil => exact fun m _ => ⟨rfl, fun _ => rfl⟩
  | cons v vs ih =>
    intro m h
    obtain ⟨hlength, hround⟩ := hbody v m h
    obtain ⟨hrest, hagain⟩ := ih.afterRound (ne_nil_of_length_eq hlength h)
    refine ⟨?_, fun s => ?_⟩
    · rw [Run.forEach_cons]
      exact hrest.trans hlength
    · rw [Run.forEach_cons, Run.forEach_cons, hround]
      exact hagain s

theorem Run.IsLocal.bind {run : Run} (hrun : run.IsLocal) (name : String) (value : Value) :
    Run.IsLocal fun m => run (m.bind name value) := by
  intro m h
  have hbound := (extends_bind m name value).frames
  obtain ⟨hlength, haround⟩ := hrun (m.bind name value) (ne_nil_of_length_eq hbound h)
  refine ⟨hlength.trans hbound, fun s => ?_⟩
  dsimp only
  rw [bind_around h, haround]

/-- A loop under a condition is local if its body is. -/
theorem Run.IsLocal.whileHolds {body : Run} (hbody : body.IsLocal) (condition : Text)
    (line : Line) (warning : String) (n : Nat) :
    (Run.whileHolds (fun m => m.condition condition line) body warning n).IsLocal := by
  induction n with
  | zero =>
    intro m h
    refine ⟨?_, fun s => ?_⟩
    · rw [Run.whileHolds]
      split <;> rfl
    · rw [Run.whileHolds, Run.whileHolds, condition_around h, print_around]
      split <;> rfl
  | succ n ih =>
    intro m h
    cases hholds : m.condition condition line with
    | error failure =>
      refine ⟨?_, fun s => ?_⟩
      · rw [Run.whileHolds, hholds]
      · rw [Run.whileHolds, Run.whileHolds, condition_around h, hholds]
        rfl
    | ok holds =>
      cases holds with
      | false =>
        refine ⟨?_, fun s => ?_⟩
        · rw [Run.whileHolds, hholds]
        · rw [Run.whileHolds, Run.whileHolds, condition_around h, hholds]
          rfl
      | true =>
        have hunroll {m : Machine} (h : m.condition condition line = .ok true) :=
          @Run.whileHolds_succ (fun m => m.condition condition line) m h body warning n
        obtain ⟨hlength, hround⟩ := hbody m h
        obtain ⟨hrest, hagain⟩ := ih.afterRound (ne_nil_of_length_eq hlength h)
        refine ⟨?_, fun s => ?_⟩
        · rw [hunroll hholds]
          exact hrest.trans hlength
        · have hholds' : (s.around m).condition condition line = .ok true :=
            (condition_around h condition line).trans hholds
          rw [hunroll hholds, hunroll hholds', hround]
          exact hagain s

/-- A run in a loop is local if it is by itself. -/
theorem Run.IsLocal.inLoop {run : Run} (hrun : run.IsLocal) : (Run.inLoop run).IsLocal := by
  intro m h
  obtain ⟨hlength, haround⟩ := hrun { m with loopDepth := m.loopDepth + 1 } h
  refine ⟨hlength, fun s => ?_⟩
  have hrun : run { s.around m with loopDepth := m.loopDepth + 1 } =
      s.outcome (run { m with loopDepth := m.loopDepth + 1 }) := haround s
  rw [Run.inLoop, Run.inLoop]
  exact hrun ▸ rfl

/-! ## Calls -/

/-- What a machine takes over from a call that was made elsewhere: the lines that it
printed and the functions that are defined then. -/
def Machine.adopt {α : Type} (m : Machine) (o : Outcome α) : Outcome α :=
  ({ m with output := m.output ++ o.1.output, functions := o.1.functions }, o.2)

/-- What is taken over from elsewhere may be taken over in any surroundings. -/
theorem adopt_around {α : Type} (o : Outcome α) :
    (s.around m).adopt o = s.outcome (m.adopt o) := by
  simp only [Machine.adopt, Surroundings.outcome, Surroundings.around, Array.append_assoc]

/-- Where nothing was printed or defined, nothing is taken over. -/
theorem adopt_unchanged {α : Type} (m : Machine) (result : Except Failure α) :
    m.adopt ({ functions := m.functions }, result) = (m, result) := by
  rw [Machine.adopt, Array.append_empty]

/-- What is run in a call is run as if nothing were around it. -/
theorem Run.IsLocal.inCall {run : Run} (hrun : run.IsLocal) (frame : Scope) (m : Machine) :
    Run.inCall frame run m = m.adopt (Run.inCall frame run { functions := m.functions }) := by
  -- The machine in the call is one that has the frame of the call alone, with all else around.
  obtain ⟨hlength, haround⟩ :=
    hrun { frames := [frame], functions := m.functions } (List.cons_ne_nil _ _)
  have hrun : run { m with frames := frame :: m.frames, loopDepth := 0 } =
      Surroundings.outcome ⟨m.output, m.globals, m.frames⟩
        (run { frames := [frame], functions := m.functions }) := by
    rw [← haround]
    simp [Surroundings.around]
  obtain ⟨inner, hinner⟩ := List.length_eq_one_iff.mp hlength
  rw [Run.inCall, Run.inCall, hrun]
  simp [Surroundings.outcome, Surroundings.around, Machine.adopt, hinner]

/-- How functions are entered is local if their bodies are run locally. -/
def Entry.IsLocal (entry : Entry) : Prop :=
  ∀ run body, entry = some run → (run body).IsLocal

/-- A call with arguments that have values. -/
def Machine.callWith (entry : Entry) (name : String) (vs : List Value) (line : Nat)
    (m : Machine) : Outcome Unit :=
  match m.functions.get? name with
  | none => m.callBuiltin name vs line
  | some f => enter entry f name vs line m

/-- A call is made as in a machine that has nothing but the functions, and what it leaves is
taken over. -/
theorem callWith_eq_adopt {entry : Entry} (hentry : entry.IsLocal) (name : String)
    (vs : List Value) (line : Nat) (m : Machine) :
    m.callWith entry name vs line =
      m.adopt (Machine.callWith entry name vs line { functions := m.functions }) := by
  rw [callWith, callWith]
  dsimp only
  split
  next =>
    rw [callBuiltin, callBuiltin]
    split
    next => exact (adopt_unchanged m _).symm
    next => split <;> exact (adopt_unchanged m _).symm
  next f _ =>
    unfold enter
    split
    next => exact (adopt_unchanged m _).symm
    next =>
      split
      next => exact (adopt_unchanged m _).symm
      next run =>
        rw [(hentry run f.body rfl).inCall (f.frame vs) m]
        obtain ⟨c, failure | completion⟩ :=
          Run.inCall (f.frame vs) (run f.body) { functions := m.functions } <;> rfl

/-- **What a call does** depends on its arguments and on the functions that are defined,
and all of it that stays is what it prints and defines. -/
theorem call_eq_adopt {entry : Entry} (hentry : entry.IsLocal) (name : String) (t : Text)
    (line : Nat) (m : Machine) :
    m.call entry name t line =
      m.adopt (Machine.callWith entry name (m.arguments t) line { functions := m.functions }) :=
  callWith_eq_adopt hentry name (m.arguments t) line m

/-- A call in a call does the same in any surroundings. -/
theorem call_around (h : m.frames ≠ []) {entry : Entry} (hentry : entry.IsLocal) (name : String)
    (t : Text) (line : Nat) :
    (s.around m).call entry name t line = s.outcome (m.call entry name t line) := by
  rw [call_eq_adopt hentry, call_eq_adopt hentry, arguments_around h]
  exact adopt_around _

/-! ## Lines -/

/-- A statement inside a call does the same in any surroundings. -/
theorem perform_around (h : m.frames ≠ []) {c : Context} (hentry : c.entry.IsLocal)
    (hblock : ∀ n, (c.block n).IsLocal) (chains : Chains) (line : Line) (rest : List Line)
    (statement : Statement) :
    (s.around m).perform c chains line rest statement =
      s.outcome (m.perform c chains line rest statement) := by
  cases statement with
  | print arguments =>
    rw [perform, perform, scope_around h, print_around]
    rfl
  | define name parameters =>
    rw [perform, perform]
    refine header_around "def" line rest fun n => ?_
    rw [define_around h]
    rfl
  | assign target op value =>
    rw [perform, perform, assign_around h]
    exact after_around line chains _
  | ifHolds condition =>
    exact header_around "if" line rest fun n => branch_around h chains line condition n
  | elseIf condition =>
    rw [perform, perform]
    refine header_around "elif" line rest fun n => ?_
    split
    next => rfl
    next => rfl
    next => exact branch_around h chains line condition n
  | otherwise =>
    rw [perform, perform]
    refine header_around "else" line rest fun n => ?_
    split <;> rfl
  | forEach name iterable =>
    refine header_around "for" line rest fun n => ?_
    rw [Machine.forEach, Machine.forEach, elements_around h]
    split
    next => rfl
    next vs _ =>
      have hloop := Run.IsLocal.forEach (fun v => (hblock n).bind name v) vs
      dsimp only
      rw [(hloop.inLoop m h).2 s, behindLoop_outcome]
  | whileHolds condition =>
    refine header_around "while" line rest fun n => ?_
    have hloop := (hblock n).whileHolds condition line c.limits.warning c.limits.loopCap
    rw [Machine.whileHolds, Machine.whileHolds, (hloop.inLoop m h).2 s, behindLoop_outcome]
  | call name arguments =>
    rw [perform, perform, call_around h hentry]
    obtain ⟨m', failure | ⟨⟩⟩ := m.call c.entry name arguments line.number <;> rfl
  | append list value =>
    rw [perform, perform, append_around h]
    exact after_around line chains _
  | leave value =>
    have hinside : (s.around m).frames ≠ [] := List.append_ne_nil_of_left_ne_nil h _
    rw [perform, perform, if_neg (by simpa using hinside), if_neg (by simpa using h)]
    rfl
  | breakLoop =>
    have hdepth : (s.around m).loopDepth = m.loopDepth := rfl
    rw [perform, perform, hdepth]
    split <;> rfl
  | continueLoop =>
    have hdepth : (s.around m).loopDepth = m.loopDepth := rfl
    rw [perform, perform, hdepth]
    split <;> rfl
  | pass => rfl
  | unrecognized => rfl

/-- A line in a call does the same in any surroundings. -/
theorem runLine_around (h : m.frames ≠ []) {c : Context} (hentry : c.entry.IsLocal)
    (hblock : ∀ n, (c.block n).IsLocal) (chains : Chains) (line : Line) (rest : List Line) :
    (s.around m).runLine c chains line rest = s.outcome (m.runLine c chains line rest) := by
  rw [runLine, runLine]
  split
  next => rfl
  next =>
    split
    next => rfl
    next statement _ => exact perform_around h hentry hblock _ line rest statement

variable {limits : Limits} {room : Nat}

/-- Lines are run locally if functions are entered locally. -/
theorem runLines_isLocal (hentry : (entryWithin limits room).IsLocal) :
    ∀ (chains : Chains) (lines : List Line),
      Run.IsLocal (runLines limits (entryWithin limits room) chains lines)
  | chains, [] => by
    intro m h
    rw [runLines]
    refine ⟨rfl, fun s => ?_⟩
    rw [runLines]
    rfl
  | chains, line :: rest => by
    intro m h
    refine ⟨(Point.run_extends limits ⟨room, chains, line :: rest, m⟩).frames, fun s => ?_⟩
    have hblock (n : Nat) : ((context limits room rest).block n).IsLocal :=
      runLines_isLocal hentry {} (rest.take n)
    have haround : (s.around m).runLine (context limits room rest) chains line rest =
        s.outcome (m.runLine (context limits room rest) chains line rest) :=
      runLine_around h hentry hblock chains line rest
    have hlength : (m.runLine (context limits room rest) chains line rest).1.frames.length =
        m.frames.length := (runLine_extends chains).frames
    change Point.run limits ⟨room, chains, line :: rest, s.around m⟩ =
      s.outcome (Point.run limits ⟨room, chains, line :: rest, m⟩)
    rw [Point.run_cons, Point.run_cons, haround]
    generalize m.runLine (context limits room rest) chains line rest = o at hlength
    obtain ⟨m', failure | ⟨chains', skipped⟩ | completion⟩ := o
    · rfl
    · exact (runLines_isLocal hentry chains' (rest.drop skipped) m'
        (ne_nil_of_length_eq hlength h)).2 s
    · rfl
termination_by _ lines => lines.length
decreasing_by all_goals simp only [List.length_take, List.length_drop, List.length_cons]; omega

/-- **Inside a call** a run sees nothing of what is around the call. -/
theorem runWithin_isLocal (limits : Limits) (room : Nat) (lines : List Line) :
    (runWithin limits room lines).IsLocal := by
  -- A body is run with room for one call less, so that calls of calls need no more than this.
  induction room generalizing lines with
  | zero => exact @runLines_isLocal limits 0 (fun _ _ h => nomatch h) {} lines
  | succ room ih =>
    rw [runWithin_eq]
    refine runLines_isLocal (fun run body h => ?_) {} lines
    cases h
    exact ih body

end Offside
