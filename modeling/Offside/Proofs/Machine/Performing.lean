import Offside.Machine.Run

/-!
# What a statement does

There are fifteen kinds of statements and many reasons to fail, but few things that a line
can do. It fails and leaves the machine as it was; it changes the machine in one way and
goes on behind some of the lines that follow; or it ends the run of its lines. Only a loop
and a call run other lines, and what these do is not looked into here. `Performs` lists it
all, and what is shown of lines elsewhere is shown by this list:

> `runLine_performs`: a line that is not blank and is a statement does what its statement
> does, and any other does nothing or fails.
-/

namespace Offside.Machine

/-- What a statement does on its line. -/
inductive Performs (context : Context) (chains : Chains) (line : Line) (rest : List Line)
    (m : Machine) : Statement → Outcome Next → Prop
  | fails {statement : Statement} {failure : Failure} (hfailure : failure.line = line.number) :
      Performs context chains line rest m statement (m, .error failure)
  | skips {statement : Statement} {n : Nat} (hn : n ≤ rest.length) :
      Performs context chains line rest m statement (m, .ok (.goOn chains n))
  | opens {statement : Statement} {n : Nat} (taken : Bool) (hn : n ≤ rest.length) :
      Performs context chains line rest m statement
        (m, .ok (.goOn (chains.set line.indent taken) n))
  | closes {n : Nat} (hn : n ≤ rest.length) :
      Performs context chains line rest m .otherwise (m, .ok (.goOn (chains.close line.indent) n))
  | prints {arguments : Text} :
      Performs context chains line rest m (.print arguments)
        (m.print (printedLine m.scope arguments), .ok (.goOn chains 0))
  | defines {name : String} {parameters : List String} (hblock : blockLength line.indent rest ≠ 0) :
      Performs context chains line rest m (.define name parameters)
        (m.define name parameters (rest.take (blockLength line.indent rest)),
          .ok (.goOn chains (blockLength line.indent rest)))
  | assigns {target : Target} {op : Option ArithOp} {value : Text} {m' : Machine}
      (hassign : m.assign target op value = .ok m') :
      Performs context chains line rest m (.assign target op value) (m', .ok (.goOn chains 0))
  | appends {list : String} {value : Text} {m' : Machine}
      (happend : m.append list value = .ok m') :
      Performs context chains line rest m (.append list value) (m', .ok (.goOn chains 0))
  | forEach {name : String} {iterable : Text} {vs : List Value}
      (hblock : blockLength line.indent rest ≠ 0) (helements : m.elements iterable = .ok vs) :
      Performs context chains line rest m (.forEach name iterable)
        (behindLoop chains (blockLength line.indent rest) (Run.inLoop (Run.forEach (fun v m =>
          context.block (blockLength line.indent rest) (m.bind name v)) vs) m))
  | whileHolds {condition : Text} (hblock : blockLength line.indent rest ≠ 0) :
      Performs context chains line rest m (.whileHolds condition)
        (behindLoop chains (blockLength line.indent rest) (Run.inLoop
          (Run.whileHolds (fun m => m.condition condition line)
            (context.block (blockLength line.indent rest)) context.limits.warning
            context.limits.loopCap) m))
  | callFails {name : String} {arguments : Text} {m' : Machine} {failure : Failure}
      (hcall : m.call context.entry name arguments line.number = (m', .error failure)) :
      Performs context chains line rest m (.call name arguments) (m', .error failure)
  | calls {name : String} {arguments : Text} {m' : Machine}
      (hcall : m.call context.entry name arguments line.number = (m', .ok ())) :
      Performs context chains line rest m (.call name arguments) (m', .ok (.goOn chains 0))
  | leaves {value : Option Text} (hframes : m.frames ≠ []) :
      Performs context chains line rest m (.leave value) (m, .ok (.exit .returned))
  | breaks (hdepth : m.loopDepth ≠ 0) :
      Performs context chains line rest m .breakLoop (m, .ok (.exit .broken))
  | continues (hdepth : m.loopDepth ≠ 0) :
      Performs context chains line rest m .continueLoop (m, .ok (.exit .continued))

variable {context : Context} {chains : Chains} {line : Line} {rest : List Line} {m : Machine}
  {statement : Statement}

theorem condition_line {condition : Text} {failure : Failure}
    (h : m.condition condition line = .error failure) : failure.line = line.number := by
  rw [Machine.condition] at h
  split at h
  next => cases h; rfl
  next => cases h

/-- A statement that changes the machine goes on behind its line. -/
theorem after_performs {changed : Except Fault Machine}
    (h : ∀ m', changed = .ok m' →
      Performs context chains line rest m statement (m', .ok (.goOn chains 0))) :
    Performs context chains line rest m statement (m.after line chains changed) := by
  cases changed with
  | error fault => exact .fails rfl
  | ok m' => exact h m' rfl

/-- A header without a block fails, so only its run is left to look at. -/
theorem header_performs {keyword : String} {run : Nat → Outcome Next}
    (h : blockLength line.indent rest ≠ 0 →
      Performs context chains line rest m statement (run (blockLength line.indent rest))) :
    Performs context chains line rest m statement (m.header keyword line rest run) := by
  rw [header]
  split
  next => exact .fails rfl
  next n hlength =>
    rw [hlength] at h
    exact h (Nat.succ_ne_zero n)

/-- A branch goes on with its block or behind it. -/
theorem branch_performs (condition : Text) {length : Nat} (hlength : length ≤ rest.length) :
    Performs context chains line rest m statement (m.branch chains line condition length) := by
  rw [branch]
  split
  next failure hcondition => exact .fails (condition_line hcondition)
  next taken _ =>
    refine .opens taken ?_
    split <;> omega

/-- Whatever a statement is, it does one of these. -/
theorem perform_performs (m : Machine) (context : Context) (chains : Chains) (line : Line)
    (rest : List Line) (statement : Statement) :
    Performs context chains line rest m statement
      (m.perform context chains line rest statement) := by
  have hlength := blockLength_le line.indent rest
  cases statement with
  | print arguments => exact .prints
  | define name parameters =>
    rw [perform]
    exact header_performs fun hblock => .defines hblock
  | assign target op value => exact after_performs fun _ hassign => .assigns hassign
  | ifHolds condition => exact header_performs fun _ => branch_performs condition hlength
  | elseIf condition =>
    rw [perform]
    refine header_performs fun _ => ?_
    split
    next => exact .fails rfl
    next => exact .skips hlength
    next => exact branch_performs condition hlength
  | otherwise =>
    rw [perform]
    refine header_performs fun _ => ?_
    split
    next => exact .fails rfl
    next => exact .closes hlength
    next => exact .closes (Nat.zero_le _)
  | forEach name iterable =>
    refine header_performs fun hblock => ?_
    rw [Machine.forEach]
    split
    next => exact .fails rfl
    next vs helements => exact .forEach hblock helements
  | whileHolds condition => exact header_performs fun hblock => .whileHolds hblock
  | call name arguments =>
    rw [perform]
    split
    next hcall => exact .callFails hcall
    next hcall => exact .calls hcall
  | append list value => exact after_performs fun _ happend => .appends happend
  | leave value =>
    rw [perform]
    split
    next => exact .fails rfl
    next hframes => exact .leaves (by simpa using hframes)
  | breakLoop =>
    rw [perform]
    split
    next => exact .fails rfl
    next hdepth => exact .breaks hdepth
  | continueLoop =>
    rw [perform]
    split
    next => exact .fails rfl
    next hdepth => exact .continues hdepth
  | pass => exact .skips (Nat.zero_le _)
  | unrecognized => exact .skips (Nat.zero_le _)

/-- **What a line does.** A blank line does nothing, one that is no statement fails, and
any other does what its statement does. -/
theorem runLine_performs (m : Machine) (context : Context) (chains : Chains) (line : Line)
    (rest : List Line) :
    (line.isBlank = true ∧ m.runLine context chains line rest = (m, .ok (.goOn chains 0))) ∨
    (∃ failure, failure.line = line.number ∧
      m.runLine context chains line rest = (m, .error failure)) ∨
    ∃ statement, line.isBlank = false ∧ classify line.text = .ok statement ∧
      Performs context (chains.below (if statement.isBranch then line.indent + 1 else line.indent))
        line rest m statement (m.runLine context chains line rest) := by
  rw [runLine]
  split
  next hblank => exact .inl ⟨hblank, rfl⟩
  next hblank =>
    split
    next fault _ => exact .inr (.inl ⟨_, rfl, rfl⟩)
    next statement hclass =>
      refine .inr (.inr ⟨statement, by simpa using hblank, hclass, ?_⟩)
      exact perform_performs m context _ line rest statement

end Offside.Machine
