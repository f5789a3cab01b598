import Mathlib.Data.List.Forall2
import Offside.Proofs.Machine.Surroundings

/-!
# Runs that are alike

Two runs may differ in their lines and in the functions that are defined, and still
do the same. A `Likeness` says which lines, which functions and which tables of functions
count as alike. From there it goes up: machines are alike if they differ in such a table
at most, failures if they have the same cause at lines that are alike, and runs if they
take machines that are alike to outcomes that are alike.

What a line does is carried over once, statement by statement:

> `Likeness.runLine`: on lines that are alike, in front of blocks whose runs are
> alike, machines that are alike have outcomes that are alike.

How two lists of lines are walked through side by side depends on the likeness, which says
by `Chains.Matched` how the tables of open chains go together. Where lines are compared one
by one, the walk is the same for all:

> `Likeness.Linewise.runUnder`: programs whose lines are alike one by one are run alike.
-/

namespace Offside

open Machine

/-- Each name stands for items that `r` relates, or for nothing in both. In what order the
names were bound does not matter. -/
def Bindings.Rel {α β : Type} (r : α → β → Prop) (b : Bindings α) (b' : Bindings β) : Prop :=
  ∀ name, Option.Rel r (b.get? name) (b'.get? name)

/-- Binding a name on both sides to items that are related. -/
theorem Bindings.Rel.insert {α β : Type} {r : α → β → Prop} {b : Bindings α} {b' : Bindings β}
    {item : α} {item' : β} (h : b.Rel r b') (hitem : r item item') (name : String) :
    (b.insert name item).Rel r (b'.insert name item') := by
  intro other
  rw [get?_insert, get?_insert]
  split
  next => exact .some hitem
  next => exact h other

/-- The same names are bound on both sides. -/
theorem Bindings.Rel.contains_eq {α β : Type} {r : α → β → Prop} {b : Bindings α}
    {b' : Bindings β} (h : b.Rel r b') (name : String) : b'.contains name = b.contains name := by
  have hitem := h name
  rw [contains, contains]
  generalize b.get? name = found, b'.get? name = found' at hitem ⊢
  cases hitem <;> rfl

/-- Which lines, which functions and which tables of functions count as alike. Functions
that are alike take the same parameters and were defined in the same scope. Tables that are
alike have functions that are alike under each name, and stay alike when such functions
are added. -/
structure Likeness where
  line : Line → Line → Prop
  function : Function → Function → Prop
  table : FunctionTable → FunctionTable → Prop
  parameters_eq : ∀ {f f' : Function}, function f f' → f'.parameters = f.parameters
  captured_eq : ∀ {f f' : Function}, function f f' → f'.captured = f.captured
  rel : ∀ {b b' : FunctionTable}, table b b' → b.Rel function b'
  insert : ∀ {b b' : FunctionTable} {f f' : Function}, table b b' → function f f' →
    ∀ name, table (b.insert name f) (b'.insert name f')

/-- Ways in which tables of open chains go together, for indentations that do: what
the tables say of these is the same, and changing them there keeps them together. -/
structure Chains.Matched (indents : Nat → Nat → Prop) (tables : Chains → Chains → Prop) :
    Prop where
  taken?_eq : ∀ {c c' i i'}, tables c c' → indents i i' → c'.taken? i' = c.taken? i
  set : ∀ {c c' i i'}, tables c c' → indents i i' →
    ∀ taken, tables (c.set i taken) (c'.set i' taken)
  close : ∀ {c c' i i'}, tables c c' → indents i i' → tables (c.close i) (c'.close i')
  below : ∀ {c c' i i'}, tables c c' → indents i i' → tables (c.below i) (c'.below i')
  below_succ : ∀ {c c' i i'}, tables c c' → indents i i' →
    tables (c.below (i + 1)) (c'.below (i' + 1))

namespace Likeness

variable (k : Likeness)

/-- Two machines with the same scopes, which have printed the same and have tables of
functions that are alike. -/
structure Machines (m m' : Machine) : Prop where
  output_eq : m'.output = m.output
  globals_eq : m'.globals = m.globals
  frames_eq : m'.frames = m.frames
  loopDepth_eq : m'.loopDepth = m.loopDepth
  functions : k.table m.functions m'.functions

/-- Two failures with the same cause, at lines that are alike. -/
inductive Failures : Failure → Failure → Prop
  | malformed {line line' : Line} (fault : SyntaxFault) (h : k.line line line') :
      Failures (.malformed fault line.number) (.malformed fault line'.number)
  | runtime {line line' : Line} (fault : Fault) (h : k.line line line') :
      Failures (.runtime fault line.number) (.runtime fault line'.number)

/-- Two results that are alike: values that `values` relates, or failures. -/
inductive Results {α : Type} (values : α → α → Prop) : Except Failure α → Except Failure α → Prop
  | ok {a a' : α} (h : values a a') : Results values (.ok a) (.ok a')
  | error {failure failure' : Failure} (h : k.Failures failure failure') :
      Results values (.error failure) (.error failure')

/-- Two outcomes that are alike, in the machine and in the result. -/
inductive Outcomes {α : Type} (values : α → α → Prop) : Outcome α → Outcome α → Prop
  | intro {m m' : Machine} {r r' : Except Failure α} (hm : k.Machines m m')
      (hr : k.Results values r r') : Outcomes values (m, r) (m', r')

/-- Two runs that take machines which are alike to outcomes which are alike. -/
def Runs (run run' : Run) : Prop :=
  ∀ ⦃m m' : Machine⦄, k.Machines m m' → k.Outcomes Eq (run m) (run' m')

/-- Two ways of entering functions that run the bodies of functions alike. -/
inductive Entries : Entry → Entry → Prop
  | none : Entries none none
  | some {run run' : List Line → Run}
      (h : ∀ f f', k.function f f' → k.Runs (run f.body) (run' f'.body)) :
      Entries (some run) (some run')

/-- Two ways of changing a machine that agree in their faults. -/
inductive Changes : Except Fault Machine → Except Fault Machine → Prop
  | ok {m m' : Machine} (hm : k.Machines m m') : Changes (.ok m) (.ok m')
  | error (fault : Fault) : Changes (.error fault) (.error fault)

variable {k} {m m' : Machine}

/-- Results that are alike are the same value, or failures that are alike. -/
theorem Results.eq_ok_or_error {α : Type} {r r' : Except Failure α} (h : k.Results Eq r r') :
    (∃ a, r = .ok a ∧ r' = .ok a) ∨
      ∃ failure failure', r = .error failure ∧ r' = .error failure' ∧
        k.Failures failure failure' := by
  cases h with
  | ok heq => exact .inl ⟨_, rfl, congrArg _ heq.symm⟩
  | error hf => exact .inr ⟨_, _, rfl, rfl, hf⟩

/-- Failures that are alike are the same where lines that are alike have the same number. -/
theorem Results.eq_of_number {α : Type} {r r' : Except Failure α} (h : k.Results Eq r r')
    (hnumber : ∀ {line line' : Line}, k.line line line' → line'.number = line.number) :
    r' = r := by
  rcases h.eq_ok_or_error with ⟨a, hr, hr'⟩ | ⟨failure, failure', hr, hr', hfailure⟩
  · rw [hr, hr']
  · rw [hr, hr']
    cases hfailure with
    | malformed fault hline => rw [hnumber hline]
    | runtime fault hline => rw [hnumber hline]

/-! ## Machines -/

/-- The active scope is the same. -/
theorem Machines.scope_eq (h : k.Machines m m') : m'.scope = m.scope := by
  rw [scope, scope, h.frames_eq, h.globals_eq]

theorem Machines.bind (h : k.Machines m m') (name : String) (value : Value) :
    k.Machines (m.bind name value) (m'.bind name value) := by
  rw [Machine.bind, Machine.bind, h.frames_eq, h.globals_eq]
  cases m.frames with
  | nil => exact ⟨h.output_eq, rfl, rfl, h.loopDepth_eq, h.functions⟩
  | cons frame outer => exact ⟨h.output_eq, rfl, rfl, h.loopDepth_eq, h.functions⟩

theorem Machines.print (h : k.Machines m m') (line : String) :
    k.Machines (m.print line) (m'.print line) := by
  refine { h with output_eq := ?_ }
  show m'.output.push line = m.output.push line
  rw [h.output_eq]

/-- Defining functions that are alike keeps machines alike. -/
theorem Machines.define (h : k.Machines m m') (name : String) (parameters : List String)
    {body body' : List Line}
    (hf : ∀ captured,
      k.function ⟨name, parameters, body, captured⟩ ⟨name, parameters, body', captured⟩) :
    k.Machines (m.define name parameters body) (m'.define name parameters body') := by
  have hbound := h.bind name (.function name)
  refine { hbound with functions := ?_ }
  show k.table (Bindings.insert _ name _) (Bindings.insert _ name _)
  rw [hbound.scope_eq]
  exact k.insert hbound.functions (hf _) name

theorem Machines.arguments_eq (h : k.Machines m m') (t : Text) :
    m'.arguments t = m.arguments t := by
  rw [arguments, arguments, h.scope_eq]

theorem Machines.elements_eq (h : k.Machines m m') (t : Text) : m'.elements t = m.elements t := by
  rw [elements, elements, h.scope_eq]

/-- A condition has the same truth in both, or fails in both for the same reason. -/
theorem Machines.condition (h : k.Machines m m') {line line' : Line} (hline : k.line line line')
    (t : Text) : k.Results Eq (m.condition t line) (m'.condition t line') := by
  rw [Machine.condition, Machine.condition, h.scope_eq]
  split
  next fault _ => exact .error (.runtime fault hline)
  next => exact .ok rfl

/-- Storing a value changes both in the same way, or neither. -/
theorem Machines.store (h : k.Machines m m') (target : Target) (value : Value) :
    k.Changes (m.store target value) (m'.store target value) := by
  cases target with
  | name n => exact .ok (h.bind n value)
  | element n index =>
    rw [Machine.store, Machine.store, h.scope_eq]
    split
    next fault _ => exact .error fault
    next =>
      split
      next => exact .error _
      next elements _ =>
        split
        next => exact .error _
        next p _ => exact .ok (h.bind n (.list (elements.set p value)))
      next => exact .error _

/-- An assignment changes both in the same way, or neither. -/
theorem Machines.assign (h : k.Machines m m') (target : Target) (op : Option ArithOp)
    (value : Text) : k.Changes (m.assign target op value) (m'.assign target op value) := by
  have hvalue : m'.assignedValue target op value = m.assignedValue target op value := by
    unfold assignedValue
    rw [h.scope_eq]
  rw [Machine.assign, Machine.assign, hvalue]
  split
  next fault _ => exact .error fault
  next v _ => exact h.store target v

/-- An append changes both in the same way, or neither. -/
theorem Machines.append (h : k.Machines m m') (list : String) (value : Text) :
    k.Changes (m.append list value) (m'.append list value) := by
  rw [Machine.append, Machine.append, h.scope_eq]
  split
  next => exact .error _
  next elements _ => exact .ok (h.bind list _)
  next => exact .error _

/-! ## Loops -/

theorem Runs.bind {run run' : Run} (h : k.Runs run run') (name : String) (value : Value) :
    k.Runs (fun m => run (m.bind name value)) fun m => run' (m.bind name value) :=
  fun _ _ hm => h (hm.bind name value)

/-- What a loop makes of rounds that are alike is alike. -/
theorem Outcomes.afterRound {o o' : Outcome Completion} (h : k.Outcomes Eq o o')
    {again again' : Run} (hagain : k.Runs again again') :
    k.Outcomes Eq (Run.afterRound again o) (Run.afterRound again' o') := by
  obtain ⟨hm, hr⟩ := h
  cases hr with
  | error hf => exact .intro hm (.error hf)
  | @ok completion _ hcompletion =>
    subst hcompletion
    cases completion with
    | finished => exact hagain hm
    | continued => exact hagain hm
    | broken => exact .intro hm (.ok rfl)
    | returned => exact .intro hm (.ok rfl)

/-- Loops over the same values are alike if their bodies are. -/
theorem Runs.forEach {body body' : Value → Run} (h : ∀ v, k.Runs (body v) (body' v))
    (vs : List Value) : k.Runs (Run.forEach body vs) (Run.forEach body' vs) := by
  induction vs with
  | nil => exact fun m m' hm => .intro hm (.ok rfl)
  | cons v vs ih =>
    intro m m' hm
    rw [Run.forEach_cons, Run.forEach_cons]
    exact (h v hm).afterRound ih

/-- Loops under a condition are alike if their conditions and bodies are. -/
theorem Runs.whileHolds {condition condition' : Machine → Except Failure Bool} {body body' : Run}
    (hcondition : ∀ ⦃m m'⦄, k.Machines m m' → k.Results Eq (condition m) (condition' m'))
    (hbody : k.Runs body body') (warning : String) (n : Nat) :
    k.Runs (Run.whileHolds condition body warning n)
      (Run.whileHolds condition' body' warning n) := by
  induction n with
  | zero =>
    intro m m' hm
    rw [Run.whileHolds, Run.whileHolds]
    rcases (hcondition hm).eq_ok_or_error with
      ⟨holds, hc, hc'⟩ | ⟨failure, failure', hc, hc', hf⟩
    · rw [hc, hc']
      cases holds with
      | false => exact .intro hm (.ok rfl)
      | true => exact .intro (hm.print warning) (.ok rfl)
    · rw [hc, hc']
      exact .intro hm (.error hf)
  | succ n ih =>
    intro m m' hm
    rcases (hcondition hm).eq_ok_or_error with
      ⟨holds, hc, hc'⟩ | ⟨failure, failure', hc, hc', hf⟩
    · cases holds with
      | false =>
        rw [Run.whileHolds, Run.whileHolds, hc, hc']
        exact .intro hm (.ok rfl)
      | true =>
        rw [Run.whileHolds_succ hc, Run.whileHolds_succ hc']
        exact (hbody hm).afterRound ih
    · rw [Run.whileHolds, Run.whileHolds, hc, hc']
      exact .intro hm (.error hf)

/-- Being in a loop makes no difference between runs that are alike. -/
theorem Runs.inLoop {run run' : Run} (h : k.Runs run run') :
    k.Runs (Run.inLoop run) (Run.inLoop run') := by
  intro m m' hm
  have hinside : k.Machines { m with loopDepth := m.loopDepth + 1 }
      { m' with loopDepth := m'.loopDepth + 1 } := by
    refine { hm with loopDepth_eq := ?_ }
    show m'.loopDepth + 1 = m.loopDepth + 1
    rw [hm.loopDepth_eq]
  have hrun := h hinside
  rw [Run.inLoop, Run.inLoop]
  generalize run { m with loopDepth := m.loopDepth + 1 } = o,
    run' { m' with loopDepth := m'.loopDepth + 1 } = o' at hrun
  obtain ⟨hafter, hr⟩ := hrun
  refine .intro { hafter with loopDepth_eq := ?_ } hr
  show _ - 1 = _ - 1
  rw [hafter.loopDepth_eq]

/-! ## Calls -/

/-- Being in a call makes no difference between runs that are alike. -/
theorem Runs.inCall {run run' : Run} (h : k.Runs run run') (frame : Scope) :
    k.Runs (Run.inCall frame run) (Run.inCall frame run') := by
  intro m m' hm
  have hinside : k.Machines { m with frames := frame :: m.frames, loopDepth := 0 }
      { m' with frames := frame :: m'.frames, loopDepth := 0 } := by
    refine { hm with frames_eq := ?_, loopDepth_eq := rfl }
    show frame :: m'.frames = frame :: m.frames
    rw [hm.frames_eq]
  have hrun := h hinside
  rw [Run.inCall, Run.inCall]
  generalize run { m with frames := frame :: m.frames, loopDepth := 0 } = o,
    run' { m' with frames := frame :: m'.frames, loopDepth := 0 } = o' at hrun
  obtain ⟨hafter, hr⟩ := hrun
  refine .intro { hafter with frames_eq := ?_, loopDepth_eq := hm.loopDepth_eq } hr
  show List.tail _ = List.tail _
  rw [hafter.frames_eq]

/-- Functions that are alike run in the same scope. -/
theorem frame_eq {f f' : Function} (h : k.function f f') (vs : List Value) :
    f'.frame vs = f.frame vs := by
  rw [Function.frame, Function.frame, k.parameters_eq h, k.captured_eq h]

/-- A builtin function sees its arguments only. -/
theorem Machines.callBuiltin (h : k.Machines m m') {line line' : Line}
    (hline : k.line line line') (name : String) (vs : List Value) :
    k.Outcomes Eq (m.callBuiltin name vs line.number) (m'.callBuiltin name vs line'.number) := by
  rw [Machine.callBuiltin, Machine.callBuiltin]
  split
  next => exact .intro h (.error (.runtime _ hline))
  next =>
    split
    next => exact .intro h (.error (.runtime _ hline))
    next => exact .intro h (.ok rfl)

/-- Entering functions that are alike is alike. -/
theorem Entries.enter {entry entry' : Entry} (hentry : k.Entries entry entry') {f f' : Function}
    (hf : k.function f f') {line line' : Line} (hline : k.line line line') (hm : k.Machines m m')
    (name : String) (vs : List Value) :
    k.Outcomes Eq (enter entry f name vs line.number m)
      (enter entry' f' name vs line'.number m') := by
  unfold Machine.enter
  rw [k.parameters_eq hf, frame_eq hf]
  split
  next => exact .intro hm (.error (.runtime _ hline))
  next =>
    cases hentry with
    | none => exact .intro hm (.error (.runtime _ hline))
    | @some run run' hbody =>
      have hcall := (hbody f f' hf).inCall (f.frame vs) hm
      dsimp only
      generalize Run.inCall (f.frame vs) (run f.body) m = o,
        Run.inCall (f.frame vs) (run' f'.body) m' = o' at hcall ⊢
      obtain ⟨hafter, hr⟩ := hcall
      cases hr with
      | error hfailure => exact .intro hafter (.error hfailure)
      | ok => exact .intro hafter (.ok rfl)

/-- A call goes by name, so it is alike where the functions of that name are. -/
theorem Entries.callWith {entry entry' : Entry} (hentry : k.Entries entry entry')
    {line line' : Line} (hline : k.line line line') (hm : k.Machines m m') (name : String)
    (vs : List Value) :
    k.Outcomes Eq (m.callWith entry name vs line.number)
      (m'.callWith entry' name vs line'.number) := by
  rw [Machine.callWith, Machine.callWith]
  have hfunction := k.rel hm.functions name
  generalize m.functions.get? name = found, m'.functions.get? name = found' at hfunction ⊢
  cases hfunction with
  | none => exact hm.callBuiltin hline name vs
  | some hf => exact hentry.enter hf hline hm name vs

/-- A call has the same arguments in both machines, so it is alike. -/
theorem Entries.call {entry entry' : Entry} (hentry : k.Entries entry entry') {line line' : Line}
    (hline : k.line line line') (hm : k.Machines m m') (name : String) (t : Text) :
    k.Outcomes Eq (m.call entry name t line.number) (m'.call entry' name t line'.number) := by
  show k.Outcomes Eq (m.callWith entry name (m.arguments t) line.number)
    (m'.callWith entry' name (m'.arguments t) line'.number)
  rw [hm.arguments_eq]
  exact hentry.callWith hline hm name (m.arguments t)

/-! ## Lines -/

/-- Two places to go on: with the next line, or behind blocks of these lengths. -/
inductive Nexts (tables : Chains → Chains → Prop) (n n' : Nat) : Next → Next → Prop
  | next {c c' : Chains} (h : tables c c') : Nexts tables n n' (.goOn c 0) (.goOn c' 0)
  | behind {c c' : Chains} (h : tables c c') : Nexts tables n n' (.goOn c n) (.goOn c' n')
  | exit (completion : Completion) : Nexts tables n n' (.exit completion) (.exit completion)

/-- Two headers with what follows them: both have a block or none has, and the blocks
make functions that are alike, and are run alike. -/
structure Blocks (k : Likeness) (block block' : Nat → Run) (line line' : Line)
    (rest rest' : List Line) : Prop where
  empty_iff : blockLength line'.indent rest' = 0 ↔ blockLength line.indent rest = 0
  functions : ∀ name parameters captured,
    k.function ⟨name, parameters, rest.take (blockLength line.indent rest), captured⟩
      ⟨name, parameters, rest'.take (blockLength line'.indent rest'), captured⟩
  runs : k.Runs (block (blockLength line.indent rest)) (block' (blockLength line'.indent rest'))

variable {indents : Nat → Nat → Prop} {tables : Chains → Chains → Prop} {chains chains' : Chains}
  {line line' : Line} {rest rest' : List Line}

/-- A line that changes the machine or fails does so alike. -/
theorem Changes.after {changed changed' : Except Fault Machine} (h : k.Changes changed changed')
    (hm : k.Machines m m') (hline : k.line line line') (hchains : tables chains chains')
    (n n' : Nat) :
    k.Outcomes (Nexts tables n n') (m.after line chains changed)
      (m'.after line' chains' changed') := by
  cases h with
  | ok hafter => exact .intro hafter (.ok (.next hchains))
  | error fault => exact .intro hm (.error (.runtime fault hline))

/-- Runs go on alike behind loops that are alike. -/
theorem Outcomes.behindLoop {o o' : Outcome Completion} (h : k.Outcomes Eq o o')
    (hchains : tables chains chains') (n n' : Nat) :
    k.Outcomes (Nexts tables n n') (behindLoop chains n o) (behindLoop chains' n' o') := by
  obtain ⟨hm, hr⟩ := h
  cases hr with
  | error hf => exact .intro hm (.error hf)
  | @ok completion _ heq =>
    subst heq
    cases completion with
    | returned => exact .intro hm (.ok (.exit .returned))
    | finished => exact .intro hm (.ok (.behind hchains))
    | broken => exact .intro hm (.ok (.behind hchains))
    | continued => exact .intro hm (.ok (.behind hchains))

/-- A header with a condition is alike in both. -/
theorem Machines.branch (hm : k.Machines m m') (hline : k.line line line')
    (hchains : ∀ taken, tables (chains.set line.indent taken) (chains'.set line'.indent taken))
    (condition : Text) (n n' : Nat) :
    k.Outcomes (Nexts tables n n') (m.branch chains line condition n)
      (m'.branch chains' line' condition n') := by
  rw [Machine.branch, Machine.branch]
  rcases (hm.condition hline condition).eq_ok_or_error with
    ⟨taken, hc, hc'⟩ | ⟨failure, failure', hc, hc', hf⟩
  · rw [hc, hc']
    cases taken with
    | false => exact .intro hm (.ok (.behind (hchains false)))
    | true => exact .intro hm (.ok (.next (hchains true)))
  · rw [hc, hc']
    exact .intro hm (.error hf)

/-- A header lacks its block in both, or in neither. -/
theorem Blocks.header {block block' : Nat → Run}
    (hblocks : Blocks k block block' line line' rest rest') (hm : k.Machines m m')
    (hline : k.line line line') (keyword : String) {run run' : Nat → Outcome Next}
    (hrun : k.Outcomes
      (Nexts tables (blockLength line.indent rest) (blockLength line'.indent rest'))
      (run (blockLength line.indent rest)) (run' (blockLength line'.indent rest'))) :
    k.Outcomes (Nexts tables (blockLength line.indent rest) (blockLength line'.indent rest'))
      (m.header keyword line rest run) (m'.header keyword line' rest' run') := by
  by_cases hempty : blockLength line.indent rest = 0
  · rw [Machine.header, Machine.header, hempty, hblocks.empty_iff.mpr hempty]
    exact .intro hm (.error (.malformed _ hline))
  · have hempty' : blockLength line'.indent rest' ≠ 0 := mt hblocks.empty_iff.mp hempty
    rw [header_of_block m keyword hempty, header_of_block m' keyword hempty']
    exact hrun

/-- A statement on lines that are alike. -/
theorem perform {c c' : Context} (hlimits : c'.limits = c.limits)
    (hentry : k.Entries c.entry c'.entry)
    (hblocks : Blocks k c.block c'.block line line' rest rest')
    (hmatched : Chains.Matched indents tables) (hchains : tables chains chains')
    (hindent : indents line.indent line'.indent) (hline : k.line line line')
    (hm : k.Machines m m') (statement : Statement) :
    k.Outcomes (Nexts tables (blockLength line.indent rest) (blockLength line'.indent rest'))
      (m.perform c chains line rest statement) (m'.perform c' chains' line' rest' statement) := by
  cases statement with
  | print arguments =>
    rw [Machine.perform, Machine.perform, hm.scope_eq]
    exact .intro (hm.print _) (.ok (.next hchains))
  | define name parameters =>
    rw [Machine.perform, Machine.perform]
    refine hblocks.header hm hline "def" ?_
    exact .intro (hm.define name parameters (hblocks.functions name parameters))
      (.ok (.behind hchains))
  | assign target op value => exact (hm.assign target op value).after hm hline hchains _ _
  | ifHolds condition =>
    refine hblocks.header hm hline "if" ?_
    exact hm.branch hline (hmatched.set hchains hindent) condition _ _
  | elseIf condition =>
    rw [Machine.perform, Machine.perform]
    refine hblocks.header hm hline "elif" ?_
    rw [hmatched.taken?_eq hchains hindent]
    split
    next => exact .intro hm (.error (.malformed _ hline))
    next => exact .intro hm (.ok (.behind hchains))
    next => exact hm.branch hline (hmatched.set hchains hindent) condition _ _
  | otherwise =>
    rw [Machine.perform, Machine.perform]
    refine hblocks.header hm hline "else" ?_
    have hclosed := hmatched.close hchains hindent
    rw [hmatched.taken?_eq hchains hindent]
    split
    next => exact .intro hm (.error (.malformed _ hline))
    next => exact .intro hm (.ok (.behind hclosed))
    next => exact .intro hm (.ok (.next hclosed))
  | forEach name iterable =>
    refine hblocks.header hm hline "for" ?_
    rw [Machine.forEach, Machine.forEach, hm.elements_eq]
    split
    next => exact .intro hm (.error (.runtime _ hline))
    next vs _ =>
      have hloop := (Runs.forEach (fun v => hblocks.runs.bind name v) vs).inLoop
      exact (hloop hm).behindLoop hchains _ _
  | whileHolds condition =>
    refine hblocks.header hm hline "while" ?_
    rw [Machine.whileHolds, Machine.whileHolds, hlimits]
    have hloop := (Runs.whileHolds (fun _ _ h => h.condition hline condition) hblocks.runs
      c.limits.warning c.limits.loopCap).inLoop
    exact (hloop hm).behindLoop hchains _ _
  | call name arguments =>
    rw [Machine.perform, Machine.perform]
    have hcall := hentry.call hline hm name arguments
    generalize m.call c.entry name arguments line.number = o,
      m'.call c'.entry name arguments line'.number = o' at hcall ⊢
    obtain ⟨hafter, hr⟩ := hcall
    cases hr with
    | error hf => exact .intro hafter (.error hf)
    | ok => exact .intro hafter (.ok (.next hchains))
  | append list value => exact (hm.append list value).after hm hline hchains _ _
  | leave value =>
    rw [Machine.perform, Machine.perform, hm.frames_eq]
    split
    next => exact .intro hm (.error (.malformed _ hline))
    next => exact .intro hm (.ok (.exit .returned))
  | breakLoop =>
    rw [Machine.perform, Machine.perform, hm.loopDepth_eq]
    split
    next => exact .intro hm (.error (.malformed _ hline))
    next => exact .intro hm (.ok (.exit .broken))
  | continueLoop =>
    rw [Machine.perform, Machine.perform, hm.loopDepth_eq]
    split
    next => exact .intro hm (.error (.malformed _ hline))
    next => exact .intro hm (.ok (.exit .continued))
  | pass => exact .intro hm (.ok (.next hchains))
  | unrecognized => exact .intro hm (.ok (.next hchains))

/-- **What a line does** on lines that are alike. -/
theorem runLine {c c' : Context} (hlimits : c'.limits = c.limits)
    (hentry : k.Entries c.entry c'.entry)
    (hblocks : Blocks k c.block c'.block line line' rest rest')
    (hmatched : Chains.Matched indents tables) (hchains : tables chains chains')
    (hindent : indents line.indent line'.indent) (hline : k.line line line')
    (htext : line'.text = line.text) (hm : k.Machines m m') :
    k.Outcomes (Nexts tables (blockLength line.indent rest) (blockLength line'.indent rest'))
      (m.runLine c chains line rest) (m'.runLine c' chains' line' rest') := by
  have hblank : line'.isBlank = line.isBlank := by rw [Line.isBlank, Line.isBlank, htext]
  rw [Machine.runLine, Machine.runLine, hblank, htext]
  split
  next => exact .intro hm (.ok (.next hchains))
  next =>
    split
    next fault _ => exact .intro hm (.error (.malformed fault hline))
    next statement _ =>
      refine perform hlimits hentry hblocks hmatched ?_ hindent hline hm statement
      split
      next => exact hmatched.below_succ hchains hindent
      next => exact hmatched.below hchains hindent

/-! ## Runs -/

/-- Lines are run alike if their first lines have outcomes that are alike, and if what may come
next is run alike: all that follows, and what stands behind the block. -/
theorem runs_of_runLine {limits : Limits} {entry entry' : Entry}
    (hrun : ∀ ⦃m m' : Machine⦄, k.Machines m m' →
      k.Outcomes (Nexts tables (blockLength line.indent rest) (blockLength line'.indent rest'))
        (m.runLine ⟨limits, entry, fun n => runLines limits entry {} (rest.take n)⟩ chains
          line rest)
        (m'.runLine ⟨limits, entry', fun n => runLines limits entry' {} (rest'.take n)⟩ chains'
          line' rest'))
    (hnext : ∀ c c', tables c c' →
      k.Runs (runLines limits entry c rest) (runLines limits entry' c' rest'))
    (hbehind : ∀ c c', tables c c' →
      k.Runs (runLines limits entry c (rest.drop (blockLength line.indent rest)))
        (runLines limits entry' c' (rest'.drop (blockLength line'.indent rest')))) :
    k.Runs (runLines limits entry chains (line :: rest))
      (runLines limits entry' chains' (line' :: rest')) := by
  intro m m' hm
  have houtcome := hrun hm
  rw [runLines, runLines]
  generalize m.runLine _ chains line rest = o, m'.runLine _ chains' line' rest' = o' at houtcome ⊢
  obtain ⟨hafter, hr⟩ := houtcome
  cases hr with
  | error hf => exact .intro hafter (.error hf)
  | ok hplaces =>
    cases hplaces with
    | next hc => exact hnext _ _ hc hafter
    | behind hc => exact hbehind _ _ hc hafter
    | exit completion => exact .intro hafter (.ok rfl)

/-- Lines that begin with lines that are alike are run alike, if what may come next is:
the block by itself, all that follows, and what stands behind the block. -/
theorem runs_cons {limits : Limits} {entry entry' : Entry} (hentry : k.Entries entry entry')
    (hmatched : Chains.Matched indents tables) (hchains : tables chains chains')
    (hindent : indents line.indent line'.indent) (hline : k.line line line')
    (htext : line'.text = line.text)
    (hblocks : Blocks k (fun n => runLines limits entry {} (rest.take n))
      (fun n => runLines limits entry' {} (rest'.take n)) line line' rest rest')
    (hnext : ∀ c c', tables c c' →
      k.Runs (runLines limits entry c rest) (runLines limits entry' c' rest'))
    (hbehind : ∀ c c', tables c c' →
      k.Runs (runLines limits entry c (rest.drop (blockLength line.indent rest)))
        (runLines limits entry' c' (rest'.drop (blockLength line'.indent rest')))) :
    k.Runs (runLines limits entry chains (line :: rest))
      (runLines limits entry' chains' (line' :: rest')) :=
  runs_of_runLine (fun _ _ hm =>
    runLine rfl hentry hblocks hmatched hchains hindent hline htext hm) hnext hbehind

/-- Functions are entered alike, however many calls may go on, if their bodies are run
alike wherever functions are entered alike. -/
theorem entries_within (limits : Limits)
    (h : ∀ entry entry', k.Entries entry entry' → ∀ f f', k.function f f' →
      k.Runs (runLines limits entry {} f.body) (runLines limits entry' {} f'.body))
    (room : Nat) : k.Entries (entryWithin limits room) (entryWithin limits room) := by
  induction room with
  | zero => exact .none
  | succ room ih =>
    refine .some fun f f' hf => ?_
    rw [runWithin_eq, runWithin_eq]
    exact h _ _ ih f f' hf

/-! ## Lines one by one -/

/-- Tables of open chains that are the same go together at the same indentations. -/
theorem matched_eq : Chains.Matched Eq Eq where
  taken?_eq hc hi := by rw [hc, hi]
  set hc hi taken := by rw [hc, hi]
  close hc hi := by rw [hc, hi]
  below hc hi := by rw [hc, hi]
  below_succ hc hi := by rw [hc, hi]

/-- A likeness of lines that are compared one by one: lines that are alike are indented
alike and either have the same text or do the same whatever follows them, and functions are
alike if they are but for the lines of their bodies, and these are. -/
structure Linewise (k : Likeness) : Prop where
  indent_eq : ∀ {line line' : Line}, k.line line line' → line'.indent = line.indent
  isBlank_eq : ∀ {line line' : Line}, k.line line line' → line'.isBlank = line.isBlank
  text_eq_or : ∀ {line line' : Line}, k.line line line' → line'.text = line.text ∨
    ∀ {m m' : Machine}, k.Machines m m' → ∀ c c' chains rest rest' n n',
      k.Outcomes (Nexts Eq n n') (m.runLine c chains line rest) (m'.runLine c' chains line' rest')
  function : ∀ {body body' : List Line}, List.Forall₂ k.line body body' →
    ∀ name parameters captured,
      k.function ⟨name, parameters, body, captured⟩ ⟨name, parameters, body', captured⟩
  body : ∀ {f f' : Function}, k.function f f' → List.Forall₂ k.line f.body f'.body

namespace Linewise

variable {limits : Limits} {lines lines' : List Line}

/-- Blocks under lines that are alike one by one have the same length. -/
theorem blockLength_eq (hk : k.Linewise) (indent : Nat) (h : List.Forall₂ k.line lines lines') :
    blockLength indent lines' = blockLength indent lines := by
  induction h with
  | nil => rfl
  | cons hline _ ih =>
    rw [blockLength, blockLength, hk.isBlank_eq hline, hk.indent_eq hline, ih]

/-- Lines that are alike one by one are run alike. -/
theorem runs (hk : k.Linewise) {entry entry' : Entry} (hentry : k.Entries entry entry') :
    ∀ (chains : Chains) (lines lines' : List Line), List.Forall₂ k.line lines lines' →
      k.Runs (runLines limits entry chains lines) (runLines limits entry' chains lines')
  | chains, [], [], .nil => by
    intro m m' hm
    rw [runLines, runLines]
    exact .intro hm (.ok rfl)
  | chains, line :: rest, line' :: rest', .cons hline hrest => by
    have hlength : blockLength line'.indent rest' = blockLength line.indent rest := by
      rw [hk.indent_eq hline, hk.blockLength_eq line.indent hrest]
    have hnext : ∀ c c' : Chains, c = c' → k.Runs
        (runLines limits entry c rest) (runLines limits entry' c' rest') := by
      rintro c _ rfl
      exact hk.runs hentry c _ _ hrest
    have hbehind : ∀ c c' : Chains, c = c' → k.Runs
        (runLines limits entry c (rest.drop (blockLength line.indent rest)))
        (runLines limits entry' c' (rest'.drop (blockLength line'.indent rest'))) := by
      rintro c _ rfl
      rw [hlength]
      exact hk.runs hentry c _ _ (List.forall₂_drop _ hrest)
    rcases hk.text_eq_or hline with htext | hsame
    · have hblock := List.forall₂_take (blockLength line.indent rest) hrest
      refine runs_cons hentry matched_eq rfl (hk.indent_eq hline).symm hline htext
        ⟨by rw [hlength], ?_, ?_⟩ hnext hbehind
      · rw [hlength]
        exact hk.function hblock
      · rw [hlength]
        exact hk.runs hentry {} _ _ hblock
    · exact runs_of_runLine (fun _ _ hm => hsame hm _ _ _ _ _ _ _) hnext hbehind
termination_by _ lines => lines.length
decreasing_by all_goals simp only [List.length_take, List.length_drop, List.length_cons]; omega

/-- Functions are entered alike, however many calls may go on. -/
theorem entries (hk : k.Linewise) (limits : Limits) (room : Nat) :
    k.Entries (entryWithin limits room) (entryWithin limits room) :=
  entries_within limits (fun _ _ hentry _ _ hf => hk.runs hentry {} _ _ (hk.body hf)) room

/-- Programs whose lines are alike one by one take machines that are alike to outcomes that
are. -/
theorem runUnder (hk : k.Linewise) (limits : Limits) (hlines : List.Forall₂ k.line lines lines')
    (hm : k.Machines m m') :
    k.Outcomes Eq (Machine.runUnder limits lines m) (Machine.runUnder limits lines' m') := by
  rw [Machine.runUnder, Machine.runUnder, runWithin_eq, runWithin_eq, hm.frames_eq]
  exact hk.runs (hk.entries limits _) {} _ _ hlines hm

end Linewise

end Likeness

end Offside
