import Mathlib.Data.List.Chain
import Offside.Proofs.Machine.Points

/-!
# What a run keeps

Much that holds of every run holds because each line keeps it: what a line does to the
machine itself is to print, to bind a name or to define a function, and the rest is done
by the lines that it descends to. A relation is `Kept` if it holds for these changes,
goes on from one machine to the next, and holds around a loop and around a call if it
holds inside. The induction over the nesting of runs is then done once:

> `Kept.run`: a run keeps such a relation, if the definitions that it comes to do.

Many relations do not depend on which values are stored, and are `Respected` more simply.

The relation `Extends` says that control is restored and that nothing printed, named or
defined is lost. Every run keeps it, however it ends, and so does every source of a
session:

> `runs_restore_control`: as many calls and loops are open after a run as before it, and
> none between the sources of a session.
-/

namespace Offside

open Machine

/-! ## What statements store -/

/-- A value that a statement stores which is run in the machine: a value that it assigns, a
list in which it changes an element or to which it appends one, or a value that a loop goes
over. -/
inductive Machine.Stores (m : Machine) : Value → Prop
  | assigned {target : Target} {op : Option ArithOp} {text : Text} {v : Value}
      (hvalue : m.assignedValue target op text = .ok v) : Stores m v
  | changed {name : String} {elements : List Value} {p : Nat} {v : Value}
      (hlist : m.scope.get? name = some (.list elements)) (hvalue : Stores m v) :
      Stores m (.list (elements.set p v))
  | appended {name : String} {elements : List Value} {text : Text}
      (hlist : m.scope.get? name = some (.list elements)) :
      Stores m (.list (elements ++ [(evaluate m.scope text).toValue]))
  | element {iterable : Text} {vs : List Value} {v : Value}
      (helements : m.elements iterable = .ok vs) (hmem : v ∈ vs) : Stores m v

/-- Storing a value binds one name, to that value or to a list with the value in it. -/
theorem store_eq_ok {m m' : Machine} {target : Target} {value : Value} (hvalue : m.Stores value)
    (h : m.store target value = .ok m') : ∃ name v, m.Stores v ∧ m' = m.bind name v := by
  cases target with
  | name n => cases h; exact ⟨n, value, hvalue, rfl⟩
  | element n index =>
    rw [store] at h
    split at h
    next => cases h
    next =>
      split at h
      next => cases h
      next hlist =>
        split at h
        next => cases h
        next => cases h; exact ⟨n, _, .changed hlist hvalue, rfl⟩
      next => cases h

/-- An assignment that succeeds binds one name. -/
theorem assign_eq_ok {m m' : Machine} {target : Target} {op : Option ArithOp} {value : Text}
    (h : m.assign target op value = .ok m') : ∃ name v, m.Stores v ∧ m' = m.bind name v := by
  rw [assign] at h
  split at h
  next => cases h
  next v hv => exact store_eq_ok (.assigned hv) h

/-- An append that succeeds binds one name. -/
theorem append_eq_ok {m m' : Machine} {list : String} {value : Text}
    (h : m.append list value = .ok m') : ∃ name v, m.Stores v ∧ m' = m.bind name v := by
  rw [append] at h
  split at h
  next => cases h
  next hlist => cases h; exact ⟨list, _, .appended hlist, rfl⟩
  next => cases h

/-! ## What a line does -/

/-- A relation between machines that goes on with whatever a line prints or stores, and
around a loop or a call if it holds inside. -/
structure Kept (R : Machine → Machine → Prop) : Prop where
  refl : ∀ m, R m m
  trans : ∀ {m₁ m₂ m₃}, R m₁ m₂ → R m₂ m₃ → R m₁ m₃
  print : ∀ m line, R m (m.print line)
  bind : ∀ {m m'} name {value}, m.Stores value → R m m' → R m (m'.bind name value)
  inLoop : ∀ {m m'}, R { m with loopDepth := m.loopDepth + 1 } m' →
    R m { m' with loopDepth := m'.loopDepth - 1 }
  inCall : ∀ {m m' room name arguments q}, Enters room m name arguments q → R q.machine m' →
    R m { m' with frames := m'.frames.tail, loopDepth := m.loopDepth }

variable {R : Machine → Machine → Prop}

theorem behindLoop_fst (chains : Chains) (length : Nat) (outcome : Outcome Completion) :
    (behindLoop chains length outcome).1 = outcome.1 := by
  obtain ⟨m, failure | completion⟩ := outcome
  · rfl
  · cases completion <;> rfl

theorem behindCall_fst (m : Machine) (outcome : Outcome Completion) :
    (m.behindCall outcome).1 =
      { outcome.1 with frames := outcome.1.frames.tail, loopDepth := m.loopDepth } := by
  obtain ⟨m', failure | completion⟩ := outcome <;> rfl

/-- A loop goes over values that it was given. -/
theorem Run.EachRounds.subset {body : Value → Run} {vs ws : List Value} {m m' : Machine}
    (h : EachRounds body vs m ws m') : ws ⊆ vs := by
  induction h with
  | here => exact List.Subset.refl _
  | next _ _ ih => exact List.subset_cons_of_subset _ ih

/-- What each round keeps, all rounds keep. -/
theorem Run.EachRounds.keeps {P : Machine → Prop} {body : Value → Run} {vs ws : List Value}
    {m m' : Machine} (h : EachRounds body vs m ws m') (hm : P m)
    (hround : ∀ v ws m', EachRounds body vs m (v :: ws) m' → P m' → P (body v m').1) : P m' := by
  induction h with
  | here => exact hm
  | @next v vs ws m m' m'' hpass _ ih =>
    have hfirst : P m' := by
      have := hround v vs m .here hm
      rcases hpass with h | h <;> rwa [h] at this
    exact ih hfirst fun w ws m'' h => hround w ws m'' (.next hpass h)

/-- What every round of a loop under a condition keeps holds wherever the loop has come to. -/
theorem Run.WhileRounds.keeps {P : Machine → Prop} {condition : Machine → Except Failure Bool}
    {body : Run} {n k : Nat} {m m' : Machine} (h : WhileRounds condition body n m k m') (hm : P m)
    (hround : ∀ k m', WhileRounds condition body n m (k + 1) m' → condition m' = .ok true →
      P m' → P (body m').1) : P m' := by
  induction h with
  | here => exact hm
  | @next n k m m' m'' hholds hpass _ ih =>
    have hfirst : P m' := by
      have := hround n m .here hholds hm
      rcases hpass with h | h <;> rwa [h] at this
    exact ih hfirst fun k m'' h => hround k m'' (.next hholds hpass h)

/-- What every round keeps, a loop over values keeps. -/
theorem forEach_keeps {P : Machine → Prop} {body : Value → Run} {vs : List Value} {m : Machine}
    (hm : P m)
    (hround : ∀ v ws m', Run.EachRounds body vs m (v :: ws) m' → P m' → P (body v m').1) :
    P (Run.forEach body vs m).1 := by
  rcases Run.forEach_ends body vs m with ⟨m', hrounds, hend⟩ | ⟨v, ws, m', hrounds, hstops⟩
  · rw [hend]
    exact hrounds.keeps hm hround
  · rw [hstops.machine_eq]
    exact hround v ws m' hrounds (hrounds.keeps hm hround)

/-- What every round and the warning keep, a loop under a condition keeps. -/
theorem whileHolds_keeps {P : Machine → Prop} {condition : Machine → Except Failure Bool}
    {body : Run} {warning : String} {n : Nat} {m : Machine} (hm : P m)
    (hprint : ∀ m', P m' → P (m'.print warning))
    (hround : ∀ k m', Run.WhileRounds condition body n m (k + 1) m' → condition m' = .ok true →
      P m' → P (body m').1) : P (Run.whileHolds condition body warning n m).1 := by
  rcases Run.whileHolds_ends condition body warning n m with
    ⟨k, m', hrounds, hend⟩ | ⟨k, m', hrounds, hholds, hstops⟩
  · have hreached := hrounds.keeps hm hround
    rcases hend with ⟨failure, _, hend⟩ | hend | hend
    · rw [hend]
      exact hreached
    · rw [hend]
      exact hreached
    · rw [hend]
      exact hprint m' hreached
  · rw [hstops.machine_eq]
    exact hround k m' hrounds hholds (hrounds.keeps hm hround)

variable {limits : Limits} {room : Nat} {line : Line} {rest : List Line} {m : Machine}

/-- What a call keeps, if the body that it enters keeps it. -/
theorem Kept.call (hR : Kept R) {name : String} {arguments : Text} (number : Nat)
    (henters : ∀ q, Enters room m name arguments q → R q.machine (q.run limits).1) :
    R m (m.call (entryWithin limits room) name arguments number).1 := by
  by_cases hbody : ∃ q, Enters room m name arguments q
  · obtain ⟨q, hq⟩ := hbody
    rw [hq.call_eq, behindCall_fst]
    exact hR.inCall hq (henters q hq)
  · rw [call_of_not_enters (not_exists.mp hbody)]
    exact hR.refl m

/-- What a line keeps, if the lines that it descends to keep it. -/
theorem Kept.runLine (hR : Kept R) (chains : Chains)
    (hdefine : ∀ name parameters, classify line.text = .ok (.define name parameters) →
      blockLength line.indent rest ≠ 0 →
      R m (m.define name parameters (rest.take (blockLength line.indent rest))))
    (hdescends : ∀ construct q, Descends limits room line rest m construct q →
      R q.machine (q.run limits).1) :
    R m (m.runLine (context limits room rest) chains line rest).1 := by
  rcases runLine_performs m (context limits room rest) chains line rest with
    ⟨_, hrun⟩ | ⟨failure, _, hrun⟩ | ⟨statement, _, hclass, hperforms⟩
  · rw [hrun]
    exact hR.refl m
  · rw [hrun]
    exact hR.refl m
  · generalize m.runLine (context limits room rest) chains line rest = outcome at hperforms ⊢
    cases hperforms with
    | prints => exact hR.print m _
    | defines hblock => exact hdefine _ _ hclass hblock
    | assigns hassign =>
      obtain ⟨name, v, hv, rfl⟩ := assign_eq_ok hassign
      exact hR.bind name hv (hR.refl m)
    | appends happend =>
      obtain ⟨name, v, hv, rfl⟩ := append_eq_ok happend
      exact hR.bind name hv (hR.refl m)
    | @forEach name iterable vs hblock helements =>
      rw [behindLoop_fst]
      refine hR.inLoop (forEach_keeps (hR.refl _) fun v ws m' hrounds hm' => ?_)
      have hstores : Stores { m with loopDepth := m.loopDepth + 1 } v :=
        .element helements (hrounds.subset List.mem_cons_self)
      exact hR.trans (hR.bind name hstores hm')
        (hdescends _ _ (.forEach hclass hblock helements hrounds))
    | whileHolds hblock =>
      rw [behindLoop_fst]
      refine hR.inLoop (whileHolds_keeps (hR.refl _) (fun m' hm' => ?_) ?_)
      · exact hR.trans hm' (hR.print m' _)
      · intro k m' hrounds hholds hm'
        exact hR.trans hm' (hdescends _ _ (.whileHolds hclass hblock hrounds hholds))
    | callFails hcall =>
      have hkept := hR.call line.number fun q henters => hdescends _ q (.call hclass henters)
      exact congrArg Prod.fst hcall ▸ hkept
    | calls hcall =>
      have hkept := hR.call line.number fun q henters => hdescends _ q (.call hclass henters)
      exact congrArg Prod.fst hcall ▸ hkept
    -- what is left does nothing to the machine
    | _ => exact hR.refl m

/-- **What a run keeps** is what each line of it keeps. For the definitions it is
enough to look at those that the run comes to. -/
theorem Kept.run (hR : Kept R) (p : Point)
    (hdefine : ∀ constructs room chains line rest m name parameters,
      Comes limits p constructs ⟨room, chains, line :: rest, m⟩ →
      classify line.text = .ok (.define name parameters) → blockLength line.indent rest ≠ 0 →
      R m (m.define name parameters (rest.take (blockLength line.indent rest)))) :
    R p.machine (p.run limits).1 := by
  induction p using Point.induction limits with
  | nil room chains m =>
    rw [Point.run_nil]
    exact hR.refl m
  | cons room chains line rest m ihdescends ihon =>
    have hline : R m (m.runLine (context limits room rest) chains line rest).1 := by
      refine hR.runLine chains ?_ ?_
      -- A definition is come to on this line itself, or inside a construct that it opens.
      · intro name parameters hclass hblock
        exact hdefine [] room chains line rest m name parameters (.refl _) hclass hblock
      · intro construct q hdescends
        refine ihdescends construct q hdescends ?_
        intro constructs room' chains' line' rest' m' name parameters hcomes
        exact hdefine (construct :: constructs) _ _ _ _ _ _ _ (hcomes.descends hdescends)
    rw [Point.run_cons]
    split
    next m' failure hrun => rwa [hrun] at hline
    next m' completion hrun => rwa [hrun] at hline
    next m' chains' skipped hrun =>
      rw [hrun] at hline
      refine hR.trans hline (ihon m' chains' skipped hrun ?_)
      intro constructs room' chains'' line' rest' m'' name parameters hcomes
      exact hdefine constructs _ _ _ _ _ _ _ (hcomes.on hrun)

/-- What every line keeps is kept on the way to the lines that a run reaches. -/
theorem Kept.reaches (hR : Kept R)
    (hline : ∀ chains line rest m, R m (m.runLine (context limits room rest) chains line rest).1)
    {chains chains' : Chains} {lines lines' : List Line} {m m' : Machine}
    (h : Reaches limits (entryWithin limits room) chains lines m chains' lines' m') : R m m' := by
  induction h with
  | here => exact hR.refl _
  | @on chains _ _ line rest _ m _ _ _ hstep _ ih =>
    have hfirst := hline chains line rest m
    rw [context, hstep] at hfirst
    exact hR.trans hfirst ih

/-- A relation between machines that holds whatever a line does to the active scope
or prints, and around a loop or a call if it holds inside. -/
structure Respected (R : Machine → Machine → Prop) : Prop where
  refl : ∀ m, R m m
  trans : ∀ {m₁ m₂ m₃}, R m₁ m₂ → R m₂ m₃ → R m₁ m₃
  print : ∀ m line, R m (m.print line)
  bind : ∀ m name value, R m (m.bind name value)
  inLoop : ∀ {m m'}, R { m with loopDepth := m.loopDepth + 1 } m' →
    R m { m' with loopDepth := m'.loopDepth - 1 }
  inCall : ∀ {m m'} {frame : Scope}, R { m with frames := frame :: m.frames, loopDepth := 0 } m' →
    R m { m' with frames := m'.frames.tail, loopDepth := m.loopDepth }

/-- What holds whatever is stored holds for what statements store. -/
theorem Respected.kept (hR : Respected R) : Kept R where
  refl := hR.refl
  trans := hR.trans
  print := hR.print
  bind name _ _ h := hR.trans h (hR.bind _ name _)
  inLoop := hR.inLoop
  inCall henters h := by
    cases henters
    exact hR.inCall h

/-- A relation that every round respects leads from the start of a loop over values to each of
its rounds. -/
theorem Respected.eachRounds (hR : Respected R) {body : Value → Run} {vs ws : List Value}
    {m m' : Machine} (h : Run.EachRounds body vs m ws m')
    (hround : ∀ v ws m', Run.EachRounds body vs m (v :: ws) m' → R m' (body v m').1) :
    R m m' :=
  h.keeps (hR.refl m) fun v ws m' hrounds hm' => hR.trans hm' (hround v ws m' hrounds)

/-- A relation that every round respects leads from the start of a loop under a condition to
each of its rounds. -/
theorem Respected.whileRounds (hR : Respected R) {condition : Machine → Except Failure Bool}
    {body : Run} {n k : Nat} {m m' : Machine} (h : Run.WhileRounds condition body n m k m')
    (hround : ∀ k m', Run.WhileRounds condition body n m (k + 1) m' → condition m' = .ok true →
      R m' (body m').1) : R m m' :=
  h.keeps (hR.refl m) fun k m' hrounds hholds hm' => hR.trans hm' (hround k m' hrounds hholds)

/-- A relation that every round respects is respected by a loop over values. -/
theorem Respected.forEach (hR : Respected R) {body : Value → Run} {vs : List Value} {m : Machine}
    (hround : ∀ v ws m', Run.EachRounds body vs m (v :: ws) m' → R m' (body v m').1) :
    R m (Run.forEach body vs m).1 :=
  forEach_keeps (hR.refl m) fun v ws m' hrounds hm' => hR.trans hm' (hround v ws m' hrounds)

/-- A relation that every round respects is respected by a loop under a condition. -/
theorem Respected.whileHolds (hR : Respected R) {condition : Machine → Except Failure Bool}
    {body : Run} {warning : String} {n : Nat} {m : Machine}
    (hround : ∀ k m', Run.WhileRounds condition body n m (k + 1) m' → condition m' = .ok true →
      R m' (body m').1) : R m (Run.whileHolds condition body warning n m).1 :=
  whileHolds_keeps (hR.refl m) (fun m' hm' => hR.trans hm' (hR.print m' warning))
    fun k m' hrounds hholds hm' => hR.trans hm' (hround k m' hrounds hholds)

/-! ## What every run keeps -/

/-- As many calls are going on, the innermost is in as many loops, and what had been
printed, named or defined is still there. -/
structure Extends (m m' : Machine) : Prop where
  frames : m'.frames.length = m.frames.length
  loopDepth : m'.loopDepth = m.loopDepth
  output : m.output.toList <+: m'.output.toList
  globals : ∀ name, m.globals.contains name → m'.globals.contains name
  functions : ∀ name, m.functions.contains name → m'.functions.contains name

theorem functions_bind (m : Machine) (name : String) (value : Value) :
    (m.bind name value).functions = m.functions := by
  rw [Machine.bind]
  split <;> rfl

/-- Binding a name binds it in the active scope. -/
theorem scope_bind (m : Machine) (name : String) (v : Value) :
    (m.bind name v).scope = Bindings.insert m.scope name v := by
  rw [Machine.bind, Machine.scope, Machine.scope]
  split
  next hframes => rw [hframes]; rfl
  next hframes => rw [hframes]; rfl

/-- A name stays bound when another is. -/
theorem contains_insert {α : Type} {b : Bindings α} {other : String} (name : String) (item : α)
    (h : b.contains other) : (b.insert name item).contains other := by
  rw [Bindings.contains, Bindings.get?_insert]
  split
  next => rfl
  next => exact h

theorem Extends.refl (m : Machine) : Extends m m :=
  ⟨rfl, rfl, List.prefix_rfl, fun _ h => h, fun _ h => h⟩

theorem Extends.trans {m₁ m₂ m₃ : Machine} (h : Extends m₁ m₂) (h' : Extends m₂ m₃) :
    Extends m₁ m₃ where
  frames := h'.frames.trans h.frames
  loopDepth := h'.loopDepth.trans h.loopDepth
  output := h.output.trans h'.output
  globals name hname := h'.globals name (h.globals name hname)
  functions name hname := h'.functions name (h.functions name hname)

/-- Binding a name keeps all control of the machine. -/
theorem extends_bind (m : Machine) (name : String) (value : Value) :
    Extends m (m.bind name value) := by
  rw [Machine.bind]
  split
  next =>
    exact ⟨rfl, rfl, List.prefix_rfl, fun _ h => contains_insert name value h, fun _ h => h⟩
  next frame outer hframes =>
    exact ⟨by rw [hframes]; rfl, rfl, List.prefix_rfl, fun _ h => h, fun _ h => h⟩

/-- Defining a function keeps all control of the machine, and other functions stay defined. -/
theorem extends_define (m : Machine) (name : String) (parameters : List String)
    (body : List Line) : Extends m (m.define name parameters body) := by
  have hbind := extends_bind m name (.function name)
  refine { hbind with functions := ?_ }
  intro other hother
  exact contains_insert name _ (hbind.functions other hother)

theorem respected_extends : Respected Extends where
  refl := Extends.refl
  trans := Extends.trans
  print m line := by
    refine { Extends.refl m with output := ?_ }
    rw [Machine.print, Array.toList_push]
    exact List.prefix_append _ _
  bind := extends_bind
  inLoop h := ⟨h.frames, by rw [h.loopDepth]; rfl, h.output, h.globals, h.functions⟩
  inCall h := by
    refine ⟨?_, rfl, h.output, h.globals, h.functions⟩
    rw [List.length_tail, h.frames]
    rfl

/-- A run from any point extends the machine that it starts with. -/
theorem Point.run_extends (limits : Limits) (p : Point) :
    Extends p.machine (p.run limits).1 :=
  respected_extends.kept.run p fun _ _ _ _ _ m name _ _ _ _ => extends_define m name _ _

/-- A line extends the machine that it finds. -/
theorem runLine_extends (chains : Chains) :
    Extends m (m.runLine (context limits room rest) chains line rest).1 :=
  respected_extends.kept.runLine chains (fun name _ _ _ => extends_define m name _ _)
    fun _ q _ => q.run_extends limits

/-! ## A session -/

namespace Machine

/-- The machines of a session: the one it starts with, and the one after each source
text in turn, also where running it failed. -/
def session (limits : Limits) : Machine → List Text → List Machine
  | m, [] => [m]
  | m, source :: sources => m :: session limits (interpret limits source m).1 sources

theorem interpret_fst (limits : Limits) (source : Text) (m : Machine) :
    (interpret limits source m).1 = (runUnder limits (sourceLines source) m).1 := by
  rw [interpret]
  split
  next h => rw [h]
  next h => rw [h]

end Machine

/-- What every run keeps is kept between the sources of a session. -/
theorem Kept.of_mem_session (hR : Kept R) (hrun : ∀ p : Point, R p.machine (p.run limits).1)
    {m m' : Machine} {sources : List Text} (h : m' ∈ session limits m sources) : R m m' := by
  induction sources generalizing m with
  | nil =>
    rw [session, List.mem_singleton] at h
    exact h ▸ hR.refl m
  | cons source sources ih =>
    rw [session, List.mem_cons] at h
    rcases h with rfl | h
    · exact hR.refl m'
    · have hstep : R m (interpret limits source m).1 := by
        rw [interpret_fst, runUnder_eq]
        exact hrun (Point.start limits (sourceLines source) m)
      exact hR.trans hstep (ih h)

namespace Machine

/-- Running a program extends the machine. -/
theorem runUnder_extends (limits : Limits) (lines : List Line) (m : Machine) :
    Extends m (runUnder limits lines m).1 := by
  rw [runUnder_eq]
  exact (Point.start limits lines m).run_extends limits

theorem interpret_extends (limits : Limits) (source : Text) (m : Machine) :
    Extends m (interpret limits source m).1 := by
  rw [interpret_fst]
  exact runUnder_extends limits (sourceLines source) m

/-- Each machine of a session extends the one before, behind failures too. -/
theorem session_isChain (limits : Limits) (m : Machine) (sources : List Text) :
    (session limits m sources).IsChain Extends := by
  induction sources generalizing m with
  | nil => exact .singleton m
  | cons source sources ih =>
    have hstep := interpret_extends limits source m
    have hrest := ih (interpret limits source m).1
    cases sources with
    | nil => exact .cons_cons hstep hrest
    | cons other sources => exact .cons_cons hstep hrest

/-- **Control is restored.** However running some lines ends, as many calls are going on
as before, and the innermost is in as many loops. So between the sources of a session
nothing is going on, and each of them leaves what was printed, named and defined before
it in place. -/
theorem runs_restore_control (limits : Limits) :
    (∀ lines m, (runUnder limits lines m).1.frames.length = m.frames.length ∧
      (runUnder limits lines m).1.loopDepth = m.loopDepth) ∧
    ∀ sources, (∀ m ∈ session limits {} sources, m.frames = [] ∧ m.loopDepth = 0) ∧
      (session limits {} sources).IsChain Extends := by
  refine ⟨fun lines m => ?_, fun sources => ⟨fun m hm => ?_, session_isChain limits {} sources⟩⟩
  · have hrun := runUnder_extends limits lines m
    exact ⟨hrun.frames, hrun.loopDepth⟩
  · have hextends := respected_extends.kept.of_mem_session (Point.run_extends limits) hm
    exact ⟨List.eq_nil_of_length_eq_zero hextends.frames, hextends.loopDepth⟩

end Machine

end Offside
