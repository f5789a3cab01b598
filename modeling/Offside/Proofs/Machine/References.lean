import Mathlib
import Offside.Proofs.Machine.Keeping
import Offside.Proofs.Value.Mentions

/-!
# Function values have definitions

A function value is a name, so it is worth something only as long as a function is
defined under it. Function values are copied, stored in lists, passed on to calls and kept
in the scopes of definitions, and definitions are replaced by others meanwhile; but no
definition is ever taken away, and what statements store is made up of what the active
scope mentions. So a machine stays `Grounded`:

> `references_grounded`: at every point that a session comes to, and behind every run of
> it, each function value that stands anywhere names a definition, which is a definition
> of that name and binds its own name to it.
-/

namespace Offside

open Machine Value

variable {P Q : String → Prop} {limits : Limits} {room : Nat} {line : Line} {rest : List Line}
  {m m' : Machine} {name f : String} {v : Value} {scope : Scope}

/-- A function is defined under a name: the definition is one of this name, and the scope
that it keeps binds the name to it. -/
def Machine.Answers (m : Machine) (f : String) : Prop :=
  ∃ d, m.functions.get? f = some d ∧ d.name = f ∧ d.captured.get? f = some (.function f)

/-- All scopes of the machine, the global one, those of the calls and those that definitions
keep, mention functions of these names only. -/
structure Machine.Within (P : String → Prop) (m : Machine) : Prop where
  globals : m.globals.Within P
  frames : ∀ frame ∈ m.frames, frame.Within P
  captured : ∀ name d, m.functions.get? name = some d → d.captured.Within P

/-- Every function value that stands anywhere in the machine has a definition. -/
def Machine.Grounded (m : Machine) : Prop :=
  m.Within m.Answers

/-! ## What a machine stores -/

/-- The scope of a machine mentions no other functions than the machine. -/
theorem Machine.Within.scope_within (hm : m.Within P) : m.scope.Within P := by
  rw [Machine.scope]
  cases hframes : m.frames with
  | nil => exact hm.globals
  | cons frame outer => exact hm.frames frame (hframes ▸ List.mem_cons_self)

theorem Machine.Within.mono (hPQ : ∀ f, P f → Q f) (hm : m.Within P) : m.Within Q where
  globals := hm.globals.mono hPQ
  frames frame hmem := (hm.frames frame hmem).mono hPQ
  captured name d hd := (hm.captured name d hd).mono hPQ

/-- An assigned value mentions only functions that the scope does. -/
theorem within_of_assignedValue {target : Target} {op : Option ArithOp} {t : Text}
    (hscope : m.scope.Within P) (h : m.assignedValue target op t = .ok v) : v.Within P := by
  unfold assignedValue at h
  split at h
  next =>
    cases h
    exact within_evaluate hscope t
  next op =>
    split at h
    next => contradiction
    next current hcurrent =>
      split at h
      next => contradiction
      next operand hoperand =>
        split at h
        next => contradiction
        next w hw =>
          cases h
          exact op.yields_apply (within_of_evaluateStrict hscope hcurrent)
            (within_of_evaluateStrict hscope hoperand) v hw

/-- The values that a loop goes over mention only functions that the scope does. -/
theorem within_of_elements {iterable : Text} {vs : List Value} (hscope : m.scope.Within P)
    (h : m.elements iterable = .ok vs) : ∀ v ∈ vs, v.Within P := by
  have hvalue := within_evaluate hscope iterable
  unfold Machine.elements at h
  split at h
  next ws heval =>
    cases h
    rw [heval] at hvalue
    exact within_list_iff.mp hvalue
  next content _ =>
    cases h
    intro v hv
    obtain ⟨c, -, rfl⟩ := List.mem_map.mp hv
    exact within_text _
  next => contradiction
  next => contradiction

/-- A value that is stored mentions only functions that the scope does. -/
theorem Machine.Stores.within (h : m.Stores v) (hscope : m.scope.Within P) : v.Within P := by
  induction h with
  | assigned hvalue => exact within_of_assignedValue hscope hvalue
  | @changed name elements p v hlist _ ih =>
    refine within_list_iff.mpr fun w hw => ?_
    rcases List.mem_or_eq_of_mem_set hw with hw | rfl
    · exact within_list_iff.mp (hscope name _ hlist) w hw
    · exact ih
  | @appended name elements text hlist =>
    refine within_list_iff.mpr fun w hw => ?_
    rcases List.mem_append.mp hw with hw | hw
    · exact within_list_iff.mp (hscope name _ hlist) w hw
    · rw [List.mem_singleton.mp hw]
      exact within_evaluate hscope text
  | element helements hmem => exact within_of_elements hscope helements _ hmem

/-- Binding arguments brings in the functions that they mention, and no others. -/
theorem Scope.Within.bindParameters (hscope : scope.Within P) (ps : List String)
    {vs : List Value} (hvs : ∀ v ∈ vs, v.Within P) : (scope.bindParameters ps vs).Within P := by
  induction ps generalizing scope vs with
  | nil => exact hscope
  | cons p ps ih =>
    cases vs with
    | nil => exact ih (hscope.insert p within_nothing) hvs
    | cons v vs =>
      exact ih (hscope.insert p (hvs v List.mem_cons_self))
        fun w hw => hvs w (List.mem_cons_of_mem v hw)

/-! ## What a line changes -/

/-- Binding a value brings in the functions that it mentions, and no others. -/
theorem Machine.Within.bind (hm : m.Within P) (name : String) (hv : v.Within P) :
    (m.bind name v).Within P := by
  refine ⟨?_, ?_, ?_⟩
  · rw [Machine.bind]
    split
    next => exact hm.globals.insert name hv
    next => exact hm.globals
  · rw [Machine.bind]
    split
    next => exact hm.frames
    next frame outer hframes =>
      intro frame' hmem
      rcases List.mem_cons.mp hmem with rfl | hmem
      · exact (hm.frames frame (hframes ▸ List.mem_cons_self)).insert name hv
      · exact hm.frames frame' (hframes ▸ List.mem_cons_of_mem frame hmem)
  · rw [functions_bind]
    exact hm.captured

/-- Which functions answer depends on the definitions only. -/
theorem answers_eq (h : m'.functions = m.functions) : m'.Answers = m.Answers := by
  funext f
  rw [Answers, Answers, h]

/-- What is defined under a name answers, and so does what answered before. -/
theorem answers_define (name : String) (parameters : List String) (body : List Line)
    (hf : f = name ∨ m.Answers f) : (m.define name parameters body).Answers f := by
  by_cases hname : f = name
  · refine ⟨⟨name, parameters, body, (m.bind name (.function name)).scope⟩, ?_, hname.symm, ?_⟩
    · rw [define, Bindings.get?_insert, if_pos hname]
    · rw [scope_bind, Bindings.get?_insert, if_pos hname, hname]
  · obtain ⟨d, hd, hanswers⟩ := hf.resolve_left hname
    refine ⟨d, ?_, hanswers⟩
    rw [define, Bindings.get?_insert, if_neg hname, functions_bind, hd]

/-- A definition brings in its own name, and no other. -/
theorem Machine.Within.define (hm : m.Within P) (hname : P name) (parameters : List String)
    (body : List Line) : (m.define name parameters body).Within P := by
  have hbound := hm.bind name (within_function hname)
  refine ⟨hbound.globals, hbound.frames, ?_⟩
  intro other d hd
  rw [Machine.define, Bindings.get?_insert] at hd
  split at hd
  next =>
    cases hd
    exact hbound.scope_within
  next => exact hbound.captured other d hd

/-- A call is run in the scope of a definition, with the arguments. -/
theorem Machine.Within.enters {arguments : Text} {q : Point} (hm : m.Within P)
    (h : Enters room m name arguments q) : q.machine.Within P := by
  cases h with
  | @intro f left _ hfunction _ =>
    have harguments : ∀ v ∈ m.arguments arguments, v.Within P := by
      intro v hv
      obtain ⟨piece, -, rfl⟩ := List.mem_map.mp hv
      exact within_evaluate hm.scope_within piece
    refine ⟨hm.globals, ?_, hm.captured⟩
    intro frame hmem
    rcases List.mem_cons.mp hmem with rfl | hmem
    · exact (hm.captured name f hfunction).bindParameters f.parameters harguments
    · exact hm.frames frame hmem

/-! ## What a run keeps -/

/-- What answers goes on to answer, and if everything that is mentioned answers, so does
everything that is mentioned afterwards. -/
structure Grounds (m m' : Machine) : Prop where
  answers : ∀ f, m.Answers f → m'.Answers f
  grounded : m.Grounded → m'.Grounded

/-- Grounding goes on from machine to machine. -/
theorem kept_grounds : Kept Grounds where
  refl m := ⟨fun _ h => h, id⟩
  trans h h' := ⟨fun f hf => h'.answers f (h.answers f hf), fun hm => h'.grounded (h.grounded hm)⟩
  print m line := ⟨fun _ h => h, fun hm => ⟨hm.globals, hm.frames, hm.captured⟩⟩
  bind {m m'} name v hstores h := by
    have hanswers : (m'.bind name v).Answers = m'.Answers := answers_eq (functions_bind m' name v)
    refine ⟨?_, fun hm => ?_⟩
    · rw [hanswers]
      exact h.answers
    · have hvalue := (hstores.within hm.scope_within).mono h.answers
      rw [Machine.Grounded, hanswers]
      exact (h.grounded hm).bind name hvalue
  inLoop h := by
    refine ⟨h.answers, fun hm => ?_⟩
    have hinside := h.grounded ⟨hm.globals, hm.frames, hm.captured⟩
    exact ⟨hinside.globals, hinside.frames, hinside.captured⟩
  inCall {m m' _ _ _ q} henters h := by
    have hanswers : q.machine.Answers = m.Answers := answers_eq (by cases henters; rfl)
    refine ⟨?_, fun hm => ?_⟩
    · rw [← hanswers]
      exact h.answers
    · have hbody : q.machine.Grounded := by
        rw [Machine.Grounded, hanswers]
        exact hm.enters henters
      have hinside := h.grounded hbody
      exact ⟨hinside.globals, fun frame hmem => hinside.frames frame (List.mem_of_mem_tail hmem),
        hinside.captured⟩

/-- A definition grounds its own name, and every name that was grounded stays so. -/
theorem grounds_define (m : Machine) (name : String) (parameters : List String)
    (body : List Line) : Grounds m (m.define name parameters body) := by
  have hanswers : ∀ f, m.Answers f → (m.define name parameters body).Answers f :=
    fun f hf => answers_define name parameters body (.inr hf)
  refine ⟨hanswers, fun hm => ?_⟩
  exact (hm.mono hanswers).define (answers_define name parameters body (.inl rfl)) parameters body

/-- **A run grounds what it leaves behind,** whatever its outcome is. -/
theorem Point.run_grounds (limits : Limits) (p : Point) : Grounds p.machine (p.run limits).1 :=
  kept_grounds.run p fun _ _ _ _ _ m name _ _ _ _ => grounds_define m name _ _

/-- A line grounds what it leaves behind. -/
theorem runLine_grounds (chains : Chains) :
    Grounds m (m.runLine (context limits room rest) chains line rest).1 :=
  kept_grounds.runLine chains (fun name _ _ _ => grounds_define m name _ _)
    fun _ q _ => q.run_grounds limits

/-! ## Where a run comes -/

/-- Whatever a run reaches is grounded if it started so. -/
theorem Machine.Reaches.grounds {chains chains' : Chains} {lines lines' : List Line}
    (h : Reaches limits (entryWithin limits room) chains lines m chains' lines' m') :
    Grounds m m' :=
  kept_grounds.reaches (fun chains _ _ _ => runLine_grounds chains) h

/-- The machine with which a line descends to another is grounded if its own is. -/
theorem Descends.grounded {construct : Construct} {q : Point}
    (h : Descends limits room line rest m construct q) (hm : m.Grounded) : q.machine.Grounded := by
  have hloop : Machine.Grounded { m with loopDepth := m.loopDepth + 1 } :=
    ⟨hm.globals, hm.frames, hm.captured⟩
  cases h with
  | @forEach name _ vs ws v m' _ _ helements hrounds =>
    have hrun : Grounds { m with loopDepth := m.loopDepth + 1 } m' := by
      refine hrounds.keeps (kept_grounds.refl _) fun w _ m'' hrounds' hm'' => ?_
      have hstores : Stores { m with loopDepth := m.loopDepth + 1 } w :=
        .element helements (hrounds'.subset List.mem_cons_self)
      exact kept_grounds.trans (kept_grounds.bind name hstores hm'')
        ((Point.block room line rest (m''.bind name w)).run_grounds limits)
    have hstores : Stores { m with loopDepth := m.loopDepth + 1 } v :=
      .element helements (hrounds.subset List.mem_cons_self)
    exact (kept_grounds.bind name hstores hrun).grounded hloop
  | whileHolds _ _ hrounds _ =>
    have hrun : Grounds { m with loopDepth := m.loopDepth + 1 } _ :=
      hrounds.keeps (kept_grounds.refl _) fun _ m'' _ _ hm'' =>
        kept_grounds.trans hm'' ((Point.block room line rest m'').run_grounds limits)
    exact hrun.grounded hloop
  | @call _ _ q _ henters =>
    have hanswers : q.machine.Answers = m.Answers := answers_eq (by cases henters; rfl)
    rw [Machine.Grounded, hanswers]
    exact hm.enters henters

/-- Wherever a run comes to, everything mentioned there has a definition. -/
theorem Comes.grounded {p q : Point} {constructs : List Construct}
    (h : Comes limits p constructs q) (hp : p.machine.Grounded) : q.machine.Grounded := by
  induction h with
  | along hreach => exact hreach.grounds.grounded hp
  | into hreach hdescends _ ih => exact ih (hdescends.grounded (hreach.grounds.grounded hp))

/-- **Function values have definitions.** Between the sources of a session, at every point
that a run of one of them comes to, and behind the run from such a point, also if it fails,
every function value that stands in the global scope, in that of a call or in one that a
definition keeps, at any depth of lists, names a definition; this is one of that name, and
the scope that it keeps binds the name to the function value. And no evaluation of a text
gives a function value that its scope does not mention. -/
theorem references_grounded (limits : Limits) :
    (∀ sources, ∀ m ∈ session limits {} sources, m.Grounded ∧
      ∀ source constructs q,
        Comes limits (Point.start limits (sourceLines source) m) constructs q →
          q.machine.Grounded ∧ (q.run limits).1.Grounded) ∧
    ∀ scope t,
      (∀ v, evaluateStrict scope t = .ok v → ∀ f, v.Mentions f → scope.Mentions f) ∧
      ∀ f, (evaluate scope t).toValue.Mentions f → scope.Mentions f := by
  refine ⟨fun sources m hm => ?_, evaluation_mentions⟩
  have hempty : Machine.Grounded {} := ⟨Scope.within_empty, nofun, nofun⟩
  have hsession : Grounds {} m := kept_grounds.of_mem_session (Point.run_grounds limits) hm
  have hgrounded := hsession.grounded hempty
  refine ⟨hgrounded, fun source constructs q hcomes => ?_⟩
  have hq := hcomes.grounded hgrounded
  exact ⟨hq, (q.run_grounds limits).grounded hq⟩

/-- Also behind a failure a function in a list is one that is defined. -/
theorem references_grounded_behind_failure :
    let source := "def f():\n pass\nx = [f]\nbreak".toList
    let m := (interpret {} source {}).1
    (interpret {} source {}).2 = .error (.malformed .breakOutside 4) ∧
      m.globals.get? "x" = some (.list [.function "f"]) ∧ m.Answers "f" := by
  intro source m
  let defined : Machine := Machine.define {} "f" [] [⟨2, 1, "pass".toList⟩]
  let stored : Machine := defined.bind "x" (.list [.function "f"])
  have hlines : sourceLines source = [⟨1, 0, "def f():".toList⟩, ⟨2, 1, "pass".toList⟩,
      ⟨3, 0, "x = [f]".toList⟩, ⟨4, 0, "break".toList⟩] := by decide +kernel
  have hassign (context : Context) : defined.runLine context {} ⟨3, 0, "x = [f]".toList⟩
      [⟨4, 0, "break".toList⟩] = (stored, .ok (.goOn {} 0)) := by
    have hclass : classify "x = [f]".toList = .ok (.assign (.name "x") none "[f]".toList) := by cbv
    have hvalue : evaluate defined.scope "[f]".toList = .value (.list [.function "f"]) := by cbv
    rw [runLine_of_classify _ _ _ _ hclass (by simp) rfl, perform, assign, assignedValue, hvalue]
    rfl
  have hreach : Reaches {} (entryWithin {} 200) {} (sourceLines source) {} {}
      [⟨4, 0, "break".toList⟩] stored := by
    rw [hlines]
    exact .on rfl (.on (hassign _) .here)
  have hlast : runUnder {} (sourceLines source) {} =
      (stored, .error (.malformed .breakOutside 4)) := by
    rw [runUnder, runWithin_eq]
    exact hreach.runLines_eq.trans (by rw [runLines]; rfl)
  have hrun : interpret {} source {} = (stored, .error (.malformed .breakOutside 4)) := by
    rw [interpret, hlast]
  have hmem : m ∈ session {} {} [source] := List.mem_cons_of_mem _ List.mem_cons_self
  have hgrounded := ((references_grounded {}).1 [source] m hmem).1
  have hm : m = stored := congrArg Prod.fst hrun
  have hx : m.globals.get? "x" = some (.list [.function "f"]) := by rw [hm]; rfl
  refine ⟨congrArg Prod.snd hrun, hx, ?_⟩
  exact hgrounded.globals "x" _ hx "f" (.element List.mem_cons_self .function)

end Offside
