import Offside.Proofs.Machine.Agreement
import Offside.Proofs.Machine.Signals

/-!
# Limits that are not reached

A program is stopped in two ways: a loop that has gone round as often as it may prints a
warning, and a call that would be one too many fails. A run that meets neither does not
see the limits, and does the same under all wider ones.

> `Point.run_wider`: the run from a point is the same under wider limits, and with room
> for more calls, if it meets no limit.

Whether a loop was stopped can be told from the output, where its warning stays
(`Point.Warns.mem_output`). A run that fails for a call too many does so with less room, too:
otherwise it would have met no limit there, and with more room it would have done the same.

> `limits_unseen`: both for whole programs.
-/

namespace Offside

open Machine

/-- A failure because of a call that is one too many. -/
def Outcome.TooDeep {α : Type} (outcome : Outcome α) : Prop :=
  ∃ number, outcome.2 = .error (.runtime (.runtime .tooDeep) number)

/-- The run from a point comes to a loop that is stopped: the condition still holds when
the loop has gone round as often as it may. -/
inductive Point.Warns (limits : Limits) (p : Point) : Prop
  | intro {constructs : List Construct} {room : Nat} {chains : Chains} {line : Line}
      {rest : List Line} {m m' : Machine} {condition : Text}
      (hcomes : Comes limits p constructs ⟨room, chains, line :: rest, m⟩)
      (hclass : classify line.text = .ok (.whileHolds condition))
      (hblock : blockLength line.indent rest ≠ 0)
      (hrounds : Run.WhileRounds (fun m => m.condition condition line)
        (fun m => (Point.block room line rest m).run limits) limits.loopCap
        { m with loopDepth := m.loopDepth + 1 } 0 m')
      (hholds : m'.condition condition line = .ok true) : Point.Warns limits p

variable {limits limits' : Limits} {room room' : Nat} {chains : Chains} {line : Line}
  {rest : List Line} {m m' : Machine}

/-- The warning tells of nothing but the cap. -/
theorem warning_eq_of_loopCap (h : limits'.loopCap = limits.loopCap) :
    limits'.warning = limits.warning := by
  unfold Limits.warning
  congr 3

/-- A run warns if a run inside its first line does. -/
theorem Point.Warns.descends {construct : Construct} {q : Point} (h : q.Warns limits)
    (hdescends : Descends limits room line rest m construct q) :
    Point.Warns limits ⟨room, chains, line :: rest, m⟩ := by
  cases h with
  | intro hcomes hclass hblock hrounds hholds =>
    exact .intro (hcomes.descends hdescends) hclass hblock hrounds hholds

/-- A run warns if it does behind its first line. -/
theorem Point.Warns.on {chains' : Chains} {skipped : Nat}
    (h : Point.Warns limits ⟨room, chains', rest.drop skipped, m'⟩)
    (hline : m.runLine (context limits room rest) chains line rest =
      (m', .ok (.goOn chains' skipped))) :
    Point.Warns limits ⟨room, chains, line :: rest, m⟩ := by
  cases h with
  | intro hcomes hclass hblock hrounds hholds =>
    exact .intro (hcomes.on hline) hclass hblock hrounds hholds

/-! ## The warning of a loop that is stopped -/

theorem LoopsOn.extends {again : Run} (h : LoopsOn limits room line rest again) (m : Machine) :
    Extends m (again m).1 := by
  cases h with
  | @forEach name _ vs _ =>
    exact respected_extends.forEach fun v _ m' _ =>
      (extends_bind m' name v).trans (Point.run_extends limits (Point.block room line rest _))
  | whileHolds =>
    exact respected_extends.whileHolds fun _ m' _ _ =>
      Point.run_extends limits (Point.block room line rest m')

/-- What a round has printed stays in front of what the loop prints. -/
theorem afterRound_output (again : Run) (hagain : ∀ m, Extends m (again m).1)
    (outcome : Outcome Completion) :
    outcome.1.output.toList <+: (Run.afterRound again outcome).1.output.toList := by
  obtain ⟨m, failure | completion⟩ := outcome
  · exact List.prefix_rfl
  · cases completion with
    | finished => exact (hagain m).output
    | continued => exact (hagain m).output
    | broken => exact List.prefix_rfl
    | returned => exact List.prefix_rfl

/-- What is printed inside a line stays printed. -/
theorem Descends.output {construct : Construct} {q : Point}
    (h : Descends limits room line rest m construct q) (chains : Chains) :
    (q.run limits).1.output.toList <+:
      (m.runLine (context limits room rest) chains line rest).1.output.toList := by
  cases construct with
  | loop =>
    obtain ⟨again, hagain, hline⟩ := h.loop_line chains
    rw [hline, behindLoop_fst]
    exact afterRound_output again hagain.extends (q.run limits)
  | call =>
    cases h with
    | @call name arguments _ hclass henters =>
      have hsame : (m.runLine (context limits room rest) chains line rest).1.output =
          (q.run limits).1.output := by
        rw [runLine_call m _ chains rest hclass, context, henters.call_eq]
        obtain ⟨m', failure | completion⟩ := q.run limits <;> rfl
      exact hsame ▸ List.prefix_rfl

/-- What the first line has printed stays in front of what the run prints. -/
theorem Point.run_cons_output :
    (m.runLine (context limits room rest) chains line rest).1.output.toList <+:
      (Point.run limits ⟨room, chains, line :: rest, m⟩).1.output.toList := by
  rw [Point.run_cons]
  obtain ⟨m', failure | next⟩ := m.runLine (context limits room rest) chains line rest
  · exact List.prefix_rfl
  · cases next with
    | exit completion => exact List.prefix_rfl
    | goOn chains' skipped => exact (Point.run_extends limits ⟨room, chains', _, m'⟩).output

/-- What is printed inside a run is printed by the run. -/
theorem Comes.output {p q : Point} {constructs : List Construct}
    (h : Comes limits p constructs q) :
    (q.run limits).1.output.toList <+: (p.run limits).1.output.toList := by
  induction h with
  | along hreach =>
    have hsame := (Comes.along hreach).run_eq
    exact hsame ▸ List.prefix_rfl
  | into hreach hdescends _ ih =>
    have hsame := (Comes.along hreach).run_eq
    rw [hsame]
    exact ih.trans ((hdescends.output _).trans Point.run_cons_output)

/-- A loop that is stopped leaves its warning in the output. -/
theorem Point.Warns.mem_output {p : Point} (h : p.Warns limits) :
    limits.warning ∈ (p.run limits).1.output := by
  cases h with
  | @intro constructs room chains line rest m m' condition hcomes hclass hblock hrounds hholds =>
    have hline : (m.runLine (context limits room rest) chains line rest).1.output =
        m'.output.push limits.warning := by
      rw [runLine_whileHolds m _ chains hclass hblock, Machine.whileHolds, behindLoop_fst,
        Run.inLoop]
      have hloop := hrounds.whileHolds_eq limits.warning
      rw [Run.whileHolds, hholds] at hloop
      exact congrArg (fun outcome => outcome.1.output) hloop
    have houtput := Point.run_cons_output.trans hcomes.output
    rw [hline] at houtput
    exact Array.mem_toList_iff.mp (houtput.subset (by simp))

/-- What fails inside a line fails the line. -/
theorem Descends.runLine_failed {construct : Construct} {q : Point} {failure : Failure}
    (h : Descends limits room line rest m construct q) (chains : Chains)
    (hfailed : (q.run limits).2 = .error failure) :
    (m.runLine (context limits room rest) chains line rest).2 = .error failure := by
  generalize hrun : q.run limits = outcome at hfailed
  obtain ⟨m', result⟩ := outcome
  cases hfailed
  cases construct with
  | loop =>
    obtain ⟨again, _, hline⟩ := h.loop_line chains
    rw [hline, hrun]
    rfl
  | call =>
    cases h with
    | call hclass henters =>
      rw [runLine_call m _ chains rest hclass, context, henters.call_eq, hrun]
      rfl

theorem Point.run_failed_of_runLine {failure : Failure}
    (h : (m.runLine (context limits room rest) chains line rest).2 = .error failure) :
    (Point.run limits ⟨room, chains, line :: rest, m⟩).2 = .error failure := by
  rw [Point.run_cons]
  generalize m.runLine (context limits room rest) chains line rest = outcome at h
  obtain ⟨m', result⟩ := outcome
  cases h
  rfl

/-- What fails inside a line fails the run that the line belongs to. -/
theorem Descends.run_failed {construct : Construct} {q : Point} {failure : Failure}
    (h : Descends limits room line rest m construct q)
    (hfailed : (q.run limits).2 = .error failure) :
    (Point.run limits ⟨room, chains, line :: rest, m⟩).2 = .error failure :=
  Point.run_failed_of_runLine (h.runLine_failed chains hfailed)

/-- A call with room for it, or one that enters no function, does not see how much room is
left, if the body of the function does not. -/
theorem call_wider {name : String} {arguments : Text} {number : Nat} (hroom : room ≤ room')
    (hdeep : ¬(m.call (entryWithin limits room) name arguments number).TooDeep)
    (hbody : ∀ q, Enters room m name arguments q → ∀ left, q.room ≤ left →
      Point.run limits' { q with room := left } = q.run limits) :
    m.call (entryWithin limits' room') name arguments number =
      m.call (entryWithin limits room) name arguments number := by
  refine call_agrees fun f hfunction hcount => ?_
  cases room with
  | zero =>
    refine absurd ⟨number, ?_⟩ hdeep
    rw [call, hfunction]
    dsimp only
    unfold enter
    rw [if_neg (Nat.not_lt.mpr hcount)]
    rfl
  | succ left =>
    obtain ⟨left', rfl⟩ : ∃ left', room' = left' + 1 := Nat.exists_eq_add_one.mpr (by omega)
    have hrun := hbody _ (.intro rfl hfunction hcount) left' (Nat.le_of_succ_le_succ hroom)
    rw [entryWithin, entryWithin, Option.map_some, Option.map_some, runWithin_eq, runWithin_eq]
    exact congrArg some hrun

/-- A line does not see limits that it does not meet, if what it descends to does not. -/
theorem runLine_wider (hroom : room ≤ room')
    (hdeep : ¬(Point.run limits ⟨room, chains, line :: rest, m⟩).TooDeep)
    (hcap : limits'.loopCap = limits.loopCap ∨
      limits.loopCap ≤ limits'.loopCap ∧ ¬Point.Warns limits ⟨room, chains, line :: rest, m⟩)
    (hinside : ∀ {construct q}, Descends limits room line rest m construct q →
      ∀ left, q.room ≤ left → Point.run limits' { q with room := left } = q.run limits) :
    m.runLine (context limits' room' rest) chains line rest =
      m.runLine (context limits room rest) chains line rest := by
  refine runLine_agrees chains ?_ ?_ ?_
  · intro name iterable vs hclass helements hblock
    refine Run.forEach_agrees fun v ws m' hrounds => ?_
    exact hinside (.forEach hclass hblock helements hrounds) room' hroom
  · intro condition hclass hblock
    refine Run.whileHolds_agrees ?_ ?_
    · intro k m' hrounds hholds
      exact hinside (.whileHolds hclass hblock hrounds hholds) room' hroom
    · rcases hcap with hsame | ⟨hle, hwarns⟩
      · exact .inl ⟨hsame, warning_eq_of_loopCap hsame⟩
      · refine .inr ⟨hle, fun m' hrounds hholds => hwarns ?_⟩
        exact .intro (.refl _) hclass hblock hrounds hholds
  · intro name arguments hclass
    refine call_wider hroom ?_ fun q henters => hinside (.call hclass henters)
    rintro ⟨number, hfailed⟩
    refine hdeep ⟨number, Point.run_failed_of_runLine ?_⟩
    rw [runLine_call m _ chains rest hclass, context]
    generalize m.call _ name arguments line.number = outcome at hfailed
    obtain ⟨m', result⟩ := outcome
    cases hfailed
    rfl

/-- **Limits that are not met are not seen.** Where the limits differ in the room for calls
only, a loop that is stopped does not matter. -/
theorem Point.run_wider {p : Point} (hdeep : ¬(p.run limits).TooDeep)
    (hcap : limits'.loopCap = limits.loopCap ∨
      limits.loopCap ≤ limits'.loopCap ∧ ¬p.Warns limits) (hroom : p.room ≤ room') :
    Point.run limits' { p with room := room' } = p.run limits := by
  induction p using Point.induction limits generalizing room' with
  | nil room chains m => rw [Point.run_nil, Point.run_nil]
  | cons room chains line rest m ihdescends ihon =>
    have hline : m.runLine (context limits' room' rest) chains line rest =
        m.runLine (context limits room rest) chains line rest := by
      refine runLine_wider hroom hdeep hcap fun {construct q} hdescends left hleft => ?_
      refine ihdescends construct q hdescends ?_ ?_ hleft
      · rintro ⟨number, hfailed⟩
        exact hdeep ⟨number, hdescends.run_failed hfailed⟩
      · exact hcap.imp_right fun h => ⟨h.1, fun hwarns => h.2 (hwarns.descends hdescends)⟩
    -- What comes behind the line fails, or has a loop stopped, only if the whole run does.
    rw [Point.run_cons, Point.run_cons, hline]
    split
    next => rfl
    next => rfl
    next m' chains' skipped hgoOn =>
      refine ihon m' chains' skipped hgoOn ?_ ?_ hroom
      · rintro ⟨number, hfailed⟩
        refine hdeep ⟨number, ?_⟩
        rwa [Point.run_cons, hgoOn]
      · exact hcap.imp_right fun h => ⟨h.1, fun hwarns => h.2 (hwarns.on hgoOn)⟩

/-! ## Programs -/

/-- A program fails exactly if the run of its lines does. -/
theorem interpret_failed_iff {source : Text} {failure : Failure} :
    (interpret limits source m).2 = .error failure ↔
      ((Point.start limits (sourceLines source) m).run limits).2 = .error failure := by
  rw [interpret, runUnder_eq]
  obtain ⟨m', failure' | completion⟩ := (Point.start limits (sourceLines source) m).run limits
  · rw [Except.error.injEq, Except.error.injEq]
  · constructor <;> intro h <;> cases h

theorem tooDeep_interpret_iff {source : Text} :
    (interpret limits source m).TooDeep ↔
      ((Point.start limits (sourceLines source) m).run limits).TooDeep :=
  exists_congr fun _ => interpret_failed_iff

/-- **Wider limits are not seen** by a program that neither warns nor calls too deep. -/
theorem interpret_wider {source : Text} (hdepth : limits.maxDepth ≤ limits'.maxDepth)
    (hdeep : ¬(interpret limits source m).TooDeep)
    (hcap : limits'.loopCap = limits.loopCap ∨ limits.loopCap ≤ limits'.loopCap ∧
      ¬(Point.start limits (sourceLines source) m).Warns limits) :
    interpret limits' source m = interpret limits source m := by
  have hroom : limits.maxDepth - m.frames.length ≤ limits'.maxDepth - m.frames.length :=
    Nat.sub_le_sub_right hdepth _
  have hrun := Point.run_wider (mt tooDeep_interpret_iff.mpr hdeep) hcap hroom
  rw [interpret, interpret, runUnder_eq, runUnder_eq, ← hrun]
  rfl

/-- **Limits are not seen until they are met.** A program that has no loop stopped and makes
no call too many does the same under wider limits. One that makes a call too many fails for
the same reason with room for fewer calls. -/
theorem limits_unseen (limits limits' : Limits) (source : Text) (m : Machine) :
    (limits.loopCap ≤ limits'.loopCap → limits.maxDepth ≤ limits'.maxDepth →
      ¬(Point.start limits (sourceLines source) m).Warns limits →
      ¬(interpret limits source m).TooDeep →
      interpret limits' source m = interpret limits source m) ∧
    (limits'.loopCap = limits.loopCap → limits'.maxDepth ≤ limits.maxDepth →
      (interpret limits source m).TooDeep → (interpret limits' source m).TooDeep) := by
  constructor
  · intro hcap hdepth hwarns hdeep
    exact interpret_wider hdepth hdeep (.inr ⟨hcap, hwarns⟩)
  · intro hcap hdepth hdeep
    by_contra hshallow
    -- With less room no limit would be met, so none would be with more room.
    have hsame := interpret_wider hdepth hshallow (.inl hcap.symm)
    rw [hsame] at hdeep
    exact hshallow hdeep

/-- A loop of two rounds, under a cap of two and a wider one, and a function that calls
itself, with room for one call and for none. -/
theorem limits_unseen_loop_and_call :
    let loop := "i = 0\nwhile i < 2:\n  i += 1".toList
    let call := "def f():\n  f()\nf()".toList
    (interpret { loopCap := 2 } loop {}).2 = .ok () ∧
      interpret { loopCap := 5 } loop {} = interpret { loopCap := 2 } loop {} ∧
      (interpret { maxDepth := 1 } call {}).TooDeep ∧
      (interpret { maxDepth := 0 } call {}).TooDeep := by
  intro loop call
  have hends : (interpret { loopCap := 2 } loop {}).2 = .ok () := by decide +kernel
  have hquiet : ((Point.start { loopCap := 2 } (sourceLines loop) {}).run
      { loopCap := 2 }).1.output = #[] := by decide +kernel
  have hwarns : ¬(Point.start { loopCap := 2 } (sourceLines loop) {}).Warns { loopCap := 2 } := by
    intro h
    have hmem := h.mem_output
    rw [hquiet] at hmem
    cases Array.mem_toList_iff.mpr hmem
  have hnotDeep : ¬(interpret { loopCap := 2 } loop {}).TooDeep := by
    rintro ⟨number, h⟩
    cases hends.symm.trans h
  have hdeep : (interpret { maxDepth := 1 } call {}).TooDeep := by
    let body : Line := ⟨2, 2, "f()".toList⟩
    let line : Line := ⟨3, 0, "f()".toList⟩
    let m : Machine := Machine.define {} "f" [] [body]
    let f : Function := ⟨"f", [], [body], m.globals⟩
    let q : Point := ⟨0, {}, f.body, { m with frames := [f.frame []] }⟩
    have hlines : sourceLines call = [⟨1, 0, "def f():".toList⟩, body, line] := by decide +kernel
    have hreach : Reaches { maxDepth := 1 } (entryWithin { maxDepth := 1 } 1) {}
        (sourceLines call) {} {} [line] m := by
      rw [hlines]
      exact .on rfl .here
    have hclass : classify line.text = .ok (.call "f" []) := by cbv
    have henters : Enters 1 m "f" [] q := .intro rfl (f := f) rfl (Nat.le_refl 0)
    have hinside : (q.run { maxDepth := 1 }).2 = .error (.runtime (.runtime .tooDeep) 2) := by
      rw [Point.run_cons]
      rfl
    rw [tooDeep_interpret_iff]
    refine ⟨2, (congrArg Prod.snd hreach.runLines_eq).trans ?_⟩
    exact Descends.run_failed (.call hclass henters) hinside
  have hsame := (limits_unseen { loopCap := 2 } { loopCap := 5 } loop {}).1 (by decide)
    (by decide) hwarns hnotDeep
  have hshallow := (limits_unseen { maxDepth := 1 } { maxDepth := 0 } call {}).2 rfl (by decide)
    hdeep
  exact ⟨hends, hsame, hdeep, hshallow⟩

end Offside
