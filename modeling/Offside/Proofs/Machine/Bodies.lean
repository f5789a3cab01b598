import Offside.Proofs.Machine.Keeping

/-!
# The lines that a run comes to

A run takes its lines apart in two ways: it goes on behind some of them, and it runs the block
under a header by itself, in a loop, or much later as the body of a function. A property that
is `Cuttable` goes over to what is left in either way. Main result:

> `Comes.madeOf`: if the lines of a run and all bodies have a cuttable property, so have the
> lines and the bodies at every point that the run comes to.
-/

namespace Offside

open Machine

variable {limits : Limits} {room : Nat} {chains : Chains} {line : Line} {rest : List Line}
  {m : Machine} {P : List Line → Prop}

/-- A property that lines leave to those behind the first one, from any of them on, and to the
block under it. -/
structure Cuttable (P : List Line → Prop) : Prop where
  drop : ∀ {line rest}, P (line :: rest) → ∀ n, P (rest.drop n)
  block : ∀ {line rest}, P (line :: rest) → P (rest.take (blockLength line.indent rest))

/-- All functions that are defined have bodies with a property. -/
def Machine.MadeOf (P : List Line → Prop) (m : Machine) : Prop :=
  ∀ name f, m.functions.get? name = some f → P f.body

/-- The lines that are left have a property, and so have those of all functions. -/
structure Point.MadeOf (P : List Line → Prop) (p : Point) : Prop where
  lines : P p.lines
  machine : p.machine.MadeOf P

/-- A definition is made of its body. -/
theorem madeOf_define (h : m.MadeOf P) (name : String) (parameters : List String)
    {body : List Line} (hbody : P body) : (m.define name parameters body).MadeOf P := by
  intro other f hf
  rw [define, Bindings.get?_insert, functions_bind] at hf
  split at hf
  next => cases hf; exact hbody
  next => exact h other f hf

theorem respected_madeOf (P : List Line → Prop) :
    Respected fun m m' => m.MadeOf P → m'.MadeOf P where
  refl _ h := h
  trans h h' hm := h' (h hm)
  print _ _ h := h
  bind m name value h := by rwa [Machine.MadeOf, functions_bind]
  inLoop h hm := h hm
  inCall h hm := h hm

namespace Cuttable

/-- What a line descends to is the block under it, or the body of a function. -/
theorem descends_lines (hP : Cuttable P) {construct : Construct} {q : Point}
    (h : Descends limits room line rest m construct q) (hlines : P (line :: rest))
    (hm : m.MadeOf P) : P q.lines := by
  cases h with
  | forEach => exact hP.block hlines
  | whileHolds => exact hP.block hlines
  | call _ henters =>
    cases henters with
    | intro _ hfunction => exact hm _ _ hfunction

/-- A line leaves only bodies that it or the machine is made of. -/
theorem runLine (hP : Cuttable P) (chains : Chains) (hlines : P (line :: rest))
    (hm : m.MadeOf P)
    (hinside : ∀ construct q, Descends limits room line rest m construct q → q.MadeOf P →
      (q.run limits).1.MadeOf P) :
    (m.runLine (context limits room rest) chains line rest).1.MadeOf P := by
  refine (respected_madeOf P).kept.runLine chains ?_ ?_ hm
  · intro name parameters _ _ hm
    exact madeOf_define hm name parameters (hP.block hlines)
  · intro construct q hdescends hq
    exact hinside construct q hdescends ⟨hP.descends_lines hdescends hlines hm, hq⟩

/-- A run defines functions with bodies that are blocks under its lines. -/
theorem run (hP : Cuttable P) {p : Point} (h : p.MadeOf P) : (p.run limits).1.MadeOf P := by
  induction p using Point.induction limits with
  | nil room chains m =>
    rw [Point.run_nil]
    exact h.machine
  | cons room chains line rest m ihdescends ihon =>
    have hline : (m.runLine (context limits room rest) chains line rest).1.MadeOf P :=
      hP.runLine chains h.lines h.machine ihdescends
    rw [Point.run_cons]
    split
    next m' failure hrun => rwa [hrun] at hline
    next m' completion hrun => rwa [hrun] at hline
    next m' chains' skipped hrun =>
      rw [hrun] at hline
      exact ihon m' chains' skipped hrun ⟨hP.drop h.lines skipped, hline⟩

/-- What a run reaches is made of the same lines. -/
theorem reaches (hP : Cuttable P) {chains' : Chains} {lines lines' : List Line} {m' : Machine}
    (h : Reaches limits (entryWithin limits room) chains lines m chains' lines' m')
    (hp : Point.MadeOf P ⟨room, chains, lines, m⟩) :
    Point.MadeOf P ⟨room, chains', lines', m'⟩ := by
  induction h with
  | here => exact hp
  | @on chains _ _ line rest _ m _ _ skipped hline _ ih =>
    have hstep : (m.runLine (context limits room rest) chains line rest).1.MadeOf P :=
      hP.runLine chains hp.lines hp.machine fun _ _ _ => hP.run
    rw [context, hline] at hstep
    exact ih ⟨hP.drop hp.lines skipped, hstep⟩

theorem descends (hP : Cuttable P) {construct : Construct} {q : Point}
    (h : Descends limits room line rest m construct q) (hlines : P (line :: rest))
    (hm : m.MadeOf P) : q.MadeOf P := by
  have hround (m' : Machine) (hm' : m'.MadeOf P) :
      ((Point.block room line rest m').run limits).1.MadeOf P :=
    hP.run ⟨hP.block hlines, hm'⟩
  refine ⟨hP.descends_lines h hlines hm, ?_⟩
  have hR := respected_madeOf P
  cases h with
  | @forEach name _ vs ws v m' _ _ _ hrounds =>
    have hrun : m'.MadeOf P :=
      hrounds.keeps hm fun w _ m'' _ hm'' => hround _ (hR.bind m'' name w hm'')
    exact hR.bind m' name v hrun
  | whileHolds _ _ hrounds _ => exact hrounds.keeps hm fun _ m' _ _ => hround m'
  | call _ henters =>
    cases henters
    exact hm

end Cuttable

/-- **What lines and bodies are made of** goes over to every point that a run comes to. -/
theorem Comes.madeOf {p q : Point} {constructs : List Construct}
    (h : Comes limits p constructs q) (hP : Cuttable P) (hp : p.MadeOf P) : q.MadeOf P := by
  induction h with
  | along hreach => exact hP.reaches hreach hp
  | into hreach hdescends _ ih =>
    have hline := hP.reaches hreach hp
    exact ih (hP.descends hdescends hline.lines hline.machine)

end Offside
