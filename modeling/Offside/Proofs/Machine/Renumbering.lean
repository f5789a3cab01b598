import Offside.Proofs.Machine.Likeness

/-!
# Line numbers are labels

The number of a line is kept for the failures that point at it, and nothing else looks
at it. So lines may be numbered anew, in a program and in the functions that it finds
defined, before they are run or afterwards:

> `runUnder_renumber`: running lines that are numbered anew is running them as they
> were and numbering the outcome anew.
-/

namespace Offside

open Machine

/-- The line with another number. -/
def Line.renumber (number : Nat → Nat) (line : Line) : Line :=
  { line with number := number line.number }

/-- The function with other numbers on the lines of its body. -/
def Function.renumber (number : Nat → Nat) (f : Function) : Function :=
  { f with body := f.body.map (Line.renumber number) }

/-- The same names, each standing for what `f` makes of its item. -/
def Bindings.map {α β : Type} (f : α → β) (b : Bindings α) : Bindings β where
  entries := b.entries.map fun e => (e.1, f e.2)
  distinct := by
    rw [List.map_map]
    exact b.distinct

/-- The failure with another number for its line. -/
def Failure.renumber (number : Nat → Nat) : Failure → Failure
  | malformed fault line => malformed fault (number line)
  | runtime fault line => runtime fault (number line)

/-- The machine with other numbers on the lines of its functions. -/
def Machine.renumber (number : Nat → Nat) (m : Machine) : Machine :=
  { m with functions := m.functions.map (Function.renumber number) }

/-- The outcome with other numbers for all lines: those of the functions that are
defined, and that of the failure. -/
def Outcome.renumber {α : Type} (number : Nat → Nat) : Outcome α → Outcome α
  | (m, .error failure) => (m.renumber number, .error (failure.renumber number))
  | (m, .ok a) => (m.renumber number, .ok a)

variable {number : Nat → Nat}

/-! ## Numbering twice -/

theorem Bindings.eq_of_entries {α : Type} {a b : Bindings α} (h : a.entries = b.entries) :
    a = b := by
  cases a
  cases b
  cases h
  rfl

/-- Changing all values twice is changing them once. -/
theorem Bindings.map_map {α β γ : Type} (f : α → β) (g : β → γ) (b : Bindings α) :
    (b.map f).map g = b.map (g ∘ f) :=
  eq_of_entries List.map_map

/-- What is found in changed bindings is what was found, changed. -/
theorem Bindings.get?_map {α β : Type} (f : α → β) (b : Bindings α) (name : String) :
    (b.map f).get? name = (b.get? name).map f := by
  show (b.entries.map _).lookup name = (b.entries.lookup name).map f
  induction b.entries with
  | nil => rfl
  | cons e rest ih =>
    obtain ⟨other, item⟩ := e
    rw [List.map_cons, lookup_cons_eq, lookup_cons_eq, ih]
    split <;> rfl

/-- Binding a name and changing the items may be done in either order. -/
theorem Bindings.map_insert {α β : Type} (f : α → β) (b : Bindings α) (name : String) (item : α) :
    (b.insert name item).map f = (b.map f).insert name (f item) := by
  refine eq_of_entries ?_
  show (put name item b.entries).map _ = put name (f item) (b.entries.map _)
  induction b.entries with
  | nil => rfl
  | cons e rest ih =>
    obtain ⟨other, kept⟩ := e
    rw [put, List.map_cons, put]
    split
    next => rfl
    next => rw [List.map_cons, ih]

/-- Bindings whose values do not change are the same. -/
theorem Bindings.map_id {α : Type} (b : Bindings α) : b.map id = b :=
  eq_of_entries (List.map_id b.entries)

/-- Numbering lines twice is numbering them once. -/
theorem Line.map_renumber_renumber (first second : Nat → Nat) (lines : List Line) :
    (lines.map (Line.renumber first)).map (Line.renumber second) =
      lines.map (Line.renumber (second ∘ first)) :=
  List.map_map

theorem Function.renumber_renumber (first second : Nat → Nat) :
    Function.renumber second ∘ Function.renumber first = Function.renumber (second ∘ first) := by
  funext f
  show Function.mk _ _ (List.map _ (List.map _ f.body)) _ = Function.mk _ _ _ _
  rw [Line.map_renumber_renumber]
  rfl

/-- A function whose lines keep their numbers is the same. -/
theorem Function.renumber_id : Function.renumber id = id := by
  funext f
  show Function.mk _ _ (f.body.map id) _ = f
  rw [List.map_id]

/-- Numbering the lines of a machine twice is numbering them once. -/
theorem Machine.renumber_renumber (first second : Nat → Nat) (m : Machine) :
    (m.renumber first).renumber second = m.renumber (second ∘ first) := by
  rw [renumber, renumber, renumber, Bindings.map_map, Function.renumber_renumber]

/-- A machine whose lines keep their numbers is the same. -/
theorem Machine.renumber_id (m : Machine) : m.renumber id = m := by
  rw [renumber, Function.renumber_id, Bindings.map_id]

/-! ## Runs -/

/-- Lines, functions and tables are alike if they differ in the numbers, as `number` says. -/
def Likeness.renumbered (number : Nat → Nat) : Likeness where
  line line line' := line' = line.renumber number
  function f f' := f' = f.renumber number
  table b b' := b' = b.map (Function.renumber number)
  parameters_eq h := by rw [h]; rfl
  captured_eq h := by rw [h]; rfl
  rel := by
    rintro b _ rfl name
    rw [Bindings.get?_map]
    cases b.get? name with
    | none => exact .none
    | some f => exact .some rfl
  insert := by
    rintro b _ f _ rfl rfl name
    exact (Bindings.map_insert _ b name f).symm

/-- A machine is like itself with the lines numbered anew. -/
theorem machines_renumber (m : Machine) :
    (Likeness.renumbered number).Machines m (m.renumber number) :=
  ⟨rfl, rfl, rfl, rfl, rfl⟩

/-- Nothing else is like a machine with the lines numbered anew. -/
theorem eq_renumber_of_machines {m m' : Machine}
    (h : (Likeness.renumbered number).Machines m m') : m' = m.renumber number := by
  rw [Machine.renumber, ← h.functions, ← h.output_eq, ← h.globals_eq, ← h.frames_eq,
    ← h.loopDepth_eq]

/-- Nothing else is like an outcome with the lines numbered anew. -/
theorem eq_renumber_of_outcomes {α : Type} {o o' : Outcome α}
    (h : (Likeness.renumbered number).Outcomes Eq o o') : o' = o.renumber number := by
  obtain ⟨hm, hr⟩ := h
  rw [eq_renumber_of_machines hm]
  cases hr with
  | ok heq => rw [heq]; rfl
  | error hf =>
    cases hf with
    | malformed fault hline => rw [hline]; rfl
    | runtime fault hline => rw [hline]; rfl

/-- Lines are alike if they are the same lines with other numbers. -/
theorem forall₂_renumber {lines lines' : List Line} :
    List.Forall₂ (Likeness.renumbered number).line lines lines' ↔
      lines' = lines.map (Line.renumber number) := by
  rw [← List.forall₂_eq_eq_eq, List.forall₂_map_right_iff]
  exact ⟨fun h => h.flip, fun h => h.flip⟩

/-- Lines with other numbers run alike. -/
theorem linewise_renumbered (number : Nat → Nat) : (Likeness.renumbered number).Linewise where
  indent_eq h := by rw [h]; rfl
  isBlank_eq h := by rw [h]; rfl
  text_eq_or h := .inl (by rw [h]; rfl)
  function h name parameters captured := by
    rw [forall₂_renumber.mp h]
    rfl
  body h := by
    rw [h]
    exact forall₂_renumber.mpr rfl

/-- **Line numbers are labels.** Numbering lines anew, and with them the functions that
are found defined, numbers the outcome anew and changes nothing else. -/
theorem runUnder_renumber (number : Nat → Nat) (limits : Limits) (lines : List Line)
    (m : Machine) :
    runUnder limits (lines.map (Line.renumber number)) (m.renumber number) =
      (runUnder limits lines m).renumber number := by
  refine eq_renumber_of_outcomes ?_
  exact (linewise_renumbered number).runUnder limits (forall₂_renumber.mpr rfl)
    (machines_renumber m)

end Offside
