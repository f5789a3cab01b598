import Mathlib
import Offside.Proofs.Machine.Likeness
import Offside.Proofs.Machine.Signals

/-!
# Calls are isolated

A call and its caller have only the arguments, the printed lines and the defined functions
in common. Seen from the body of the function, nothing of the caller can be read:

> `call_ignores_caller`: callers with the same functions and the same arguments get the
> same result, the same printed lines and the same functions.

And seen from the caller, nothing of it is written:

> `call_keeps_caller`: a call leaves every scope of its caller as it was, and every
> function that it does not define anew.
-/

namespace Offside

open Machine

variable {limits : Limits}

/-- A call as a run under limits makes it: so many calls may go on as the calls that are
going on leave. -/
def Machine.callUnder (limits : Limits) (name : String) (t : Text) (line : Nat) (m : Machine) :
    Outcome Unit :=
  m.call (entryWithin limits (limits.maxDepth - m.frames.length)) name t line

/-- Every call that a run under limits comes to is made in this way. -/
theorem Comes.call_eq_callUnder {lines rest : List Line} {line : Line} {m m' : Machine}
    {constructs : List Construct} {room : Nat} {chains : Chains}
    (h : Comes limits (Point.start limits lines m) constructs ⟨room, chains, line :: rest, m'⟩)
    (name : String) (t : Text) (number : Nat) :
    m'.call (context limits room rest).entry name t number =
      m'.callUnder limits name t number := by
  rw [callUnder, ← h.room_eq]
  rfl

/-- Bodies are entered without a look at the caller. -/
theorem entryWithin_isLocal (limits : Limits) (room : Nat) :
    (entryWithin limits room).IsLocal := by
  intro run body h
  cases room with
  | zero => cases h
  | succ room =>
    cases h
    exact runWithin_isLocal limits room body

/-- Nothing is alike but what is the same. Tables are the same if each name stands for the
same function in both. -/
def Likeness.same : Likeness where
  line := Eq
  function := Eq
  table b b' := ∀ name, b.get? name = b'.get? name
  parameters_eq h := by rw [h]
  captured_eq h := by rw [h]
  rel {_ b'} h name := by
    rw [h name]
    cases b'.get? name with
    | none => exact .none
    | some f => exact .some rfl
  insert := by
    rintro b b' f _ h rfl name other
    rw [Bindings.get?_insert, Bindings.get?_insert, h other]

/-- Equal lines run alike. -/
theorem linewise_same : Likeness.same.Linewise where
  indent_eq h := by rw [h]
  isBlank_eq h := by rw [h]
  text_eq_or h := .inl (by rw [h])
  function {body body'} h name parameters captured := by
    have hbody : List.Forall₂ Eq body body' := h
    rw [List.forall₂_eq_eq_eq] at hbody
    rw [hbody]
    rfl
  body h := by
    rw [h]
    exact List.forall₂_same.mpr fun _ _ => rfl

/-- **A call does not see its caller.** Two machines where each name stands for the same
function, and with as many calls going on, may differ in everything else: in what was printed,
in their global scopes, in the scopes of the calls that are going on and in the loops that
these are in. A call with the same values for its arguments has the same result in both,
prints the same lines, and leaves the same function under each name. -/
theorem call_ignores_caller {m₁ m₂ : Machine}
    (hfunctions : ∀ other, m₁.functions.get? other = m₂.functions.get? other)
    (hframes : m₁.frames.length = m₂.frames.length) {t₁ t₂ : Text}
    (harguments : m₁.arguments t₁ = m₂.arguments t₂) (name : String) (line : Nat) :
    ∃ printed functions₁ functions₂ result,
      m₁.callUnder limits name t₁ line =
        ({ m₁ with output := m₁.output ++ printed, functions := functions₁ }, result) ∧
      m₂.callUnder limits name t₂ line =
        ({ m₂ with output := m₂.output ++ printed, functions := functions₂ }, result) ∧
      ∀ other, functions₁.get? other = functions₂.get? other := by
  let entry := entryWithin limits (limits.maxDepth - m₂.frames.length)
  have hentry : entry.IsLocal := entryWithin_isLocal limits _
  -- Both take over what the call does in a machine with nothing but their functions.
  let call (functions : FunctionTable) : Outcome Unit :=
    Machine.callWith entry name (m₂.arguments t₂) line { functions := functions }
  have hcall₁ : m₁.callUnder limits name t₁ line = m₁.adopt (call m₁.functions) := by
    rw [callUnder, hframes, call_eq_adopt hentry, harguments]
  have hcall₂ : m₂.callUnder limits name t₂ line = m₂.adopt (call m₂.functions) :=
    call_eq_adopt hentry name t₂ line m₂
  have hbare : Likeness.same.Machines { functions := m₁.functions }
      { functions := m₂.functions } := ⟨rfl, rfl, rfl, rfl, hfunctions⟩
  have hline : Likeness.same.line ⟨line, 0, []⟩ ⟨line, 0, []⟩ := rfl
  have hsame : Likeness.same.Outcomes Eq (call m₁.functions) (call m₂.functions) :=
    (linewise_same.entries limits _).callWith hline hbare name _
  rw [hcall₁, hcall₂]
  generalize call m₁.functions = o₁, call m₂.functions = o₂ at hsame ⊢
  obtain ⟨hafter, hresults⟩ := hsame
  obtain rfl := hresults.eq_of_number fun h => by rw [h]
  refine ⟨_, _, _, _, rfl, ?_, hafter.functions⟩
  rw [adopt, hafter.output_eq]

/-- A call in a loop and a call in no loop, where the name `x` that the body reads is bound
differently around them, where the argument is a name for the one and a literal for the
other, and where the functions were defined in different orders. -/
theorem call_ignores_caller_in_loop :
    let f : Function := ⟨"f", ["a"], [⟨2, 4, "print(a, x)".toList⟩, ⟨3, 4, "x = a".toList⟩], {}⟩
    let g : Function := ⟨"g", [], [⟨5, 2, "pass".toList⟩], {}⟩
    let m₁ : Machine :=
      { frames := [.ofList [("x", .text "one")]], functions := .ofList [("f", f), ("g", g)] }
    let m₂ : Machine :=
      { output := #["two"], globals := .ofList [("x", .nothing)], frames := [{}],
        functions := .ofList [("g", g), ("f", f)], loopDepth := 3 }
    (∀ other, m₁.functions.get? other = m₂.functions.get? other) ∧
      m₁.frames.length = m₂.frames.length ∧
      m₁.arguments "x".toList = m₂.arguments "'one', ".toList ∧
      ∃ printed functions₁ functions₂ result,
        m₁.callUnder {} "f" "x".toList 7 =
          ({ m₁ with output := m₁.output ++ printed, functions := functions₁ }, result) ∧
        m₂.callUnder {} "f" "'one', ".toList 7 =
          ({ m₂ with output := m₂.output ++ printed, functions := functions₂ }, result) ∧
        (∀ other, functions₁.get? other = functions₂.get? other) ∧ printed = #["one x"] := by
  intro f g m₁ m₂
  have hfunctions : ∀ other, m₁.functions.get? other = m₂.functions.get? other := by
    intro other
    show List.lookup other [("f", f), ("g", g)] = List.lookup other [("g", g), ("f", f)]
    rw [Bindings.lookup_cons_eq, Bindings.lookup_cons_eq, Bindings.lookup_cons_eq,
      Bindings.lookup_cons_eq]
    by_cases hf : other = "f"
    · have hg : other ≠ "g" := by
        rw [hf]
        decide
      rw [if_pos hf, if_neg hg, if_pos hf]
    · rw [if_neg hf, if_neg hf]
  have hframes : m₁.frames.length = m₂.frames.length := rfl
  have harguments : m₁.arguments "x".toList = m₂.arguments "'one', ".toList := by cbv
  have hprinted : (m₁.callUnder {} "f" "x".toList 7).1.output = #["one x"] := by decide +kernel
  obtain ⟨printed, functions₁, functions₂, result, hcall₁, hcall₂, hafter⟩ :=
    @call_ignores_caller {} m₁ m₂ hfunctions hframes _ _ harguments "f" 7
  rw [hcall₁] at hprinted
  exact ⟨hfunctions, hframes, harguments, printed, functions₁, functions₂, result, hcall₁, hcall₂,
    hafter, Array.empty_append.symm.trans hprinted⟩

/-- A run from a point defines a function: it comes to a line that heads a definition of
that name. -/
def Point.Defines (limits : Limits) (p : Point) (name : String) : Prop :=
  ∃ constructs room chains line rest m parameters,
    Comes limits p constructs ⟨room, chains, line :: rest, m⟩ ∧
      classify line.text = .ok (.define name parameters) ∧ blockLength line.indent rest ≠ 0

/-- A definition changes no other function. -/
theorem functions_define (m : Machine) {name other : String} (h : other ≠ name)
    (parameters : List String) (body : List Line) :
    (m.define name parameters body).functions.get? other = m.functions.get? other := by
  rw [define, Bindings.get?_insert, if_neg h, functions_bind]

theorem respected_functions (other : String) :
    Respected fun m m' => m'.functions.get? other = m.functions.get? other where
  refl _ := rfl
  trans h h' := h'.trans h
  print _ _ := rfl
  bind m name value := by rw [functions_bind]
  inLoop h := h
  inCall h := h

/-- A function that a run does not define stays as it was. -/
theorem Point.get?_functions {p : Point} {name : String} (h : ¬p.Defines limits name) :
    (p.run limits).1.functions.get? name = p.machine.functions.get? name := by
  refine (respected_functions name).kept.run p ?_
  intro constructs room chains line rest m other parameters hcomes hclass hblock
  refine functions_define m ?_ parameters _
  rintro rfl
  exact h ⟨constructs, room, chains, line, rest, m, parameters, hcomes, hclass, hblock⟩

/-- **A call does not change its caller.** However a call ends, the global scope, the scopes
of all calls that are going on and the loops of the caller are as they were, lines are only
printed after those before, and functions are only added or defined anew: one that no line
in the call has defined, at any depth, is what it was, with the scope it was defined in. -/
theorem call_keeps_caller (limits : Limits) (m : Machine) (name : String) (t : Text)
    (line : Nat) :
    let m' := (m.callUnder limits name t line).1
    m'.globals = m.globals ∧ m'.frames = m.frames ∧ m'.loopDepth = m.loopDepth ∧
      m.output.toList <+: m'.output.toList ∧
      ∀ other, (m.functions.contains other → m'.functions.contains other) ∧
        ((∀ p, Enters (limits.maxDepth - m.frames.length) m name t p →
          ¬p.Defines limits other) → m'.functions.get? other = m.functions.get? other) := by
  intro m'
  have hadopt : m' = (m.adopt _).1 := congrArg Prod.fst
    (call_eq_adopt (entryWithin_isLocal limits (limits.maxDepth - m.frames.length)) name t line m)
  have hextends : Extends m m' := respected_extends.kept.call line fun q _ => q.run_extends limits
  refine ⟨?_, ?_, hextends.loopDepth, hextends.output, fun other => ⟨hextends.functions other, ?_⟩⟩
  · rw [hadopt, adopt]
  · rw [hadopt, adopt]
  · intro hdefines
    exact (respected_functions other).kept.call line fun q hq =>
      Point.get?_functions (hdefines q hq)

end Offside
