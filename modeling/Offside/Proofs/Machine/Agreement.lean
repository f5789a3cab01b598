import Offside.Proofs.Machine.Points

/-!
# What a line asks for

A line runs lines of its own for loops and calls only. A loop asks its block for no
more than what it does in the rounds that the loop comes to, and a call asks how the
function is entered at one machine. So two ways of running blocks and bodies that agree
there agree on the line:

> `runLine_agrees`: a line does the same in two contexts whose loops and calls do.

> `forEach_agrees` and `whileHolds_agrees`: a loop does the same with two bodies that
> agree in its rounds, and a loop under a condition also with more rounds to go, if it
> comes to its end with those it has.
-/

namespace Offside

open Machine

namespace Run

/-- A loop goes on alike if it does behind rounds that let it go on. -/
theorem afterRound_agrees {again again' round : Run} {m : Machine}
    (h : ∀ m', Passes round m m' → again' m' = again m') :
    afterRound again' (round m) = afterRound again (round m) := by
  unfold Passes at h
  generalize hround : round m = outcome at h ⊢
  obtain ⟨m', failure | completion⟩ := outcome
  · rfl
  · cases completion with
    | finished => exact h m' (.inl rfl)
    | continued => exact h m' (.inr rfl)
    | broken => rfl
    | returned => rfl

/-- Loops over values agree if their bodies do wherever the loop comes to. -/
theorem forEach_agrees {body body' : Value → Run} {vs : List Value} {m : Machine}
    (h : ∀ v ws m', EachRounds body vs m (v :: ws) m' → body' v m' = body v m') :
    forEach body' vs m = forEach body vs m := by
  induction vs generalizing m with
  | nil => rfl
  | cons v vs ih =>
    rw [forEach_cons, forEach_cons, h v vs m .here]
    refine afterRound_agrees fun m' hround => ?_
    exact ih fun w ws m'' hrounds => h w ws m'' (.next hround hrounds)

/-- Where its condition does not hold, a loop does not ask how often it may go round. -/
theorem whileHolds_of_ne_true {condition : Machine → Except Failure Bool} {m : Machine}
    (h : condition m ≠ .ok true) (body body' : Run) (warning warning' : String) (n n' : Nat) :
    whileHolds condition body' warning' n' m = whileHolds condition body warning n m := by
  rw [whileHolds.eq_def, whileHolds.eq_def]
  dsimp only
  cases hcondition : condition m with
  | error failure => rfl
  | ok holds =>
    cases holds with
    | false => rfl
    | true => exact absurd hcondition h

/-- Loops under a condition agree if their bodies do wherever the loop comes to, and the
rounds left over are not needed. -/
theorem whileHolds_agrees {condition : Machine → Except Failure Bool} {body body' : Run}
    {warning warning' : String} {n n' : Nat} {m : Machine}
    (hbody : ∀ k m', WhileRounds condition body n m (k + 1) m' → condition m' = .ok true →
      body' m' = body m')
    (hrounds : n' = n ∧ warning' = warning ∨
      n ≤ n' ∧ ∀ m', WhileRounds condition body n m 0 m' → condition m' ≠ .ok true) :
    whileHolds condition body' warning' n' m = whileHolds condition body warning n m := by
  induction n generalizing n' m with
  | zero =>
    by_cases hholds : condition m = .ok true
    · rcases hrounds with ⟨rfl, rfl⟩ | ⟨_, hends⟩
      · rw [whileHolds, whileHolds, hholds]
      · exact absurd hholds (hends m .here)
    · exact whileHolds_of_ne_true hholds body body' warning warning' 0 n'
  | succ n ih =>
    by_cases hholds : condition m = .ok true
    -- There is at least one round to go in both, and after it as many less.
    · obtain ⟨k, rfl⟩ : ∃ k, n' = k + 1 := Nat.exists_eq_add_one.mpr (by omega)
      rw [whileHolds_succ hholds, whileHolds_succ hholds, hbody n m .here hholds]
      refine afterRound_agrees fun m' hround => ?_
      refine ih (fun k m'' hrest => hbody k m'' (.next hholds hround hrest)) ?_
      rcases hrounds with ⟨hsame, hwarning⟩ | ⟨hle, hends⟩
      · exact .inl ⟨Nat.succ_inj.mp hsame, hwarning⟩
      · refine .inr ⟨Nat.le_of_succ_le_succ hle, fun m'' hrest => ?_⟩
        exact hends m'' (.next hholds hround hrest)
    · exact whileHolds_of_ne_true hholds body body' warning warning' (n + 1) n'

end Run

variable {line : Line} {rest : List Line} {m : Machine}

/-! ## Loops and calls on a line -/

theorem runLine_forEach (m : Machine) (context : Context) (chains : Chains) {name : String}
    {iterable : Text} (hclass : classify line.text = .ok (.forEach name iterable))
    (hblock : blockLength line.indent rest ≠ 0) :
    m.runLine context chains line rest =
      m.forEach context (chains.below line.indent) line name iterable
        (blockLength line.indent rest) := by
  rw [runLine_of_classify m context chains rest hclass (by simp) rfl, perform,
    header_of_block m "for" hblock]

theorem runLine_whileHolds (m : Machine) (context : Context) (chains : Chains) {condition : Text}
    (hclass : classify line.text = .ok (.whileHolds condition))
    (hblock : blockLength line.indent rest ≠ 0) :
    m.runLine context chains line rest =
      m.whileHolds context (chains.below line.indent) line condition
        (blockLength line.indent rest) := by
  rw [runLine_of_classify m context chains rest hclass (by simp) rfl, perform,
    header_of_block m "while" hblock]

theorem runLine_call (m : Machine) (context : Context) (chains : Chains) (rest : List Line)
    {name : String} {arguments : Text}
    (hclass : classify line.text = .ok (.call name arguments)) :
    m.runLine context chains line rest =
      match m.call context.entry name arguments line.number with
      | (m', .error failure) => (m', .error failure)
      | (m', .ok ()) => (m', .ok (.goOn (chains.below line.indent) 0)) :=
  (runLine_of_classify m context chains rest hclass (by simp) rfl).trans rfl

/-! ## Lines in two contexts -/

/-- Headers run alike if they do with a block under them. -/
theorem header_agrees {keyword : String} {run run' : Nat → Outcome Next}
    (h : blockLength line.indent rest ≠ 0 →
      run' (blockLength line.indent rest) = run (blockLength line.indent rest)) :
    m.header keyword line rest run' = m.header keyword line rest run := by
  rw [header, header]
  split
  next => rfl
  next n hlength =>
    rw [hlength] at h
    exact h (Nat.succ_ne_zero n)

/-- A call asks how the body of the function is run at the machine where it is entered. -/
theorem call_agrees {entry entry' : Entry} {name : String} {arguments : Text} {number : Nat}
    (h : ∀ f, m.functions.get? name = some f →
      (m.arguments arguments).length ≤ f.parameters.length →
      (entry'.map fun run => run f.body
          { m with frames := f.frame (m.arguments arguments) :: m.frames, loopDepth := 0 }) =
        entry.map fun run => run f.body
          { m with frames := f.frame (m.arguments arguments) :: m.frames, loopDepth := 0 }) :
    m.call entry' name arguments number = m.call entry name arguments number := by
  rw [call, call]
  cases hfunction : m.functions.get? name with
  | none => rfl
  | some f =>
    dsimp only
    unfold enter
    split
    next => rfl
    next hcount =>
      have hbody := h f hfunction (Nat.not_lt.mp hcount)
      cases entry with
      | none =>
        cases entry' with
        | none => rfl
        | some run' => cases hbody
      | some run =>
        cases entry' with
        | none => cases hbody
        | some run' =>
          dsimp only
          have hrun : run' f.body _ = run f.body _ := Option.some.inj hbody
          rw [Run.inCall, Run.inCall, hrun]

/-- **What a line asks for.** A line does the same in two contexts, if the loop or the call
on it does. -/
theorem runLine_agrees {context context' : Context} (chains : Chains)
    (heach : ∀ name iterable vs, classify line.text = .ok (.forEach name iterable) →
      m.elements iterable = .ok vs → blockLength line.indent rest ≠ 0 →
      Run.forEach (fun v m => context'.block (blockLength line.indent rest) (m.bind name v)) vs
          { m with loopDepth := m.loopDepth + 1 } =
        Run.forEach (fun v m => context.block (blockLength line.indent rest) (m.bind name v)) vs
          { m with loopDepth := m.loopDepth + 1 })
    (hwhile : ∀ condition, classify line.text = .ok (.whileHolds condition) →
      blockLength line.indent rest ≠ 0 →
      Run.whileHolds (fun m => m.condition condition line)
          (context'.block (blockLength line.indent rest)) context'.limits.warning
          context'.limits.loopCap { m with loopDepth := m.loopDepth + 1 } =
        Run.whileHolds (fun m => m.condition condition line)
          (context.block (blockLength line.indent rest)) context.limits.warning
          context.limits.loopCap { m with loopDepth := m.loopDepth + 1 })
    (hcall : ∀ name arguments, classify line.text = .ok (.call name arguments) →
      m.call context'.entry name arguments line.number =
        m.call context.entry name arguments line.number) :
    m.runLine context' chains line rest = m.runLine context chains line rest := by
  rw [runLine, runLine]
  split
  next => rfl
  next =>
    split
    next => rfl
    next statement hclass =>
      dsimp only
      generalize chains.below _ = kept
      cases statement with
      | forEach name iterable =>
        refine header_agrees fun hblock => ?_
        rw [Machine.forEach, Machine.forEach]
        split
        next => rfl
        next vs helements =>
          dsimp only
          rw [Run.inLoop, Run.inLoop, heach name iterable vs hclass helements hblock]
      | whileHolds condition =>
        refine header_agrees fun hblock => ?_
        rw [Machine.whileHolds, Machine.whileHolds, Run.inLoop, Run.inLoop,
          hwhile condition hclass hblock]
      | call name arguments => rw [perform, perform, hcall name arguments hclass]
      | _ => rfl

end Offside
