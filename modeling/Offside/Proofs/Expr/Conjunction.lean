import Offside.Expr.Eval

/-!
# Chains of comparisons as conjunctions

A chain of comparisons keeps the value of each operand for the comparison behind it. The same
comparisons by themselves, joined by `and` and grouped to the left, evaluate every operand in
the middle once more, and `and` gives an operand back, not a truth. All the same:

> `chain_as_conjunction`: a chain and the conjunction of its pairs give the same value or the
> same fault, the value is a truth, and what stands behind a pair that fails or does not hold
> is left alone.

A link of a chain either settles the chain or hands the value of its operand on
(`evalLinks_cons_cases`), and both sides are taken apart by this.
-/

namespace Offside

namespace Expr

variable {scope : Scope} {first whole : Expr} {v : Value} {link : Relation × Nat × Expr}
  {links : List (Relation × Nat × Expr)} {result : Except RuntimeFault Value}

/-- An expression joined by `and` with the comparisons that go on from an operand: each
operand is compared with the one behind it. -/
def conjoinOnto (whole left : Expr) : List (Relation × Nat × Expr) → Expr
  | [] => whole
  | link :: links => conjoinOnto (.logical .and whole (.comparison left [link])) link.2.2 links

/-- The comparisons of a chain by themselves, joined by `and`. -/
def conjunction (first : Expr) (link : Relation × Nat × Expr)
    (links : List (Relation × Nat × Expr)) : Expr :=
  conjoinOnto (.comparison first [link]) link.2.2 links

/-- The result of a comparison that fails or does not hold. -/
inductive Settled : Except RuntimeFault Value → Prop
  | failed (fault : RuntimeFault) : Settled (.error fault)
  | refuted : Settled (.ok (.truth false))

/-! ## Chains -/

theorem eval_comparison (hfirst : first.eval scope = .ok v)
    (links : List (Relation × Nat × Expr)) :
    (comparison first links).eval scope = evalLinks scope v links := by
  rw [eval, hfirst]

theorem eval_comparison_of_error {fault : RuntimeFault} (hfirst : first.eval scope = .error fault)
    (links : List (Relation × Nat × Expr)) :
    (comparison first links).eval scope = .error fault := by
  rw [eval, hfirst]

/-- A link settles the chain, or it holds and hands the value of its operand on. -/
theorem evalLinks_cons_cases (scope : Scope) (v : Value) (link : Relation × Nat × Expr) :
    (∃ result, Settled result ∧ ∀ links, evalLinks scope v (link :: links) = result) ∨
      ∃ w, link.2.2.eval scope = .ok w ∧
        ∀ links, evalLinks scope v (link :: links) = evalLinks scope w links := by
  obtain ⟨op, column, operand⟩ := link
  cases hoperand : operand.eval scope with
  | error fault =>
    refine .inl ⟨.error fault, .failed fault, fun links => ?_⟩
    rw [evalLinks, hoperand]
  | ok w =>
    cases hholds : op.holds v w with
    | error fault =>
      refine .inl ⟨.error fault, .failed fault, fun links => ?_⟩
      rw [evalLinks, hoperand]
      dsimp only
      rw [hholds]
    | ok holds =>
      cases holds with
      | false =>
        refine .inl ⟨_, .refuted, fun links => ?_⟩
        rw [evalLinks, hoperand]
        dsimp only
        rw [hholds]
      | true =>
        refine .inr ⟨w, rfl, fun links => ?_⟩
        rw [evalLinks, hoperand]
        dsimp only
        rw [hholds]

/-- There are no other values than truths. -/
theorem evalLinks_cases (scope : Scope) (v : Value) (links : List (Relation × Nat × Expr)) :
    Settled (evalLinks scope v links) ∨ evalLinks scope v links = .ok (.truth true) := by
  induction links generalizing v with
  | nil => exact .inr rfl
  | cons link links ih =>
    rcases evalLinks_cons_cases scope v link with ⟨result, hsettled, hresult⟩ | ⟨w, -, hon⟩
    · rw [hresult]
      exact .inl hsettled
    · rw [hon]
      exact ih w

/-- Links behind a chain that is settled are left alone. -/
theorem evalLinks_append (h : Settled (evalLinks scope v links))
    (later : List (Relation × Nat × Expr)) :
    evalLinks scope v (links ++ later) = evalLinks scope v links := by
  induction links generalizing v with
  | nil => cases h
  | cons link links ih =>
    rw [List.cons_append]
    rcases evalLinks_cons_cases scope v link with ⟨result, -, hresult⟩ | ⟨w, -, hon⟩
    · rw [hresult, hresult]
    · rw [hon] at h
      rw [hon, hon, ih h]

/-! ## Conjunctions -/

/-- What is settled stays so in every conjunction that goes on from it. -/
theorem eval_conjoinOnto_of_settled (hwhole : whole.eval scope = result) (h : Settled result)
    (left : Expr) (links : List (Relation × Nat × Expr)) :
    (conjoinOnto whole left links).eval scope = result := by
  induction links generalizing whole left with
  | nil => exact hwhole
  | cons link links ih =>
    refine ih ?_ link.2.2
    rw [eval, hwhole]
    cases h <;> rfl

/-- A conjunction whose last comparison is that of a link goes on as the chain does. -/
theorem eval_conjoinOnto (hwhole : whole.eval scope = evalLinks scope v [link])
    (links : List (Relation × Nat × Expr)) :
    (conjoinOnto whole link.2.2 links).eval scope = evalLinks scope v (link :: links) := by
  induction links generalizing whole v link with
  | nil => exact hwhole
  | cons next links ih =>
    rcases evalLinks_cons_cases scope v link with ⟨result, hsettled, hresult⟩ | ⟨w, hoperand, hon⟩
    · rw [hresult] at hwhole ⊢
      exact eval_conjoinOnto_of_settled hwhole hsettled link.2.2 (next :: links)
    · rw [hon]
      refine ih ?_
      -- what is joined so far holds, so the conjunction is what its new comparison is
      have hholds : whole.eval scope = .ok (.truth true) := hwhole.trans (hon [])
      rw [eval, hholds]
      exact eval_comparison hoperand [next]

/-- A chain and the conjunction of its links have one value. -/
theorem eval_conjunction (scope : Scope) (first : Expr) (link : Relation × Nat × Expr)
    (links : List (Relation × Nat × Expr)) :
    (conjunction first link links).eval scope = (comparison first (link :: links)).eval scope := by
  cases hfirst : first.eval scope with
  | error fault =>
    rw [eval_comparison_of_error hfirst]
    exact eval_conjoinOnto_of_settled (eval_comparison_of_error hfirst _) (.failed fault) _ links
  | ok v =>
    rw [eval_comparison hfirst]
    exact eval_conjoinOnto (eval_comparison hfirst [link]) links

theorem eval_comparison_cases (scope : Scope) (first : Expr)
    (links : List (Relation × Nat × Expr)) :
    Settled ((comparison first links).eval scope) ∨
      (comparison first links).eval scope = .ok (.truth true) := by
  cases hfirst : first.eval scope with
  | error fault =>
    rw [eval_comparison_of_error hfirst]
    exact .inl (.failed fault)
  | ok v =>
    rw [eval_comparison hfirst]
    exact evalLinks_cases scope v links

/-- Links behind the one that settles a chain are not looked at. -/
theorem eval_comparison_append (h : Settled ((comparison first links).eval scope))
    (later : List (Relation × Nat × Expr)) :
    (comparison first (links ++ later)).eval scope = (comparison first links).eval scope := by
  cases hfirst : first.eval scope with
  | error fault => rw [eval_comparison_of_error hfirst, eval_comparison_of_error hfirst]
  | ok v =>
    rw [eval_comparison hfirst] at h
    rw [eval_comparison hfirst, eval_comparison hfirst, evalLinks_append h]

end Expr

open Offside.Expr

/-- **A chain of comparisons is the conjunction of its pairs.** Whatever the operands are and
however many there are, the chain gives the value or the fault that the single comparisons
give when they are joined by `and` from the left. A value is always a truth. Unless all pairs
hold so far, the operands behind them are not evaluated: whatever they are, and also where
they would fail, the result is the one that is already there. -/
theorem chain_as_conjunction (scope : Scope) (first : Expr) (link : Relation × Nat × Expr)
    (links : List (Relation × Nat × Expr)) :
    let chain := comparison first (link :: links)
    chain.eval scope = (conjunction first link links).eval scope ∧
      (∀ v, chain.eval scope = .ok v → ∃ b, v = .truth b) ∧
      (chain.eval scope ≠ .ok (.truth true) → ∀ later,
        (comparison first (link :: links ++ later)).eval scope = chain.eval scope) := by
  intro chain
  have hcases : Settled (chain.eval scope) ∨ chain.eval scope = .ok (.truth true) :=
    eval_comparison_cases scope first (link :: links)
  refine ⟨(eval_conjunction scope first link links).symm, fun v hv => ?_, fun hne later => ?_⟩
  · rw [hv] at hcases
    rcases hcases with hsettled | hholds
    · cases hsettled
      exact ⟨false, rfl⟩
    · exact ⟨true, Except.ok.inj hholds⟩
  · exact eval_comparison_append (hcases.resolve_right hne) later

/-- In `'a' < 'b' < 'a' < x`, where `x` is bound to nothing, the second pair does not hold, so
that `x` is never looked up; in `'a' < 'b' < x < 'a'` it is. -/
theorem chain_as_conjunction_unbound :
    let less (content : String) : Relation × Nat × Expr := (.lt, 0, .text content)
    let unbound : Relation × Nat × Expr := (.lt, 0, .var "x" 0)
    (comparison (.text "a") [less "b", less "a", unbound]).eval {} = .ok (.truth false) ∧
      (conjunction (.text "a") (less "b") [less "a", unbound]).eval {} = .ok (.truth false) ∧
      (comparison (.text "a") [less "b", unbound, less "a"]).eval {} = .error (.unbound "x") := by
  intro less unbound
  have hfalse : (comparison (.text "a") [less "b", less "a"]).eval {} = .ok (.truth false) := by
    rfl
  have hfault : (comparison (.text "a") [less "b", unbound]).eval {} = .error (.unbound "x") := by
    rfl
  have hchain := ((chain_as_conjunction {} (.text "a") (less "b") [less "a"]).2.2
    (by rw [hfalse]; simp) [unbound]).trans hfalse
  have hconjunction := (chain_as_conjunction {} (.text "a") (less "b") [less "a", unbound]).1
  exact ⟨hchain, hconjunction.symm.trans hchain,
    ((chain_as_conjunction {} (.text "a") (less "b") [unbound]).2.2
      (by rw [hfault]; simp) [less "a"]).trans hfault⟩

end Offside
