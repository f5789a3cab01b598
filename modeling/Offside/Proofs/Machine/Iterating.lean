import Offside.Proofs.Machine.Descent
import Offside.Proofs.Value.Items

/-!
# A loop over the items of a value

A loop over a list or a text asks for its items once, before its first round. What its block
does to the variable that the value came from, to the list in it or to the loop variable, comes
too late: each round starts with the item that the value had at its place. So the loop agrees with
the other ways to a value's items, its length and its subscripts.

> `length_subscript_loop`: these three count the same items, from the same ends.
-/

namespace Offside

open Machine

namespace Run

variable {block : Run} {name : String} {v : Value} {vs : List Value} {m m' start : Machine}
  {outcome : Outcome Completion}

/-- The machines in which a loop over some values starts the block under it, in their order and
each with its value bound already. -/
def blockStarts (block : Run) (name : String) (vs : List Value) (m : Machine) : List Machine :=
  (eachStarts (fun v m => block (m.bind name v)) vs m).map fun (v, m') => m'.bind name v

theorem Passes.blockStarts_eq (h : Passes block (m.bind name v) m') (vs : List Value) :
    blockStarts block name (v :: vs) m = m.bind name v :: blockStarts block name vs m' := by
  have hround : Passes ((fun v m => block (m.bind name v)) v) m m' := h
  rw [blockStarts, hround.eachStarts_eq]
  rfl

theorem Stops.blockStarts_eq (h : Stops (block (m.bind name v)) outcome) (vs : List Value) :
    blockStarts block name (v :: vs) m = [m.bind name v] := by
  have hround : Stops ((fun v m => block (m.bind name v)) v m) outcome := h
  rw [blockStarts, hround.eachStarts_eq]
  rfl

/-- The loop comes to a round if it has gone through all rounds in front of it. -/
theorem mem_blockStarts_iff :
    start ∈ blockStarts block name vs m ↔ ∃ v ws m',
      EachRounds (fun v m => block (m.bind name v)) vs m (v :: ws) m' ∧ start = m'.bind name v := by
  constructor
  · intro h
    obtain ⟨⟨v, m'⟩, hstart, rfl⟩ := List.mem_map.mp h
    obtain ⟨ws, hrounds⟩ := mem_eachStarts_iff.mp hstart
    exact ⟨v, ws, m', hrounds, rfl⟩
  · rintro ⟨v, ws, m', hrounds, rfl⟩
    exact List.mem_map.mpr ⟨(v, m'), mem_eachStarts_iff.mpr ⟨ws, hrounds⟩, rfl⟩

/-- A loop over some values that starts its block in these machines, one after the other, and
gives this outcome: behind a round that is gone through it starts the next one with the next
value, and with any other round it ends. -/
inductive GoesThrough (block : Run) (name : String) :
    List Value → Machine → List Machine → Outcome Completion → Prop
  | ended {m : Machine} : GoesThrough block name [] m [] (m, .ok .finished)
  | stopped {v : Value} {vs : List Value} {m : Machine} {outcome : Outcome Completion}
      (hstops : Stops (block (m.bind name v)) outcome) :
      GoesThrough block name (v :: vs) m [m.bind name v] outcome
  | next {v : Value} {vs : List Value} {m m' : Machine} {starts : List Machine}
      {outcome : Outcome Completion} (hround : Passes block (m.bind name v) m')
      (hrest : GoesThrough block name vs m' starts outcome) :
      GoesThrough block name (v :: vs) m (m.bind name v :: starts) outcome

/-- The loop of the machine goes through its starts. -/
theorem goesThrough_blockStarts (block : Run) (name : String) (vs : List Value) (m : Machine) :
    GoesThrough block name vs m (blockStarts block name vs m)
      (forEach (fun v m => block (m.bind name v)) vs m) := by
  induction vs generalizing m with
  | nil => exact .ended
  | cons v vs ih =>
    rw [forEach_cons]
    rcases passes_or_stops block (m.bind name v) with ⟨m', hround⟩ | hstops
    · rw [hround.blockStarts_eq, hround.afterRound_eq]
      exact .next hround (ih m')
    · rw [(hstops fun m => (m, .ok .finished)).blockStarts_eq]
      exact .stopped (hstops _)

/-- What a name is bound to in each of some machines. -/
def bound (name : String) (starts : List Machine) : List (Option Value) :=
  starts.map fun start => start.scope.get? name

theorem get?_bind (m : Machine) (name : String) (v : Value) :
    (m.bind name v).scope.get? name = some v := by
  rw [scope_bind, Bindings.get?_insert, if_pos rfl]

/-- The rounds start with the values in their order, and none of them is left out. -/
theorem GoesThrough.bound_prefix {starts : List Machine}
    (h : GoesThrough block name vs m starts outcome) : bound name starts <+: vs.map some := by
  induction h with
  | ended => exact List.prefix_rfl
  | stopped =>
    rw [bound, List.map_singleton, get?_bind, List.map_cons]
    exact List.cons_prefix_cons.mpr ⟨rfl, List.nil_prefix⟩
  | next _ _ ih =>
    rw [bound, List.map_cons, get?_bind, List.map_cons]
    exact List.cons_prefix_cons.mpr ⟨rfl, ih⟩

/-- Where every round is gone through, every value has one. -/
theorem GoesThrough.bound_eq {starts : List Machine}
    (h : GoesThrough block name vs m starts outcome)
    (hpasses : ∀ start ∈ starts, ∃ m', Passes block start m') :
    bound name starts = vs.map some := by
  induction h with
  | ended => rfl
  | stopped hstops =>
    obtain ⟨m', hround⟩ := hpasses _ List.mem_cons_self
    exact absurd hstops hround.not_stops
  | next _ _ ih =>
    rw [bound, List.map_cons, get?_bind, List.map_cons]
    exact congrArg (_ :: ·) (ih fun start hstart => hpasses start (List.mem_cons_of_mem _ hstart))

end Run

/-! ## The line of a loop -/

variable {limits : Limits} {room : Nat} {line : Line} {rest : List Line} {name : String}
  {iterable : Text} {v : Value} {items : List Value} {m : Machine}

theorem elements_of_items? (hvalue : evaluate m.scope iterable = .value v)
    (hitems : v.items? = some items) : m.elements iterable = .ok items := by
  rw [elements, hvalue]
  cases v <;> cases hitems <;> rfl

/-- The line of a loop goes through the items of the value that it finds at first. -/
theorem runLine_forEach_items (chains : Chains)
    (hclass : classify line.text = .ok (.forEach name iterable))
    (hblock : blockLength line.indent rest ≠ 0) (helements : m.elements iterable = .ok items) :
    m.runLine (context limits room rest) chains line rest =
      behindLoop (chains.below line.indent) (blockLength line.indent rest)
        (Run.inLoop (Run.forEach
          (fun v m => (Point.block room line rest (m.bind name v)).run limits) items) m) := by
  rw [runLine_forEach m _ chains hclass hblock, Machine.forEach, helements]
  rfl

/-- And it starts its block nowhere else. -/
theorem descends_loop_iff {q : Point} (hclass : classify line.text = .ok (.forEach name iterable))
    (hblock : blockLength line.indent rest ≠ 0) (helements : m.elements iterable = .ok items) :
    Descends limits room line rest m .loop q ↔
      ∃ start ∈ Run.blockStarts (fun m => (Point.block room line rest m).run limits) name items
          { m with loopDepth := m.loopDepth + 1 }, q = Point.block room line rest start := by
  constructor
  · intro h
    cases h with
    | forEach hclass' _ helements' hrounds =>
      cases hclass.symm.trans hclass'
      cases helements.symm.trans helements'
      exact ⟨_, Run.mem_blockStarts_iff.mpr ⟨_, _, _, hrounds, rfl⟩, rfl⟩
    | whileHolds hclass' => cases hclass.symm.trans hclass'
  · rintro ⟨start, hstart, rfl⟩
    obtain ⟨v, ws, m', hrounds, rfl⟩ := Run.mem_blockStarts_iff.mp hstart
    exact .forEach hclass hblock helements hrounds

/-- The items, looked up one by one. -/
theorem items_eq_subscripts (hitems : v.items? = some items) (hlt : items.length < 2 ^ 53) :
    items.map some =
      (List.range items.length).map fun i => (v.subscript (.number (Float.ofNat i))).toOption := by
  refine List.ext_getElem (by simp) fun i hi _ => ?_
  rw [List.length_map] at hi
  have hsmall : (i : Int).natAbs < 2 ^ 53 := by omega
  have hindex : (Float.ofNat i == Float.ofInt i) = true := by
    rw [← ofInt_natCast]
    exact (beq_ofInt_iff hsmall).mpr (integer?_ofInt hsmall)
  have hitem : v.subscript (.number (Float.ofNat i)) = .ok items[i] :=
    (Value.subscript_eq_ok_iff hitems hlt).mpr ⟨i, List.getElem?_eq_getElem hi, .inl hindex⟩
  rw [List.getElem_map, List.getElem_map, List.getElem_range, hitem]
  rfl

/-- **Length, subscripts and loops agree.** A list or a text with fewer than two to the
fifty-third items has as many as its length says. A number is an index into it if and only if it
is equal to an integer from minus the length up to below it; an index that is less by the length
is one of the same item; and neither an infinity nor NaN is an index. A loop over it goes from
one start of its block to the next until a round breaks off, returns or fails; it starts with
its variable bound to the subscripts from the front, those of the value that it found at first,
and with all of them if no round breaks off, returns or fails. -/
theorem length_subscript_loop (hitems : v.items? = some items) (hlt : items.length < 2 ^ 53) :
    let n := items.length
    Builtin.len.call [v] = .ok (.number (Float.ofNat n)) ∧
    (∀ x : Float, (∃ w, v.subscript (.number x) = .ok w) ↔
      ∃ k : Int, -n ≤ k ∧ k < n ∧ x == Float.ofInt k) ∧
    (∀ i < n, ∀ x y : Float, x == Float.ofInt (i - n) → y == Float.ofInt i →
      v.subscript (.number x) = v.subscript (.number y)) ∧
    (∀ x : Float, x.isFinite = false → v.subscript (.number x) = .error .fractionalIndex) ∧
    ∀ (limits : Limits) (room : Nat) (line : Line) (rest : List Line) (chains : Chains)
      (m : Machine) (name : String) (iterable : Text),
      classify line.text = .ok (.forEach name iterable) → blockLength line.indent rest ≠ 0 →
      evaluate m.scope iterable = .value v →
      let block (m : Machine) := (Point.block room line rest m).run limits
      let inside : Machine := { m with loopDepth := m.loopDepth + 1 }
      let loop := Run.forEach (fun v m => block (m.bind name v)) items
      let starts := Run.blockStarts block name items inside
      let subscripts :=
        (List.range n).map fun i => (v.subscript (.number (Float.ofNat i))).toOption
      m.runLine (context limits room rest) chains line rest =
        behindLoop (chains.below line.indent) (blockLength line.indent rest) (Run.inLoop loop m) ∧
      Run.GoesThrough block name items inside starts (loop inside) ∧
      (∀ q, Descends limits room line rest m .loop q ↔
        ∃ start ∈ starts, q = Point.block room line rest start) ∧
      Run.bound name starts <+: subscripts ∧
      ((∀ start ∈ starts, ∃ m', Run.Passes block start m') →
        Run.bound name starts = subscripts) := by
  intro n
  refine ⟨Builtin.len_of_items? hitems, Value.exists_subscript_iff hitems hlt, ?_, ?_, ?_⟩
  · intro i hi x y hx hy
    exact Value.subscript_eq_subscript hitems hlt hi hx hy
  · intro x hx
    exact Value.subscript_of_not_finite hitems hx
  · intro limits room line rest chains m name iterable hclass hblock hvalue block inside loop starts
      subscripts
    have helements := elements_of_items? hvalue hitems
    have hsubscripts : items.map some = subscripts := items_eq_subscripts hitems hlt
    have hgoes : Run.GoesThrough block name items inside starts (loop inside) :=
      Run.goesThrough_blockStarts block name items inside
    rw [← hsubscripts]
    exact ⟨runLine_forEach_items chains hclass hblock helements, hgoes,
      fun _ => descends_loop_iff hclass hblock helements, hgoes.bound_prefix, hgoes.bound_eq⟩

/-- A loop that appends each item to the list that it goes through has as many rounds as the list
had items. -/
theorem length_subscript_loop_appending :
    let v : Value := .list [.text "a", .truth true]
    let m : Machine := { globals := .ofList [("xs", v)] }
    let line : Line := ⟨1, 0, "for x in xs:".toList⟩
    let rest : List Line := [⟨2, 2, "xs.append(x)".toList⟩]
    let block (m : Machine) := (Point.block 0 line rest m).run {}
    let starts := Run.blockStarts block "x" [.text "a", .truth true] { m with loopDepth := 1 }
    v.subscript (.number (-1)) = v.subscript (.number 1) ∧
      Run.bound "x" starts =
        (List.range 2).map (fun i => (v.subscript (.number (Float.ofNat i))).toOption) ∧
      (m.runLine (context {} 0 rest) {} line rest).2 = .ok (.goOn {} 1) := by
  intro v m line rest block starts
  have hitems : v.items? = some [.text "a", .truth true] := rfl
  have hcounted := length_subscript_loop hitems (by decide)
  have hclass : classify line.text = .ok (.forEach "x" "xs".toList) := rfl
  have hvalue : evaluate m.scope "xs".toList = .value v := by cbv
  refine ⟨hcounted.2.2.1 1 (by decide) (-1) 1 (by decide +kernel) (by decide +kernel), ?_,
    by decide +kernel⟩
  refine (hcounted.2.2.2.2 {} 0 line rest {} m "x" "xs".toList hclass (by decide) hvalue).2.2.2.2 ?_
  -- each round finds a list and leaves a longer one behind
  let append : Line := ⟨2, 2, "xs.append(x)".toList⟩
  have hround (m : Machine) (vs : List Value) (hvs : m.scope.get? "xs" = some (.list vs)) :
      ∃ m' vs', Run.Passes block m m' ∧ m'.scope.get? "xs" = some (.list vs') := by
    have happend : classify append.text = .ok (.append "xs" "x".toList) := rfl
    have hblock : block m = Point.run {} ⟨0, {}, [append], m⟩ := rfl
    refine ⟨m.bind "xs" (.list (vs ++ [(evaluate m.scope "x".toList).toValue])), _, .inl ?_,
      Run.get?_bind _ _ _⟩
    rw [hblock, Point.run_cons, runLine_of_classify m _ {} [] happend (by simp) rfl, perform,
      Machine.append, hvs]
    exact Point.run_nil _
  have hkept (m : Machine) (w : Value) (vs : List Value)
      (hvs : m.scope.get? "xs" = some (.list vs)) :
      (m.bind "x" w).scope.get? "xs" = some (.list vs) := by
    rw [scope_bind, Bindings.get?_insert, if_neg (by decide), hvs]
  have hstart : ({ m with loopDepth := 1 } : Machine).scope.get? "xs" =
    some (.list [.text "a", .truth true]) := by cbv
  obtain ⟨m₁, vs₁, hfirst, hvs₁⟩ := hround _ _ (hkept _ (.text "a") _ hstart)
  obtain ⟨m₂, vs₂, hsecond, hvs₂⟩ := hround _ _ (hkept _ (.truth true) _ hvs₁)
  intro start hmem
  change start ∈ Run.blockStarts block "x" _ _ at hmem
  rw [hfirst.blockStarts_eq, hsecond.blockStarts_eq] at hmem
  rcases List.mem_cons.mp hmem with rfl | hmem
  · exact ⟨m₁, hfirst⟩
  · obtain rfl := List.mem_singleton.mp hmem
    exact ⟨m₂, hsecond⟩

end Offside
