import Offside.Machine.Run

/-!
# Chains under chains

Inside a block only deeper chains are opened and closed. So the open chains split
into those of the block and those around it, and what a line of the block does to
the whole is what it does to its own part: `below_onto`, `set_onto`, `close_onto`
and `taken?_onto`. The first line behind the block forgets the inner part again
(`below_onto_of_le`).
-/

namespace Offside.Chains

/-- No chain is open deeper than at `indent`. -/
def UpTo (indent : Nat) (chains : Chains) : Prop :=
  ∀ e ∈ chains.entries, e.1 ≤ indent

/-- No chain is open at `indent` or deeper. -/
def Under (indent : Nat) (chains : Chains) : Prop :=
  ∀ e ∈ chains.entries, e.1 < indent

/-- Chains are open only deeper than at `indent`. -/
def Beyond (indent : Nat) (chains : Chains) : Prop :=
  ∀ e ∈ chains.entries, indent < e.1

/-- The chains of a block, in front of those around it. -/
def onto (inner outer : Chains) : Chains where
  entries := inner.entries ++ outer.entries

variable {indent i : Nat} {inner outer chains : Chains}

/-- A block may run without any chains around it. -/
theorem onto_empty (chains : Chains) : chains.onto {} = chains :=
  congrArg Chains.mk (List.append_nil chains.entries)

/-- Chains that are open up to an indentation are under every deeper one. -/
theorem UpTo.under (h : outer.UpTo indent) (hi : indent < i) : outer.Under i :=
  fun e he => Nat.lt_of_le_of_lt (h e he) hi

theorem under_empty (indent : Nat) : ({} : Chains).Under indent := by
  intro e he
  cases he

theorem Under.mono (h : outer.Under indent) (hi : indent ≤ i) : outer.Under i :=
  fun e he => Nat.lt_of_lt_of_le (h e he) hi

/-- A filter that keeps every smaller indentation keeps all chains under this one. -/
theorem Under.filter_eq {p : Nat × Bool → Bool} (h : outer.Under i)
    (hp : ∀ e : Nat × Bool, e.1 < i → p e = true) :
    outer.entries.filter p = outer.entries :=
  List.filter_eq_self.mpr fun e he => hp e (h e he)

/-- Chains under an indentation have none there. -/
theorem Under.lookup_eq_none (h : outer.Under i) : outer.entries.lookup i = none := by
  rw [List.lookup_eq_none_iff]
  intro e he
  have hlt := h e he
  rw [bne_iff_ne]
  omega

/-- Where no chain is open so deep, there is none to be dropped. -/
theorem Under.below_eq (h : outer.Under i) : outer.below i = outer := by
  have hkeep := h.filter_eq (p := fun e => decide (e.1 < i)) fun e he => decide_eq_true he
  simp only [below, hkeep]

/-- Chains under an indentation have none there to be closed. -/
theorem Under.close_eq (h : outer.Under i) : outer.close i = outer := by
  have hkeep := h.filter_eq (p := fun e => e.1 != i) fun e he => by
    rw [bne_iff_ne]
    omega
  simp only [close, hkeep]

/-- Inside a block, dropping deeper chains drops chains of the block. -/
theorem below_onto (h : outer.Under i) :
    (inner.onto outer).below i = (inner.below i).onto outer := by
  show Chains.mk ((inner.entries ++ outer.entries).filter _) = _
  rw [List.filter_append]
  exact congrArg (Chains.onto (inner.below i)) h.below_eq

/-- Inside a block, closing a chain closes a chain of the block. -/
theorem close_onto (h : outer.Under i) :
    (inner.onto outer).close i = (inner.close i).onto outer := by
  show Chains.mk ((inner.entries ++ outer.entries).filter _) = _
  rw [List.filter_append]
  exact congrArg (Chains.onto (inner.close i)) h.close_eq

/-- Inside a block, opening a chain opens a chain of the block. -/
theorem set_onto (h : outer.Under i) (taken : Bool) :
    (inner.onto outer).set i taken = (inner.set i taken).onto outer := by
  rw [set, set, close_onto h]
  rfl

/-- Inside a block, a chain that is looked up is a chain of the block. -/
theorem taken?_onto (h : outer.Under i) : (inner.onto outer).taken? i = inner.taken? i := by
  rw [taken?, onto, List.lookup_append, h.lookup_eq_none, Option.or_none]
  rfl

/-- Behind a block its own chains are forgotten. -/
theorem below_onto_of_le (h : inner.Beyond indent) (hi : i ≤ indent + 1) :
    (inner.onto outer).below i = outer.below i := by
  have hdrop : inner.entries.filter (fun e => decide (e.1 < i)) = [] := by
    rw [List.filter_eq_nil_iff]
    intro e he
    have hlt := h e he
    simp only [decide_eq_true_eq]
    omega
  simp only [below, onto, List.filter_append, hdrop, List.nil_append]

theorem Beyond.below (h : chains.Beyond indent) (i : Nat) : (chains.below i).Beyond indent :=
  fun e he => h e (List.mem_filter.mp he).1

theorem Beyond.close (h : chains.Beyond indent) (i : Nat) : (chains.close i).Beyond indent :=
  fun e he => h e (List.mem_filter.mp he).1

/-- A chain that is opened in a block is deeper than the line over it. -/
theorem Beyond.set (h : chains.Beyond indent) (hi : indent < i) (taken : Bool) :
    (chains.set i taken).Beyond indent := by
  intro e he
  rcases List.mem_cons.mp he with rfl | he
  · exact hi
  · exact h.close i e he

/-- No chain is open deeper than where the deeper ones have been dropped. -/
theorem upTo_below_self (chains : Chains) (indent : Nat) : (chains.below indent).UpTo indent := by
  intro e he
  have hlt := of_decide_eq_true (List.mem_filter.mp he).2
  omega

theorem UpTo.set (h : chains.UpTo indent) (taken : Bool) :
    (chains.set indent taken).UpTo indent := by
  intro e he
  rcases List.mem_cons.mp he with rfl | he
  · exact Nat.le_refl _
  · exact h e (List.mem_filter.mp he).1

/-- A chain is not open below its own indentation. -/
theorem below_set_of_le (chains : Chains) (hi : i ≤ indent) (taken : Bool) :
    (chains.set indent taken).below i = chains.below i := by
  simp only [below, set, close, List.filter_cons, List.filter_filter]
  rw [if_neg (by simpa using hi)]
  congr 1
  apply List.filter_congr
  intro e _
  rw [Bool.and_eq_left_iff_imp]
  intro hlt
  simp only [decide_eq_true_eq] at hlt
  rw [bne_iff_ne]
  omega

/-- Opening a chain anew leaves nothing of how it stood before. -/
theorem set_set (chains : Chains) (indent : Nat) (before taken : Bool) :
    (chains.set indent before).set indent taken = chains.set indent taken := by
  simp [set, close, List.filter_filter]

/-- Closing the chain that was opened last leaves those below it. -/
theorem close_set_below (chains : Chains) (indent : Nat) (taken : Bool) :
    ((chains.below indent).set indent taken).close indent = chains.below indent := by
  simp only [close, set, below, List.filter_cons, List.filter_filter]
  rw [if_neg (by simp)]
  congr 1
  apply List.filter_congr
  intro e _
  rw [Bool.eq_iff_iff]
  simp only [Bool.and_eq_true, bne_iff_ne, decide_eq_true_eq]
  omega

/-- A chain that was just opened is found. -/
theorem taken?_set (chains : Chains) (indent : Nat) (taken : Bool) :
    (chains.set indent taken).taken? indent = some taken :=
  List.lookup_cons_self

end Offside.Chains
