import Offside.Text.Blank

/-!
# Access by position

Items of a list are read by their position, and parts of it between two positions. Text is
cut at byte offsets, which have to be in order and on the boundaries of characters. Every
access is checked: out of range it is nothing. So a reading that is written with these
accesses, and is shown to give something, makes none out of range.
-/

namespace Offside.Access

variable {α : Type}

/-! ## Positions -/

section Positions

variable {xs rest : List α} {x : α} {i : Nat}

/-- Where something is left, the position is inside. -/
theorem lt_length_of_drop (h : xs.drop i = x :: rest) : i < xs.length := by
  have hlength := congrArg List.length h
  rw [List.length_drop, List.length_cons] at hlength
  omega

/-- Behind an element that is there stands the rest. -/
theorem exists_drop_of_getElem? (h : xs[i]? = some x) : ∃ rest, xs.drop i = x :: rest := by
  obtain ⟨hlt, rfl⟩ := List.getElem?_eq_some_iff.mp h
  exact ⟨xs.drop (i + 1), List.drop_eq_getElem_cons hlt⟩

/-- The first of what is left is the element at the position. -/
theorem getElem?_of_drop (h : xs.drop i = x :: rest) : xs[i]? = some x := by
  rw [← List.head?_drop, h, List.head?_cons]

theorem drop_succ (h : xs.drop i = x :: rest) : xs.drop (i + 1) = rest := by
  rw [← List.tail_drop, h, List.tail_cons]

end Positions

/-- The items from a position up to before another. -/
def slice? (xs : List α) (start stop : Nat) : Option (List α) :=
  if start ≤ stop ∧ stop ≤ xs.length then some ((xs.take stop).drop start) else none

/-- A slice between positions inside the list is never out of range. -/
theorem slice?_eq_some {xs : List α} {start stop : Nat} (hle : start ≤ stop)
    (hstop : stop ≤ xs.length) : slice? xs start stop = some ((xs.take stop).drop start) :=
  if_pos ⟨hle, hstop⟩

/-- The items at a position and behind it, so many of them. -/
theorem slice?_of_drop {xs rest : List α} {start n : Nat} (hdrop : xs.drop start = rest)
    (hstart : start ≤ xs.length) (hn : n ≤ rest.length) :
    slice? xs start (start + n) = some (rest.take n) := by
  have hlength := congrArg List.length hdrop
  rw [List.length_drop] at hlength
  rw [slice?_eq_some (Nat.le_add_right _ _) (by omega), List.drop_take, hdrop]
  congr 2
  omega

/-! ## Byte offsets -/

/-- The number of bytes of a text. -/
def byteLength : Text → Nat
  | [] => 0
  | c :: cs => c.utf8Size + byteLength cs

/-- The text before a byte offset. -/
def takeBytes? : Text → Nat → Option Text
  | [], n => if n = 0 then some [] else none
  | c :: cs, n =>
    if n = 0 then some []
    else if c.utf8Size ≤ n then (takeBytes? cs (n - c.utf8Size)).map (c :: ·)
    else none

/-- The text behind a byte offset. -/
def dropBytes? : Text → Nat → Option Text
  | [], n => if n = 0 then some [] else none
  | c :: cs, n =>
    if n = 0 then some (c :: cs)
    else if c.utf8Size ≤ n then dropBytes? cs (n - c.utf8Size)
    else none

/-- The text between two byte offsets. -/
def byteSlice? (t : Text) (start stop : Nat) : Option Text :=
  if start ≤ stop then (takeBytes? t stop).bind (dropBytes? · start) else none

theorem byteLength_cons (c : Char) (cs : Text) :
    byteLength (c :: cs) = c.utf8Size + byteLength cs := rfl

theorem byteLength_append (t u : Text) : byteLength (t ++ u) = byteLength t + byteLength u := by
  induction t with
  | nil => exact (Nat.zero_add _).symm
  | cons c cs ih => rw [List.cons_append, byteLength_cons, byteLength_cons, ih, Nat.add_assoc]

/-- A text is cut at the offset of a character. -/
theorem cutBytes_append (front back : Text) :
    takeBytes? (front ++ back) (byteLength front) = some front ∧
      dropBytes? (front ++ back) (byteLength front) = some back := by
  induction front with
  | nil => cases back <;> exact ⟨rfl, rfl⟩
  | cons c cs ih =>
    obtain ⟨htake, hdrop⟩ := ih
    have hpos := c.utf8Size_pos
    constructor
    · rw [List.cons_append, takeBytes?, byteLength_cons, if_neg (by omega), if_pos (by omega),
        Nat.add_sub_cancel_left, htake]
      rfl
    · rw [List.cons_append, dropBytes?, byteLength_cons, if_neg (by omega), if_pos (by omega),
        Nat.add_sub_cancel_left, hdrop]

/-- A text is cut there or not at all. -/
theorem cutBytes_cases (t : Text) (n : Nat) :
    (takeBytes? t n = none ∧ dropBytes? t n = none) ∨
      ∃ front back, t = front ++ back ∧ byteLength front = n ∧
        takeBytes? t n = some front ∧ dropBytes? t n = some back := by
  induction t generalizing n with
  | nil =>
    by_cases hn : n = 0
    · exact .inr ⟨[], [], rfl, hn.symm, if_pos hn, if_pos hn⟩
    · exact .inl ⟨if_neg hn, if_neg hn⟩
  | cons c cs ih =>
    rw [takeBytes?, dropBytes?]
    by_cases hn : n = 0
    · rw [if_pos hn, if_pos hn]
      exact .inr ⟨[], c :: cs, rfl, hn.symm, rfl, rfl⟩
    rw [if_neg hn, if_neg hn]
    by_cases hle : c.utf8Size ≤ n
    · rw [if_pos hle, if_pos hle]
      obtain ⟨htake, hdrop⟩ | ⟨front, back, rfl, hfront, htake, hdrop⟩ := ih (n - c.utf8Size)
      · rw [htake, hdrop]
        exact .inl ⟨rfl, rfl⟩
      · have hlength : byteLength (c :: front) = n := by
          rw [byteLength_cons, hfront]
          omega
        rw [htake, hdrop]
        exact .inr ⟨c :: front, back, rfl, hlength, rfl, rfl⟩
    · rw [if_neg hle, if_neg hle]
      exact .inl ⟨rfl, rfl⟩

/-- Where a text falls into three parts, the middle one lies between their offsets. -/
theorem byteSlice?_append (front middle back : Text) :
    byteSlice? (front ++ (middle ++ back)) (byteLength front) (byteLength (front ++ middle)) =
      some middle := by
  rw [byteSlice?, if_pos (by rw [byteLength_append]; omega), ← List.append_assoc,
    (cutBytes_append _ _).1]
  exact (cutBytes_append front middle).2

end Offside.Access
