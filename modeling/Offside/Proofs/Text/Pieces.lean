import Offside.Proofs.Text.Reading

/-!
# Blank ends and pieces

What trimming takes off a text, and the pieces of a text by its first outer comma.
-/

namespace Offside.Text

open Nesting

variable {t u front back part rest : Text} {c : Char}

/-! ## Blank ends -/

/-- Every character is blank. -/
def Blank (t : Text) : Prop :=
  ∀ c ∈ t, isBlank c = true

/-- Neither the first character nor the last is blank. -/
structure Trimmed (t : Text) : Prop where
  first : ∀ c, t.head? = some c → isBlank c = false
  last : ∀ c, t.getLast? = some c → isBlank c = false

theorem blank_nil : Blank [] := by
  intro c hc
  contradiction

/-- Blanks behind blanks are blank. -/
theorem Blank.append (hfront : Blank front) (hback : Blank back) : Blank (front ++ back) := by
  intro c hc
  rcases List.mem_append.mp hc with hc | hc
  · exact hfront c hc
  · exact hback c hc

/-- A text between two trimmed ones is trimmed with them around it. -/
theorem Trimmed.around (ht : Trimmed t) (hu : Trimmed u) (htne : t ≠ []) (hune : u ≠ [])
    (middle : Text) : Trimmed (t ++ (middle ++ u)) := by
  constructor
  · intro c hc
    obtain ⟨d, ds, rfl⟩ := List.exists_cons_of_ne_nil htne
    exact ht.first c hc
  · intro c hc
    rw [← List.append_assoc, List.getLast?_append, List.getLast?_eq_some_getLast hune] at hc
    refine hu.last c ?_
    rw [List.getLast?_eq_some_getLast hune]
    exact hc

/-- A text without blanks is trimmed. -/
theorem trimmed_of_forall (h : ∀ c ∈ t, isBlank c = false) : Trimmed t :=
  ⟨fun c hc => h c (List.mem_of_head? hc), fun c hc => h c (List.mem_of_getLast? hc)⟩

theorem trimmed_singleton (hc : isBlank c = false) : Trimmed [c] :=
  trimmed_of_forall fun _ hd => List.mem_singleton.mp hd ▸ hc

/-- A text between two characters that are not blank is trimmed. -/
theorem trimmed_of_ends {d : Char} (hc : isBlank c = false) (hd : isBlank d = false) (t : Text) :
    Trimmed (c :: (t ++ [d])) := by
  constructor
  · intro e he
    cases he
    exact hc
  · intro e he
    rw [← List.cons_append, List.getLast?_concat] at he
    cases he
    exact hd

/-- Blanks in front do not matter to a text that is trimmed at its start. -/
theorem trimStart_append (hfront : Blank front) (t : Text) :
    trimStart (front ++ t) = trimStart t :=
  List.dropWhile_append_of_pos hfront

/-- Nothing is cut off a text that starts with no blank. -/
theorem trimStart_of_first (h : ∀ c, t.head? = some c → isBlank c = false) :
    trimStart t = t := by
  cases t with
  | nil => rfl
  | cons c cs => exact List.dropWhile_cons_of_neg (by rw [h c rfl]; exact Bool.false_ne_true)

theorem trimEnd_of_blank (h : Blank t) : trimEnd t = [] := by
  induction t with
  | nil => rfl
  | cons c cs ih =>
    have hcs := ih fun d hd => h d (List.mem_cons_of_mem c hd)
    rw [trimEnd, hcs]
    exact if_pos (h c List.mem_cons_self)

/-- Blanks behind do not matter to a text that is trimmed at its end. -/
theorem trimEnd_append (t : Text) (hback : Blank back) : trimEnd (t ++ back) = trimEnd t := by
  induction t with
  | nil => exact trimEnd_of_blank hback
  | cons c cs ih => rw [List.cons_append, trimEnd, trimEnd, ih]

/-- Nothing is cut off a text that ends with no blank. -/
theorem trimEnd_of_last (h : ∀ c, t.getLast? = some c → isBlank c = false) :
    trimEnd t = t := by
  induction t with
  | nil => rfl
  | cons c cs ih =>
    cases cs with
    | nil =>
      have hc := h c rfl
      rw [trimEnd, trimEnd, if_neg (by rw [hc]; exact Bool.false_ne_true)]
    | cons d ds =>
      rw [trimEnd, ih fun b hb => h b (by rw [List.getLast?_cons_cons]; exact hb)]

/-- Blanks around a trimmed text are what trimming takes off. -/
theorem trim_append_append (hfront : Blank front) (ht : Trimmed t) (hback : Blank back) :
    trim (front ++ (t ++ back)) = t := by
  unfold trim
  rw [trimStart_append hfront]
  cases t with
  | nil =>
    rw [List.nil_append]
    refine trimEnd_of_blank fun c hc => hback c ?_
    exact (List.dropWhile_sublist isBlank).subset hc
  | cons c cs =>
    rw [trimStart_of_first (by intro d hd; exact ht.first d hd), trimEnd_append _ hback,
      trimEnd_of_last ht.last]

theorem Trimmed.trim_eq (ht : Trimmed t) (hfront : Blank front) : trim (front ++ t) = t := by
  have h : trim (front ++ (t ++ [])) = t :=
    trim_append_append hfront ht blank_nil
  rwa [List.append_nil] at h

/-- Trimming changes no trimmed text. -/
theorem Trimmed.trim_eq_self (ht : Trimmed t) : trim t = t :=
  ht.trim_eq blank_nil

/-- Trimming cuts off a blank end, and all of it. -/
theorem exists_trimEnd (t : Text) :
    ∃ back, t = trimEnd t ++ back ∧ Blank back ∧
      ∀ c, (trimEnd t).getLast? = some c → isBlank c = false := by
  induction t with
  | nil => exact ⟨[], rfl, by intro c hc; contradiction, by intro c hc; contradiction⟩
  | cons c cs ih =>
    obtain ⟨back, hcs, hback, hlast⟩ := ih
    rw [trimEnd]
    cases htrim : trimEnd cs with
    | nil =>
      rw [htrim, List.nil_append] at hcs
      dsimp only
      by_cases hc : isBlank c = true
      · rw [if_pos hc]
        refine ⟨c :: cs, rfl, ?_, by intro d hd; contradiction⟩
        intro d hd
        rcases List.mem_cons.mp hd with rfl | hd
        · exact hc
        · exact hback d (hcs ▸ hd)
      · rw [if_neg hc]
        refine ⟨back, by rw [hcs, List.singleton_append], hback, ?_⟩
        intro d hd
        cases hd
        exact Bool.eq_false_iff.mpr hc
    | cons d ds =>
      rw [htrim] at hcs hlast
      exact ⟨back, congrArg (List.cons c) hcs, hback, hlast⟩

/-- A text is its trimmed text with blanks around it. -/
theorem exists_trim (t : Text) :
    ∃ front back, t = front ++ (t.trim ++ back) ∧ Blank front ∧ Blank back ∧ Trimmed t.trim := by
  obtain ⟨back, hstart, hback, hlast⟩ := exists_trimEnd (trimStart t)
  have hfront : Blank (t.takeWhile isBlank) := by
    intro c hc
    exact List.all_eq_true.mp List.all_takeWhile c hc
  refine ⟨t.takeWhile isBlank, back, ?_, hfront, hback, ⟨?_, hlast⟩⟩
  · show t = t.takeWhile isBlank ++ (trimEnd (trimStart t) ++ back)
    rw [← hstart]
    exact List.takeWhile_append_dropWhile.symm
  · intro c hc
    -- the trimmed text is the front of what starts without a blank
    have hhead : (t.dropWhile isBlank).head? = some c := by
      show (trimStart t).head? = some c
      rw [hstart]
      change (trimEnd (trimStart t)).head? = some c at hc
      rw [List.head?_append, hc]
      rfl
    have hnot := List.head?_dropWhile_not isBlank t
    rw [hhead] at hnot
    simpa using hnot

/-! ## Pieces -/

/-- The pieces of a text that is not cut: none, if it is blank. -/
def wholePiece (t : Text) : List Text :=
  if t.trim.isEmpty then [] else [t.trim]

/-- A text without outer commas is one piece, or none if it is empty. -/
theorem pieces_of_clear (h : Along (Clear 0 0) start t) : t.pieces = t.wholePiece := by
  unfold pieces
  rw [cutAtCommas_of_clear h]
  rfl

/-- A text that is cut has the first part as a piece, and those of the rest. -/
theorem pieces_comma (hclear : Along (Clear 0 0) start part) (hread : start.read part = start)
    (rest : Text) : pieces (part ++ ',' :: rest) = part.trim :: rest.pieces := by
  unfold pieces
  rw [cutAtCommas_comma hclear hread, List.map_cons]
  cases hrest : cutAtCommas start rest with
  | nil => exact absurd hrest cutAtCommas_ne_nil
  | cons next parts => rfl

end Offside.Text
