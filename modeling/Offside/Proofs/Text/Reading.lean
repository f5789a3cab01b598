import Offside.Text.Pieces

/-!
# Reading a text by its nesting

A property of a text that depends on where its reading stands at each character,
and what the two readers that use nesting do along a text: cutting at the outer
commas, and finding the outer closing bracket. A text that is `Clear` at a depth
hides neither: both readers pass over it.
-/

namespace Offside

namespace Nesting

variable {P Q : Nesting → Char → Prop} {s : Nesting} {t u : Text} {c : Char}

/-- Where the reading stands behind a text. -/
def read (s : Nesting) : Text → Nesting
  | [] => s
  | c :: cs => (s.next c).read cs

/-- A text is read as its parts are, one after the other. -/
theorem read_append : s.read (t ++ u) = (s.read t).read u := by
  induction t generalizing s with
  | nil => rfl
  | cons c cs ih => exact ih

theorem ne_backslash_of_isQuote (h : isQuote c = true) : c ≠ '\\' := by
  rintro rfl
  contradiction

/-- A quote outside quotes opens a quoted part. -/
theorem next_plain_of_isQuote (h : isQuote c = true) (depth : Nat) :
    (plain depth).next c = quoted c depth := by
  rw [next, if_pos h]

/-- A quoted part goes on behind a character that neither closes nor escapes. -/
theorem next_quoted_of_ne {quote : Char} (hc : c ≠ '\\') (hne : c ≠ quote) (depth : Nat) :
    (quoted quote depth).next c = quoted quote depth := by
  rw [next, if_neg (by rwa [beq_iff_eq]), if_neg (by rwa [beq_iff_eq])]

/-- The quote that opened a part closes it. -/
theorem next_quoted_self (h : isQuote c = true) (depth : Nat) :
    (quoted c depth).next c = plain depth := by
  have hne := ne_backslash_of_isQuote h
  rw [next, if_neg (by rwa [beq_iff_eq]), if_pos (beq_self_eq_true c)]

/-- A reading that is inside quotes knows a quote that ends them. -/
def Quoting : Nesting → Prop
  | plain _ => True
  | quoted q _ => isQuote q = true
  | escaped q _ => isQuote q = true

theorem quoting_plain (depth : Nat) : (plain depth).Quoting :=
  trivial

/-- A character leaves the reading in a part that a quote opened, or in none. -/
theorem Quoting.next (h : s.Quoting) (c : Char) : (s.next c).Quoting := by
  unfold Quoting Nesting.next at *
  grind

/-- A text leaves the reading in a part that a quote opened, or in none. -/
theorem Quoting.read (h : s.Quoting) (t : Text) : (s.read t).Quoting := by
  induction t generalizing s with
  | nil => exact h
  | cons c cs ih => exact ih (h.next c)

/-- A property holds at each character, with the place where the reading stands. -/
def Along (P : Nesting → Char → Prop) (s : Nesting) : Text → Prop
  | [] => True
  | c :: cs => P s c ∧ Along P (s.next c) cs

/-- A property holds along a text if it does along its parts. -/
theorem along_append : Along P s (t ++ u) ↔ Along P s t ∧ Along P (s.read t) u := by
  induction t generalizing s with
  | nil => exact ⟨fun h => ⟨trivial, h⟩, fun h => h.2⟩
  | cons c cs ih => exact (and_congr_right fun _ => ih).trans and_assoc.symm

/-- The property holds at a character iff it holds at every place like that. -/
theorem along_iff_forall :
    Along P s t ↔ ∀ front c back, t = front ++ c :: back → P (s.read front) c := by
  constructor
  · rintro h front c back rfl
    exact (along_append.mp h).2.1
  · intro h
    induction t generalizing s with
    | nil => trivial
    | cons c cs ih =>
      refine ⟨h [] c cs rfl, ih fun front d back hcs => ?_⟩
      exact h (c :: front) d back (by rw [hcs, List.cons_append])

/-- What follows from a property holds wherever the property does. -/
theorem Along.mono (hPQ : ∀ s c, P s c → Q s c) (h : Along P s t) : Along Q s t := by
  induction t generalizing s with
  | nil => trivial
  | cons c cs ih => exact ⟨hPQ s c h.1, ih h.2⟩

/-- The character belongs to a quoted part. -/
def Hidden (s : Nesting) (c : Char) : Prop :=
  s.level c = none

/-- Outside quotes, commas are deeper than `comma` and closing brackets at least as
deep as `closer`. -/
def Clear (comma closer : Nat) (s : Nesting) (c : Char) : Prop :=
  ∀ depth, s.level c = some depth →
    (c = ',' → comma < depth) ∧ (isCloser c = true → closer ≤ depth)

/-- What is hidden in quotes is neither comma nor closing bracket. -/
theorem Hidden.clear (h : s.Hidden c) (comma closer : Nat) : s.Clear comma closer c := by
  intro depth hdepth
  rw [h] at hdepth
  contradiction

theorem clear_of_ne (hcomma : c ≠ ',') (hcloser : isCloser c = false) (comma closer : Nat) :
    s.Clear comma closer c := by
  intro depth _
  refine ⟨fun h => absurd h hcomma, fun h => ?_⟩
  rw [hcloser] at h
  contradiction

end Nesting

namespace Text

open Nesting

variable {s : Nesting} {t u part : Text} {parts : List Text} {c : Char}

/-! ## Cutting at commas -/

/-- Puts a text in front of the first part. -/
def extendFirst (t : Text) : List Text → List Text
  | [] => [t]
  | part :: parts => (t ++ part) :: parts

/-- Every text has a first part. -/
theorem cutAtCommas_ne_nil : cutAtCommas s t ≠ [] := by
  cases t with
  | nil => exact List.cons_ne_nil _ _
  | cons c cs =>
    unfold cutAtCommas
    split
    · exact List.cons_ne_nil _ _
    · unfold consFirst
      split <;> exact List.cons_ne_nil _ _

/-- Extending the first part by a text is extending it character by character. -/
theorem consFirst_extendFirst (c : Char) (t : Text) (parts : List Text) :
    consFirst c (extendFirst t parts) = extendFirst (c :: t) parts := by
  cases parts <;> rfl

theorem extendFirst_nil (h : parts ≠ []) : extendFirst [] parts = parts := by
  cases parts with
  | nil => exact absurd rfl h
  | cons part parts => rfl

/-- A text whose commas are all inside brackets is passed over. -/
theorem cutAtCommas_append (h : Along (Clear 0 0) s t) (u : Text) :
    cutAtCommas s (t ++ u) = extendFirst t (cutAtCommas (s.read t) u) := by
  induction t generalizing s with
  | nil => exact (extendFirst_nil cutAtCommas_ne_nil).symm
  | cons c cs ih =>
    have hcut : (c == ',' && s.level c == some 0) = false := by
      rw [Bool.and_eq_false_iff, beq_eq_false_iff_ne, beq_eq_false_iff_ne]
      by_cases hcomma : c = ','
      · refine .inr fun hlevel => ?_
        exact absurd ((h.1 0 hlevel).1 hcomma) (Nat.lt_irrefl 0)
      · exact .inl hcomma
    rw [List.cons_append, cutAtCommas, hcut, if_neg Bool.false_ne_true, ih h.2,
      consFirst_extendFirst]
    rfl

/-- A text without outer commas is one part. -/
theorem cutAtCommas_of_clear (h : Along (Clear 0 0) s t) : cutAtCommas s t = [t] := by
  have happend := cutAtCommas_append h []
  rw [List.append_nil] at happend
  rw [happend, cutAtCommas, extendFirst, List.append_nil]

/-- An outer comma ends the first part. -/
theorem cutAtCommas_comma (h : Along (Clear 0 0) start t) (hread : start.read t = start)
    (u : Text) : cutAtCommas start (t ++ ',' :: u) = t :: cutAtCommas start u := by
  rw [cutAtCommas_append h, hread]
  show extendFirst t ([] :: cutAtCommas start u) = _
  rw [extendFirst, List.append_nil]

/-- The first cut of a text: there is none, or the text goes on behind the first
part and a comma, where the reading stands as at its start. -/
theorem cutAtCommas_cases (s : Nesting) (t : Text) :
    cutAtCommas s t = [t] ∨
      ∃ part rest, t = part ++ ',' :: rest ∧ s.read part = start ∧
        cutAtCommas s t = part :: cutAtCommas start rest := by
  induction t generalizing s with
  | nil => exact .inl rfl
  | cons c cs ih =>
    by_cases hcut : c = ',' ∧ s.level c = some 0
    · obtain ⟨rfl, hlevel⟩ := hcut
      right
      -- depth zero outside quotes is where every reading starts
      have hstart : s = start := by
        cases s with
        | plain depth =>
          cases hlevel
          rfl
        | quoted | escaped => contradiction
      subst hstart
      exact ⟨[], cs, rfl, rfl, rfl⟩
    · have hcut' : (c == ',' && s.level c == some 0) = false := by
        rw [Bool.eq_false_iff, Ne, Bool.and_eq_true, beq_iff_eq, beq_iff_eq]
        exact hcut
      rw [cutAtCommas, hcut', if_neg Bool.false_ne_true]
      rcases ih (s.next c) with hcs | ⟨part, rest, rfl, hread, hcs⟩
      · rw [hcs]
        exact .inl rfl
      · rw [hcs]
        exact .inr ⟨c :: part, rest, rfl, hread, rfl⟩

/-- The first part has no outer comma. -/
theorem clear_of_cutAtCommas (h : cutAtCommas s t = part :: parts) :
    Along (Clear 0 0) s part := by
  induction t generalizing s part parts with
  | nil =>
    cases h
    trivial
  | cons c cs ih =>
    rw [cutAtCommas] at h
    split at h
    next =>
      cases h
      trivial
    next hcut =>
      obtain ⟨first, others, hcs⟩ : ∃ first others, cutAtCommas (s.next c) cs = first :: others :=
        List.exists_cons_of_ne_nil cutAtCommas_ne_nil
      rw [hcs] at h
      cases h
      refine ⟨fun depth hdepth => ⟨fun hcomma => ?_, fun _ => Nat.zero_le depth⟩, ih hcs⟩
      refine Nat.pos_of_ne_zero fun hzero => hcut ?_
      rw [hdepth, hcomma, hzero]
      rfl

/-- Induction along the outer commas of a text: it has none, or the reading stands behind its
first part as at its start, and the rest is cut further. -/
theorem commas_induction {motive : Text → Prop}
    (uncut : ∀ t, Along (Clear 0 0) start t → motive t)
    (cut : ∀ part rest, Along (Clear 0 0) start part → start.read part = start → motive rest →
      motive (part ++ ',' :: rest)) (t : Text) : motive t := by
  rcases cutAtCommas_cases start t with huncut | ⟨part, rest, ht, hread, hcut⟩
  · exact uncut t (clear_of_cutAtCommas huncut)
  · rw [ht]
    exact cut part rest (clear_of_cutAtCommas hcut) hread (commas_induction uncut cut rest)
termination_by t.length
decreasing_by
  rw [ht, List.length_append, List.length_cons]
  omega

/-! ## The outer closing bracket -/

/-- A text whose closing brackets all leave one open is passed over. -/
theorem outerCloser_append {comma : Nat} (h : Along (Clear comma 1) s t) (u : Text) :
    outerCloser s (t ++ u) = outerCloser (s.read t) u := by
  induction t generalizing s with
  | nil => rfl
  | cons c cs ih =>
    have hclose : (isCloser c && s.level c == some 0) = false := by
      rw [Bool.eq_false_iff, Ne, Bool.and_eq_true, beq_iff_eq]
      rintro ⟨hcloser, hlevel⟩
      exact absurd ((h.1 0 hlevel).2 hcloser) (by decide)
    rw [List.cons_append, outerCloser, hclose, if_neg Bool.false_ne_true, ih h.2]
    rfl

end Text

end Offside
