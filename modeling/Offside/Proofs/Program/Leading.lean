import Mathlib.Data.List.Basic
import Offside.Program.Classifier
import Offside.Proofs.Text.Pieces
import Offside.Proofs.Token.Lexeme

/-!
# Lines by the word they start with

The forms of statements are told apart by the word that a line starts with, as long as
nothing goes on with that word. A line that starts with a keyword is of that keyword's
form, and a line that starts with a name is of none of these:

> `classify_of_keyword`: no other form is tried with success before the keyword's own.
>
> `classify_of_name`: printing, assigning, calling and appending remain.
-/

namespace Offside

open Text Nesting

variable {t word rest : Text} {keyword : String} {form : LineForm}
  {result : Except SyntaxFault Statement}

/-! ## Keywords and call forms by the first word -/

/-- Behind a word stands what ends it. -/
theorem EndsWord.dropWhile (hrest : EndsWord rest) (hword : ∀ c ∈ word, continuesWord c = true) :
    (word ++ rest).dropWhile continuesWord = rest := by
  have hwhole : (word ++ rest).takeWhile continuesWord ++ (word ++ rest).dropWhile continuesWord =
      word ++ rest := List.takeWhile_append_dropWhile
  rw [hrest.takeWhile hword] at hwhole
  exact List.append_cancel_left hwhole

theorem endsWord_nil : EndsWord [] := by
  intro c hc
  contradiction

/-- A character that neither continues a word nor opens a quoted part ends a word. -/
theorem endsWord_cons {c : Char} (hc : continuesWord c = false) (hquote : isQuote c = false) :
    EndsWord (c :: t) := by
  intro d hd
  cases hd
  exact ⟨hc, hquote⟩

theorem continuesWord_of_isIdentifier (h : word.isIdentifier = true) :
    ∀ c ∈ word, continuesWord c = true := by
  cases word with
  | nil => contradiction
  | cons c cs =>
    simp only [isIdentifier, Bool.and_eq_true] at h
    intro d hd
    rcases List.mem_cons.mp hd with rfl | hd
    · exact continuesWord_of_startsWord h.1.1
    · exact List.all_eq_true.mp h.1.2 d hd

/-- An identifier has only characters that continue a word. -/
theorem not_mem_of_isIdentifier {c : Char} (h : word.isIdentifier = true)
    (hc : continuesWord c = false) : c ∉ word := by
  intro hmem
  rw [continuesWord_of_isIdentifier h c hmem] at hc
  contradiction

/-- A reserved word has only characters that continue a word. -/
theorem continuesWord_of_reserved (h : word ∈ reservedWords) :
    ∀ c ∈ word, continuesWord c = true := by
  have hall : reservedWords.all (·.all continuesWord) = true := by decide
  exact List.all_eq_true.mp (List.all_eq_true.mp hall word h)

/-- A keyword at the start of a text is found, with what follows it. -/
theorem afterKeyword?_self (hrest : EndsWord rest) :
    afterKeyword? keyword (keyword.toList ++ rest) = some rest.trim := by
  have hprefix : keyword.toList.isPrefixOf? (keyword.toList ++ rest) = some rest :=
    List.isPrefixOf?_eq_some_iff_append_eq.mpr rfl
  rw [afterKeyword?, hprefix]
  cases rest with
  | nil => rfl
  | cons c cs => exact if_neg (by rw [(hrest c rfl).1]; exact Bool.false_ne_true)

/-- What is behind a keyword is read only where the keyword is the whole first word. -/
theorem afterKeyword?_of_ne (hkeyword : ∀ c ∈ keyword.toList, continuesWord c = true)
    (hword : ∀ c ∈ word, continuesWord c = true) (hrest : EndsWord rest)
    (hne : keyword.toList ≠ word) : afterKeyword? keyword (word ++ rest) = none := by
  unfold afterKeyword?
  split
  next => rfl
  next hprefix =>
    -- the word would be a part of the keyword, and nothing of the keyword is left
    have hwhole := List.isPrefixOf?_eq_some_iff_append_eq.mp hprefix
    have htake := endsWord_nil.takeWhile hkeyword
    rw [hwhole, hrest.takeWhile hword] at htake
    exact absurd htake.symm hne
  next c cs hprefix =>
    have hwhole := List.isPrefixOf?_eq_some_iff_append_eq.mp hprefix
    cases hc : continuesWord c with
    | true => rfl
    | false =>
      have htake : (keyword.toList ++ c :: cs).takeWhile continuesWord = keyword.toList := by
        rw [List.takeWhile_append_of_pos hkeyword,
          List.takeWhile_cons_of_neg (by rw [hc]; exact Bool.false_ne_true), List.append_nil]
      rw [hwhole, hrest.takeWhile hword] at htake
      exact absurd htake.symm hne

/-- A reserved word calls nothing. -/
theorem callForm?_of_reserved (hword : word ∈ reservedWords) (hrest : EndsWord rest) :
    callForm? (word ++ rest) = none := by
  have hnot : word.isIdentifier = false := by
    cases hidentifier : word.isIdentifier with
    | false => rfl
    | true => exact absurd hword (not_reserved_of_isIdentifier hidentifier)
  simp only [callForm?, hrest.takeWhile (continuesWord_of_reserved hword), hnot,
    Bool.false_eq_true, if_false]

/-- An identifier calls if all that follows is one pair of parentheses. -/
theorem callForm?_of_isIdentifier (hword : word.isIdentifier = true) (hrest : EndsWord rest) :
    callForm? (word ++ rest) =
      (inside? '(' ')' rest.trimStart).map fun inner => (word, inner) := by
  have hcontinues := continuesWord_of_isIdentifier hword
  simp only [callForm?, hrest.takeWhile hcontinues, hrest.dropWhile hcontinues, hword, if_true]

/-- Behind the name of a call form an opening bracket has to follow. -/
theorem callForm?_of_head (hword : word.isIdentifier = true) (hrest : EndsWord rest)
    (hhead : rest.trimStart.head? ≠ some '(') : callForm? (word ++ rest) = none := by
  rw [callForm?_of_isIdentifier hword hrest]
  cases hstart : rest.trimStart with
  | nil => rfl
  | cons c cs =>
    rw [hstart] at hhead
    have hc : (c == '(') = false := beq_eq_false_iff_ne.mpr fun hc => hhead (by rw [hc]; rfl)
    rw [inside?, hc, Bool.false_and, if_neg Bool.false_ne_true]
    rfl

/-! ## The form of a line -/

theorem print_eq_none (h : t.callForm? = none) : LineForm.print t = none := by
  rw [LineForm.print, h]

theorem call_eq_none (h : t.callForm? = none) : LineForm.call t = none := by
  rw [LineForm.call, h]
  rfl

/-- A text without the sign of an assignment is none. -/
theorem assign_eq_none (h : cutAtAssignment? start none false t = none) :
    LineForm.assign t = none := by
  rw [LineForm.assign, h]

/-- The forms that start with a keyword. -/
def LineForm.keyworded : List (String × LineForm) :=
  [("def", define), ("if", conditional "if" .ifHolds), ("else", otherwise),
    ("elif", conditional "elif" .elseIf), ("for", forEach),
    ("while", conditional "while" .whileHolds), ("return", leave)]

/-- A text that starts with another word has no form of the keyword. -/
theorem keyworded_eq_none (hmem : (keyword, form) ∈ LineForm.keyworded)
    (h : t.afterKeyword? keyword = none) : form t = none := by
  simp only [LineForm.keyworded, List.mem_cons, Prod.mk.injEq, List.not_mem_nil, or_false] at hmem
  rcases hmem with ⟨rfl, rfl⟩ | ⟨rfl, rfl⟩ | ⟨rfl, rfl⟩ | ⟨rfl, rfl⟩ | ⟨rfl, rfl⟩ | ⟨rfl, rfl⟩ |
    ⟨rfl, rfl⟩ <;>
    simp only [LineForm.define, LineForm.conditional, LineForm.otherwise, LineForm.forEach,
      LineForm.leave, header?, h, Option.map_none]

/-- The keywords of the forms are reserved. -/
theorem reserved_of_keyworded (hmem : (keyword, form) ∈ LineForm.keyworded) :
    keyword.toList ∈ reservedWords := by
  have hall : LineForm.keyworded.all (fun p => reservedWords.contains p.1.toList) = true := by
    decide
  exact List.contains_iff_mem.mp (List.all_eq_true.mp hall _ hmem)

/-- **A line that starts with a keyword** is of the keyword's form. -/
theorem classify_of_keyword (hmem : (keyword, form) ∈ LineForm.keyworded) (hrest : EndsWord rest)
    (hsign : cutAtAssignment? start none false (keyword.toList ++ rest) = none)
    (hform : form (keyword.toList ++ rest) = some result) :
    classify (keyword.toList ++ rest) = result := by
  have hreserved := reserved_of_keyworded hmem
  have hcall := callForm?_of_reserved hreserved hrest
  have hothers : ∀ other ∈ LineForm.keyworded, other.1.toList ≠ keyword.toList →
      other.2 (keyword.toList ++ rest) = none := by
    intro other hother hne
    exact keyworded_eq_none hother
      (afterKeyword?_of_ne (continuesWord_of_reserved (reserved_of_keyworded hother))
        (continuesWord_of_reserved hreserved) hrest hne)
  have hprint := print_eq_none hcall
  have hcall' := call_eq_none hcall
  have hassign := assign_eq_none hsign
  generalize keyword.toList ++ rest = line at *
  simp only [LineForm.keyworded, List.forall_mem_cons] at hothers
  simp only [LineForm.keyworded, List.mem_cons, Prod.mk.injEq, List.not_mem_nil, or_false] at hmem
  rcases hmem with ⟨rfl, rfl⟩ | ⟨rfl, rfl⟩ | ⟨rfl, rfl⟩ | ⟨rfl, rfl⟩ | ⟨rfl, rfl⟩ | ⟨rfl, rfl⟩ |
    ⟨rfl, rfl⟩ <;>
    simp_all [classify, LineForm.all]

/-- **A line that starts with a name** is of no keyword's form. -/
theorem classify_of_name (hword : word.isIdentifier = true) (hrest : EndsWord rest) :
    classify (word ++ rest) =
      (([.print, .assign, .call, .word, .append] : List LineForm).findSome?
        fun form => form (word ++ rest)).getD (.ok .unrecognized) := by
  have hforms : ∀ other ∈ LineForm.keyworded, other.2 (word ++ rest) = none := by
    intro other hother
    have hreserved := reserved_of_keyworded hother
    refine keyworded_eq_none hother (afterKeyword?_of_ne (continuesWord_of_reserved hreserved)
      (continuesWord_of_isIdentifier hword) hrest ?_)
    intro heq
    exact not_reserved_of_isIdentifier hword (heq ▸ hreserved)
  simp only [LineForm.keyworded, List.forall_mem_cons] at hforms
  simp only [classify, LineForm.all, List.findSome?_cons, hforms]

end Offside
