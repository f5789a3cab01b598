import Offside.Proofs.Access.Placeholders
import Offside.Proofs.Program.Leading
import Offside.Proofs.Text.Pieces
import Offside.Template
import Offside.Text.Pieces
import Offside.Token.Lexer

/-!
# The names that stand in a text

A text is taken apart before names are looked up: blanks are trimmed off, it is cut at commas
and at brackets, and the escapes of a template are resolved. What is left stands in the text as
one run of characters, or, behind an escape, each of its words does: what an escape stands for
is in no word. So two scopes that agree on what stands in a text agree on what stands in its
parts:

> `Scope.AgreeOn.interpolate_unescape`: they fill in a template alike.
-/

namespace Offside

open Text

variable {a b : Scope} {t u raw word part inner : Text} {c : Char}

/-- Two scopes agree on the names in a text: whatever stands in it, as one run of characters,
names the same value in both or is bound in neither. -/
def Scope.AgreeOn (a b : Scope) (t : Text) : Prop :=
  ∀ name : String, name.toList <:+: t → a.get? name = b.get? name

/-- The same for the identifiers in a text, which is what a template can read. -/
def Scope.AgreeOnIdentifiers (a b : Scope) (t : Text) : Prop :=
  ∀ name : Text, name.isIdentifier = true → name <:+: t →
    a.get? (String.ofList name) = b.get? (String.ofList name)

/-- Scopes that agree on a text agree on its parts. -/
theorem Scope.AgreeOn.mono (h : a.AgreeOn b t) (hwithin : u <:+: t) : a.AgreeOn b u :=
  fun name hname => h name (hname.trans hwithin)

/-- Scopes that agree on a text bind each of its words alike. -/
theorem Scope.AgreeOn.get?_ofList (h : a.AgreeOn b t) (hword : word <:+: t) :
    a.get? (String.ofList word) = b.get? (String.ofList word) :=
  h _ (by rwa [String.toList_ofList])

/-! ## The parts of a text -/

theorem isInfix_trim (t : Text) : t.trim <:+: t := by
  obtain ⟨front, back, ht, -⟩ := exists_trim t
  exact ⟨front, back, by rw [List.append_assoc, ← ht]⟩

/-- The first part stands in front; it is told apart because the part before it may grow by
one character. -/
theorem isInfix_of_cutAtCommas (s : Nesting) (t : Text) :
    ∃ first rest, cutAtCommas s t = first :: rest ∧ first <+: t ∧ ∀ part ∈ rest, part <:+: t := by
  induction t generalizing s with
  | nil => exact ⟨[], [], rfl, List.nil_prefix, nofun⟩
  | cons c cs ih =>
    obtain ⟨first, rest, hcut, hfirst, hrest⟩ := ih (s.next c)
    rw [cutAtCommas, hcut]
    split
    next =>
      refine ⟨[], first :: rest, rfl, List.nil_prefix, fun part hpart => ?_⟩
      rcases List.mem_cons.mp hpart with rfl | hpart
      · exact List.infix_cons hfirst.isInfix
      · exact List.infix_cons (hrest part hpart)
    next =>
      refine ⟨c :: first, rest, rfl, List.cons_prefix_cons.mpr ⟨rfl, hfirst⟩, fun part hpart => ?_⟩
      exact List.infix_cons (hrest part hpart)

/-- The pieces of a text stand in it. -/
theorem isInfix_of_mem_pieces (h : part ∈ t.pieces) : part <:+: t := by
  obtain ⟨whole, hwhole, rfl⟩ := List.mem_map.mp (mem_of_mem_dropEmptyLast _ h)
  refine (isInfix_trim whole).trans ?_
  obtain ⟨first, rest, hcut, hfirst, hrest⟩ := isInfix_of_cutAtCommas Nesting.start t
  rw [hcut] at hwhole
  rcases List.mem_cons.mp hwhole with rfl | hwhole
  · exact hfirst.isInfix
  · exact hrest whole hwhole

/-- What brackets enclose stands in the text. -/
theorem isInfix_of_inside? {opening closing : Char} (h : t.inside? opening closing = some inner) :
    inner <:+: t := by
  unfold inside? at h
  split at h
  next => contradiction
  next c cs =>
    split at h
    next =>
      cases h
      exact List.infix_cons (List.dropLast_prefix cs).isInfix
    next => contradiction

/-- The arguments of a call stand in its text. -/
theorem isInfix_of_callForm? {name : Text} (h : t.callForm? = some (name, inner)) :
    inner <:+: t := by
  unfold callForm? at h
  dsimp only at h
  split at h
  next =>
    obtain ⟨inner', hinside, heq⟩ := Option.map_eq_some_iff.mp h
    cases heq
    have hrest : trimStart (t.dropWhile continuesWord) <:+ t :=
      (List.dropWhile_suffix isBlank).trans (List.dropWhile_suffix continuesWord)
    exact (isInfix_of_inside? hinside).trans hrest.isInfix
  next => contradiction

/-- A text that is cut is the two parts with the separator between them. -/
theorem eq_of_cut? {separator before after : Text} (h : cut? separator t = some (before, after)) :
    t = before ++ (separator ++ after) := by
  induction t generalizing before with
  | nil =>
    rw [cut?] at h
    split at h
    next hempty =>
      cases h
      rw [List.isEmpty_iff.mp hempty]
      rfl
    next => contradiction
  | cons c cs ih =>
    rw [cut?] at h
    split at h
    next rest hprefix =>
      cases h
      exact (List.isPrefixOf?_eq_some_iff_append_eq.mp hprefix).symm
    next =>
      obtain ⟨⟨before', after'⟩, hcut, heq⟩ := Option.map_eq_some_iff.mp h
      cases heq
      exact congrArg (c :: ·) (ih hcut)

/-! ## Words behind escapes -/

/-- No escape sequence stands for a character of a word. -/
theorem continuesWord_of_escaped? {d : Char} (h : escaped? c = some d) :
    continuesWord d = false := by
  unfold escaped? at h
  split at h <;> cases h <;> decide

/-- No word begins with a character that is in no word. -/
theorem eq_nil_of_isPrefix_cons (hword : ∀ c ∈ word, continuesWord c = true)
    (hc : continuesWord c = false) (h : word <+: c :: t) : word = [] := by
  rcases List.prefix_cons_iff.mp h with rfl | ⟨rest, rfl, -⟩
  · rfl
  · rw [hword c List.mem_cons_self] at hc
    contradiction

/-- A word at the front of what a text means behind its escapes is at the front of the text. -/
theorem isPrefix_of_unescape (hword : ∀ c ∈ word, continuesWord c = true)
    (h : word <+: unescape raw) : word <+: raw := by
  have hbackslash : continuesWord '\\' = false := by decide
  fun_induction unescape raw generalizing word with
  | case1 c cs d hescaped ih =>
    rw [eq_nil_of_isPrefix_cons hword (continuesWord_of_escaped? hescaped) h]
    exact List.nil_prefix
  | case2 c cs hescaped ih =>
    rw [eq_nil_of_isPrefix_cons hword hbackslash h]
    exact List.nil_prefix
  | case3 c cs hplain ih =>
    rcases List.prefix_cons_iff.mp h with rfl | ⟨rest, rfl, hrest⟩
    · exact List.nil_prefix
    · have hprefix := ih (fun d hd => hword d (List.mem_cons_of_mem c hd)) hrest
      exact List.cons_prefix_cons.mpr ⟨rfl, hprefix⟩
  | case4 => exact h

/-- A word at the start of a text that is read back was written there. -/
theorem isPrefix_cons_of_unescape (hword : ∀ c ∈ word, continuesWord c = true)
    (h : word <+: c :: unescape raw) : word <+: c :: raw := by
  rcases List.prefix_cons_iff.mp h with rfl | ⟨rest, rfl, hrest⟩
  · exact List.nil_prefix
  · have hprefix := isPrefix_of_unescape (fun d hd => hword d (List.mem_cons_of_mem c hd)) hrest
    exact List.cons_prefix_cons.mpr ⟨rfl, hprefix⟩

/-- **Escapes make no words.** A word that stands in a text behind its escapes stands in the
text as it is written. -/
theorem isInfix_of_unescape (hword : ∀ c ∈ word, continuesWord c = true)
    (h : word <:+: unescape raw) : word <:+: raw := by
  fun_induction unescape raw with
  | case1 c cs d hescaped ih =>
    rcases List.infix_cons_iff.mp h with h | h
    · rw [eq_nil_of_isPrefix_cons hword (continuesWord_of_escaped? hescaped) h]
      exact List.nil_infix
    · exact List.infix_cons (List.infix_cons (ih h))
  | case2 c cs hescaped ih =>
    rcases List.infix_cons_iff.mp h with h | h
    · rw [eq_nil_of_isPrefix_cons hword (by decide) h]
      exact List.nil_infix
    · refine List.infix_cons ?_
      rcases List.infix_cons_iff.mp h with h | h
      · exact (isPrefix_cons_of_unescape hword h).isInfix
      · exact List.infix_cons (ih h)
  | case3 c cs hplain ih =>
    rcases List.infix_cons_iff.mp h with h | h
    · exact (isPrefix_cons_of_unescape hword h).isInfix
    · exact List.infix_cons (ih h)
  | case4 => exact h

/-! ## Templates -/

/-- Scopes that agree on the identifiers in a text agree on those in its parts. -/
theorem Scope.AgreeOnIdentifiers.mono (h : a.AgreeOnIdentifiers b t) (hwithin : u <:+: t) :
    a.AgreeOnIdentifiers b u :=
  fun name hname hu => h name hname (hu.trans hwithin)

theorem Scope.AgreeOnIdentifiers.tail (h : a.AgreeOnIdentifiers b (c :: t)) :
    a.AgreeOnIdentifiers b t :=
  h.mono (List.suffix_cons c t).isInfix

/-- A placeholder looks at no name that is not written in it. -/
theorem placeholder_congr (h : a.AgreeOnIdentifiers b inner) :
    placeholder a inner = placeholder b inner := by
  unfold placeholder
  dsimp only
  cases hidentifier : inner.trim.isIdentifier with
  | true => rw [h _ hidentifier (isInfix_trim inner)]
  -- whatever is bound to what is no identifier, the braces stand for themselves
  | false =>
    cases a.get? (String.ofList inner.trim) <;> cases b.get? (String.ofList inner.trim) <;> rfl

theorem head?_ne_of_forall_ne (h : ∀ rest, t = c :: rest → False) : t.head? ≠ some c := by
  intro hhead
  obtain ⟨rest, hrest⟩ := List.head?_eq_some_iff.mp hhead
  exact h rest hrest

/-- A template reads the scope at the identifiers that stand in it. -/
theorem interpolate_congr (h : a.AgreeOnIdentifiers b t) : interpolate a t = interpolate b t := by
  fun_induction interpolate a t with
  | case1 => rw [interpolate]
  | case2 rest ih => rw [interpolate, ih h.tail.tail]
  | case3 rest ih => rw [interpolate, ih h.tail.tail]
  | case4 rest hopening inner after hcut ih =>
    have hrest : rest = inner ++ ('\x7d' :: after) := eq_of_cut? hcut
    have hinner : inner <:+: rest := ⟨[], _, hrest.symm⟩
    have hafter : after <:+: rest := ⟨inner ++ ['\x7d'], [], by rw [hrest]; simp⟩
    rw [Access.interpolate_opening (head?_ne_of_forall_ne hopening), hcut,
      placeholder_congr (h.tail.mono hinner), ih (h.tail.mono hafter)]
  | case5 rest hopening hcut =>
    rw [Access.interpolate_opening (head?_ne_of_forall_ne hopening), hcut]
  | case6 c rest hopening hclosing hbrace ih =>
    rw [ih h.tail, interpolate]
    · exact hopening
    · exact hclosing
    · exact hbrace

/-- Scopes that agree on the names in a template fill it in alike, with its escapes resolved
first. -/
theorem Scope.AgreeOn.interpolate_unescape (h : a.AgreeOn b raw) :
    interpolate a (unescape raw) = interpolate b (unescape raw) :=
  interpolate_congr fun _ hname hwithin =>
    h.get?_ofList (isInfix_of_unescape (continuesWord_of_isIdentifier hname) hwithin)

end Offside
