import Offside.Proofs.Token.Literals

/-!
# Quoted parts that do not end where they should

A text may be put in quotes with a backslash in front of each quote of their kind only. Then
its own backslashes decide where the quoted part ends, and what is read back from it:

> `isVerbatim_iff`: the text is read back exactly if each of its backslashes stands in front
> of a character that makes no escape with it.

> `Recovers.of_scans`: where several texts are written like that one behind the other, the
> whole has tokens only if all the quoted parts end where they should.

For the second, a reading that has once missed the end of a quoted part is followed through
whatever comes behind: it is in quotes again at the end of each text, and never finds back,
unless it sees a backslash outside quotes, which is no token.
-/

namespace Offside

open Text Nesting

variable {q c : Char} {t u body : Text} {s : Nesting} {depth depth' : Nat} {P Q : Prop}

/-! ## Backslashes that are left alone -/

/-- Each backslash in the text stands in front of a character that makes no escape with it. -/
def Text.isVerbatim : Text → Bool
  | '\\' :: c :: cs => (escaped? c).isNone && isVerbatim cs
  | ['\\'] => false
  | _ :: cs => isVerbatim cs
  | [] => true

/-- The text with a backslash in front of each quote of the kind. -/
def Text.shield (q : Char) (t : Text) : Text :=
  t.flatMap fun c => if c = q then ['\\', c] else [c]

/-- A backslash shields the mark. -/
theorem shield_cons_self (q : Char) (t : Text) : shield q (q :: t) = '\\' :: q :: shield q t := by
  rw [shield, List.flatMap_cons, if_pos rfl]
  rfl

/-- No other character is shielded. -/
theorem shield_cons_of_ne (h : c ≠ q) (t : Text) : shield q (c :: t) = c :: shield q t := by
  rw [shield, List.flatMap_cons, if_neg h]
  rfl

/-- A backslash and the character behind it are quoted together. -/
theorem quoted_escaped_iff : Quoted q ('\\' :: c :: body) ↔ Quoted q body := by
  constructor
  · intro h
    cases h with
    | escaped hbody => exact hbody
    | plain hc => exact absurd rfl hc
  · exact .escaped

/-- A character that is neither the mark nor a backslash is quoted as it is. -/
theorem quoted_plain_iff (hc : c ≠ '\\') (hne : c ≠ q) : Quoted q (c :: body) ↔ Quoted q body := by
  constructor
  · intro h
    cases h with
    | escaped => exact absurd rfl hc
    | plain _ _ hbody => exact hbody
  · exact .plain hc hne

/-- A quote that no backslash stands in front of ends the quoted part. -/
theorem not_quoted_cons_self (hq : isQuote q = true) : ¬ Quoted q (q :: body) := by
  intro h
  cases h with
  | escaped => contradiction
  | plain _ hne => exact hne rfl

/-- A backslash alone would shield the closing mark. -/
theorem not_quoted_backslash : ¬ Quoted q ['\\'] := by
  intro h
  cases h with
  | plain hc => exact hc rfl

theorem ne_backslash_of_not_pair (hpair : ∀ d ds, c = '\\' → t = d :: ds → False)
    (hlast : c = '\\' → t = [] → False) : c ≠ '\\' := by
  rintro rfl
  cases t with
  | nil => exact hlast rfl rfl
  | cons d ds => exact hpair d ds rfl rfl

/-- Shielding a text and reading it back never makes it longer. -/
theorem length_unescape_shield_le (hq : isQuote q = true) (t : Text) :
    (unescape (shield q t)).length ≤ t.length := by
  have hne := ne_backslash_of_isQuote hq
  fun_induction isVerbatim t with
  | case1 c cs ih =>
    rw [shield_cons_of_ne hne.symm]
    by_cases hc : c = q
    · subst hc
      rw [shield_cons_self, unescape_escape_cons (c := '\\') rfl, unescape_cons hne]
      exact Nat.succ_le_succ (Nat.succ_le_succ ih)
    · rw [shield_cons_of_ne hc]
      cases hescaped : escaped? c with
      | none =>
        rw [unescape_other_cons hescaped]
        exact Nat.succ_le_succ (Nat.succ_le_succ ih)
      | some d =>
        rw [unescape_escape_cons hescaped]
        exact Nat.succ_le_succ (Nat.le_succ_of_le ih)
  | case2 =>
    rw [shield_cons_of_ne hne.symm]
    exact Nat.le_refl 1
  | case3 c cs hpair hlast ih =>
    have hc := ne_backslash_of_not_pair hpair hlast
    by_cases hcq : c = q
    · subst hcq
      rw [shield_cons_self, unescape_escape_cons (escaped?_of_isQuote hq)]
      exact Nat.succ_le_succ ih
    · rw [shield_cons_of_ne hcq, unescape_cons hc]
      exact Nat.succ_le_succ ih
  | case4 => exact Nat.le_refl 0

/-- The text is read back from between quotes exactly if its backslashes are left alone. -/
theorem isVerbatim_iff (hq : isQuote q = true) (t : Text) :
    t.isVerbatim = true ↔ Quoted q (shield q t) ∧ unescape (shield q t) = t := by
  have hne := ne_backslash_of_isQuote hq
  fun_induction isVerbatim t with
  | case1 c cs ih =>
    rw [shield_cons_of_ne hne.symm, Bool.and_eq_true, ih.eq]
    by_cases hc : c = q
    · subst hc
      rw [shield_cons_self, quoted_escaped_iff, escaped?_of_isQuote hq]
      exact iff_of_false (fun h => Bool.false_ne_true h.1) fun h => not_quoted_cons_self hq h.1
    · rw [shield_cons_of_ne hc, quoted_escaped_iff]
      cases hescaped : escaped? c with
      | none => simp [unescape_other_cons hescaped]
      | some d =>
        -- one character stands for two, and the others for no more than there were
        refine iff_of_false (fun h => Bool.false_ne_true h.1) fun h => ?_
        have hlength := congrArg List.length h.2
        have := length_unescape_shield_le hq cs
        rw [unescape_escape_cons hescaped, List.length_cons, List.length_cons,
          List.length_cons] at hlength
        omega
  | case2 =>
    rw [shield_cons_of_ne hne.symm]
    exact iff_of_false Bool.false_ne_true fun h => not_quoted_backslash h.1
  | case3 c cs hpair hlast ih =>
    have hc := ne_backslash_of_not_pair hpair hlast
    rw [ih.eq]
    by_cases hcq : c = q
    · subst hcq
      rw [shield_cons_self, quoted_escaped_iff, unescape_escape_cons (escaped?_of_isQuote hq),
        List.cons.injEq, eq_self, true_and]
    · rw [shield_cons_of_ne hcq, quoted_plain_iff hc hcq, unescape_cons hc, List.cons.injEq,
        eq_self, true_and]
  | case4 => exact iff_of_true rfl ⟨.nil, rfl⟩

/-! ## Where a reading is lost -/

/-- No backslash is outside quotes. -/
def Nesting.Backless (s : Nesting) (c : Char) : Prop :=
  (s.level c).isSome = true → c ≠ '\\'

/-- The reading stands inside quotes of the kind. -/
def Nesting.Within (q : Char) : Nesting → Prop
  | plain _ => False
  | quoted r _ | escaped r _ => r = q

theorem not_backless : ¬ (plain depth).Backless '\\' :=
  fun h => h rfl rfl

/-- Only the quote itself begins a part in quotes of its kind. -/
theorem not_within_next (hs : ¬ s.Within q) (hc : c ≠ q) : ¬ (s.next c).Within q := by
  cases s with
  | plain depth =>
    rw [next]
    split
    · exact hc
    · split
      · exact not_false
      · split <;> exact not_false
  | quoted r depth =>
    rw [next]
    split
    · exact hs
    · split
      · exact not_false
      · exact hs
  | escaped r depth => exact hs

/-- Nor does it behind a backslash that is not seen. -/
theorem not_within_next_next (hq : isQuote q = true) (hs : ¬ s.Within q)
    (hbackless : s.Backless '\\') : ¬ ((s.next '\\').next q).Within q := by
  cases s with
  | plain depth => exact absurd hbackless not_backless
  | quoted r depth => exact hs
  | escaped r depth =>
    have hr : r ≠ q := hs
    show ¬ ((quoted r depth).next q).Within q
    rwa [next_quoted_of_ne (ne_backslash_of_isQuote hq) hr.symm]

/-- Where a reading stands outside quotes of a kind, a text whose quotes of the kind all
stand right behind a backslash does not bring it in. -/
theorem not_within_shield (hq : isQuote q = true) (t : Text) (hs : ¬ s.Within q)
    (h : Along Backless s (shield q t)) : ¬ (s.read (shield q t)).Within q := by
  induction t generalizing s with
  | nil => exact hs
  | cons c cs ih =>
    by_cases hc : c = q
    · subst hc
      rw [shield_cons_self] at h ⊢
      exact ih (not_within_next_next hq hs h.1) h.2.2
    · rw [shield_cons_of_ne hc] at h ⊢
      exact ih (not_within_next hs hc) h.2

/-- A text behind an opening quote, or behind a backslash in quotes, whose reading ends in
these quotes has not left them before. -/
theorem quoted_of_read (hq : isQuote q = true) (t : Text) :
    (∀ depth, Along Backless (quoted q depth) (shield q t) →
      (quoted q depth).read (shield q t) = quoted q depth' → Quoted q (shield q t)) ∧
    ∀ depth, Along Backless (escaped q depth) (shield q t) →
      (escaped q depth).read (shield q t) = quoted q depth' →
        Quoted q ('\\' :: shield q t) := by
  induction t with
  | nil => exact ⟨fun _ _ _ => .nil, nofun⟩
  | cons c cs ih =>
    by_cases hc : c = q
    · subst hc
      rw [shield_cons_self]
      refine ⟨fun depth h hread => ?_, fun depth h hread => ?_⟩
      · exact .escaped (ih.1 depth h.2.2 hread)
      · -- the backslash is escaped itself, so that the quote ends the part
        have hleft : ((escaped c depth).next '\\').next c = plain depth :=
          next_quoted_self hq depth
        have hlost := h.2.2
        rw [Nesting.read, Nesting.read, hleft] at hread
        rw [hleft] at hlost
        have hnot : ¬ (quoted c depth').Within c := by
          rw [← hread]
          exact not_within_shield hq cs not_false hlost
        exact absurd rfl hnot
    · rw [shield_cons_of_ne hc]
      refine ⟨fun depth h hread => ?_, fun depth h hread => .escaped (ih.1 depth h.2 hread)⟩
      by_cases hbackslash : c = '\\'
      · subst hbackslash
        exact ih.2 depth h.2 hread
      · rw [Along, next_quoted_of_ne hbackslash hc] at h
        rw [Nesting.read, next_quoted_of_ne hbackslash hc] at hread
        exact .plain hbackslash hc (ih.1 depth h.2 hread)

/-- The reading stands in quotes, and not behind a backslash. -/
def Nesting.InQuotes (s : Nesting) : Prop :=
  ∃ r depth, isQuote r = true ∧ s = quoted r depth

/-- Where it does not end a quoted part, a quote leaves a reading in one. -/
theorem inQuotes_next (hq : isQuote q = true) (hquoting : s.Quoting)
    (hs : ∀ depth, s ≠ quoted q depth) : (s.next q).InQuotes := by
  cases s with
  | plain depth => exact ⟨q, depth, hq, next_plain_of_isQuote hq depth⟩
  | quoted r depth =>
    have hr : q ≠ r := by
      rintro rfl
      exact hs depth rfl
    exact ⟨r, depth, hquoting, next_quoted_of_ne (ne_backslash_of_isQuote hq) hr depth⟩
  | escaped r depth => exact ⟨r, depth, hquoting, rfl⟩

/-! ## What a reading finds behind a text -/

/-- A reading that comes to the text in quotes is in quotes behind it; one that comes to it
outside quotes is so behind it only if the condition holds. -/
structure Recovers (condition : Prop) (t : Text) : Prop where
  lost : ∀ s : Nesting, s.InQuotes → Along Backless s t → (s.read t).InQuotes
  kept : ∀ depth, Along Backless (plain depth) t →
    ((plain depth).read t).InQuotes ∨ condition ∧ ∃ depth', (plain depth).read t = plain depth'

/-- Two texts recover if both of them do. -/
theorem Recovers.append (ht : Recovers P t) (hu : Recovers Q u) : Recovers (P ∧ Q) (t ++ u) where
  lost s hs h := by
    obtain ⟨h₁, h₂⟩ := along_append.mp h
    rw [read_append]
    exact hu.lost _ (ht.lost s hs h₁) h₂
  kept depth h := by
    obtain ⟨h₁, h₂⟩ := along_append.mp h
    rw [read_append]
    rcases ht.kept depth h₁ with hlost | ⟨hp, depth', hread⟩
    · exact .inl (hu.lost _ hlost h₂)
    · rw [hread] at h₂ ⊢
      exact (hu.kept depth' h₂).imp_right fun h => ⟨⟨hp, h.1⟩, h.2⟩

theorem Recovers.mono (h : Recovers P t) (hPQ : P → Q) : Recovers Q t :=
  ⟨h.lost, fun depth hback => (h.kept depth hback).imp_right fun h => ⟨hPQ h.1, h.2⟩⟩

/-- A character that is no quote and no backslash leaves a reading where it is. -/
theorem recovers_singleton (hquote : isQuote c = false) (hc : c ≠ '\\') : Recovers True [c] where
  lost s hs _ := by
    obtain ⟨r, depth, hr, rfl⟩ := hs
    have hne : c ≠ r := by
      rintro rfl
      rw [hquote] at hr
      contradiction
    exact ⟨r, depth, hr, next_quoted_of_ne hc hne depth⟩
  kept depth _ := by
    refine .inr ⟨trivial, ?_⟩
    rw [Nesting.read, next, hquote, if_neg Bool.false_ne_true]
    split
    · exact ⟨_, rfl⟩
    · split <;> exact ⟨_, rfl⟩

theorem recovers_nil : Recovers True [] :=
  ⟨fun _ hs _ => hs, fun depth _ => .inr ⟨trivial, depth, rfl⟩⟩

/-- A text without quotes and backslashes recovers in any case. -/
theorem recovers_of_all (h : t.all (fun c => !isQuote c && c != '\\') = true) :
    Recovers True t := by
  induction t with
  | nil => exact recovers_nil
  | cons c cs ih =>
    simp only [List.all_cons, Bool.and_eq_true, Bool.not_eq_true', bne_iff_ne] at h
    exact ((recovers_singleton h.1.1 h.1.2).append (ih h.2)).mono fun _ => trivial

/-- A text in quotes is left again only if its quoted part ends where it should. -/
theorem recovers_quoted (hq : isQuote q = true) (t : Text) :
    Recovers (Quoted q (shield q t)) (q :: (shield q t ++ [q])) := by
  constructor
  · rintro s ⟨r, depth, hr, rfl⟩ h
    -- the quote ends other quotes of its kind, or is one more character in others
    have hopen : ¬ ((quoted r depth).next q).Within q := by
      by_cases heq : q = r
      · subst heq
        rw [next_quoted_self hq]
        exact not_false
      · rw [next_quoted_of_ne (ne_backslash_of_isQuote hq) heq]
        exact fun h => heq h.symm
    have hquoting : (quoted r depth).Quoting := hr
    have hnot := not_within_shield hq t hopen (along_append.mp h.2).1
    rw [Nesting.read, read_append]
    refine inQuotes_next hq ((hquoting.next q).read _) fun depth' heq => ?_
    rw [heq] at hnot
    exact hnot rfl
  · intro depth h
    have hopen := next_plain_of_isQuote hq depth
    have hquoting : (quoted q depth).Quoting := hq
    have hbody := (along_append.mp h.2).1
    rw [hopen] at hbody
    rw [Nesting.read, hopen, read_append]
    by_cases hread : ∃ depth', (quoted q depth).read (shield q t) = quoted q depth'
    · obtain ⟨depth', hread⟩ := hread
      refine .inr ⟨(quoted_of_read hq t).1 depth hbody hread, depth', ?_⟩
      rw [hread]
      exact next_quoted_self hq depth'
    · left
      exact inQuotes_next hq (hquoting.read _) fun depth' heq => hread ⟨depth', heq⟩

/-! ## Backslashes in tokens -/

theorem backless_of_not_mem (h : '\\' ∉ t) (s : Nesting) : Along Backless s t := by
  induction t generalizing s with
  | nil => trivial
  | cons c cs ih =>
    rw [List.mem_cons, not_or] at h
    exact ⟨fun _ => Ne.symm h.1, ih h.2 _⟩

/-- What is hidden in quotes shows no backslash. -/
theorem backless_of_hidden (h : Along Hidden s t) : Along Backless s t := by
  refine h.mono fun s c hc hseen => ?_
  rw [show s.level c = none from hc] at hseen
  contradiction

/-- No token shows a backslash outside its quoted part. -/
theorem Formed.backless {kind : TokenKind} (h : Formed kind t) (depth : Nat) :
    Along Backless (plain depth) t := by
  have hwords {p : Char → Bool} (hp : p '\\' = false) (ht : ∀ c ∈ t, p c = true) :
      Along Backless (plain depth) t := by
    refine backless_of_not_mem (fun hmem => ?_) _
    rw [ht _ hmem] at hp
    contradiction
  cases h with
  | pair h =>
    unfold pairSymbol? at h
    split at h <;> cases h <;> exact backless_of_not_mem (by decide) _
  | single h =>
    unfold singleSymbol? at h
    split at h <;> cases h <;> exact backless_of_not_mem (by decide) _
  | string hq hbody => exact backless_of_hidden (reads_quoted hq hbody depth).2
  | @template f q body hf hq hbody =>
    have hflat : isFlat f = true ∧ f ≠ '\\' := by
      rcases hf with rfl | rfl <;> decide
    refine ⟨fun _ => hflat.2, ?_⟩
    rw [next_plain_of_isFlat hflat.1]
    exact backless_of_hidden (reads_quoted hq hbody depth).2
  | number hne ht => exact hwords (by decide) ht
  | name hne ht | keyword _ hne ht => exact hwords (by decide) ht

/-- Scanned text has no backslash outside quotes. -/
theorem Scans.backless {column : Nat} {ts : List Token} (h : Scans column t ts) (depth : Nat) :
    Along Backless (plain depth) t := by
  induction h generalizing depth with
  | done => trivial
  | @space column c cs ts hc h ih =>
    refine ⟨fun _ => ?_, ?_⟩
    · rintro rfl
      contradiction
    · rw [(next_of_isBlank (isBlank_of_isSpace hc) depth).1]
      exact ih depth
  | @token column c cs rest kind literal ts hc h ih =>
    obtain ⟨front, quoted, htext, hshown⟩ := shown_of_lexeme hc
    rw [← List.cons_append, along_append]
    refine ⟨(formed_of_lexeme hc).backless depth, ?_⟩
    rw [htext, hshown.read]
    exact ih _

/-- The condition of a text that can be scanned holds. -/
theorem Recovers.of_scans {column : Nat} {ts : List Token} (h : Recovers P t)
    (hts : Scans column t ts) : P := by
  obtain ⟨depth, hread⟩ := hts.read 0
  rcases h.kept 0 (hts.backless 0) with ⟨r, depth', -, hlost⟩ | ⟨hp, -⟩
  · rw [hread] at hlost
    contradiction
  · exact hp

end Offside
