import Offside.Program.Classifier
import Offside.Proofs.Token.Brackets

/-!
# Equals signs in expressions

A line is an assignment if the text has an equals sign outside quotes and brackets that
is no half of a comparison. An expression has none: its equals signs belong to the
tokens `==`, `!=`, `<=` and `>=`, and by the grammar no such token stands right before
an equals sign. So the search for the sign passes over an expression, at whatever depth
it stands.
-/

namespace Offside

open Text Nesting

variable {comma closer depth depth' column more : Nat} {previous : Option Char} {paired : Bool}
  {pending : Bool} {s : Nesting} {c : Char} {cs t u tail : Text} {ts us : List Token}
  {kind : TokenKind} {literal : Option Literal} {e : Expr}

/-! ## Equals signs in tokens -/

/-- The token ends with an equals sign. -/
def TokenKind.endsEqual : TokenKind → Bool
  | equalEqual | bangEqual | lessEqual | greaterEqual => true
  | _ => false

/-- No token that ends with an equals sign stands before `==`; `pending` holds if the
tokens stand behind one that does. -/
def Apart (pending : Bool) : List Token → Prop
  | [] => True
  | t :: ts => (pending = true → t.kind ≠ .equalEqual) ∧ Apart t.kind.endsEqual ts

/-- Tokens that are apart behind an equals sign are apart anywhere. -/
theorem Apart.anywhere (h : Apart pending ts) : Apart false ts := by
  cases ts with
  | nil => trivial
  | cons t ts => exact ⟨fun hfalse => absurd hfalse Bool.false_ne_true, h.2⟩

theorem apart_cons {t : Token} (ht : t.kind.endsEqual = false) (hts : Apart false ts) :
    Apart pending (t :: ts) := by
  refine ⟨?_, by rwa [ht]⟩
  rintro - hkind
  rw [hkind] at ht
  contradiction

/-- No literal and no name ends with an equals sign. -/
theorem Stands.endsEqual {t : Token} (h : Stands t e) : t.kind.endsEqual = false := by
  cases h <;> simp only [*] <;> rfl

/-- No operator that joins operands ends with an equals sign. -/
theorem Joins.endsEqual {join : Join} {t : Token} {left right : Expr}
    (h : Joins join t left right e) : t.kind.endsEqual = false := by
  cases h <;> simp only [*] <;> rfl

theorem Signs.endsEqual {op : UnaryOp} (h : Signs kind op) : kind.endsEqual = false := by
  cases h <;> rfl

theorem Closing.endsEqual (closing : Closing) : closing.kind.endsEqual = false := by
  cases closing <;> rfl

mutual

/-- **Comparisons are apart.** An operand stands between any two comparison tokens. -/
theorem Derives.apart {level : Level} {ts us : List Token} {e : Expr} {pending : Bool}
    (hus : Apart false us) : Derives level ts e → Apart pending (ts ++ us)
  | .operand he | .compared he | .single he | .unsigned he | .base he | .bare he =>
    he.apart hus
  | .join hleft ht hright => by
    rw [List.append_assoc]
    exact hleft.apart (apart_cons ht.endsEqual (hright.apart hus))
  | .not ht he => apart_cons (by rw [ht]; rfl) (he.apart hus)
  | .chain hfirst hlinks => by
    rw [List.append_assoc]
    exact hfirst.apart (hlinks.apart hus)
  | .sign ht he => apart_cons ht.endsEqual (he.apart hus)
  | .power hbase ht hexponent => by
    rw [List.append_assoc]
    exact hbase.apart (apart_cons (by rw [ht]; rfl) (hexponent.apart hus))
  | .call hcallee ht harguments hu => by
    rw [List.append_assoc, List.cons_append, List.append_assoc]
    exact hcallee.apart (apart_cons (by rw [ht]; rfl)
      (harguments.apart (apart_cons (by rw [hu]; rfl) hus)))
  | .subscript hcontainer ht hindex hu => by
    rw [List.append_assoc, List.cons_append, List.append_assoc]
    exact hcontainer.apart (apart_cons (by rw [ht]; rfl)
      (hindex.apart (apart_cons (by rw [hu]; rfl) hus)))
  | .stands ht => apart_cons ht.endsEqual hus
  | .group ht he hu => by
    rw [List.cons_append, List.append_assoc]
    exact apart_cons (by rw [ht]; rfl) (he.apart (apart_cons (by rw [hu]; rfl) hus))
  | .list ht helements hu => by
    rw [List.cons_append, List.append_assoc]
    exact apart_cons (by rw [ht]; rfl) (helements.apart (apart_cons (by rw [hu]; rfl) hus))

/-- Comparisons in a chain are apart. -/
theorem Links.apart {ts us : List Token} {links : List (Relation × Nat × Expr)}
    (hus : Apart false us) : Links ts links → Apart false (ts ++ us)
  | .nil => hus
  | .cons ht he hlinks => by
    rw [List.cons_append, List.append_assoc]
    exact ⟨fun hfalse => absurd hfalse Bool.false_ne_true, he.apart (hlinks.apart hus)⟩
  | .notIn ht hu he hlinks => by
    rw [List.cons_append, List.cons_append, List.append_assoc]
    exact apart_cons (by rw [ht]; rfl)
      (apart_cons (by rw [hu]; rfl) (he.apart (hlinks.apart hus)))

/-- Comparisons inside brackets are apart. -/
theorem Elements.apart {ts us : List Token} {es : List Expr} (hus : Apart false us) :
    Elements ts es → Apart false (ts ++ us)
  | .nil => hus
  | .last he => he.apart hus
  | .cons he ht hes => by
    rw [List.append_assoc]
    exact he.apart (apart_cons (by rw [ht]; rfl) (hes.apart hus))

end

/-! ## Equals signs in the text of a token -/

/-- The character is no equals sign outside quotes and brackets. -/
def Nesting.Signless (s : Nesting) (c : Char) : Prop :=
  c = '=' → s.level c ≠ some 0

/-- A text without equals signs has none outside quotes and brackets. -/
theorem along_signless_of_forall (h : ∀ c ∈ t, c ≠ '=') (s : Nesting) : Along Signless s t := by
  induction t generalizing s with
  | nil => trivial
  | cons c cs ih =>
    exact ⟨fun hc => absurd hc (h c List.mem_cons_self),
      ih (fun d hd => h d (List.mem_cons_of_mem c hd)) (s.next c)⟩

/-- A quoted part hides its equals signs. -/
theorem along_signless_quoted {body : Text} {q : Char} (hq : isQuote q = true)
    (hbody : Quoted q body) (depth : Nat) :
    Along Signless (plain depth) (q :: (body ++ [q])) := by
  refine (reads_quoted hq hbody depth).2.mono ?_
  intro s c hhidden _ hlevel
  rw [hhidden] at hlevel
  contradiction

/-- A token that starts with `c` and goes on with the text `more` either is a comparison
that ends with an equals sign, or hides its equals signs. -/
def Compared (kind : TokenKind) (c : Char) (more : Text) : Prop :=
  kind.endsEqual = true ∧ more = ['='] ∧
      (c = '=' ∧ kind = .equalEqual ∨ c ≠ '=' ∧ endsComparison (some c) = true) ∨
    kind.endsEqual = false ∧ c ≠ '=' ∧ ∀ depth, Along Signless (plain depth) (c :: more)

/-- A token without equals signs hides them. -/
theorem compared_of_forall (hkind : kind.endsEqual = false) (h : ∀ d ∈ c :: t, d ≠ '=') :
    Compared kind c t :=
  .inr ⟨hkind, h c List.mem_cons_self, fun depth => along_signless_of_forall h (plain depth)⟩

theorem ne_equal_of_all (h : t.all (· != '=') = true) : ∀ d ∈ t, d ≠ '=' :=
  fun d hd => bne_iff_ne.mp (List.all_eq_true.mp h d hd)

/-- A symbol of two characters is a comparison that ends with an equals sign, or has none. -/
theorem compared_of_pairSymbol? {d : Char} (h : pairSymbol? c d = some kind) :
    Compared kind c [d] := by
  unfold pairSymbol? at h
  split at h <;> cases h
  -- `**` and `//` have no equals sign
  · exact compared_of_forall rfl (ne_equal_of_all (by decide))
  · exact compared_of_forall rfl (ne_equal_of_all (by decide))
  · exact .inl ⟨rfl, rfl, .inl ⟨rfl, rfl⟩⟩
  all_goals exact .inl ⟨rfl, rfl, .inr (by decide)⟩

/-- A symbol of one character is no equals sign. -/
theorem compared_of_singleSymbol? (h : singleSymbol? c = some kind) : Compared kind c [] := by
  unfold singleSymbol? at h
  split at h <;> cases h <;> exact compared_of_forall rfl (ne_equal_of_all (by decide))

theorem ne_equal_of_continuesWord (h : continuesWord c = true) : c ≠ '=' := by
  rintro rfl
  exact absurd h (by decide)

theorem ne_equal_of_isNumerical (h : isNumerical c = true) : c ≠ '=' := by
  rintro rfl
  exact absurd h (by decide)

/-- No keyword ends with an equals sign. -/
theorem keyword?_endsEqual {word : String} (h : keyword? word = some kind) :
    kind.endsEqual = false := by
  unfold keyword? at h
  split at h <;> cases h <;> rfl

/-- Every token is such a comparison, or hides its equals signs. -/
theorem Formed.compared (h : Formed kind (c :: t)) : Compared kind c t := by
  generalize hs : c :: t = s at h
  cases h with
  | pair h =>
    cases hs
    exact compared_of_pairSymbol? h
  | single h =>
    cases hs
    exact compared_of_singleSymbol? h
  | string hq hbody =>
    cases hs
    refine .inr ⟨rfl, ?_, along_signless_quoted hq hbody⟩
    rintro rfl
    contradiction
  | template hc hq hbody =>
    cases hs
    have hne : c ≠ '=' ∧ isFlat c = true := by
      rcases hc with rfl | rfl <;> decide
    refine .inr ⟨rfl, hne.1, fun depth => ⟨fun heq => absurd heq hne.1, ?_⟩⟩
    rw [next_plain_of_isFlat hne.2]
    exact along_signless_quoted hq hbody depth
  | number hne ht =>
    subst hs
    exact compared_of_forall rfl fun d hd => ne_equal_of_isNumerical (ht d hd)
  | name hne ht =>
    subst hs
    exact compared_of_forall rfl fun d hd => ne_equal_of_continuesWord (ht d hd)
  | keyword hkind hne ht =>
    subst hs
    exact compared_of_forall (keyword?_endsEqual hkind) fun d hd =>
      ne_equal_of_continuesWord (ht d hd)

/-! ## Looking for the sign of an assignment -/

/-- A cut of the text behind `t`, as a cut of the whole. -/
def prepend (t : Text) (cut : Text × Text) : Text × Text :=
  (t ++ cut.1, cut.2)

/-- Passing over two texts one after the other is passing over them together. -/
theorem map_prepend (t u : Text) (cut : Option (Text × Text)) :
    (cut.map (prepend u)).map (prepend t) = cut.map (prepend (t ++ u)) := by
  rw [Option.map_map]
  refine congrArg (Option.map · cut) (funext fun cut => ?_)
  exact congrArg (·, cut.2) (List.append_assoc t u cut.1).symm

/-- In front of anything but an equals sign the search has no memory. -/
theorem cutAtAssignment?_of_head (h : u.head? ≠ some '=') :
    cutAtAssignment? s previous paired u = cutAtAssignment? s none false u := by
  cases u with
  | nil => rfl
  | cons c cs =>
    have hc : (c == '=') = false := beq_eq_false_iff_ne.mpr fun hc => h (by rw [hc]; rfl)
    simp only [cutAtAssignment?, hc, Bool.false_and, Bool.false_eq_true, if_false]

/-- The character is the first of two equals signs that belong together. -/
def isPair (s : Nesting) (paired : Bool) (c : Char) (cs : Text) : Bool :=
  c == '=' && s.level c == some 0 && !paired && cs.head? == some '='

/-- A character that is not the sign is passed over. -/
theorem cutAtAssignment?_cons (h : c = '=' → s.level c = some 0 → paired = false →
    cs.head? = some '=' ∨ endsComparison previous = true) :
    cutAtAssignment? s previous paired (c :: cs) =
      (cutAtAssignment? (s.next c) (some c) (isPair s paired c cs) cs).map (prepend [c]) := by
  rw [cutAtAssignment?]
  refine if_neg ?_
  simp only [Bool.and_eq_true, beq_iff_eq, Bool.not_eq_true', Bool.and_eq_false_iff,
    Bool.not_eq_false', beq_eq_false_iff_ne]
  grind

/-- A character that is no equals sign is passed over and remembered. -/
theorem cutAtAssignment?_cons_of_ne (hc : c ≠ '=') :
    cutAtAssignment? s previous paired (c :: cs) =
      (cutAtAssignment? (s.next c) (some c) false cs).map (prepend [c]) := by
  have hpair : isPair s paired c cs = false := by
    simp only [isPair, beq_eq_false_iff_ne.mpr hc, Bool.false_and]
  rw [cutAtAssignment?_cons fun heq => absurd heq hc, hpair]

/-- A text without the sign is passed over. -/
theorem cutAtAssignment?_append (h : Along Signless s t) (previous : Option Char) :
    ∃ last, ∀ u, cutAtAssignment? s previous false (t ++ u) =
      (cutAtAssignment? (s.read t) last false u).map (prepend t) := by
  induction t generalizing s previous with
  | nil => exact ⟨previous, fun u => Option.map_id'.symm⟩
  | cons c cs ih =>
    obtain ⟨last, hlast⟩ := ih h.2 (some c)
    refine ⟨last, fun u => ?_⟩
    have hpair : isPair s false c (cs ++ u) = false := by
      have hsign := h.1
      simp only [isPair, Signless] at hsign ⊢
      grind
    rw [List.cons_append, cutAtAssignment?_cons fun hc hlevel => absurd hlevel (h.1 hc), hpair,
      hlast u, map_prepend]
    rfl

/-- A comparison is passed over if no equals sign stands right behind it. -/
theorem cutAtAssignment?_comparison (depth : Nat) (previous : Option Char)
    (h : c = '=' ∨ c ≠ '=' ∧ endsComparison (some c) = true ∧ u.head? ≠ some '=') :
    cutAtAssignment? (plain depth) previous false (c :: '=' :: u) =
      (cutAtAssignment? (plain depth) (some '=') false u).map (prepend [c, '=']) := by
  have hnext : (plain depth).next c = plain depth := by
    rcases h with rfl | ⟨-, hc, -⟩
    · rfl
    · simp only [endsComparison, Bool.or_eq_true, beq_iff_eq, Option.some.injEq] at hc
      rcases hc with (rfl | rfl) | rfl <;> rfl
  have hlevel : (plain depth).level '=' = some depth := rfl
  have hpair : isPair (plain depth) (isPair (plain depth) false c ('=' :: u)) '=' u = false := by
    rcases h with rfl | ⟨hc, -, hhead⟩
    · by_cases hdepth : depth = 0 <;> simp [isPair, hlevel, hdepth]
    · simp [isPair, hc, hhead]
  rw [cutAtAssignment?_cons fun _ _ _ => .inl rfl, hnext, cutAtAssignment?_cons, hpair,
    map_prepend]
  · rfl
  · rcases h with rfl | ⟨-, hc, -⟩
    · -- the first of the two is known to be one, so they are a pair
      intro _ hzero hfirst
      rw [isPair, hzero] at hfirst
      contradiction
    · exact fun _ _ _ => .inr hc

/-- Behind a comparison no scanned text starts with an equals sign. -/
theorem Scans.head?_ne (h : Scans column t ts) (hapart : Apart true ts) :
    t.head? ≠ some '=' := by
  intro hhead
  cases h with
  | done => contradiction
  | space hc h =>
    cases hhead
    contradiction
  | token hc h =>
    cases hhead
    rcases (formed_of_lexeme hc).compared with ⟨-, -, ⟨-, hkind⟩ | ⟨hne, -⟩⟩ | ⟨-, hne, -⟩
    · exact hapart.1 rfl hkind
    · exact hne rfl
    · exact hne rfl

/-- **An expression has no sign of an assignment.** The search passes over scanned text
whose comparisons are apart, and goes on behind it at the depth of the tokens. -/
theorem Scans.cutAtAssignment? (h : Scans column t ts) (hapart : Apart false ts)
    (hclimb : climb? comma closer depth ts = some depth') (htail : tail.head? ≠ some '=')
    (previous : Option Char) :
    cutAtAssignment? (plain depth) previous false (t ++ tail) =
      (cutAtAssignment? (plain depth') none false tail).map (prepend t) := by
  induction h generalizing depth previous with
  | done =>
    cases hclimb
    rw [List.nil_append, cutAtAssignment?_of_head htail]
    exact Option.map_id'.symm
  | @space column c cs ts hc h ih =>
    have hne : c ≠ '=' := by
      rintro rfl
      contradiction
    rw [List.cons_append, cutAtAssignment?_cons_of_ne hne,
      (next_of_isBlank (isBlank_of_isSpace hc) depth).1, ih hapart hclimb (some c), map_prepend]
    rfl
  | @token column c cs rest kind literal ts hc h ih =>
    obtain ⟨between, hkind, hts⟩ := Option.bind_eq_some_iff.mp hclimb
    have hrest := ih hapart.2.anywhere hts
    have hbehind : kind.endsEqual = true → (rest ++ tail).head? ≠ some '=' := by
      intro hends
      have happend := hapart.2
      rw [hends] at happend
      have hhead := h.head?_ne happend
      cases rest with
      | nil => exact htail
      | cons d ds => exact hhead
    rw [← List.cons_append, List.append_assoc]
    rcases (formed_of_lexeme hc).compared with ⟨hends, rfl, hfirst⟩ | ⟨-, -, hsignless⟩
    · have hdepth : between = depth := by
        rw [climb?_of_mark? (by cases kind <;> first | rfl | contradiction)] at hkind
        exact (Option.some.inj hkind).symm
      subst hdepth
      show Text.cutAtAssignment? _ _ _ (c :: '=' :: (rest ++ tail)) = _
      rw [cutAtAssignment?_comparison between previous
        (hfirst.imp And.left fun hfirst => ⟨hfirst.1, hfirst.2, hbehind hends⟩), hrest,
        map_prepend]
    · obtain ⟨last, hlast⟩ := cutAtAssignment?_append (hsignless depth) previous
      rw [hlast, ((spells_of_lexeme hc).reads hkind).1, hrest, map_prepend]

end Offside
