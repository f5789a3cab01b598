import Offside.Program.Classifier
import Offside.Proofs.Access.Offsets
import Offside.Proofs.Text.Pieces

/-!
# Cutting text by byte offsets

The functions that cut a text into parts again, with every part a slice between two byte
offsets: what stands between brackets or before a comment, the parts of a call and of a
target, and the pieces of an argument list. An offset that is found in a text is the
length of the part in front of it, so a slice from it or up to it is one of the parts that the
text falls into there. One fact more is needed where a character at either end is cut off: a
text in brackets has two characters at least.
-/

namespace Offside.Access

open Text

variable {t : Text} {opening closing : Char}

/-! ## Text in brackets -/

/-- A closing bracket at depth zero. -/
def closes : Nat × Char × Nat → Bool
  | (_, c, depth) => depth == 0 && isCloser c

/-- Whether a text opens with a bracket that its last character closes. -/
def isEnclosed (opening closing : Char) (t : Text) : Bool :=
  t.head? == some opening && t.getLast? == some closing &&
    match (outside Nesting.start 0 t).find? closes with
    | some (offset, c, _) => offset + c.utf8Size == byteLength t && c == closing
    | none => false

/-- The text between brackets, if it is in brackets. -/
def bracketed? (opening closing : Char) (t : Text) : Option (Option Text) :=
  if isEnclosed opening closing t then (byteSlice? t 1 (byteLength t - 1)).map some
  else some none

theorem byteLength_eq_zero_iff : byteLength t = 0 ↔ t = [] := by
  cases t with
  | nil => exact ⟨fun _ => rfl, fun _ => rfl⟩
  | cons c cs =>
    have hpos := c.utf8Size_pos
    rw [byteLength_cons]
    exact ⟨fun h => absurd h (by omega), nofun⟩

/-- The first closing bracket at depth zero is found where the text falls apart at it. -/
theorem find?_closes (s : Nesting) (offset : Nat) (t : Text) :
    (outerCloser s t = none ∧ (outside s offset t).find? closes = none) ∨
      ∃ before c after, t = before ++ c :: after ∧ outerCloser s t = some (c, after) ∧
        (outside s offset t).find? closes = some (offset + byteLength before, c, 0) := by
  induction t generalizing s offset with
  | nil => exact .inl ⟨rfl, rfl⟩
  | cons c cs ih =>
    rw [outerCloser, outside]
    by_cases hc : (isCloser c && s.level c == some 0) = true
    · obtain ⟨hcloser, hlevel⟩ := Bool.and_eq_true_iff.mp hc
      rw [if_pos hc, beq_iff_eq.mp hlevel]
      exact .inr ⟨[], c, cs, rfl, rfl, List.find?_cons_of_pos hcloser⟩
    · have hskip : (outside s offset (c :: cs)).find? closes =
          (outside (s.next c) (offset + c.utf8Size) cs).find? closes := by
        rw [outside]
        cases hlevel : s.level c with
        | none => rfl
        | some depth =>
          refine List.find?_cons_of_neg ?_
          intro hcloses
          obtain ⟨hdepth, hcloser⟩ := Bool.and_eq_true_iff.mp hcloses
          rw [hcloser, hlevel, beq_iff_eq.mp hdepth] at hc
          exact hc rfl
      rw [outside] at hskip
      rw [if_neg hc, hskip]
      obtain h | ⟨before, d, after, rfl, houter, hfind⟩ := ih (s.next c) (offset + c.utf8Size)
      · exact .inl h
      · refine .inr ⟨c :: before, d, after, rfl, houter, ?_⟩
        rw [hfind, byteLength_cons, Nat.add_assoc]

/-- A text is enclosed by brackets exactly if the first closes at the end. -/
theorem isEnclosed_eq (opening closing c : Char) (cs : Text) :
    isEnclosed opening closing (c :: cs) =
      (c == opening && outerCloser Nesting.start (c :: cs) == some (closing, [])) := by
  rw [isEnclosed, List.head?_cons, Option.some_beq_some]
  obtain ⟨houter, hfind⟩ | ⟨before, d, after, ht, houter, hfind⟩ :=
    find?_closes Nesting.start 0 (c :: cs)
  · rw [houter, hfind, Bool.and_false]
    exact (Bool.and_false _).symm
  · have hlength : byteLength (c :: cs) = byteLength before + (d.utf8Size + byteLength after) := by
      rw [ht, byteLength_append, byteLength_cons]
    have hlast : after = [] → (c :: cs).getLast? = some d := by
      rintro rfl
      rw [ht, List.getLast?_concat]
    have hend : (0 + byteLength before + d.utf8Size == byteLength (c :: cs)) = (after == []) := by
      rw [Bool.eq_iff_iff, beq_iff_eq, beq_iff_eq, ← byteLength_eq_zero_iff, hlength]
      omega
    rw [houter, hfind]
    dsimp only
    rw [hend]
    cases after with
    | nil =>
      rw [hlast rfl]
      cases c == opening <;> cases hd : d == closing <;> simp_all
    | cons e es => simp

/-- **A text in brackets has two characters at least**, and what is between them is cut out. -/
theorem bracketed?_eq (hopening : opening.utf8Size = 1) (hclosing : closing.utf8Size = 1)
    (hne : opening ≠ closing) (t : Text) :
    bracketed? opening closing t = some (t.inside? opening closing) := by
  cases t with
  | nil => rfl
  | cons c cs =>
    rw [bracketed?, isEnclosed_eq, inside?]
    split
    next h =>
      obtain ⟨hc, houter⟩ := Bool.and_eq_true_iff.mp h
      obtain rfl := beq_iff_eq.mp hc
      obtain ⟨hnone, -⟩ | ⟨before, d, after, ht, hsome, -⟩ := find?_closes Nesting.start 0 (c :: cs)
      · rw [hnone] at houter
        cases houter
      · rw [hsome, beq_iff_eq, Option.some.injEq, Prod.mk.injEq] at houter
        obtain ⟨rfl, rfl⟩ := houter
        cases before with
        | nil =>
          cases ht
          exact absurd rfl hne
        | cons e middle =>
          rw [List.cons_append] at ht
          obtain ⟨rfl, rfl⟩ := List.cons.inj ht
          have hend : byteLength (c :: (middle ++ [d])) - 1 = byteLength ([c] ++ middle) := by
            rw [byteLength_cons, byteLength_append, byteLength_append, byteLength_singleton,
              byteLength_singleton, hclosing]
            omega
          have hmiddle : byteSlice? (c :: (middle ++ [d])) 1 (byteLength ([c] ++ middle)) =
              some middle := by
            rw [← hopening, ← byteLength_singleton]
            exact byteSlice?_append [c] middle [d]
          rw [hend, hmiddle, List.dropLast_concat]
          rfl
    next => rfl

/-! ## Comments -/

/-- The text before its comment. -/
def uncommented? (t : Text) : Option Text :=
  match (outside Nesting.start 0 t).find? fun (_, c, _) => c == '#' with
  | some (offset, _, _) => byteSlice? t 0 offset
  | none => some t

/-- A comment is found where the text falls apart at its number sign. -/
theorem find?_comment (s : Nesting) (offset : Nat) (t : Text) :
    (beforeComment s t = t ∧
        ((outside s offset t).find? fun (_, c, _) => c == '#') = none) ∨
      ∃ before after depth, t = before ++ '#' :: after ∧ beforeComment s t = before ∧
        ((outside s offset t).find? fun (_, c, _) => c == '#') =
          some (offset + byteLength before, '#', depth) := by
  induction t generalizing s offset with
  | nil => exact .inl ⟨rfl, rfl⟩
  | cons c cs ih =>
    rw [beforeComment]
    by_cases hc : (c == '#' && (s.level c).isSome) = true
    · obtain ⟨hsign, hlevel⟩ := Bool.and_eq_true_iff.mp hc
      obtain rfl := beq_iff_eq.mp hsign
      obtain ⟨depth, hdepth⟩ := Option.isSome_iff_exists.mp hlevel
      rw [if_pos hc]
      refine .inr ⟨[], cs, depth, rfl, rfl, ?_⟩
      rw [outside, hdepth]
      rfl
    · have hskip : ((outside s offset (c :: cs)).find? fun (_, c, _) => c == '#') =
          (outside (s.next c) (offset + c.utf8Size) cs).find? fun (_, c, _) => c == '#' := by
        rw [outside]
        cases hlevel : s.level c with
        | none => rfl
        | some depth =>
          rw [hlevel, Option.isSome_some, Bool.and_true] at hc
          exact List.find?_cons_of_neg hc
      rw [if_neg hc, hskip]
      obtain ⟨hkept, hfind⟩ | ⟨before, after, depth, rfl, hbefore, hfind⟩ :=
        ih (s.next c) (offset + c.utf8Size)
      · exact .inl ⟨congrArg (c :: ·) hkept, hfind⟩
      · refine .inr ⟨c :: before, after, depth, rfl, congrArg (c :: ·) hbefore, ?_⟩
        rw [hfind, byteLength_cons, Nat.add_assoc]

/-- The comment is cut off at the offset where it starts. -/
theorem uncommented?_eq (t : Text) : uncommented? t = some t.stripComment := by
  rw [uncommented?, stripComment]
  obtain ⟨hkept, hfind⟩ | ⟨before, after, depth, rfl, hbefore, hfind⟩ :=
    find?_comment Nesting.start 0 t
  · rw [hfind, hkept]
  · rw [hfind, hbefore, Nat.zero_add]
    exact byteSlice?_front before ('#' :: after)

/-! ## Calls and targets -/

/-- The name of a call and what stands between its brackets. -/
def callParts? (t : Text) : Option (Option (Text × Text)) := do
  let nameEnd := (findOffset? (!continuesWord ·) t).getD (byteLength t)
  let name ← byteSlice? t 0 nameEnd
  if name.isIdentifier then
    let rest ← byteSlice? t nameEnd (byteLength t)
    let inner ← bracketed? '(' ')' rest.trimStart
    return inner.map (name, ·)
  else return none

/-- What a text before an assignment sign names. -/
def targetParts? (t : Text) : Option (Option Target) :=
  if t.isIdentifier then some (some (.name (String.ofList t)))
  else
    match findOffset? (· == '[') t with
    | none => some none
    | some bracket => do
      let name ← byteSlice? t 0 bracket
      let subscript ← byteSlice? t bracket (byteLength t)
      if name.trim.isIdentifier then
        let index ← bracketed? '[' ']' subscript
        return index.map fun index => .element (String.ofList name.trim) index.trim
      else return none

/-- A call is cut at the offsets of its parentheses. -/
theorem callParts?_eq (t : Text) : callParts? t = some t.callForm? := by
  have hname := byteSlice?_front (t.takeWhile continuesWord) (t.dropWhile continuesWord)
  have hrest := byteSlice?_back (t.takeWhile continuesWord) (t.dropWhile continuesWord)
  rw [List.takeWhile_append_dropWhile] at hname hrest
  rw [callParts?, callForm?, findOffset?_getD, hname]
  dsimp only [Option.bind_eq_bind, Option.bind_some]
  split
  next =>
    rw [hrest, Option.bind_some, bracketed?_eq rfl rfl (by decide)]
    rfl
  next => rfl

/-- A target is cut at the offsets of its brackets. -/
theorem targetParts?_eq (t : Text) : targetParts? t = some (target? t) := by
  rw [targetParts?, target?]
  split
  next => rfl
  next =>
    obtain ⟨hfind, hnone⟩ | ⟨name, c, rest, rfl, hc, hname, hfind⟩ :=
      findOffset?_cases (· == '[') t
    · have hrest : t.dropWhile (· != '[') = [] := by
        rw [← List.append_nil t, List.dropWhile_append_of_pos (by simpa using hnone)]
        rfl
      rw [hfind, hrest]
      dsimp only
      split <;> rfl
    · obtain rfl := beq_iff_eq.mp hc
      have hfront : ∀ d ∈ name, (d != '[') = true := by
        intro d hd
        simpa using hname d hd
      have htake : (name ++ '[' :: rest).takeWhile (· != '[') = name := by
        rw [List.takeWhile_append_of_pos hfront, List.takeWhile_cons_of_neg (by decide),
          List.append_nil]
      have hdrop : (name ++ '[' :: rest).dropWhile (· != '[') = '[' :: rest := by
        rw [List.dropWhile_append_of_pos hfront, List.dropWhile_cons_of_neg (by decide)]
      rw [hfind, htake, hdrop]
      dsimp only
      rw [byteSlice?_front, byteSlice?_back]
      dsimp only [Option.bind_eq_bind, Option.bind_some]
      split
      next =>
        rw [bracketed?_eq rfl rfl (by decide)]
        rfl
      next => rfl

/-! ## Arguments -/

/-- The trimmed pieces from an offset on, cut at the commas among some characters. -/
def piecesFrom? (t : Text) (start : Nat) : List (Nat × Char × Nat) → Option (List Text)
  | [] => do
    let last ← byteSlice? t start (byteLength t)
    return if last.trim.isEmpty then [] else [last.trim]
  | (offset, c, depth) :: more =>
    if c == ',' && depth == 0 then do
      let piece ← byteSlice? t start offset
      let pieces ← piecesFrom? t (offset + 1) more
      return piece.trim :: pieces
    else piecesFrom? t start more

/-- The trimmed pieces of an argument list. -/
def piecesByOffset? (t : Text) : Option (List Text) :=
  if t.trim.isEmpty then some [] else piecesFrom? t 0 (outside Nesting.start 0 t)

theorem dropEmptyLast_cons (part : Text) {parts : List Text} (h : parts ≠ []) :
    dropEmptyLast (part :: parts) = part :: dropEmptyLast parts := by
  cases parts with
  | nil => exact absurd rfl h
  | cons p ps => rfl

theorem extendFirst_consFirst (front : Text) (c : Char) (parts : List Text) :
    extendFirst front (consFirst c parts) = extendFirst (front ++ [c]) parts := by
  cases parts with
  | nil => rfl
  | cons p ps =>
    show (front ++ c :: p) :: ps = (front ++ [c] ++ p) :: ps
    rw [List.append_assoc, List.singleton_append]

/-- Behind the cuts so far stands a part that goes on with what is still to be read. -/
theorem piecesFrom?_eq (s : Nesting) (front part cs : Text) :
    piecesFrom? (front ++ (part ++ cs)) (byteLength front)
        (outside s (byteLength (front ++ part)) cs) =
      some (dropEmptyLast ((extendFirst part (cutAtCommas s cs)).map trim)) := by
  induction cs generalizing s front part with
  | nil =>
    rw [List.append_nil, outside, piecesFrom?, byteSlice?_back]
    show some _ = some (dropEmptyLast [trim (part ++ [])])
    rw [List.append_nil]
    rfl
  | cons c cs ih =>
    have hbehind : byteLength (front ++ part) + c.utf8Size =
        byteLength (front ++ (part ++ [c])) := by
      rw [← List.append_assoc, byteLength_append (front ++ part), byteLength_singleton]
    rw [outside, cutAtCommas, hbehind]
    by_cases hc : (c == ',' && s.level c == some 0) = true
    · obtain ⟨hcomma, hlevel⟩ := Bool.and_eq_true_iff.mp hc
      obtain rfl := beq_iff_eq.mp hcomma
      have hmore := ih (s.next ',') (front ++ (part ++ [','])) []
      rw [List.append_nil, List.nil_append, extendFirst_nil cutAtCommas_ne_nil, List.append_assoc,
        List.append_assoc, List.singleton_append, ← hbehind] at hmore
      rw [if_pos hc, beq_iff_eq.mp hlevel, ← hbehind]
      dsimp only
      rw [piecesFrom?, if_pos (show (',' == ',' && (0 : Nat) == 0) = true from rfl),
        byteSlice?_append]
      show (piecesFrom? _ (_ + ','.utf8Size) _).bind (fun pieces => some (trim part :: pieces)) = _
      rw [hmore, extendFirst, List.append_nil, List.map_cons,
        dropEmptyLast_cons _ (by simpa using cutAtCommas_ne_nil)]
      rfl
    · have hmore := ih (s.next c) front (part ++ [c])
      rw [List.append_assoc part, List.singleton_append] at hmore
      rw [if_neg hc, extendFirst_consFirst, ← hmore]
      cases hlevel : s.level c with
      | none => rfl
      | some depth =>
        dsimp only
        rw [piecesFrom?, if_neg]
        rw [hlevel] at hc
        simpa using hc

/-- A text that is blank has no pieces. -/
theorem pieces_of_trim (h : t.trim = []) : t.pieces = [] := by
  obtain ⟨front, back, ht, hfront, hback, -⟩ := exists_trim t
  rw [h] at ht
  obtain huncut | ⟨part, rest, hcut, -, -⟩ := cutAtCommas_cases Nesting.start t
  · rw [pieces_of_clear (clear_of_cutAtCommas huncut), wholePiece, h]
    rfl
  · have hcomma : ',' ∈ front ++ back := by
      rw [List.nil_append] at ht
      rw [← ht, hcut]
      exact List.mem_append_right _ List.mem_cons_self
    exact absurd (hfront.append hback ',' hcomma) (by decide)

/-- **Pieces are cut at the offsets of their commas,** and no cut leaves the text. -/
theorem piecesByOffset?_eq (t : Text) : piecesByOffset? t = some t.pieces := by
  rw [piecesByOffset?]
  split
  next h => rw [pieces_of_trim (List.isEmpty_iff.mp h)]
  next =>
    have hpieces := piecesFrom?_eq Nesting.start [] [] t
    rw [extendFirst_nil cutAtCommas_ne_nil] at hpieces
    exact hpieces

end Offside.Access
