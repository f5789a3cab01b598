import Offside.Machine.Assignment
import Offside.Proofs.Expr.Failing
import Offside.Proofs.Program.Parts
import Offside.Proofs.Token.Stopping

/-!
# Reading what an assignment changes

A target is a name, or a name with an index in brackets that are closed at the end of the
text; the index itself may be anything. So the text of a target can be an expression or
not, and if it is not, its fault is inside the brackets: whatever operator and operand stand
behind the text, they do not change it. Main result:

> `reads_or_stuck`: the text of a target is read as the name or as the element that it
> names, or it fails in the same way in front of an operator.
-/

namespace Offside

open Text Nesting

variable {column : Nat} {c : Char} {s : Nesting} {t u inner front back : Text}
  {ts us : List Token} {stop x b : Token} {e i : Expr} {target : Target} {name : String}
  {fault : Fault}

/-! ## The brackets of an index -/

theorem outerCloser_blank_cons (hc : isBlank c = true) :
    outerCloser s (c :: t) = outerCloser (s.next c) t := by
  rw [outerCloser, isCloser_of_isBlank hc, Bool.false_and, if_neg Bool.false_ne_true]

/-- Blanks in front do not change what closes the outer bracket. -/
theorem outerCloser_drop_front (hfront : Blank front) (depth : Nat) :
    outerCloser (plain depth) (front ++ t) = outerCloser (plain depth) t := by
  induction front with
  | nil => rfl
  | cons d ds ih =>
    have hd := hfront d List.mem_cons_self
    rw [List.cons_append, outerCloser_blank_cons hd, (next_of_isBlank hd depth).1]
    exact ih fun e he => hfront e (List.mem_cons_of_mem d he)

/-- A hidden character closes nothing. -/
theorem outerCloser_of_hidden (h : s.Hidden c) : outerCloser s [c] = none := by
  unfold Hidden at h
  rw [outerCloser, h]
  exact if_neg (by simp)

/-- Blanks inside a bracket may be left out behind its content. -/
theorem outerCloser_drop_back (hs : s.Quoting) (hback : Blank back) {found : Char × Text}
    (h : outerCloser s (back ++ [c]) = some found) : outerCloser s [c] = some found := by
  induction back generalizing s with
  | nil => exact h
  | cons d ds ih =>
    have hd := hback d List.mem_cons_self
    rw [List.cons_append, outerCloser_blank_cons hd] at h
    have hds := ih (hs.next d) (fun e he => hback e (List.mem_cons_of_mem d he)) h
    cases s with
    | plain depth => rwa [(next_of_isBlank hd depth).1] at hds
    | quoted q depth => rwa [next_quoted_of_isBlank hs hd] at hds
    | escaped q depth =>
      have hhidden : (quoted q depth).Hidden c := rfl
      rw [Nesting.next, outerCloser_of_hidden hhidden] at hds
      contradiction

/-- The closing bracket of two texts is in the first one, or in the second one for a reading
that goes on there. -/
theorem outerCloser_append_eq (s : Nesting) (t u : Text) :
    outerCloser s (t ++ u) =
      match outerCloser s t with
      | some (c, rest) => some (c, rest ++ u)
      | none => outerCloser (s.read t) u := by
  induction t generalizing s with
  | nil => rfl
  | cons d ds ih =>
    rw [List.cons_append, outerCloser, outerCloser]
    split
    next => rfl
    next => exact ih (s.next d)

/-- The bracket around a text is closed behind the trimmed text, too. -/
theorem outerCloser_trim (h : outerCloser (plain 1) (inner ++ [c]) = some (c, [])) :
    outerCloser (plain 1) (inner.trim ++ [c]) = some (c, []) := by
  obtain ⟨front, back, hinner, hfront, hback, -⟩ := exists_trim inner
  rw [hinner, List.append_assoc, outerCloser_drop_front hfront, List.append_assoc,
    outerCloser_append_eq] at h
  rw [outerCloser_append_eq]
  cases hinside : outerCloser (plain 1) inner.trim with
  | some found =>
    -- closed earlier, the bracket would not be the last character
    rw [hinside] at h
    simp at h
  | none =>
    rw [hinside] at h
    exact outerCloser_drop_back ((quoting_plain 1).read inner.trim) hback h

/-- Behind the closing bracket a reading is outside quotes. -/
theorem read_of_outerCloser (h : outerCloser s t = some (c, [])) :
    ∃ depth, s.read t = plain depth := by
  induction t generalizing s with
  | nil => contradiction
  | cons d ds ih =>
    rw [outerCloser] at h
    split at h
    next hclose =>
      cases h
      rw [Bool.and_eq_true, beq_iff_eq] at hclose
      cases s with
      | plain depth =>
        have hnext : (plain depth).next c = plain (depth - 1) := by
          have hcloser := hclose.1
          simp only [isCloser, Bool.or_eq_true, beq_iff_eq] at hcloser
          rcases hcloser with (rfl | rfl) | rfl <;> rfl
        exact ⟨depth - 1, hnext⟩
      | quoted q depth => cases hclose.2
      | escaped q depth => cases hclose.2
    next => exact ih h

/-! ## Tokens of an element -/

/-- What stands behind does not matter to a token unless it starts with `in`. -/
theorem alike_append {tail : List Token} (htail : tail.head?.map Token.kind ≠ some .inWord) :
    Alike x us (us ++ tail) := by
  intro _
  cases us with
  | nil => exact iff_of_false htail (by decide)
  | cons u us => exact Iff.rfl

/-- What the brackets behind a name fail for. -/
theorem parseBefore_of_index {fault : ParseFault} (hx : Stands x (.var name x.column))
    (hb : b.kind = .leftBracket)
    (h : Misses stop .index [.rightBracket] us fault) :
    parseBefore stop (x :: b :: us) = .error fault := by
  have hname : Derives .primary [x] (.var name x.column) := .stands hx
  have htrailers : trailers stop (.var name x.column) (b :: us) = .error fault :=
    fails_trailers_cons.mpr (.inr (.inr ⟨hb, .inl h⟩))
  have htrailed : parseAt stop .trailed ([x] ++ b :: us) = .error fault :=
    fails_trailed.mpr (.inr ⟨_, _, hname.reads follows_primary.goesOn, htrailers⟩)
  exact (hname.begins.append (b :: us)).fails_of_trailed htrailed

/-- An index fails, is not closed, or has a closing bracket behind it. -/
theorem index_cases (stop : Token) (us : List Token) :
    (∃ i u vs, Reads (parseAt stop (.joined .or) us) i (u :: vs) ∧ u.kind = .rightBracket) ∨
      ∃ fault, Misses stop .index [.rightBracket] us fault := by
  cases hparse : parseAt stop (.joined .or) us with
  | error fault => exact .inr ⟨fault, .inl hparse⟩
  | ok read =>
    obtain ⟨i, rest, hshort⟩ := read
    have hreads : Reads (parseAt stop (.joined .or) us) i rest := ⟨hshort, hparse⟩
    rw [← hparse]
    by_cases hkind : ∃ u vs, rest = u :: vs ∧ u.kind = .rightBracket
    · obtain ⟨u, vs, rfl, hu⟩ := hkind
      exact .inl ⟨i, u, vs, hreads, hu⟩
    · refine .inr ⟨_, .inr ⟨i, rest, hreads, fun u hu hmem => hkind ?_, rfl⟩⟩
      obtain ⟨vs, rfl⟩ := List.head?_eq_some_iff.mp hu
      exact ⟨u, vs, rfl, List.mem_singleton.mp hmem⟩

/-- What stands in brackets behind a name is an index, or there is a fault in it that no
operator behind the brackets changes. -/
theorem index_or_fault (h : Scans column t us)
    (houter : outerCloser (plain 1) t = some (']', [])) (hx : Stands x (.var name x.column))
    (hb : b.kind = .leftBracket) :
    (∃ vs u i, us = vs ++ [u] ∧ u.kind = .rightBracket ∧ Derives (.joined .or) vs i) ∨
      ∃ fault, ∀ stop tail, tail.head?.map Token.kind ≠ some .inWord →
        parseBefore stop (x :: b :: (us ++ tail)) = .error fault := by
  rcases index_cases default us with ⟨i, u, rest, hi, hu⟩ | ⟨fault, hfault⟩
  -- the bracket behind the index closes the one in front of it, so it is the last token
  · obtain ⟨vs, rfl, hvs⟩ := derives_of_reads (.joined .or) us hi
    have hmark : u.kind.mark? = some ']' := by rw [hu]; rfl
    obtain ⟨front, back, rfl, hfront, hback⟩ := h.cut hmark rfl
    obtain ⟨hread, hclear⟩ := hfront.reads (hvs.climb? 0 1 1 (Nat.zero_le 1) (Nat.le_refl 1))
    rw [outerCloser_append hclear, hread] at houter
    obtain rfl : back = [] := by
      cases houter
      rfl
    cases hback
    exact .inl ⟨vs, u, i, rfl, hu, hvs⟩
  · have hlocated := located_misses (located_parseAt (.joined .or) us) hfault
    cases hlocated with
    | token hus hat hfront hfails =>
      refine .inr ⟨fault, fun stop tail htail => parseBefore_of_index hx hb ?_⟩
      rw [hus, List.append_assoc]
      exact hfails stop _ (alike_append htail)
    | stop hat hall =>
      -- tokens that an expression begins with do not close the bracket
      obtain ⟨vs, e, he⟩ := hall
      have hclimb := he.climb? 0 1 1 (Nat.zero_le 1) (Nat.le_refl 1)
      rw [climb?_append] at hclimb
      obtain ⟨depth, hdepth, -⟩ := Option.bind_eq_some_iff.mp hclimb
      rw [h.outerCloser hdepth] at houter
      contradiction

/-! ## The text of a target -/

/-- The target is one that the text in front of an assignment sign can name: the bracket
around its index is closed at the end. -/
def Target.Named : Target → Prop
  | .name n => IsName n
  | .element n index => IsName n ∧ index.trim = index ∧
    outerCloser (plain 1) (index ++ [']']) = some (']', [])

/-- What is read in front of an assignment sign is a target that can be named. -/
theorem named_of_target? (h : target? t = some target) : target.Named := by
  have hname {t : Text} (ht : t.isIdentifier = true) : IsName (String.ofList t) := by
    rwa [IsName, String.toList_ofList]
  unfold target? at h
  split at h
  next ht =>
    cases h
    exact hname ht
  next =>
    dsimp only at h
    split at h
    next ht =>
      obtain ⟨inner, hinner, rfl⟩ := Option.map_eq_some_iff.mp h
      have houter := (eq_of_inside? rfl rfl rfl hinner).2
      obtain ⟨_, _, -, -, -, htrimmed⟩ := exists_trim inner
      exact ⟨hname ht, htrimmed.trim_eq_self, outerCloser_trim houter⟩
    next => contradiction

/-- Only an assignment gives a target, and it reads it from the text in front of its sign. -/
theorem named_of_classify {op : Option ArithOp} {value : Text}
    (h : classify t = .ok (.assign target op value)) : target.Named := by
  have hfind :
      (LineForm.all.findSome? fun form => form t) = some (.ok (.assign target op value)) := by
    unfold classify at h
    cases hsome : LineForm.all.findSome? fun form => form t with
    | none =>
      rw [hsome] at h
      cases h
    | some result =>
      rw [hsome] at h
      exact congrArg some h
  obtain ⟨form, hmem, hform⟩ := List.exists_of_findSome?_eq_some hfind
  simp only [LineForm.all, List.mem_cons, List.not_mem_nil, or_false] at hmem
  rcases hmem with rfl | rfl | rfl | rfl | rfl | rfl | rfl | rfl | rfl | rfl | rfl | rfl
  case inr.inr.inl =>
    unfold LineForm.assign at hform
    split at hform
    next => contradiction
    next before after hcut =>
      dsimp only at hform
      split at hform
      next => contradiction
      next target' htarget =>
        split at hform
        next => cases hform
        next =>
          cases hform
          exact named_of_target? htarget
  all_goals
    simp only [LineForm.print, LineForm.define, LineForm.conditional, LineForm.otherwise,
      LineForm.forEach, LineForm.call, LineForm.leave, LineForm.word, LineForm.append,
      Option.map_eq_some_iff] at hform
    grind

/-- The expression reads what the target names. -/
inductive Target.ReadBy : Target → Expr → Prop
  | name {x : String} {column : Nat} : ReadBy (.name x) (.var x column)
  | element {x : String} {index : Text} {column column' : Nat} {i : Expr}
    (hindex : ParsesAs index i) :
    ReadBy (.element x index) (.subscript column' (.var x column) i)

/-- The text fails in the same way with any other text behind it, if what stands there is
scanned and does not begin with `in`. -/
def Stuck (t : Text) (fault : Fault) : Prop :=
  ∀ tail us, Delimited tail → Scans t.length tail us → us.head?.map Token.kind ≠ some .inWord →
    parseText (t ++ tail) = .error fault

/-- A text that is stuck does not parse. -/
theorem Stuck.parseText_eq (h : Stuck t fault) : parseText t = .error fault := by
  have hself := h [] [] delimited_nil .done (by decide)
  rwa [List.append_nil] at hself

/-- A text whose tokens are wrong at any end does not parse. -/
theorem Scans.parseText_eq_error {fault : ParseFault} (h : Scans 0 t ts)
    (hfault : ∀ stop, parseBefore stop ts = .error fault) :
    parseText t = .error (.parse fault) := by
  unfold parseText scan
  rw [scanFrom_eq_ok_iff.mpr ⟨ts, rfl, h⟩]
  dsimp only
  rw [parse_of_end h.ne_eof rfl, hfault]

/-- A text that does not scan is stuck. -/
theorem stuck_of_scanFrom {fault : LexicalFault} {depth : Nat}
    (h : scanFrom 0 t = .error fault) (hread : start.read t = plain depth) :
    Stuck t (.lexical fault) := by
  intro tail us htail _ _
  obtain ⟨cause, offset⟩ := fault
  have hcause : cause ≠ .unterminated := by
    rintro rfl
    exact read_ne_plain_of_scanFrom h 0 depth hread
  unfold parseText scan
  rw [scanFrom_error_append h hcause htail]

/-- **Reading a target.** The text of a target is read as the name or as the element that it
names, or it fails in the same way in front of an operator. -/
theorem reads_or_stuck (h : target.Named) :
    (∃ ts e, Scans 0 target.text ts ∧ Derives .trailed ts e ∧ target.ReadBy e) ∨
      ∃ fault, Stuck target.text fault := by
  cases target with
  | name n =>
    have hname := scans_identifier h 0
    rw [String.ofList_toList] at hname
    exact .inl ⟨_, _, hname, .bare (.stands (.var rfl rfl)), .name⟩
  | element n index =>
    obtain ⟨hname, htrim, houter⟩ := h
    have htext : (Target.element n index).text = n.toList ++ '[' :: (index ++ [']']) := by
      simp [Target.text]
    rw [htext]
    have hends : EndsWord ('[' :: (index ++ [']'])) := endsWord_cons (by decide) rfl
    cases hscan : scanFrom 0 (n.toList ++ '[' :: (index ++ [']'])) with
    | error fault =>
      obtain ⟨depth, hdepth⟩ := read_of_outerCloser houter
      have hflat : ∀ c ∈ n.toList, isFlat c = true := fun c hc =>
        isFlat_of_continuesWord (continuesWord_of_isIdentifier hname c hc)
      have hread : start.read (n.toList ++ '[' :: (index ++ [']'])) = plain depth := by
        have hname : (plain 0).read n.toList = plain 0 ∧ Along (Clear 0 0) (plain 0) n.toList :=
          reads_flat hflat 0
        rw [read_append, start, hname.1]
        exact hdepth
      exact .inr ⟨_, stuck_of_scanFrom hscan hread⟩
    | ok tokens =>
      obtain ⟨ts, -, hts⟩ := scanFrom_eq_ok_iff.mp hscan
      obtain ⟨us, rfl, hus⟩ := hts.name_append hname hends
      have hopening : TokenKind.leftBracket.mark? = some '[' := rfl
      obtain ⟨vs, rfl, hvs⟩ := hus.mark_cons hopening
      rw [String.ofList_toList] at hts
      let x : Token := ⟨.identifier, n, some (.name n), 0⟩
      let b : Token := ⟨.leftBracket, String.ofList ['['], none, 0 + n.toList.length⟩
      have hx : Stands x (.var n x.column) := .var rfl rfl
      have hb : b.kind = .leftBracket := rfl
      rcases index_or_fault hvs houter hx hb with ⟨ws, u, i, rfl, hu, hi⟩ | ⟨fault, hfault⟩
      · have hws := hvs.cut_last (by rw [hu]; rfl) rfl
        have hparses := hws.parsesAs_trim hi
        rw [htrim] at hparses
        exact .inl ⟨_, _, hts, .subscript (.bare (.stands hx)) hb hi hu, .element hparses⟩
      · refine .inr ⟨.parse fault, fun tail xs htail hxs hhead => ?_⟩
        rw [← Nat.zero_add (List.length _)] at hxs
        exact (hts.append htail hxs).parseText_eq_error fun stop => hfault stop xs hhead

end Offside
