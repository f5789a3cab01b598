import Offside.Proofs.Program.Parts
import Offside.Proofs.Token.Recovering
import Offside.Value.Printer

/-!
# Reading printed lists

Inside a list a text is printed in quotes, with a backslash in front of each quote of their
kind, but with its own backslashes as they are. Main result:

> `printed_reads_back_iff`: a value of texts, truths, `None` and lists of them is read back
> from its text in a list exactly if no text in it has a backslash that stands in front of
> something that makes an escape with it, or at the end.
-/

namespace Offside

open Text

variable {q : Char} {t : Text} {scope : Scope}

/-! ## How values are printed -/

/-- The quotes that a text is printed in. -/
def Text.mark (t : Text) : Char :=
  if t.contains '\'' && !t.contains '"' then '"' else '\''

/-- The mark that a text is printed in is a quote. -/
theorem isQuote_mark (t : Text) : isQuote t.mark = true := by
  unfold mark
  split <;> rfl

/-- A text without the mark is printed as it is. -/
theorem shield_of_not_mem (h : q ∉ t) : shield q t = t := by
  induction t with
  | nil => rfl
  | cons c cs ih =>
    rw [List.mem_cons, not_or] at h
    rw [shield_cons_of_ne (Ne.symm h.1), ih h.2]

/-- Printing with escapes shields the apostrophes. -/
theorem flatMap_escape (t : Text) : t.flatMap Value.quote.escape = shield '\'' t := by
  refine congrArg (fun f => t.flatMap f) (funext fun c => ?_)
  rw [Value.quote.escape]
  simp only [beq_iff_eq]

/-- A printed text is the shielded text in its marks. -/
theorem toList_quote (content : String) :
    (Value.quote content).toList =
      mark content.toList ::
        (shield (mark content.toList) content.toList ++ [mark content.toList]) := by
  rw [Value.quote, mark]
  split
  next h =>
    simp only [Bool.and_eq_true, Bool.not_eq_true', List.contains_eq_mem,
      decide_eq_false_iff_not] at h
    rw [String.toList_ofList, shield_of_not_mem h.2]
    rfl
  next =>
    rw [String.toList_ofList, flatMap_escape]
    rfl

/-- The value is built of texts with a property, truths, `None`, and lists. -/
inductive Value.BuiltOf (P : String → Prop) : Value → Prop
  | text {content : String} (h : P content) : BuiltOf P (.text content)
  | truth {b : Bool} : BuiltOf P (.truth b)
  | nothing : BuiltOf P .nothing
  | list {vs : List Value} (h : ∀ v ∈ vs, BuiltOf P v) : BuiltOf P (.list vs)

namespace Value

variable {P Q : String → Prop} {v : Value}

theorem builtOf_text_iff {content : String} : (text content).BuiltOf P ↔ P content := by
  constructor
  · intro h
    cases h
    assumption
  · exact .text

/-- A list is built of texts of a sort if its elements are. -/
theorem builtOf_list_iff {vs : List Value} : (list vs).BuiltOf P ↔ ∀ v ∈ vs, v.BuiltOf P := by
  constructor
  · intro h
    cases h
    assumption
  · exact .list

/-- Texts of a sort are texts of every wider one. -/
theorem BuiltOf.mono (h : v.BuiltOf P) (hPQ : ∀ content, P content → Q content) : v.BuiltOf Q := by
  induction h with
  | text h => exact .text (hPQ _ h)
  | truth => exact .truth
  | nothing => exact .nothing
  | list _ ih => exact .list ih

theorem builtOf_and_iff :
    v.BuiltOf (fun content => P content ∧ Q content) ↔ v.BuiltOf P ∧ v.BuiltOf Q := by
  constructor
  · exact fun h => ⟨h.mono fun _ => And.left, h.mono fun _ => And.right⟩
  · rintro ⟨hp, hq⟩
    induction hp with
    | text h => exact .text ⟨h, builtOf_text_iff.mp hq⟩
    | truth => exact .truth
    | nothing => exact .nothing
    | list _ ih => exact .list fun v hv => ih v hv (builtOf_list_iff.mp hq v hv)

end Value

/-- Printed elements stand side by side with commas between them. -/
theorem toList_elementsOnto (shown : String) (v : Value) (vs : List Value) :
    (Value.elementsOnto (shown ++ v.element) vs).toList =
      shown.toList ++ listed ((v :: vs).map fun v => v.element.toList) := by
  induction vs generalizing shown v with
  | nil => rw [Value.elementsOnto, String.toList_append, List.map_singleton, listed_singleton]
  | cons w vs ih =>
    rw [Value.elementsOnto, ih, List.map_cons, List.map_cons, List.map_cons, listed_cons_cons,
      String.toList_append, String.toList_append, List.append_assoc, List.append_assoc]
    rfl

theorem toList_element_list (vs : List Value) :
    (Value.list vs).element.toList =
      '[' :: (listed (vs.map fun v => v.element.toList) ++ [']']) := by
  cases vs with
  | nil => rfl
  | cons v vs =>
    rw [Value.element, String.toList_append, toList_elementsOnto]
    rfl

/-! ## What is read back -/

/-- The quoted part that the text is printed as ends where it should. -/
def Closes (content : String) : Prop :=
  Quoted (mark content.toList) (shield (mark content.toList) content.toList)

/-- A list recovers if its elements do. -/
theorem recovers_listed {α : Type} {P : α → Prop} {f : α → Text} {vs : List α}
    (h : ∀ v ∈ vs, Recovers (P v) (f v)) : Recovers (∀ v ∈ vs, P v) (listed (vs.map f)) := by
  induction vs with
  | nil => exact recovers_nil.mono fun _ => nofun
  | cons v vs ih =>
    have hv := h v List.mem_cons_self
    cases vs with
    | nil =>
      rw [List.map_singleton, listed_singleton]
      exact hv.mono fun hp w hw => List.mem_singleton.mp hw ▸ hp
    | cons w vs =>
      rw [List.map_cons, List.map_cons, listed_cons_cons]
      have hcomma : Recovers True [',', ' '] := recovers_of_all (by decide)
      have hrest := hcomma.append (ih fun u hu => h u (List.mem_cons_of_mem v hu))
      exact (hv.append hrest).mono fun hall => List.forall_mem_cons.mpr ⟨hall.1, hall.2.2⟩

/-- A printed value is read to its end only if all quoted parts in it end where they should. -/
theorem recovers_element {v : Value} (hv : v.BuiltOf fun _ => True) :
    Recovers (v.BuiltOf Closes) v.element.toList := by
  induction hv with
  | @text content =>
    rw [Value.element, toList_quote]
    exact (recovers_quoted (isQuote_mark _) _).mono fun h => .text h
  | @truth b =>
    refine (recovers_of_all ?_).mono fun _ => .truth
    cases b <;> decide
  | nothing => exact (recovers_of_all (by decide)).mono fun _ => .nothing
  | list _ ih =>
    rw [toList_element_list]
    have hopening : Recovers True ['['] := recovers_singleton rfl (by decide)
    have hclosing : Recovers True [']'] := recovers_singleton rfl (by decide)
    exact (hopening.append ((recovers_listed ih).append hclosing)).mono fun h => .list h.2.1

mutual

/-- The value with each text as it is read back where it is printed. -/
def Value.reread : Value → Value
  | text content =>
    text (String.ofList (unescape (shield (mark content.toList) content.toList)))
  | list vs => list (rereadAll vs)
  | v => v

@[inherit_doc Value.reread]
def Value.rereadAll : List Value → List Value
  | [] => []
  | v :: vs => reread v :: rereadAll vs

end

theorem rereadAll_eq_map (vs : List Value) : Value.rereadAll vs = vs.map Value.reread := by
  induction vs with
  | nil => rfl
  | cons v vs ih => rw [Value.rereadAll, ih, List.map_cons]

/-- No printed element starts or ends with a blank. -/
theorem trimmed_element {v : Value} {P : String → Prop} (hv : v.BuiltOf P) :
    Trimmed v.element.toList := by
  have hword {t : Text} (h : t.all (!isBlank ·) = true) : Trimmed t := by
    refine trimmed_of_forall fun c hc => ?_
    rw [← Bool.not_eq_true']
    exact List.all_eq_true.mp h c hc
  cases hv with
  | @text content =>
    rw [Value.element, toList_quote]
    have hblank := isBlank_of_isQuote (isQuote_mark content.toList)
    exact trimmed_of_ends hblank hblank _
  | @truth b => cases b <;> exact hword (by decide)
  | nothing => exact hword (by decide)
  | list =>
    rw [toList_element_list]
    exact trimmed_of_ends (by decide) (by decide) _

/-- What closes is read back with its escapes resolved. -/
theorem evaluateStrict_element {v : Value} (hv : v.BuiltOf Closes) (scope : Scope) :
    evaluateStrict scope v.element.toList = .ok v.reread := by
  induction hv with
  | @text content h =>
    rw [Value.element, toList_quote]
    exact evaluateStrict_quoted (isQuote_mark _) h scope
  | @truth b => cases b <;> exact evaluateStrict_of_constant? rfl
  | nothing => exact evaluateStrict_of_constant? rfl
  | list h ih =>
    rw [toList_element_list, Value.reread, rereadAll_eq_map]
    exact evaluateStrict_listed (fun v hv => trimmed_element (h v hv)) ih

/-- A value is the same again if its texts are. -/
theorem reread_eq_iff {v : Value} (hv : v.BuiltOf fun _ => True) :
    v.reread = v ↔ v.BuiltOf fun content =>
      unescape (shield (mark content.toList) content.toList) = content.toList := by
  induction hv with
  | @text content =>
    rw [Value.reread, Value.builtOf_text_iff, Value.text.injEq, ← String.toList_inj,
      String.toList_ofList]
  | truth => exact iff_of_true rfl .truth
  | nothing => exact iff_of_true rfl .nothing
  | @list vs _ ih =>
    have hmap : vs.map Value.reread = vs.map id ↔ ∀ v ∈ vs, v.reread = v := List.map_inj_left
    rw [List.map_id] at hmap
    rw [Value.reread, Value.builtOf_list_iff, Value.list.injEq, rereadAll_eq_map, hmap]
    exact forall₂_congr ih

/-- A value of texts, truths, `None` and lists is read back from the text that it has in a
list exactly if each backslash in its texts stands in front of a character that makes no
escape with it. -/
theorem printed_reads_back_iff (scope : Scope) (v : Value) (hv : v.BuiltOf fun _ => True) :
    evaluateStrict scope v.element.toList = .ok v ↔
      v.BuiltOf fun content => Text.isVerbatim content.toList = true := by
  have hverbatim (content : String) : isVerbatim content.toList = true ↔ Closes content ∧
      unescape (shield (mark content.toList) content.toList) = content.toList :=
    isVerbatim_iff (isQuote_mark _) _
  simp only [hverbatim, Value.builtOf_and_iff]
  constructor
  · intro h
    obtain ⟨e, hparse, -⟩ := evaluateStrict_eq_ok_iff.mp h
    obtain ⟨ts, hts, -⟩ := parseText_eq_ok_iff.mp hparse
    have hcloses := (recovers_element hv).of_scans hts
    rw [evaluateStrict_element hcloses] at h
    exact ⟨hcloses, (reread_eq_iff hv).mp (Except.ok.inj h)⟩
  · rintro ⟨hcloses, hsame⟩
    rw [evaluateStrict_element hcloses, (reread_eq_iff hv).mpr hsame]

/-- Both kinds of quotes, in one text and apart, a backslash that makes no escape, and lists
in a list. -/
theorem printed_reads_back_iff_list :
    let v := Value.list [.text "it's", .list [.text "'\"\\w", .list []], .truth true, .nothing]
    v.element = "[\"it's\", ['\\'\"\\w', []], True, None]" ∧
      evaluateStrict .empty "[\"it's\", ['\\'\"\\w', []], True, None]".toList = .ok v := by
  intro v
  have hprinted : v.element = "[\"it's\", ['\\'\"\\w', []], True, None]" := by decide
  have hbuilt {P : String → Prop} (h : P "it's") (h' : P "'\"\\w") : v.BuiltOf P := by
    simp only [v, Value.builtOf_list_iff, List.forall_mem_cons]
    exact ⟨.text h, ⟨.text h', nofun, nofun⟩, .truth, .nothing, nofun⟩
  refine ⟨hprinted, ?_⟩
  rw [← hprinted]
  exact (printed_reads_back_iff .empty v (hbuilt trivial trivial)).mpr
    (hbuilt (by decide) (by decide))

/-- The backslash in front of the single quote is taken for an escape of the one that is put
there, and the quoted part ends too early. -/
theorem printed_backslash_not_read :
    (Value.text "\\'\"").element = "'\\\\'\"'" ∧
      evaluateStrict .empty "'\\\\'\"'".toList = .error (.lexical ⟨.unterminated, 4⟩) :=
  ⟨by decide, by cbv⟩

end Offside
