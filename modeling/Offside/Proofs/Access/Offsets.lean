import Mathlib.Data.List.Basic
import Offside.Proofs.Access.Slice
import Offside.Text.Nesting

/-!
# Characters by their byte offset

Text is searched from the front, and what is found is named by the byte offset where its
character starts. Such an offset is always one between two characters: that is what the
slices of text rest on. Single bytes are looked at, too, and compared with characters of one
byte; a longer character has no such byte.
-/

namespace Offside.Access

variable {t front : Text} {d c : Char} {p : Char → Bool}

/-! ## Slices at the ends -/

theorem byteLength_singleton (c : Char) : byteLength [c] = c.utf8Size :=
  Nat.add_zero _

/-- The bytes up to the end of a part are that part. -/
theorem byteSlice?_front (front back : Text) :
    byteSlice? (front ++ back) 0 (byteLength front) = some front :=
  byteSlice?_append [] front back

/-- The bytes from the end of a part are what follows it. -/
theorem byteSlice?_back (front back : Text) :
    byteSlice? (front ++ back) (byteLength front) (byteLength (front ++ back)) = some back := by
  have h := byteSlice?_append front back []
  rwa [List.append_nil] at h

/-- A slice has as many bytes as lie between its offsets. -/
theorem byteLength_of_byteSlice? {start stop : Nat} {u : Text}
    (h : byteSlice? t start stop = some u) : byteLength u + start = stop := by
  rw [byteSlice?] at h
  split at h
  next =>
    obtain ⟨v, hv, hu⟩ := Option.bind_eq_some_iff.mp h
    obtain ⟨htake, -⟩ | ⟨_, _, -, hstop, htake, -⟩ := cutBytes_cases t stop
    · rw [htake] at hv
      cases hv
    · rw [htake] at hv
      cases hv
      obtain ⟨-, hdrop⟩ | ⟨_, _, rfl, hstart, -, hdrop⟩ := cutBytes_cases v start
      · rw [hdrop] at hu
        cases hu
      · rw [hdrop] at hu
        cases hu
        rw [← hstop, byteLength_append, hstart, Nat.add_comm]
  next => cases h

/-- The rest of a text from an offset on. -/
def behind? (t : Text) (start : Nat) :
    Option { u : Text // byteLength u + start = byteLength t } :=
  match h : byteSlice? t start (byteLength t) with
  | none => none
  | some u => some ⟨u, byteLength_of_byteSlice? h⟩

/-- Behind as many bytes as a part has stands what follows the part. -/
theorem behind?_eq (front back : Text) {n : Nat} (ht : t = front ++ back)
    (hn : byteLength front = n) : ∃ h, behind? t n = some ⟨back, h⟩ := by
  subst ht hn
  have hback := byteSlice?_back front back
  refine ⟨byteLength_of_byteSlice? hback, ?_⟩
  unfold behind?
  split
  next h => rw [hback] at h; cases h
  next h =>
    rw [hback] at h
    cases h
    rfl

/-! ## Searching -/

/-- The offset of the first character of a sort. -/
def findOffset? (p : Char → Bool) : Text → Option Nat
  | [] => none
  | c :: cs => if p c then some 0 else (findOffset? p cs).map (c.utf8Size + ·)

theorem findOffset?_eq_none (h : ∀ c ∈ t, p c = false) : findOffset? p t = none := by
  induction t with
  | nil => rfl
  | cons c cs ih =>
    rw [findOffset?, if_neg (by simp [h c List.mem_cons_self]),
      ih fun d hd => h d (List.mem_cons_of_mem c hd)]
    rfl

/-- The first character of a sort is found at the bytes in front of it. -/
theorem findOffset?_append (h : ∀ c ∈ front, p c = false) (hc : p c = true) (cs : Text) :
    findOffset? p (front ++ c :: cs) = some (byteLength front) := by
  induction front with
  | nil => exact if_pos hc
  | cons d ds ih =>
    rw [List.cons_append, findOffset?, if_neg (by simp [h d List.mem_cons_self]),
      ih fun e he => h e (List.mem_cons_of_mem d he), byteLength_cons]
    rfl

/-- What is found, and what stands in front of it. -/
theorem findOffset?_cases (p : Char → Bool) (t : Text) :
    (findOffset? p t = none ∧ ∀ c ∈ t, p c = false) ∨
      ∃ front c back, t = front ++ c :: back ∧ p c = true ∧ (∀ d ∈ front, p d = false) ∧
        findOffset? p t = some (byteLength front) := by
  induction t with
  | nil => exact .inl ⟨rfl, nofun⟩
  | cons c cs ih =>
    cases hc : p c with
    | true => exact .inr ⟨[], c, cs, rfl, hc, nofun, if_pos hc⟩
    | false =>
      obtain ⟨-, hall⟩ | ⟨front, d, back, rfl, hd, hfront, -⟩ := ih
      · have hall' : ∀ e ∈ c :: cs, p e = false := List.forall_mem_cons.mpr ⟨hc, hall⟩
        exact .inl ⟨findOffset?_eq_none hall', hall'⟩
      · have hfront' : ∀ e ∈ c :: front, p e = false := List.forall_mem_cons.mpr ⟨hc, hfront⟩
        exact .inr ⟨c :: front, d, back, rfl, hd, hfront', findOffset?_append hfront' hd back⟩

/-- A search that stops at the end at the latest stops behind the characters it skips. -/
theorem findOffset?_getD (p : Char → Bool) (t : Text) :
    (findOffset? (!p ·) t).getD (byteLength t) = byteLength (t.takeWhile p) := by
  induction t with
  | nil => rfl
  | cons c cs ih =>
    rw [findOffset?]
    by_cases hc : p c = true
    · rw [if_neg (by simp [hc]), List.takeWhile_cons_of_pos hc, byteLength_cons, byteLength_cons,
        ← ih]
      cases findOffset? (!p ·) cs <;> rfl
    · rw [if_pos (by simp [hc]), List.takeWhile_cons_of_neg hc]
      rfl

/-! ## Outside quotes -/

/-- The characters outside quotes, each with its offset and its depth, for a reading that
stands at `s` and at an offset. -/
def outside (s : Nesting) (offset : Nat) : Text → List (Nat × Char × Nat)
  | [] => []
  | c :: cs =>
    match s.level c with
    | some depth => (offset, c, depth) :: outside (s.next c) (offset + c.utf8Size) cs
    | none => outside (s.next c) (offset + c.utf8Size) cs

/-! ## Single bytes -/

/-- The bytes of a text. -/
def bytes (t : Text) : List UInt8 :=
  t.flatMap String.utf8EncodeChar

/-- The only byte of a character that has one. -/
def onlyByte (c : Char) : UInt8 :=
  UInt8.ofNat c.toNat

theorem bytes_append (t u : Text) : bytes (t ++ u) = bytes t ++ bytes u :=
  List.flatMap_append

/-- A text has as many bytes as its characters have together. -/
theorem length_bytes (t : Text) : (bytes t).length = byteLength t := by
  induction t with
  | nil => rfl
  | cons c cs ih =>
    rw [byteLength_cons, ← ih, ← String.length_utf8EncodeChar c]
    exact List.length_append

/-- A byte below 256 is that of an ASCII character only if it has its number. -/
theorem onlyByte_eq_iff {n : Nat} (hd : d.toNat ≤ 127) (hn : n < 256) :
    UInt8.ofNat n = onlyByte d ↔ n = d.toNat := by
  rw [onlyByte, ← UInt8.toNat_inj, UInt8.toNat_ofNat', UInt8.toNat_ofNat']
  omega

/-- The byte of a character that has one begins no other character. -/
theorem head?_utf8EncodeChar (c : Char) (hd : d.toNat ≤ 127) :
    (String.utf8EncodeChar c).head? = some (onlyByte d) ↔ c = d := by
  rw [← Char.toNat_inj]
  show _ ↔ c.val.toNat = d.toNat
  unfold String.utf8EncodeChar
  dsimp only
  split
  · rw [List.head?_cons, Option.some.injEq, onlyByte_eq_iff hd (by omega)]
  · split
    · rw [List.head?_cons, Option.some.injEq, onlyByte_eq_iff hd (by omega)]
      omega
    · split
      all_goals
        rw [List.head?_cons, Option.some.injEq, onlyByte_eq_iff hd (by omega)]
        omega

/-- The byte of a character that has one ends no other character. -/
theorem getLast?_utf8EncodeChar (c : Char) (hd : d.toNat ≤ 127) :
    (String.utf8EncodeChar c).getLast? = some (onlyByte d) ↔ c = d := by
  rw [← Char.toNat_inj]
  show _ ↔ c.val.toNat = d.toNat
  unfold String.utf8EncodeChar
  dsimp only
  split
  · rw [List.getLast?_singleton, Option.some.injEq, onlyByte_eq_iff hd (by omega)]
  · split
    · rw [List.getLast?_cons_cons, List.getLast?_singleton, Option.some.injEq,
        onlyByte_eq_iff hd (by omega)]
      omega
    · split
      all_goals
        simp only [List.getLast?_cons_cons, List.getLast?_singleton, Option.some.injEq]
        rw [onlyByte_eq_iff hd (by omega)]
        omega

theorem utf8EncodeChar_ne_nil (c : Char) : String.utf8EncodeChar c ≠ [] := by
  rw [← List.length_pos_iff, String.length_utf8EncodeChar]
  exact c.utf8Size_pos

/-- The first byte is that of an ASCII character exactly if the first character is. -/
theorem head?_bytes (t : Text) (hd : d.toNat ≤ 127) :
    (bytes t).head? = some (onlyByte d) ↔ t.head? = some d := by
  cases t with
  | nil => exact ⟨nofun, nofun⟩
  | cons c cs =>
    show (String.utf8EncodeChar c ++ bytes cs).head? = _ ↔ _
    rw [List.head?_append_of_ne_nil _ (utf8EncodeChar_ne_nil c), head?_utf8EncodeChar c hd,
      List.head?_cons, Option.some.injEq]

/-- The last byte is that of an ASCII character exactly if the last character is. -/
theorem getLast?_bytes (front : Text) (c : Char) (hd : d.toNat ≤ 127) :
    (bytes (front ++ [c])).getLast? = some (onlyByte d) ↔ c = d := by
  have hbytes : bytes (front ++ [c]) = bytes front ++ String.utf8EncodeChar c := by
    rw [bytes_append]
    exact congrArg _ (List.append_nil _)
  rw [hbytes, List.getLast?_append_of_ne_nil _ (utf8EncodeChar_ne_nil c),
    getLast?_utf8EncodeChar c hd]

/-- The byte behind a part of a text is the first of what follows. -/
theorem bytes_getElem?_behind (front back : Text) :
    (bytes (front ++ back))[byteLength front]? = (bytes back).head? := by
  rw [bytes_append, ← length_bytes, List.getElem?_append_right (Nat.le_refl _), Nat.sub_self,
    List.head?_eq_getElem?]

/-- The byte in front of a place is the last of the part before it. -/
theorem bytes_getElem?_before (front back : Text) (h : front ≠ []) :
    (bytes (front ++ back))[byteLength front - 1]? = (bytes front).getLast? := by
  have hpos : 0 < (bytes front).length := by
    cases front with
    | nil => exact absurd rfl h
    | cons c cs =>
      have hc := c.utf8Size_pos
      rw [length_bytes, byteLength_cons]
      omega
  rw [bytes_append, ← length_bytes, List.getElem?_append_left (by omega),
    List.getLast?_eq_getElem?]

end Offside.Access
