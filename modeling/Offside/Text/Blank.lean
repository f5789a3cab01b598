/-!
# Text and its blank ends

Program text is analysed as a list of characters, so an offset or a column is
always a number of characters. This module says which characters are blank and
cuts blank ends off a text.
-/

namespace Offside

/-- Text as the analyses read it. -/
abbrev Text := List Char

/-- The blank characters are those with the Unicode property White_Space. -/
def isBlank (c : Char) : Bool :=
  let n := c.toNat
  (0x9 ≤ n && n ≤ 0xd) || n == 0x20 || n == 0x85 || n == 0xa0 || n == 0x1680
    || (0x2000 ≤ n && n ≤ 0x200a) || n == 0x2028 || n == 0x2029 || n == 0x202f
    || n == 0x205f || n == 0x3000

namespace Text

/-- The text without its leading blanks. -/
def trimStart (t : Text) : Text :=
  t.dropWhile isBlank

/-- The text without its trailing blanks. -/
def trimEnd : Text → Text
  | [] => []
  | c :: cs =>
    match trimEnd cs with
    | [] => if isBlank c then [] else [c]
    | t :: ts => c :: t :: ts

/-- The text without the blanks at either end. -/
def trim (t : Text) : Text :=
  trimEnd (trimStart t)

theorem length_trimStart_le (t : Text) : (trimStart t).length ≤ t.length :=
  (List.dropWhile_sublist isBlank).length_le

theorem length_trimEnd_le (t : Text) : (trimEnd t).length ≤ t.length := by
  induction t with
  | nil => simp [trimEnd]
  | cons c cs ih =>
    rw [trimEnd]
    cases h : trimEnd cs with
    | nil => dsimp only; split <;> simp
    | cons d ds => rw [h] at ih; simpa using ih

/-- Trimming makes no text longer. -/
theorem length_trim_le (t : Text) : (trim t).length ≤ t.length :=
  Nat.le_trans (length_trimEnd_le _) (length_trimStart_le t)

end Text

end Offside
