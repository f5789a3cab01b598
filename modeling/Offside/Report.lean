import Offside.Machine.Basic

/-!
# Reports

The result of one run as a small record, and its text as a JSON object with two
blanks of indentation. A failed run reports its failure in place of what it has
printed.
-/

namespace Offside

/-- The result of one run. The line is that of a failure. -/
structure Report where
  succeeded : Bool
  output : String
  line : Option Nat
  deriving Repr, DecidableEq

namespace Report

/-- The report of a run that has printed some lines. -/
def ofRun (printed : Array String) : Except Failure Unit → Report
  | .ok () => ⟨true, "\n".intercalate printed.toList, none⟩
  | .error failure => ⟨false, "Error: " ++ failure.message, some failure.line⟩

/-- The word for the status of a run. -/
def status (report : Report) : String :=
  if report.succeeded then "ok" else "error"

/-- A character inside a JSON string: quotes, backslashes and control characters
are escaped, by a letter where there is one. -/
def jsonCharacter (c : Char) : List Char :=
  match c with
  | '"' => ['\\', '"']
  | '\\' => ['\\', '\\']
  | '\n' => ['\\', 'n']
  | '\r' => ['\\', 'r']
  | '\t' => ['\\', 't']
  | '\x08' => ['\\', 'b']
  | '\x0c' => ['\\', 'f']
  | c =>
    if c.toNat < 0x20 then
      ['\\', 'u', '0', '0', Nat.digitChar (c.toNat / 16), Nat.digitChar (c.toNat % 16)]
    else [c]

/-- A text as a JSON string. -/
def jsonString (s : String) : String :=
  String.ofList ('"' :: s.toList.flatMap jsonCharacter ++ ['"'])

/-- A report as a JSON object, one field a line; the line is left out where there
is none. -/
def toJsonText (report : Report) : String :=
  let fields :=
    [("status", jsonString report.status), ("output", jsonString report.output)]
      ++ (report.line.map fun n => ("line", toString n)).toList
  let shown := fields.map fun (name, value) => "  " ++ jsonString name ++ ": " ++ value
  "\x7b\n" ++ ",\n".intercalate shown ++ "\n\x7d"

end Report

end Offside
