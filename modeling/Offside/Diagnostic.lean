import Offside.Machine.Basic
import Offside.Text.Lines

/-!
# Diagnostics

What is shown to a person when a program fails: what was wrong, in which input
and at which line, and the line itself with a mark under its text.
-/

namespace Offside

/-- Where a program came from. -/
inductive Origin where
  | commandLine
  | file (path : String)
  | interactive
  deriving Repr, DecidableEq

/-- What an origin is called. -/
def Origin.name : Origin → String
  | commandLine => "<command-line input>"
  | file path => path
  | interactive => "<repl>"

/-- The emphasis of a part of a diagnostic. -/
inductive Emphasis where
  | kind
  | what
  | mark
  deriving Repr, DecidableEq

/-- How a text is shown with an emphasis. This is left to whoever shows it. -/
abbrev Painting := Emphasis → String → String

/-- Around a text without escape characters, a painting only puts what each emphasis
starts and ends with. -/
def Painting.Frames (paint : Painting) (before after : Emphasis → String) : Prop :=
  ∀ e s, '\x1b' ∉ s.toList → paint e s = before e ++ s ++ after e

/-- The first words of every message to a person. -/
def programName : String := "pylite"

/-- The word for the kind of a failure. -/
def Failure.kind : Failure → String
  | malformed _ _ => "syntax error"
  | runtime _ _ => "runtime error"

/-- The first lines of a diagnostic: what was wrong, in which input and at which
line. -/
def Failure.heading (paint : Painting) (origin : Origin) (failure : Failure) : String :=
  programName ++ ": " ++ paint .kind failure.kind ++ ": " ++ paint .what failure.what ++ "\n"
    ++ "in " ++ origin.name ++ ", at line " ++ toString failure.line ++ ":\n"

/-- A raw line and a mark under what is not blank at its ends; the mark is at
least one wide. -/
def markedLine (paint : Painting) (raw : Text) : String :=
  let indent := (raw.takeWhile isBlank).length
  let width := max raw.trim.length 1
  let mark := String.ofList (List.replicate width '^')
  String.ofList raw ++ "\n" ++ String.ofList (List.replicate indent ' ')
    ++ paint .mark mark ++ "\n"

/-- The diagnostic for a failure of a source text. -/
def Failure.diagnostic (paint : Painting) (origin : Origin) (source : Text)
    (failure : Failure) : String :=
  match source.lines[failure.line - 1]? with
  | some raw => failure.heading paint origin ++ markedLine paint raw
  | none => failure.heading paint origin

end Offside
