import Offside.Diagnostic

/-!
# Colours on a terminal

A terminal takes a sequence of characters that starts an emphasis and one that ends
all of them. Where no colours are wanted, texts are shown as they are.
-/

namespace Offside

/-- The terminal sequence that starts an emphasis: bold red, bold white and bold
blue. -/
def Emphasis.start : Emphasis → String
  | kind => "\x1b[1;31m"
  | what => "\x1b[1;37m"
  | mark => "\x1b[1;34m"

/-- The terminal sequence that ends every emphasis. -/
def Emphasis.reset : String := "\x1b[0m"

/-- A text in which the emphasis starts again behind every reset. -/
def Emphasis.resumed (e : Emphasis) : Text → Text
  | '\x1b' :: '[' :: '0' :: 'm' :: cs => reset.toList ++ e.start.toList ++ e.resumed cs
  | c :: cs => c :: e.resumed cs
  | [] => []

namespace Painting

/-- Texts as they are. -/
def plain : Painting :=
  fun _ s => s

/-- Texts between the sequences of a terminal. A reset inside a text does not end its
emphasis. -/
def terminal : Painting :=
  fun e s => e.start ++ String.ofList (e.resumed s.toList) ++ Emphasis.reset

end Painting

/-- The diagnostic for a failure of a source text, in colours where they are wanted. -/
def diagnostic (colored : Bool) (origin : Origin) (source : Text) (failure : Failure) : String :=
  failure.diagnostic (if colored then Painting.terminal else Painting.plain) origin source

end Offside
