import Offside.Main
import Offside.Proofs.Machine.Branching
import Offside.Proofs.Machine.Isolation
import Offside.Proofs.Machine.Likeness
import Offside.Proofs.Machine.Signals
import Offside.Proofs.Degrading
import Offside.Proofs.Machine.Renumbering
import Offside.Proofs.Text.Lines
import Offside.Proofs.Machine.Succession
import Offside.Proofs.Program.Outline
import Offside.Proofs.Machine.Outline
import Offside.Proofs.Machine.Agreement
import Offside.Proofs.Machine.Descent
import Offside.Proofs.Machine.Limits
import Offside.Proofs.Token.Relations
import Offside.Proofs.Program.Leading
import Offside.Proofs.Program.Writing
import Offside.Proofs.Program.Parts
import Offside.Proofs.Text.Visible
import Offside.Proofs.Token.Pairs
import Offside.Proofs.Token.Quotes
import Offside.Proofs.Machine.Failing
import Offside.Proofs.Diagnostic
import Offside.Proofs.Access.Scanner
import Offside.Proofs.Access.Parser
import Offside.Proofs.Access.Parsing
import Offside.Proofs.Access.Lines
import Offside.Proofs.Access.Offsets
import Offside.Proofs.Access.Texts
import Offside.Proofs.Access.Values
import Offside.Proofs.Access.Assigning
import Offside.Proofs.Access.Placeholders
import Offside.Proofs.Access.InRange
import Offside.Proofs.Machine.Printing
import Offside.Proofs.Machine.References
import Offside.Proofs.Machine.Storing
import Offside.Proofs.Expr.Failing
import Offside.Proofs.Token.Stopping
import Offside.Proofs.Program.Targets
import Offside.Proofs.Machine.Augmented
import Offside.Proofs.Expr.Location
import Offside.Proofs.Machine.Rounds
import Offside.Proofs.Expr.Recolumn
import Offside.Proofs.Token.Spacing
import Offside.Proofs.Value.Extreme
import Offside.Proofs.Value.Progression
import Offside.Proofs.Text.Segments
import Offside.Proofs.Value.Quoting
import Offside.Proofs.Shadowing
import Offside.Proofs.Value.Difference
import Offside.Proofs.Expr.Conjunction
import Offside.Proofs.Machine.Returning
import Offside.Proofs.Unwritten
import Offside.Proofs.Machine.Iterating
import Offside.Proofs.Machine.Replaying
import Offside.Proofs.Text.Recutting
