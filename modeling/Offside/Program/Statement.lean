import Offside.Expr.Basic
import Offside.Text.Blank

/-!
# Statements

What one line says. The parts of a statement that are expressions stay text: they
are evaluated anew each time the line runs.
-/

namespace Offside

/-- What an assignment changes: a name, or an element of a list. -/
inductive Target where
  | name (name : String)
  | element (name : String) (index : Text)
  deriving Repr, DecidableEq

/-- A statement. -/
inductive Statement where
  | print (arguments : Text)
  | define (name : String) (parameters : List String)
  | assign (target : Target) (op : Option ArithOp) (value : Text)
  | ifHolds (condition : Text)
  | elseIf (condition : Text)
  | otherwise
  | forEach (loopVariable : String) (iterable : Text)
  | whileHolds (condition : Text)
  | call (name : String) (arguments : Text)
  | leave (value : Option Text)
  | breakLoop
  | continueLoop
  | pass
  | append (list : String) (value : Text)
  | unrecognized
  deriving Repr, DecidableEq

/-- Whether a statement goes on with branches that an earlier line began. -/
def Statement.isBranch : Statement → Bool
  | elseIf _ => true
  | otherwise => true
  | _ => false

/-- Why a line is not a statement, or cannot stand where it stands. -/
inductive SyntaxFault where
  | noColon (keyword : String)
  | noColonAfterSignature
  | elseWithCondition
  | noCondition (keyword : String)
  | badSignature
  | defaultValue
  | badParameter (text : String)
  | noIn
  | badLoopVariable (text : String)
  | noIterable
  | noValue
  | noBlock (keyword : String)
  | elseIfAlone
  | otherwiseAlone
  | leaveOutside
  | breakOutside
  | continueOutside
  deriving Repr, DecidableEq

/-- The wording of a syntax fault. -/
def SyntaxFault.message : SyntaxFault → String
  | noColon keyword => s!"expected ':' at the end of the '{keyword}' statement"
  | noColonAfterSignature => "expected ':' at the end of the function definition"
  | elseWithCondition => "'else' does not take a condition"
  | noCondition keyword => s!"expected a condition after '{keyword}'"
  | badSignature => "invalid function definition"
  | defaultValue => "default parameter values are not supported"
  | badParameter text => s!"invalid parameter name '{text}'"
  | noIn => "expected 'in' in the 'for' statement"
  | badLoopVariable text => s!"invalid loop variable '{text}'"
  | noIterable => "expected an iterable after 'in'"
  | noValue => "expected an expression after '='"
  | noBlock keyword => s!"expected an indented block after '{keyword}' statement"
  | elseIfAlone => "'elif' without a matching 'if'"
  | otherwiseAlone => "'else' without a matching 'if'"
  | leaveOutside => "'return' outside function"
  | breakOutside => "'break' outside loop"
  | continueOutside => "'continue' not properly in loop"

end Offside
