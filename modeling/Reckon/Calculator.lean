/-
Evaluating expressions.

`evaluate` reads a text in full before any arithmetic happens, so a text that is
no expression never comes to a value in part.  `evaluateResult` wraps the outcome
in a report.
-/
import Reckon.Arithmetic.Integral
import Reckon.Evaluation.Reduce
import Reckon.Reading.Session
import Reckon.Report
import Reckon.Settings

namespace Reckon
namespace Calculator

/-! ## Values -/

def evaluateTree (settings : Settings) (root : Node) : Except Fault Value :=
  match settings.mode with
  | .float => .float <$> Evaluation.evaluate (floating settings.unit) root
  | .int32 => .int <$> Evaluation.evaluate (integral settings.unit) root

def evaluate (settings : Settings) (expression : Text) : Except Fault Value := do
  evaluateTree settings (← recognize settings.maxDepth expression)

/-! ## Reports -/

/-- Why there is no report. -/
inductive Unreported where
  /-- The fault is no failure of the expression. -/
  | fault (fault : Fault)
  /-- The failure does not fit a report. -/
  | problems (problems : List Problem)

def report (expression : Text) : Except Fault Value → Except Unreported Report
  | .ok value => .ok (.result expression value)
  | .error fault =>
    match fault.failure? expression with
    | none => .error (.fault fault)
    | some failure => (failure.report expression).mapError .problems

def evaluateResult (settings : Settings) (expression : Text) : Except Unreported Report :=
  report expression (evaluate settings expression)

end Calculator
end Reckon
