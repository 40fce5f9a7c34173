/-
Evaluations that are put on record.

An evaluation of a text records its value, a report records what kept it from
one, and both leave the records of the tree before their own.  A console answers
one request after another and says what each adds to the output.  No evaluation
changes the journal.
-/
import Reckon.Calculator
import Reckon.Evaluation.Recorded

namespace Reckon
namespace Console

open Recorded (record)

/-! ## Evaluations -/

def valueRecord (expression : Text) (value : Value) : Record :=
  { severity := .debug, message := s!"🧮 {Text.quoted expression} = {value.text}" }

def failureRecord (expression : Text) (failure : Failure) : Record :=
  { severity := .info
    message := s!"🧮❌ Could not evaluate {Text.quoted expression}: {failure.text}" }

def evaluateTree (settings : Settings) (expression : Text) (root : Node) : Recorded Value :=
  match settings.mode with
  | .float => .float <$> Recorded.evaluate expression (floating settings.unit) root
  | .int32 => .int <$> Recorded.evaluate expression (integral settings.unit) root

def evaluate (settings : Settings) (expression : Text) : Recorded Value := do
  let root ← recognize settings.maxDepth expression
  let value ← evaluateTree settings expression root
  record (valueRecord expression value)
  return value

/-- A failure is recorded before it is put into a report. -/
def evaluateResult (settings : Settings) (expression : Text) :
    StateM (List Record) (Except Calculator.Unreported Report) := do
  let outcome ← (evaluate settings expression).run
  if let .error fault := outcome then
    if let some failure := fault.failure? expression then
      record (failureRecord expression failure)
  return Calculator.report expression outcome

/-! ## Requests -/

inductive Request where
  | configure (choice : LevelChoice)
  | clearHandlers
  | evaluate (settings : Settings) (expression : Text)
  | evaluateResult (settings : Settings) (expression : Text)
  | evaluateTree (settings : Settings) (expression : Text) (root : Node)

inductive Answer where
  | done
  | unknownLevel (choice : LevelChoice)
  | value (outcome : Except Fault Value)
  | report (outcome : Except Calculator.Unreported Report)

/-- What a request comes to: its answer, the journal after it and the lines that
it adds to the output. -/
structure Step where
  answer : Answer
  journal : Journal
  written : List String

def Request.step (j : Journal) : Request → Step
  | .configure choice =>
    match j.configure? choice with
    | some journal => { answer := .done, journal, written := [] }
    | none => { answer := .unknownLevel choice, journal := j, written := [] }
  | .clearHandlers => { answer := .done, journal := j.clearHandlers, written := [] }
  | .evaluate settings expression =>
    let evaluated := Console.evaluate settings expression
    { answer := .value evaluated.outcome, journal := j
      written := j.writeAll evaluated.records }
  | .evaluateResult settings expression =>
    let reported := (Console.evaluateResult settings expression).run []
    { answer := .report reported.1, journal := j
      written := j.writeAll reported.2 }
  | .evaluateTree settings expression root =>
    let evaluated := Console.evaluateTree settings expression root
    { answer := .value evaluated.outcome, journal := j
      written := j.writeAll evaluated.records }

def run (j : Journal) (requests : List Request) : Journal :=
  requests.foldl (fun j request => (request.step j).journal) j

end Console
end Reckon
