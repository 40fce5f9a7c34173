/-
Values, and reports on evaluations.

A report states the expression as it was given, and either its value or how it
failed.
-/
import Reckon.Binary64.Text
import Reckon.Failure
import Reckon.Record.Field

namespace Reckon

inductive Value where
  | int (value : Int)
  | float (value : Float)

def Value.text : Value → String
  | int v => toString v
  | float x => String.ofList (Binary64.text x)

inductive Report where
  | result (expression : Text) (value : Value)
  | failure (expression : Text) (kind : FailureKind) (message : String) (position : Option Nat)
      (expected : List String)

/-! ## Reports from records -/

/-- A number as it is, and anything else as the integer or else the float that
it may be read as. -/
def Datum.value : Datum → Validated Value
  | .int v => .ok (.int v)
  | .float x => .ok (.float x)
  | d =>
    match d.int?, d.float? with
    | .ok v, _ => .ok (.int v)
    | .error _, .ok x => .ok (.float x)
    | .error noInt, .error noFloat =>
      .error [{ path := ["int"], kind := noInt }, { path := ["float"], kind := noFloat }]

def Datum.string? (d : Datum) : Except ProblemKind String :=
  String.ofList <$> d.text?

namespace Report

def resultOfFields (fields : Fields) : Validated Report :=
  let expression := fields.required "expression" fun d => .ofKind d.text?
  let value := fields.required "result" Datum.value
  (expression.both value).map fun (expression, value) => .result expression value

def failureOfFields (fields : Fields) : Validated Report :=
  let expression := fields.required "expression" fun d => .ofKind d.text?
  let kind := fields.required "kind" fun d => .ofKind (d.named? FailureKind.ofName?)
  let message := fields.required "message" fun d => .ofKind d.string?
  let position := fields.optional "position" none fun d => .ofKind d.optionalNatural?
  let expected := fields.optional "expected" [] (Validated.listOf Datum.string?)
  (expression.both (kind.both (message.both (position.both expected)))).map
    fun (expression, kind, message, position, expected) =>
      .failure expression kind message position expected

end Report

/-- The report that an expression failed.  A position before the text is no
position of a report. -/
def Failure.report (expression : Text) (f : Failure) : Validated Report :=
  let position : Validated (Option Nat) :=
    match f.position? with
    | none => .ok none
    | some p => Validated.under "position" (.ofKind (some <$> (Datum.int p).natural?))
  position.map fun p => .failure expression f.kind f.message p f.expected

end Reckon
