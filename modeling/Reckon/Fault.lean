/-
What can stop an evaluation.

A fault is a cause, given by the data that it depends on; the wording is in the
`message` functions and nowhere else.  `Fault.failure?` turns a fault into the
failure that is reported for an expression.  Two faults are no failures of an
expression and are not reported as such: a number node whose text is no
numeral, and an integer beyond the floats.  Neither arises from a text.
-/
import Reckon.Failure
import Reckon.Grammar
import Reckon.Text.Quoted

namespace Reckon

/-! ## Arithmetic -/

inductive Cause where
  | literalTooLarge (literal : Text)
  | literalNotInteger (literal : Text)
  /-- The literal has more digits than any 32-bit integer. -/
  | literalTooLong (literal : Text)
  | outOfRange (value : Int)
  | zeroDivisor (op : Operation)
  | negativeExponent (exponent : Int)
  /-- The power is not worth computing. -/
  | powerOutOfRange (base exponent : Int)
  | notFinite (f : Function) (arg : Int)
  deriving DecidableEq, Repr

/-- How much of an overlong literal a message shows. -/
def shownLength : Nat := 32

def Cause.message : Cause → String
  | literalTooLarge literal =>
    s!"Literal {Text.quoted (literal.take shownLength)} is too large for a 64-bit float"
  | literalNotInteger literal => s!"Literal {Text.quoted literal} is not an integer"
  | literalTooLong literal =>
    s!"Literal {Text.quoted (literal.take shownLength)} does not fit in 32 bits"
  | outOfRange value => s!"Value {value} does not fit in 32 bits"
  | zeroDivisor op => s!"{op.name.capitalize} by zero"
  | negativeExponent exponent => s!"Negative exponent {exponent} has no integer result"
  | powerOutOfRange base exponent => s!"Result of {base} ^ {exponent} does not fit in 32 bits"
  | notFinite f arg => s!"{String.ofList f.name}({arg}) has no finite value"

inductive NumeralForm where
  | float | integer
  deriving DecidableEq, Repr

inductive Refusal where
  | unrepresentable (cause : Cause)
  | unreadable (form : NumeralForm) (text : Text)
  | beyondFloat
  deriving DecidableEq, Repr

def Refusal.message : Refusal → String
  | unrepresentable cause => cause.message
  | unreadable .float text => s!"could not convert string to float: {Text.quoted text}"
  | unreadable .integer text => s!"invalid literal for int() with base 10: {Text.quoted text}"
  | beyondFloat => "int too large to convert to float"

/-! ## Trees -/

inductive Mismatch where
  /-- Nothing is done with this rule where it stands. -/
  | noHandler (rule : Rule)
  | missingOperand
  | unknownFunction (name : Text)
  deriving DecidableEq, Repr

def Mismatch.detail : Mismatch → String
  | noHandler rule => s!"no handler for rule {rule.name}"
  | missingOperand => "operator is missing its right-hand operand"
  | unknownFunction name => s!"unknown function {Text.quoted name}"

/-! ## Faults -/

inductive Fault where
  /-- The text is no expression.  This is the furthest place reached, with all
  that would have been accepted there. -/
  | unexpected (position : Nat) (expected : List Label)
  /-- The construct that begins here lies deeper than the limit. -/
  | tooDeep (limit : Int) (position : Nat)
  | refused (refusal : Refusal) (position : Nat)
  | inconsistent (mismatch : Mismatch)
  deriving DecidableEq, Repr

namespace Fault

/-- The failure that is reported when a fault stops the evaluation of an
expression. -/
def failure? (expression : Text) : Fault → Option Failure
  | unexpected position expected =>
    let message :=
      if expression.length ≤ position then "Unexpected end of input" else "Unexpected input"
    some (.syntaxError message expression position (expected.map Label.text))
  | tooDeep limit position =>
    some (.limit s!"Nesting deeper than {limit} levels" expression position limit)
  | refused (.unrepresentable cause) position =>
    some (.evaluation cause.message expression (some position))
  | refused (.unreadable ..) _ | refused .beyondFloat _ => none
  | inconsistent mismatch =>
    some (.internal s!"Internal consistency failure: {mismatch.detail}" expression)

end Fault
end Reckon
