/-
Failures as they are reported.

A failure carries the message that is shown, the expression at fault and, where
there is one, the place.  Nothing ties its position to its expression: failures
may also be made by a caller, with any position at all.
-/
import Reckon.Text.Location

namespace Reckon

/-- The stage at which an expression failed, and why. -/
inductive FailureKind where
  | syntaxError
  /-- The expression has no representable value. -/
  | evaluation
  | limit
  /-- The tree does not fit the evaluator. -/
  | internal
  deriving DecidableEq, Repr

namespace FailureKind

def all : List FailureKind := [syntaxError, evaluation, limit, internal]

def name : FailureKind → String
  | syntaxError => "syntax"
  | evaluation => "evaluation"
  | limit => "limit"
  | internal => "internal"

def ofName? (s : String) : Option FailureKind :=
  all.find? fun kind => kind.name == s

end FailureKind

inductive Failure where
  | syntaxError (message : String) (expression : Text) (position : Int) (expected : List String)
  | evaluation (message : String) (expression : Text) (position : Option Int)
  | limit (message : String) (expression : Text) (position maxDepth : Int)
  | internal (message : String) (expression : Text)
  deriving DecidableEq, Repr

namespace Failure

def kind : Failure → FailureKind
  | syntaxError .. => .syntaxError
  | evaluation .. => .evaluation
  | limit .. => .limit
  | internal .. => .internal

def message : Failure → String
  | syntaxError message .. => message
  | evaluation message .. => message
  | limit message .. => message
  | internal message _ => message

def expression : Failure → Text
  | syntaxError _ expression .. => expression
  | evaluation _ expression _ => expression
  | limit _ expression .. => expression
  | internal _ expression => expression

def position? : Failure → Option Int
  | syntaxError _ _ position _ => some position
  | evaluation _ _ position => position
  | limit _ _ position _ => some position
  | internal .. => none

def expected : Failure → List String
  | syntaxError _ _ _ expected => expected
  | _ => []

/-- The failure in one phrase.  Only a syntax error names its place and what
was expected there. -/
def text : Failure → String
  | syntaxError message expression position expected =>
    let place := s!"{message} at {expression.line position}:{expression.column position}"
    if expected.isEmpty then place
    else s!"{place}, expected one of: " ++ ", ".intercalate expected
  | failure => failure.message

end Failure
end Reckon
