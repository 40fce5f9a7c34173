/-
Arithmetics.

An arithmetic says what literals, minus signs, operators and function names
mean for one kind of value.  It knows neither trees nor places in a text, so an
evaluator is written once for all of them.
-/
import Reckon.Fault

namespace Reckon

structure Arithmetic (α : Type) where
  literal : Text → Except Refusal α
  negate : α → Except Refusal α
  apply : Operation → α → α → Except Refusal α
  call : Function → α → Except Refusal α

/-- The unit of the arguments of functions.  It holds for all functions alike,
the inverse ones included. -/
inductive AngleUnit where
  | radians | degrees
  deriving DecidableEq, Repr

namespace AngleUnit

def all : List AngleUnit := [radians, degrees]

def name : AngleUnit → String
  | radians => "radians"
  | degrees => "degrees"

def ofName? (s : String) : Option AngleUnit :=
  all.find? fun unit => unit.name == s

/-- The float nearest to the number of radians in one degree. -/
def degree : Float := Float.ofBits 0x3F91DF46A2529D39

def toRadians : AngleUnit → Float → Float
  | radians, x => x
  | degrees, x => x * degree

end AngleUnit
end Reckon
