/-
Data from outside, and what they may be read as.

Settings, nodes and reports may be handed in as records of loose data.  A field
takes more than its own type: an integer field takes a truth value, a whole
float and a text that spells an integer.  What it does not take is a problem,
and a problem says where and why.
-/
import Reckon.Node
import Reckon.Record.Spelling

namespace Reckon

inductive Datum where
  | int (value : Int)
  | float (value : Float)
  | text (value : Text)
  | bool (value : Bool)
  | list (items : List Datum)
  | node (value : Node)
  | null

inductive ProblemKind where
  | missing
  | notText
  /-- Not one of the names that the field may have. -/
  | notNamed
  | notInteger
  | noIntegerText
  | fraction
  /-- A text with too many digits, or a float too large, for an integer. -/
  | oversized
  | notFinite
  | tooSmall
  | tooLarge
  | notFloat
  | noFloatText
  | notList
  | notNode
  deriving DecidableEq, Repr

structure Problem where
  path : List String
  kind : ProblemKind
  deriving DecidableEq, Repr

def Problem.under (step : String) (p : Problem) : Problem :=
  { p with path := step :: p.path }

namespace Datum

def text? : Datum → Except ProblemKind Text
  | text t => .ok t
  | _ => .error .notText

/-- A text that is one of the names of a type, letter by letter. -/
def named? (ofName? : String → Option α) : Datum → Except ProblemKind α
  | text t =>
    match ofName? (String.ofList t) with
    | some value => .ok value
    | none => .error .notNamed
  | _ => .error .notNamed

/-- Floats from this size on are too large to be read as integers. -/
def integerBound : Nat := 0x8000000000000000

def int? : Datum → Except ProblemKind Int
  | int v => .ok v
  | bool b => .ok (if b then 1 else 0)
  | float x =>
    let parts := Binary64.decode x
    match parts.truncate? with
    | none => .error .notFinite
    | some v =>
      if !parts.isWhole then .error .fraction
      else if v.natAbs < integerBound then .ok v
      else .error .oversized
  | text t =>
    if Spelling.isOverlong t then .error .oversized
    else
      match Spelling.integer? t with
      | some v => .ok v
      | none => .error .noIntegerText
  | _ => .error .notInteger

def float? : Datum → Except ProblemKind Float
  | float x => .ok x
  | int v => .ok (Float.ofInt v)
  | bool b => .ok (if b then 1.0 else 0.0)
  | text t =>
    match Spelling.float? t with
    | some x => .ok x
    | none => .error .noFloatText
  | _ => .error .notFloat

/-- An integer between two bounds.  The size of the integer itself is no
matter. -/
def between? (least greatest : Int) (d : Datum) :
    Except ProblemKind { v : Int // least ≤ v ∧ v ≤ greatest } := do
  let v ← d.int?
  if hleast : least ≤ v then
    if hgreatest : v ≤ greatest then .ok ⟨v, hleast, hgreatest⟩ else .error .tooLarge
  else .error .tooSmall

def natural? (d : Datum) : Except ProblemKind Nat := do
  let v ← d.int?
  if 0 ≤ v then .ok v.toNat else .error .tooSmall

def optionalNatural? : Datum → Except ProblemKind (Option Nat)
  | null => .ok none
  | d => some <$> d.natural?

def node? : Datum → Except ProblemKind Node
  | node n => .ok n
  | _ => .error .notNode

end Datum
end Reckon
