/-
The settings of an evaluation.
-/
import Reckon.Arithmetic.Basic
import Reckon.Record.Field

namespace Reckon

inductive NumericMode where
  | float | int32
  deriving DecidableEq, Repr

namespace NumericMode

def all : List NumericMode := [float, int32]

def name : NumericMode → String
  | float => "float"
  | int32 => "int32"

def ofName? (s : String) : Option NumericMode :=
  all.find? fun mode => mode.name == s

end NumericMode

structure Settings where
  mode : NumericMode := .float
  unit : AngleUnit := .radians
  maxDepth : Int := 64
  one_le_maxDepth : 1 ≤ maxDepth := by decide
  maxDepth_le : maxDepth ≤ 100 := by decide

/-- The settings that a record describes.  Each field may be left out. -/
def Settings.ofFields (fields : Fields) : Validated Settings :=
  let mode := fields.optional "numeric_mode" .float fun d => .ofKind (d.named? NumericMode.ofName?)
  let unit := fields.optional "angle_unit" .radians fun d => .ofKind (d.named? AngleUnit.ofName?)
  let depth := fields.optional "max_depth" ⟨64, by decide⟩ fun d => .ofKind (d.between? 1 100)
  (mode.both (unit.both depth)).map fun (mode, unit, depth) =>
    { mode, unit, maxDepth := depth.val, one_le_maxDepth := depth.property.1,
      maxDepth_le := depth.property.2 }

end Reckon
