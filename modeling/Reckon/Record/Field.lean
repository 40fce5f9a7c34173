/-
Reading the fields of a record.

All fields are read, whatever becomes of the others, and the problems are listed
in the order of the fields.  Fields that nothing asks for are passed over.
-/
import Reckon.Record.Datum

namespace Reckon

abbrev Fields := List (String × Datum)

/-- A value, or all that keeps it from being read. -/
abbrev Validated (α : Type) := Except (List Problem) α

namespace Validated

def both (x : Validated α) (y : Validated β) : Validated (α × β) :=
  match x, y with
  | .ok a, .ok b => .ok (a, b)
  | .ok _, .error ps => .error ps
  | .error ps, .ok _ => .error ps
  | .error ps, .error qs => .error (ps ++ qs)

def under (step : String) (x : Validated α) : Validated α :=
  x.mapError fun ps => ps.map (Problem.under step)

def ofKind (x : Except ProblemKind α) : Validated α :=
  x.mapError fun kind => [{ path := [], kind }]

def each (read : Datum → Except ProblemKind α) : Nat → List Datum → Validated (List α)
  | _, [] => .ok []
  | i, d :: ds =>
    (both (under (toString i) (ofKind (read d))) (each read (i + 1) ds)).map fun p => p.1 :: p.2

def listOf (read : Datum → Except ProblemKind α) : Datum → Validated (List α)
  | .list items => each read 0 items
  | _ => .error [{ path := [], kind := .notList }]

end Validated

namespace Fields

def required (fields : Fields) (name : String) (read : Datum → Validated α) : Validated α :=
  match fields.lookup name with
  | some d => (read d).under name
  | none => .error [{ path := [name], kind := .missing }]

def optional (fields : Fields) (name : String) (default : α) (read : Datum → Validated α) :
    Validated α :=
  match fields.lookup name with
  | some d => (read d).under name
  | none => .ok default

end Fields

/-! ## Nodes -/

/-- The node that a record describes.  Its text and offsets need not fit each
other or its children. -/
def Node.ofFields (fields : Fields) : Validated Node :=
  let rule := fields.required "rule" fun d => .ofKind (d.named? Rule.ofName?)
  let text := fields.required "text" fun d => .ofKind d.text?
  let start := fields.required "start" fun d => .ofKind d.natural?
  let stop := fields.required "end" fun d => .ofKind d.natural?
  let children := fields.optional "children" [] (Validated.listOf Datum.node?)
  (rule.both (text.both (start.both (stop.both children)))).map
    fun (rule, text, start, stop, children) => { rule, text, start, stop, children }

end Reckon
