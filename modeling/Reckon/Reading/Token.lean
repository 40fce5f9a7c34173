/-
The tokens of the language.

Blanks before a token are stepped over, whether or not the token is there.  A
token that is not there is a miss at the first character that is no blank.
-/
import Reckon.Reading.Cursor

namespace Reckon
namespace Token

/-- Read a fixed spelling.  Its value is the cursor at which the token begins. -/
def fixed (spelling : Text) (label : Label) (c : Cursor) : Reading Cursor :=
  let start := c.skipBlanks
  if spelling.isPrefixOf start.rest then
    .found start (start.advance spelling.length)
  else
    (Reading.missing start).after [{ pos := start.pos, label }]

/-- Read one of the given operators at a cursor that stands on no blank. -/
def operatorAt (start : Cursor) : List Operation → Reading Node
  | [] => .missing start
  | op :: ops =>
    match op.spellings.find? (·.isPrefixOf start.rest) with
    | some spelling =>
      let stop := start.advance spelling.length
      .found (start.node (.operator op) stop []) stop
    | none => (operatorAt start ops).after [{ pos := start.pos, label := .operator op }]

/-- Read one of the given operators, the first that is spelled out here. -/
def operator (ops : List Operation) (c : Cursor) : Reading Node :=
  operatorAt c.skipBlanks ops

/-- The longest numeral that begins a text: digits, and after a point digits
again.  There is none if the text does not begin with a digit. -/
def numeral (t : Text) : Text :=
  match t.takeWhile Text.isDigit with
  | [] => []
  | whole =>
    match t.drop whole.length with
    | '.' :: more =>
      match more.takeWhile Text.isDigit with
      | [] => whole
      | fraction => whole ++ '.' :: fraction
    | _ => whole

def number (start : Cursor) : Reading Node :=
  match numeral start.rest with
  | [] => (Reading.missing start).after [{ pos := start.pos, label := .number }]
  | digits =>
    let stop := start.advance digits.length
    .found (start.node .number stop []) stop

def functionName (start : Cursor) : Reading Node :=
  match Function.all.find? (·.name.isPrefixOf start.rest) with
  | some f =>
    let stop := start.advance f.name.length
    .found (start.node .functionName stop []) stop
  | none => (Reading.missing start).after [{ pos := start.pos, label := .functionName }]

/-! ## Every token uses up characters -/

theorem length_rest_advance_lt {c : Cursor} {s : Text} (hs : s ≠ [])
    (h : s.isPrefixOf c.rest = true) : (c.advance s.length).rest.length < c.rest.length := by
  have hle := (List.isPrefixOf_iff_prefix.mp h).length_le
  have hpos := List.length_pos_iff.mpr hs
  rw [Cursor.length_rest_advance]
  omega

theorem leaves_fixed {spelling : Text} (hs : spelling ≠ []) (label : Label) (c : Cursor) :
    (fixed spelling label c).Leaves c.rest.length := by
  unfold fixed
  dsimp only
  split
  · next h =>
    exact Reading.leaves_found (Nat.lt_of_lt_of_le (length_rest_advance_lt hs h)
      c.length_rest_skipBlanks_le)
  · exact (Reading.leaves_missing _ _).after _

theorem leaves_operatorAt (start : Cursor) (ops : List Operation) :
    (operatorAt start ops).Leaves start.rest.length := by
  induction ops with
  | nil => exact Reading.leaves_missing _ _
  | cons op ops ih =>
    unfold operatorAt
    split
    · next spelling h =>
      exact Reading.leaves_found (length_rest_advance_lt
        (Operation.spellings_ne_nil (List.mem_of_find?_eq_some h))
        (by simpa using List.find?_some h))
    · exact ih.after _

theorem leaves_operator (ops : List Operation) (c : Cursor) :
    (operator ops c).Leaves c.rest.length :=
  (leaves_operatorAt c.skipBlanks ops).mono c.length_rest_skipBlanks_le

theorem leaves_number (start : Cursor) : (number start).Leaves start.rest.length := by
  unfold number
  split
  · exact (Reading.leaves_missing _ _).after _
  · next h =>
    refine Reading.leaves_found ?_
    rw [Cursor.length_rest_advance]
    have hrest : start.rest ≠ [] := fun hnil => h (by rw [hnil]; rfl)
    have := List.length_pos_iff.mpr hrest
    have := List.length_pos_iff.mpr h
    omega

theorem name_ne_nil (f : Function) : f.name ≠ [] := by
  cases f <;> decide

theorem leaves_functionName (start : Cursor) :
    (functionName start).Leaves start.rest.length := by
  unfold functionName
  split
  · next f h =>
    exact Reading.leaves_found
      (length_rest_advance_lt (name_ne_nil f) (by simpa using List.find?_some h))
  · exact (Reading.leaves_missing _ _).after _

end Token
end Reckon
