/-
Reading a text from left to right.

A cursor is a place in a text: an offset, and the characters from there on.  A
reading is what comes of trying to read something at a cursor, together with
the misses on the way.  `Reading.andThen` is the only way readings are put in
sequence, and a `Reader` is a reading for every cursor that uses up characters
whenever it finds something, which is what lets a reader be repeated.
-/
import Reckon.Node
import Reckon.Reading.Miss

namespace Reckon

/-! ## Cursors -/

structure Cursor where
  pos : Nat
  rest : Text
  deriving DecidableEq, Repr

namespace Cursor

def ofText (t : Text) : Cursor := { pos := 0, rest := t }

def advance (c : Cursor) (n : Nat) : Cursor :=
  { pos := c.pos + n, rest := c.rest.drop n }

def skipBlanks (c : Cursor) : Cursor :=
  c.advance (c.rest.takeWhile Text.isBlank).length

/-- The node that covers the characters from one cursor to a later one. -/
def node (start : Cursor) (rule : Rule) (stop : Cursor) (children : List Node) : Node :=
  { rule, text := start.rest.take (stop.pos - start.pos), start := start.pos, stop := stop.pos,
    children }

theorem length_rest_advance (c : Cursor) (n : Nat) :
    (c.advance n).rest.length = c.rest.length - n := by
  simp [advance]

theorem length_rest_skipBlanks_le (c : Cursor) : c.skipBlanks.rest.length ≤ c.rest.length := by
  rw [skipBlanks, length_rest_advance]
  omega

end Cursor

/-! ## Readings -/

inductive Outcome (α : Type) where
  | found (value : α) (next : Cursor)
  /-- There is no such thing here; reading may go on from `next`. -/
  | missing (next : Cursor)
  /-- The construct that begins at `start` lies too deep, and its parenthesis
  ends at `next`. -/
  | tooDeep (start : Nat) (next : Cursor)

def Outcome.map (f : α → β) : Outcome α → Outcome β
  | .found value next => .found (f value) next
  | .missing next => .missing next
  | .tooDeep start next => .tooDeep start next

structure Reading (α : Type) where
  misses : List Miss
  outcome : Outcome α

namespace Reading

def found (value : α) (next : Cursor) : Reading α :=
  { misses := [], outcome := .found value next }

def missing (next : Cursor) : Reading α :=
  { misses := [], outcome := .missing next }

def tooDeep (start : Nat) (next : Cursor) : Reading α :=
  { misses := [], outcome := .tooDeep start next }

def after (ms : List Miss) (r : Reading α) : Reading α :=
  { r with misses := ms ++ r.misses }

/-- Go on with `onFound` or with `onMissing`.  A construct that lies too deep
ends the whole reading. -/
def andThen (r : Reading α) (onFound : α → Cursor → Reading β) (onMissing : Cursor → Reading β) :
    Reading β :=
  match r.outcome with
  | .found value next => (onFound value next).after r.misses
  | .missing next => (onMissing next).after r.misses
  | .tooDeep start next => (tooDeep start next).after r.misses

def map (f : α → β) (r : Reading α) : Reading β :=
  { r with outcome := r.outcome.map f }

/-- What a reading finds lies before `n` characters from the end of the text. -/
def Leaves (r : Reading α) (n : Nat) : Prop :=
  ∀ value next, r.outcome = .found value next → next.rest.length < n

theorem leaves_found {value : α} {next : Cursor} {n : Nat} (h : next.rest.length < n) :
    (found value next).Leaves n := by
  rintro _ _ ⟨⟩
  exact h

theorem leaves_missing (next : Cursor) (n : Nat) : (missing next : Reading α).Leaves n := by
  rintro _ _ ⟨⟩

theorem leaves_tooDeep (start : Nat) (next : Cursor) (n : Nat) :
    (tooDeep start next : Reading α).Leaves n := by
  rintro _ _ ⟨⟩

theorem Leaves.after {r : Reading α} {n : Nat} (h : r.Leaves n) (ms : List Miss) :
    (r.after ms).Leaves n :=
  h

theorem Leaves.mono {r : Reading α} {n m : Nat} (h : r.Leaves n) (hnm : n ≤ m) : r.Leaves m :=
  fun value next hr => Nat.lt_of_lt_of_le (h value next hr) hnm

theorem Leaves.map {r : Reading α} {n : Nat} (h : r.Leaves n) (f : α → β) :
    (r.map f).Leaves n := by
  intro value next hmap
  cases hr : r.outcome with
  | found v m =>
    rw [Reading.map, hr] at hmap
    cases hmap
    exact h v next hr
  | missing m => simp [Reading.map, hr, Outcome.map] at hmap
  | tooDeep s m => simp [Reading.map, hr, Outcome.map] at hmap

theorem leaves_andThen {r : Reading α} {onFound : α → Cursor → Reading β}
    {onMissing : Cursor → Reading β} {n : Nat}
    (hfound : ∀ value next, r.outcome = .found value next → (onFound value next).Leaves n)
    (hmissing : ∀ next, (onMissing next).Leaves n) : (r.andThen onFound onMissing).Leaves n := by
  unfold andThen
  split
  · next value next h => exact (hfound value next h).after _
  · next next h => exact (hmissing next).after _
  · exact (leaves_tooDeep _ _ n).after _

end Reading

/-! ## Readers -/

/-- A reading for every cursor, which uses up characters when it finds
something. -/
structure Reader (α : Type) where
  read : Cursor → Reading α
  progress : ∀ c, (read c).Leaves c.rest.length

end Reckon
