/-
Reading a whole text, once or several times over.

A session keeps its place in the text and its frontier, so asking it again goes
on where it stopped.  A text is usually read by a session that is asked once.
-/
import Reckon.Fault
import Reckon.Reading.Expression

namespace Reckon

structure Session where
  text : Text
  cursor : Cursor
  frontier : Frontier

namespace Session

def ofText (t : Text) : Session :=
  { text := t, cursor := Cursor.ofText t, frontier := Frontier.empty }

def unexpected (frontier : Frontier) : Fault :=
  .unexpected frontier.furthest frontier.labels

/-- Read an expression that goes up to the end of the text.  Parentheses may
nest at most `limit` levels deep, and not at all if the limit is negative. -/
def recognize (limit : Int) (s : Session) : Except Fault Node × Session :=
  let reading := (Reader.expression limit.toNat).read s.cursor
  let frontier := s.frontier.recordAll reading.misses
  match reading.outcome with
  | .found expression next =>
    let stop := next.skipBlanks
    match stop.rest with
    | [] =>
      (.ok { rule := .equation, text := s.text, start := 0, stop := s.text.length,
             children := [expression] },
        { s with cursor := stop, frontier })
    | _ :: _ =>
      let frontier := frontier.record { pos := stop.pos, label := .endOfInput }
      (.error (unexpected frontier), { s with cursor := stop, frontier })
  | .missing next => (.error (unexpected frontier), { s with cursor := next, frontier })
  | .tooDeep start next => (.error (.tooDeep limit start), { s with cursor := next, frontier })

def answers (limit : Int) : Nat → Session → List (Except Fault Node)
  | 0, _ => []
  | times + 1, s => (s.recognize limit).1 :: answers limit times (s.recognize limit).2

end Session

/-- The tree of a text, which must be an expression from end to end. -/
def recognize (limit : Int) (t : Text) : Except Fault Node :=
  ((Session.ofText t).recognize limit).1

end Reckon
