/-
Lines and columns.

A place in a text is named by its line and its column, both counted from one.
Only a line feed ends a line.  A negative position counts from the end of the
text when the characters before it are looked at, and is itself when its
distance from the beginning of its line is taken.
-/
import Reckon.Text.Basic

namespace Reckon
namespace Text

def before (t : Text) (position : Int) : Text :=
  t.take (if position < 0 then (t.length + position).toNat else position.toNat)

def lastLineStart (t : Text) : Nat :=
  (t.reverse.dropWhile (· != '\n')).length

def line (t : Text) (position : Int) : Nat :=
  (before t position).count '\n' + 1

def column (t : Text) (position : Int) : Int :=
  position - lastLineStart (before t position) + 1

end Text
end Reckon
