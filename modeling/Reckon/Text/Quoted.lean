/-
Quoted texts.

A quoted text stands between two marks, with the marks, the backslashes and the
characters that have no visible form escaped.  It is one line, whatever the
text is.
-/
import Reckon.Text.Printable

namespace Reckon
namespace Text

def hexDigits : Nat → Nat → Text
  | 0, _ => []
  | width + 1, n => hexDigits width (n / 16) ++ [Nat.digitChar (n % 16)]

def apostrophe : Char := '\x27'

def doubleQuote : Char := '\x22'

/-- The mark that stands on both sides: an apostrophe, unless the text holds an
apostrophe and no double quote. -/
def quoteMark (t : Text) : Char :=
  if t.contains apostrophe && !t.contains doubleQuote then doubleQuote else apostrophe

def escape (mark c : Char) : Text :=
  if c == '\\' || c == mark then ['\\', c]
  else if c == '\n' then ['\\', 'n']
  else if c == '\r' then ['\\', 'r']
  else if c == '\t' then ['\\', 't']
  else if isPrintable c then [c]
  else if c.toNat < 0x100 then ['\\', 'x'] ++ hexDigits 2 c.toNat
  else if c.toNat < 0x10000 then ['\\', 'u'] ++ hexDigits 4 c.toNat
  else ['\\', 'U'] ++ hexDigits 8 c.toNat

def quote (t : Text) : Text :=
  quoteMark t :: t.flatMap (escape (quoteMark t)) ++ [quoteMark t]

def quoted (t : Text) : String :=
  String.ofList (quote t)

end Text
end Reckon
