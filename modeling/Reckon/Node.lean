/-
The tree of an expression.

A node says which construct it stands for, which characters it covers and which
nodes it is made of.  A tree may also be put together by hand, so nothing here
ties a text to its offsets or a rule to its children.
-/
import Reckon.Grammar

namespace Reckon

structure Node where
  rule : Rule
  text : Text
  start : Nat
  stop : Nat
  children : List Node

namespace Node

def rules (n : Node) : List Rule :=
  n.children.map rule

end Node
end Reckon
