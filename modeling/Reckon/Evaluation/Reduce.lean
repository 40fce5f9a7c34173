/-
The value of a tree.

Every construct has the value of what it is made of: a group that of its
expression, an expression or a term that of its row of operands, a call that of
its function on its argument.  A tree put together by hand may hold something
else where the grammar has one of these, and is then inconsistent.
-/
import Reckon.Evaluation.Climb

namespace Reckon
namespace Evaluation

def noHandler (n : Node) : Except Fault α :=
  .error (.inconsistent (.noHandler n.rule))

/-- The value of a whole row.  What climbing leaves over has no place in it. -/
def row (A : Arithmetic α) (items : List (Item α)) : Except Fault α := do
  let (value, rest) ← climb A Operation.loosestTier items
  match rest with
  | [] => .ok value
  | item :: _ => .error (.inconsistent (.noHandler item.rule))

def function (name : Text) : Except Fault Function :=
  match Function.ofName? name with
  | some f => .ok f
  | none => .error (.inconsistent (.unknownFunction name))

mutual

/-- The value of a node that is an operand.  An expression or a term with one
child has the value of the child, and groups and single children are stepped
through one after another. -/
def reduce (A : Arithmetic α) : Node → Except Fault α
  | ⟨.group, _, _, _, [child]⟩ =>
    if child.rule = .expression then reduce A child
    else .error (.inconsistent (.noHandler .group))
  | ⟨.expression, _, _, _, [child]⟩ => reduce A child
  | ⟨.expression, _, _, _, children⟩ => row A (items A children)
  | ⟨.term, _, _, _, [child]⟩ => reduce A child
  | ⟨.term, _, _, _, children⟩ => row A (items A children)
  | ⟨.number, text, start, _, _⟩ => place start (A.literal text)
  | ⟨.functionCall, _, start, _, [name, argument]⟩ =>
    if name.rule = .functionName ∧ argument.rule = .expression then do
      let f ← function name.text
      let x ← reduce A argument
      place start (A.call f x)
    else .error (.inconsistent (.noHandler .functionCall))
  | ⟨rule, _, _, _, _⟩ => .error (.inconsistent (.noHandler rule))

def items (A : Arithmetic α) : List Node → List (Item α)
  | [] => []
  | n :: ns => { rule := n.rule, start := n.start, value := reduce A n } :: items A ns

end

/-- The value of a whole tree, whose root must be an equation over one node. -/
def evaluate (A : Arithmetic α) (root : Node) : Except Fault α :=
  match root.rule, root.children with
  | .equation, [child] => reduce A child
  | _, _ => noHandler root

end Evaluation
end Reckon
