/-
Evaluation on record.

Where a tree does not match the evaluator, that is put on record at once, before
it stops the evaluation.  So the evaluator is gone through again here with the
records beside it.  An operand of a row is not evaluated before climbing reaches
it, and leaves no record if it is never reached.
-/
import Reckon.Evaluation.Reduce
import Reckon.Journal

namespace Reckon

/-- A computation that leaves records on its way to a value or to a fault. -/
abbrev Recorded (α : Type) := ExceptT Fault (StateM (List Record)) α

namespace Recorded

def outcome (x : Recorded α) : Except Fault α := (x.run.run []).1

/-- The records that are left, the first one first. -/
def records (x : Recorded α) : List Record := (x.run.run []).2

def record (r : Record) : StateM (List Record) Unit :=
  modify fun records => records ++ [r]

def mismatchRecord (expression : Text) (m : Mismatch) : Record :=
  { severity := .error
    message :=
      s!"🧩❌ Parse tree does not match the evaluator: {m.detail} in {Text.quoted expression}" }

/-- Put a mismatch on record and stop. -/
def unhandled (expression : Text) (m : Mismatch) : Recorded α := do
  record (mismatchRecord expression m)
  throw (.inconsistent m)

/-! ## Climbing -/

structure Item (α : Type) where
  rule : Rule
  start : Nat
  value : Recorded α

variable (expression : Text) (A : Arithmetic α)

def operand : (items : List (Item α)) →
    Recorded (α × { rest : List (Item α) // rest.length < items.length })
  | [] => unhandled expression .missingOperand
  | item :: items =>
    if item.rule = .unaryMinus then do
      let (value, ⟨rest, hrest⟩) ← operand items
      let value ← Evaluation.place item.start (A.negate value)
      return (value, ⟨rest, Nat.lt_succ_of_lt hrest⟩)
    else do
      let value ← item.value
      return (value, ⟨items, Nat.lt_succ_self _⟩)

def climbFrom (least : Nat) (lhs : α) (items : List (Item α)) :
    Recorded (α × { rest : List (Item α) // rest.length ≤ items.length }) :=
  match items with
  | [] => return (lhs, ⟨[], Nat.le_refl _⟩)
  | item :: items =>
    match item.rule.operation? with
    | none => unhandled expression (.noHandler item.rule)
    | some op =>
      if op.tier < least then return (lhs, ⟨item :: items, Nat.le_refl _⟩)
      else do
        let (first, ⟨rest, hrest⟩) ← operand expression A items
        let (rhs, ⟨rest', hrest'⟩) ← climbFrom op.rightTier first rest
        let value ← Evaluation.place item.start (A.apply op lhs rhs)
        let (value, ⟨last, hlast⟩) ← climbFrom least value rest'
        have hle := Nat.le_trans hlast (Nat.le_trans hrest' (Nat.le_of_lt hrest))
        return (value, ⟨last, Nat.le_succ_of_le hle⟩)
termination_by items.length

def climb (least : Nat) (items : List (Item α)) : Recorded (α × List (Item α)) := do
  let (first, ⟨rest, _⟩) ← operand expression A items
  let (value, ⟨rest, _⟩) ← climbFrom expression A least first rest
  return (value, rest)

/-! ## Trees -/

def row (items : List (Item α)) : Recorded α := do
  let (value, rest) ← climb expression A Operation.loosestTier items
  match rest with
  | [] => return value
  | item :: _ => unhandled expression (.noHandler item.rule)

def function (name : Text) : Recorded Function :=
  match Function.ofName? name with
  | some f => return f
  | none => unhandled expression (.unknownFunction name)

mutual

def reduce : Node → Recorded α
  | ⟨.group, _, _, _, [child]⟩ =>
    if child.rule = .expression then reduce child
    else unhandled expression (.noHandler .group)
  | ⟨.expression, _, _, _, [child]⟩ => reduce child
  | ⟨.expression, _, _, _, children⟩ => row expression A (items children)
  | ⟨.term, _, _, _, [child]⟩ => reduce child
  | ⟨.term, _, _, _, children⟩ => row expression A (items children)
  | ⟨.number, text, start, _, _⟩ => Evaluation.place start (A.literal text)
  | ⟨.functionCall, _, start, _, [name, argument]⟩ =>
    if name.rule = .functionName ∧ argument.rule = .expression then do
      let f ← function expression name.text
      let x ← reduce argument
      Evaluation.place start (A.call f x)
    else unhandled expression (.noHandler .functionCall)
  | ⟨rule, _, _, _, _⟩ => unhandled expression (.noHandler rule)

def items : List Node → List (Item α)
  | [] => []
  | n :: ns => { rule := n.rule, start := n.start, value := reduce n } :: items ns

end

def evaluate (root : Node) : Recorded α :=
  match root.rule, root.children with
  | .equation, [child] => reduce expression A child
  | _, _ => unhandled expression (.noHandler root.rule)

end Recorded
end Reckon
