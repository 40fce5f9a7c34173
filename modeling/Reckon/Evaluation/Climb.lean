/-
Precedence climbing.

The children of an expression or a term are a flat row of operands, operators
and minus signs.  An operand takes the minus signs before it.  After it the next
operator is taken if it binds at least as tightly as the current minimum, its
right operand is climbed with the minimum raised past the operator, and the two
are combined.

Climbing does not look into operands: each comes with its value or with the
fault that keeps it from having one, and a fault counts when its operand is
reached.
-/
import Reckon.Arithmetic.Basic
import Reckon.Node

namespace Reckon

structure Item (α : Type) where
  rule : Rule
  start : Nat
  value : Except Fault α

namespace Evaluation

/-- What an arithmetic does not refuse, and otherwise the fault at a place. -/
def place (position : Nat) : Except Refusal α → Except Fault α
  | .ok value => .ok value
  | .error refusal => .error (.refused refusal position)

/-- The minus signs and the operand at the front of a row, as one value, and
the rest of the row.  The sign nearest to the operand applies first. -/
def operand (A : Arithmetic α) : List (Item α) → Except Fault (α × List (Item α))
  | [] => .error (.inconsistent .missingOperand)
  | item :: items =>
    if item.rule = .unaryMinus then do
      let (value, rest) ← operand A items
      let value ← place item.start (A.negate value)
      .ok (value, rest)
    else do
      let value ← item.value
      .ok (value, items)

theorem length_lt_of_operand {A : Arithmetic α} {items rest : List (Item α)} {value : α}
    (h : operand A items = .ok (value, rest)) : rest.length < items.length := by
  induction items generalizing value rest with
  | nil => cases h
  | cons item items ih =>
    unfold operand at h
    split at h
    · cases hop : operand A items with
      | error fault => simp [hop, bind, Except.bind] at h
      | ok p =>
        simp only [hop, bind, Except.bind] at h
        split at h
        · cases h
        · cases h
          exact Nat.lt_succ_of_lt (ih hop)
    · cases hv : item.value with
      | error fault => simp [hv, bind, Except.bind] at h
      | ok v =>
        simp only [hv, bind, Except.bind] at h
        cases h
        exact Nat.lt_succ_self _

/-- Combine a value with the operators and operands that follow it, as long as
the operators are of tier `least` or above.  The rest of the row is what is left,
with the proof that it is not longer, which lets climbing be repeated on it. -/
def climbFrom (A : Arithmetic α) (least : Nat) (lhs : α) (items : List (Item α)) :
    Except Fault (α × { rest : List (Item α) // rest.length ≤ items.length }) :=
  match items with
  | [] => .ok (lhs, ⟨[], Nat.le_refl _⟩)
  | item :: items =>
    match item.rule.operation? with
    | none => .error (.inconsistent (.noHandler item.rule))
    | some op =>
      if op.tier < least then .ok (lhs, ⟨item :: items, Nat.le_refl _⟩)
      else
        match hop : operand A items with
        | .error fault => .error fault
        | .ok (first, rest) =>
          have := length_lt_of_operand hop
          match climbFrom A op.rightTier first rest with
          | .error fault => .error fault
          | .ok (rhs, ⟨rest', hrest⟩) =>
            match place item.start (A.apply op lhs rhs) with
            | .error fault => .error fault
            | .ok value =>
              match climbFrom A least value rest' with
              | .error fault => .error fault
              | .ok (value, ⟨last, hlast⟩) =>
                .ok (value, ⟨last, by simp only [List.length_cons]; omega⟩)
termination_by items.length

/-- The value of the front of a row whose operators are of tier `least` or
above, and the rest of the row. -/
def climb (A : Arithmetic α) (least : Nat) (items : List (Item α)) :
    Except Fault (α × List (Item α)) := do
  let (first, rest) ← operand A items
  let (value, rest) ← climbFrom A least first rest
  .ok (value, rest.val)

end Evaluation
end Reckon
