/-
Climbing a row of one tier.

Where all operators of a row are of one tier, the right operand of each is the
operand just after it, since the next operator does not bind tighter.  Climbing
such a row is a loop over its operators.
-/
import Reckon.Proofs.Descent

namespace Reckon

namespace Evaluation

variable {α : Type} {A : Arithmetic α}

def climbOn (A : Arithmetic α) (least : Nat) (lhs : α) (items : List (Item α)) :
    Except Fault (α × List (Item α)) :=
  (climbFrom A least lhs items).map fun p => (p.1, p.2.val)

theorem climb_eq (least : Nat) (items : List (Item α)) :
    climb A least items =
      (operand A items >>= fun p => climbOn A least p.1 p.2) := by
  unfold climb climbOn
  cases operand A items with
  | error fault => rfl
  | ok p =>
    obtain ⟨first, rest⟩ := p
    show ((climbFrom A least first rest >>= fun q => .ok (q.1, q.2.val)) : Except Fault _) =
      (climbFrom A least first rest).map _
    cases climbFrom A least first rest <;> rfl

/-- The row is at its end, or goes on with an operator below the given tier. -/
def Stops (least : Nat) (items : List (Item α)) : Prop :=
  ∀ item rest, items = item :: rest → ∃ op, item.rule = .operator op ∧ op.tier < least

theorem stops_nil (least : Nat) : Stops least ([] : List (Item α)) := by
  intro item rest h
  cases h

theorem climbOn_of_stops {least : Nat} {lhs : α} {items : List (Item α)}
    (h : Stops least items) : climbOn A least lhs items = .ok (lhs, items) := by
  unfold climbOn
  cases items with
  | nil =>
    rw [climbFrom]
    rfl
  | cons item rest =>
    obtain ⟨op, hrule, htier⟩ := h item rest rfl
    rw [climbFrom]
    simp [hrule, Rule.operation?, htier, Except.map]

theorem climbOn_of_not_operator {least : Nat} {lhs : α} {item : Item α} {items : List (Item α)}
    (h : item.rule.operation? = none) :
    climbOn A least lhs (item :: items) = .error (.inconsistent (.noHandler item.rule)) := by
  unfold climbOn
  rw [climbFrom]
  simp [h, Except.map]

theorem climbOn_operator {least : Nat} {lhs : α} {item : Item α} {items : List (Item α)}
    {op : Operation} (hrule : item.rule = .operator op) (hleast : least ≤ op.tier) :
    climbOn A least lhs (item :: items) = (do
      let (first, rest) ← operand A items
      let (rhs, rest) ← climbOn A op.rightTier first rest
      let value ← place item.start (A.apply op lhs rhs)
      climbOn A least value rest) := by
  unfold climbOn
  rw [climbFrom]
  have hnot : ¬ op.tier < least := by omega
  simp only [hrule, Rule.operation?, hnot, if_false]
  split
  · next hop => simp [hop, bind, Except.bind, Except.map]
  · next first rest hop =>
    simp only [hop, bind, Except.bind]
    cases climbFrom A op.rightTier first rest with
    | error fault => rfl
    | ok p =>
      obtain ⟨rhs, rest', hrest⟩ := p
      simp only [Except.map]
      cases place item.start (A.apply op lhs rhs) with
      | error fault => rfl
      | ok value =>
        simp only
        cases climbFrom A least value rest' with
        | error fault => rfl
        | ok p => rfl

/-- An operator takes just the operand after it, if the row then stops. -/
theorem climbOn_link {least : Nat} {lhs : α} {item : Item α} {items rest : List (Item α)}
    {op : Operation} {v : Except Fault α} (hrule : item.rule = .operator op)
    (hleast : least ≤ op.tier)
    (hoperand : operand A items = v.map fun y => (y, rest)) (hstops : Stops op.rightTier rest) :
    climbOn A least lhs (item :: items) = (do
      let y ← v
      let value ← place item.start (A.apply op lhs y)
      climbOn A least value rest) := by
  rw [climbOn_operator hrule hleast, hoperand]
  cases v with
  | error fault => rfl
  | ok y =>
    have hright : climbOn A op.rightTier y rest = .ok (y, rest) := climbOn_of_stops hstops
    simp [Except.map, bind, Except.bind, hright]

theorem items_append (ns ms : List Node) : items A (ns ++ ms) = items A ns ++ items A ms := by
  induction ns with
  | nil => simp [items]
  | cons n ns ih => simp [items, ih]

end Evaluation
end Reckon
