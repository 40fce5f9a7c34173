/-
Reading further on.

Readers never look back, so what they read depends on the rest of the text and
on the offset only through the offsets that they report.  Reading with the same
rest at a higher offset comes to the same, all of it that much further on.
-/
import Reckon.Proofs.Relocation
import Reckon.Proofs.TokenReading
import Reckon.Reading.Session

namespace Reckon

/-! ## What is read, further on -/

namespace Cursor

/-- The cursor before the same rest of a text that is `k` characters longer at
its beginning. -/
def shift (c : Cursor) (k : Nat) : Cursor :=
  { c with pos := c.pos + k }

@[simp] theorem shift_pos (c : Cursor) (k : Nat) : (c.shift k).pos = c.pos + k := rfl

@[simp] theorem shift_rest (c : Cursor) (k : Nat) : (c.shift k).rest = c.rest := rfl

theorem shift_advance (c : Cursor) (k n : Nat) :
    (c.shift k).advance n = (c.advance n).shift k := by
  simp [advance, shift, Nat.add_right_comm]

theorem shift_skipBlanks (c : Cursor) (k : Nat) :
    (c.shift k).skipBlanks = c.skipBlanks.shift k :=
  c.shift_advance k _

theorem node_shift (start stop : Cursor) (k : Nat) (rule : Rule) (children : List Node) :
    (start.shift k).node rule (stop.shift k) (children.map (Node.relocate (· + k))) =
      (start.node rule stop children).relocate (· + k) := by
  simp [node, Node.relocate, Node.relocateAll_eq_map, Nat.add_sub_add_right]

theorem node_shift_nil (start stop : Cursor) (k : Nat) (rule : Rule) :
    (start.shift k).node rule (stop.shift k) [] =
      (start.node rule stop []).relocate (· + k) :=
  node_shift start stop k rule []

end Cursor

def Miss.shift (m : Miss) (k : Nat) : Miss :=
  { m with pos := m.pos + k }

@[simp] theorem Miss.shift_pos (m : Miss) (k : Nat) : (m.shift k).pos = m.pos + k := rfl

theorem Cursor.miss_shift (c : Cursor) (k : Nat) (l : Label) :
    (c.shift k).miss l = (c.miss l).shift k := by
  rw [miss, shift_skipBlanks]
  rfl

/-- What is found, is missing or lies too deep, further on.  A value that is
found is changed by `g`. -/
def Outcome.shift (k : Nat) (g : α → β) : Outcome α → Outcome β
  | .found value next => .found (g value) (next.shift k)
  | .missing next => .missing (next.shift k)
  | .tooDeep start next => .tooDeep (start + k) (next.shift k)

namespace Reading

def shift (k : Nat) (g : α → β) (r : Reading α) : Reading β :=
  { misses := r.misses.map (·.shift k), outcome := r.outcome.shift k g }

section

variable {k : Nat} {g : α → α'} {g' : β → β'}

@[simp] theorem shift_found (value : α) (next : Cursor) :
    (found value next).shift k g = found (g value) (next.shift k) := rfl

@[simp] theorem shift_missing (next : Cursor) :
    (missing next).shift k g = missing (next.shift k) := rfl

@[simp] theorem shift_tooDeep (start : Nat) (next : Cursor) :
    (tooDeep start next).shift k g = tooDeep (start + k) (next.shift k) := rfl

@[simp] theorem shift_after (ms : List Miss) (r : Reading α) :
    (r.after ms).shift k g = (r.shift k g).after (ms.map (·.shift k)) := by
  simp [after, shift]

theorem shift_map {f : α → β} {f' : α' → β'} (hf : ∀ value, f' (g value) = g' (f value))
    (r : Reading α) : (r.map f).shift k g' = (r.shift k g).map f' := by
  obtain ⟨misses, outcome⟩ := r
  cases outcome <;> simp [map, shift, Outcome.map, Outcome.shift, hf]

theorem shift_andThen (r : Reading α) {f : α → Cursor → Reading β}
    {f' : α' → Cursor → Reading β'} {h : Cursor → Reading β} {h' : Cursor → Reading β'}
    (hfound : ∀ value next, r.outcome = .found value next →
      f' (g value) (next.shift k) = (f value next).shift k g')
    (hmissing : ∀ next, h' (next.shift k) = (h next).shift k g') :
    (r.shift k g).andThen f' h' = (r.andThen f h).shift k g' := by
  obtain ⟨misses, outcome⟩ := r
  cases outcome with
  | found value next => simp [andThen, shift, Outcome.shift, hfound value next rfl, after]
  | missing next => simp [andThen, shift, Outcome.shift, hmissing, after]
  | tooDeep start next => simp [andThen, shift, Outcome.shift, after, tooDeep]

end

end Reading

/-! ## Tokens -/

namespace Token

variable (k : Nat) (c : Cursor)

theorem fixed_shift (spelling : Text) (label : Label) :
    fixed spelling label (c.shift k) = (fixed spelling label c).shift k (·.shift k) := by
  unfold fixed
  simp only [c.shift_skipBlanks, Cursor.shift_rest, Cursor.shift_advance]
  split <;> rfl

theorem operatorAt_shift (ops : List Operation) :
    operatorAt (c.shift k) ops = (operatorAt c ops).shift k (Node.relocate (· + k)) := by
  induction ops with
  | nil => rfl
  | cons op ops ih =>
    unfold operatorAt
    simp only [Cursor.shift_rest, Cursor.shift_advance, Cursor.node_shift_nil, ih]
    split
    · rfl
    · simp [Miss.shift]

theorem operator_shift (ops : List Operation) :
    operator ops (c.shift k) = (operator ops c).shift k (Node.relocate (· + k)) := by
  rw [operator, c.shift_skipBlanks, operatorAt_shift]
  rfl

theorem number_shift : number (c.shift k) = (number c).shift k (Node.relocate (· + k)) := by
  unfold number
  simp only [Cursor.shift_rest, Cursor.shift_advance, Cursor.node_shift_nil]
  split <;> rfl

theorem functionName_shift :
    functionName (c.shift k) = (functionName c).shift k (Node.relocate (· + k)) := by
  unfold functionName
  simp only [Cursor.shift_rest, Cursor.shift_advance, Cursor.node_shift_nil]
  split <;> rfl

end Token

/-! ## Operands -/

/-- Wherever it is used, the reader reads the same further on. -/
def Reader.Shifts (r : Reader α) (g : Nat → α → α) : Prop :=
  ∀ k c, r.read (c.shift k) = (r.read c).shift k (g k)

namespace Reading

section

variable {inner : Option (Reader Node)}
  (h : ∀ r, inner = some r → r.Shifts fun k => Node.relocate (· + k)) (k : Nat) (c : Cursor)
include h

theorem enclosed_shift (rule : Rule) (start : Cursor) (before : List Node) :
    enclosed inner rule (start.shift k) (before.map (Node.relocate (· + k))) (c.shift k) =
      (enclosed inner rule start before c).shift k (Node.relocate (· + k)) := by
  cases inner with
  | none => rfl
  | some r =>
    simp only [enclosed, h r rfl k c]
    refine shift_andThen _ (fun body next _ => ?_) fun _ => rfl
    rw [Token.fixed_shift]
    refine shift_andThen _ (fun _ stop _ => ?_) fun _ => rfl
    rw [shift_found, ← Cursor.node_shift, List.map_append, List.map_singleton]

theorem functionCall_shift :
    functionCall inner (c.shift k) =
      (functionCall inner c).shift k (Node.relocate (· + k)) := by
  unfold functionCall
  simp only [c.shift_skipBlanks, Token.functionName_shift]
  refine shift_andThen _ (fun name next _ => ?_) fun _ => rfl
  rw [Token.fixed_shift]
  exact shift_andThen _ (fun _ next _ => enclosed_shift h k next .functionCall _ [name])
    fun _ => rfl

theorem primary_shift :
    primary inner (c.shift k) = (primary inner c).shift k (Node.relocate (· + k)) := by
  unfold primary
  simp only [c.shift_skipBlanks, Token.number_shift, Token.fixed_shift]
  refine shift_andThen _ (fun _ _ _ => rfl) fun _ => ?_
  exact shift_andThen _ (fun _ next _ => enclosed_shift h k next .group _ [])
    fun _ => functionCall_shift h k _

theorem unary_shift :
    unary inner (c.shift k) = (unary inner c).shift k (List.map (Node.relocate (· + k))) := by
  unfold unary
  rw [Token.fixed_shift]
  refine shift_andThen _ (fun start next _ => ?_) fun next => ?_
  · rw [primary_shift h]
    refine shift_andThen _ (fun operand stop _ => ?_) fun _ => rfl
    rw [Cursor.node_shift_nil]
    rfl
  · rw [primary_shift h]
    exact shift_andThen _ (fun _ _ _ => rfl) fun _ => rfl

end

/-! ## Sequences of operands -/

section

variable {operand : Reader (List Node)}
  (h : operand.Shifts fun k => List.map (Node.relocate (· + k))) (ops : List Operation) (k : Nat)
include h

/-- The induction is on what is left of the text. -/
theorem tail_shift (c : Cursor) :
    tail operand ops (c.shift k) =
      (tail operand ops c).shift k (List.map (Node.relocate (· + k))) := by
  rw [tail_eq, tail_eq, Token.operator_shift]
  refine shift_andThen _ (fun op next hop => ?_) fun _ => rfl
  rw [h k next]
  refine shift_andThen _ (fun nodes stop hnodes => ?_) fun _ => rfl
  have hsign := Token.leaves_operator ops c _ _ hop
  have hright := operand.progress _ _ _ hnodes
  rw [tail_shift stop]
  exact (shift_map (fun more => by simp) _).symm
termination_by c.rest.length

theorem sequence_shift (rule : Rule) (c : Cursor) :
    sequence rule operand ops (c.shift k) =
      (sequence rule operand ops c).shift k (Node.relocate (· + k)) := by
  unfold sequence
  simp only [c.shift_skipBlanks, h k c.skipBlanks]
  refine shift_andThen _ (fun nodes next _ => ?_) fun _ => rfl
  rw [tail_shift h]
  refine shift_andThen _ (fun more stop _ => ?_) fun _ => rfl
  rw [shift_found, ← Cursor.node_shift, List.map_append]

end

end Reading

/-! ## Expressions -/

namespace Reader

open Reading

theorem shifts_expressionOver {inner : Option (Reader Node)}
    (h : ∀ r, inner = some r → r.Shifts fun k => Node.relocate (· + k)) :
    (expressionOver inner).Shifts fun k => Node.relocate (· + k) := by
  have hunary : (unary inner).Shifts fun k => List.map (Node.relocate (· + k)) :=
    fun k c => unary_shift h k c
  have hterm : (termAlone inner).Shifts fun k => List.map (Node.relocate (· + k)) := by
    intro k c
    have hread : (term inner).read (c.shift k) =
        ((term inner).read c).shift k (Node.relocate (· + k)) := sequence_shift hunary _ k _ c
    simp only [termAlone, hread]
    exact (shift_map (by simp) _).symm
  exact fun k c => sequence_shift hterm _ k _ c

theorem shifts_expression (room : Nat) :
    (expression room).Shifts fun k => Node.relocate (· + k) := by
  induction room with
  | zero => exact shifts_expressionOver nofun
  | succ room ih => exact shifts_expressionOver fun r hr => Option.some.inj hr ▸ ih

end Reader
end Reckon
