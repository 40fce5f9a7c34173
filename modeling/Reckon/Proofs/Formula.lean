/-
What a tree means.

A formula says which steps are taken on which operands.  Its value is that of
its operands from left to right and then of its own step, and the first step
without a value stops it, at the place where the step is written.

A tree of the grammar is read as a formula without regard to tiers: an
expression and a term are left folds over their operands, a minus sign belongs
to the operand just after it, and groups leave no trace.
-/
import Reckon.Evaluation.Reduce
import Reckon.Proofs.Derivation

namespace Reckon

/-- Each step has the offset at which its literal, sign, operator or call
begins. -/
inductive Formula where
  | literal (start : Nat) (text : Text)
  | negation (start : Nat) (operand : Formula)
  | operation (op : Operation) (start : Nat) (left right : Formula)
  | call (f : Function) (start : Nat) (argument : Formula)
  deriving DecidableEq, Repr

namespace Formula

open Evaluation

/-! ## Values -/

def value (A : Arithmetic α) : Formula → Except Fault α
  | literal start text => place start (A.literal text)
  | negation start operand => do
    let x ← operand.value A
    place start (A.negate x)
  | operation op start left right => do
    let x ← left.value A
    let y ← right.value A
    place start (A.apply op x y)
  | call f start argument => do
    let x ← argument.value A
    place start (A.call f x)

/-! ## Left folds -/

structure Link where
  op : Operation
  start : Nat
  operand : Formula

def leftFold (first : Formula) (links : List Link) : Formula :=
  links.foldl (fun left link => operation link.op link.start left link.operand) first

def foldValue (A : Arithmetic α) : α → List Link → Except Fault α
  | x, [] => .ok x
  | x, link :: links => do
    let y ← link.operand.value A
    let z ← place link.start (A.apply link.op x y)
    foldValue A z links

theorem value_leftFold (A : Arithmetic α) (first : Formula) (links : List Link) :
    (leftFold first links).value A = (first.value A >>= fun x => foldValue A x links) := by
  induction links generalizing first with
  | nil =>
    show first.value A = (first.value A >>= Except.ok)
    cases first.value A <;> rfl
  | cons link links ih =>
    have hfold : leftFold first (link :: links) =
      leftFold (operation link.op link.start first link.operand) links := rfl
    rw [hfold, ih, value]
    cases first.value A with
    | error fault => rfl
    | ok x =>
      cases hy : link.operand.value A with
      | error fault => simp [foldValue, hy, bind, Except.bind]
      | ok y => simp [foldValue, hy, bind, Except.bind]

/-! ## Places -/

/-- Every step is written before an offset, and every literal is a numeral. -/
def Within (length : Nat) : Formula → Prop
  | literal start text => start < length ∧ Text.IsNumeral text
  | negation start operand => start < length ∧ operand.Within length
  | operation _ start left right => start < length ∧ left.Within length ∧ right.Within length
  | call _ start argument => start < length ∧ argument.Within length

theorem within_leftFold {length : Nat} {first : Formula} {links : List Link}
    (hfirst : first.Within length)
    (hlinks : ∀ link ∈ links, link.start < length ∧ link.operand.Within length) :
    (leftFold first links).Within length := by
  induction links generalizing first with
  | nil => exact hfirst
  | cons link links ih =>
    obtain ⟨hstart, hoperand⟩ := hlinks link List.mem_cons_self
    exact ih ⟨hstart, hfirst, hoperand⟩ fun link' h => hlinks link' (List.mem_cons_of_mem _ h)

end Formula

/-! ## Reading trees -/

/-- A node of a row, with the formula that it is read as on its own. -/
structure Piece where
  rule : Rule
  start : Nat
  formula? : Option Formula

namespace Piece

open Formula

/-- The operand at the front of a row, with the minus sign before it. -/
def operand? : List Piece → Option (Formula × List Piece)
  | ⟨.unaryMinus, start, _⟩ :: ⟨_, _, some φ⟩ :: rest => some (.negation start φ, rest)
  | ⟨_, _, some φ⟩ :: rest => some (φ, rest)
  | _ => none

def links? (ops : List Operation) : List Piece → Option (List Link)
  | [] => some []
  | ⟨.operator op, start, _⟩ :: ⟨.unaryMinus, sign, _⟩ :: ⟨_, _, some φ⟩ :: rest =>
    if op ∈ ops then (links? ops rest).map (⟨op, start, .negation sign φ⟩ :: ·) else none
  | ⟨.operator op, start, _⟩ :: ⟨_, _, some φ⟩ :: rest =>
    if op ∈ ops then (links? ops rest).map (⟨op, start, φ⟩ :: ·) else none
  | _ => none

theorem links?_operator {ops : List Operation} {op : Operation} {start : Nat} {f : Option Formula}
    {pieces rest : List Piece} {φ : Formula} (hop : op ∈ ops)
    (h : operand? pieces = some (φ, rest)) :
    links? ops (⟨.operator op, start, f⟩ :: pieces) =
      (links? ops rest).map (⟨op, start, φ⟩ :: ·) := by
  unfold operand? at h
  split at h
  · cases h
    rw [links?, if_pos hop]
  · next hno =>
    cases h
    rw [links?, if_pos hop]
    exact hno
  · cases h

def leftFold? (ops : List Operation) (pieces : List Piece) : Option Formula := do
  let (first, rest) ← operand? pieces
  let links ← links? ops rest
  some (leftFold first links)

end Piece

namespace Node

mutual

/-- The formula of a tree of the grammar. -/
def formula? : Node → Option Formula
  | ⟨.equation, _, _, _, [body]⟩ => formula? body
  | ⟨.expression, _, _, _, children⟩ => Piece.leftFold? Operation.additive (pieces children)
  | ⟨.term, _, _, _, children⟩ => Piece.leftFold? Operation.multiplicative (pieces children)
  | ⟨.number, text, start, _, []⟩ => some (.literal start text)
  | ⟨.group, _, _, _, [body]⟩ => formula? body
  | ⟨.functionCall, _, start, _, [name, argument]⟩ => do
    let f ← Function.ofName? name.text
    let φ ← formula? argument
    some (.call f start φ)
  | _ => none

def pieces : List Node → List Piece
  | [] => []
  | n :: ns => ⟨n.rule, n.start, formula? n⟩ :: pieces ns

end

theorem pieces_append (ns ms : List Node) : pieces (ns ++ ms) = pieces ns ++ pieces ms := by
  induction ns with
  | nil => rfl
  | cons n ns ih => simp [pieces, ih]

end Node
end Reckon
