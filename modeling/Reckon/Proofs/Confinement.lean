/-
Thirty-two bits suffice.

Evaluating a tree over 32-bit integers asks nothing of the arithmetic about any
other integer: however the arithmetic treats those, the outcome is the same.
This holds of every tree, also of one that was put together by hand.  What can
go wrong is a value that does not fit, a tree that does not fit the evaluator,
or a number node whose text is no integer.
-/
import Reckon.Proofs.Alongside
import Reckon.Proofs.Calculation

namespace Reckon

/-! ## Queries -/

/-- What an evaluation may ask of an arithmetic. -/
inductive Query (α : Type) where
  | literal (t : Text)
  | negate (x : α)
  | apply (op : Operation) (x y : α)
  | call (f : Function) (x : α)

def Query.operands : Query α → List α
  | literal _ => []
  | negate x | call _ x => [x]
  | apply _ x y => [x, y]

def Arithmetic.answer (A : Arithmetic α) : Query α → Except Refusal α
  | .literal t => A.literal t
  | .negate x => A.negate x
  | .apply op x y => A.apply op x y
  | .call f x => A.call f x

/-- Two arithmetics answer alike where all operands have the property. -/
def Arithmetic.AgreesOn (Q : α → Prop) (A B : Arithmetic α) : Prop :=
  ∀ q : Query α, (∀ x ∈ q.operands, Q x) → B.answer q = A.answer q

namespace Evaluation

/-- The outcome of an evaluation depends on the answer to a query: some
arithmetic that answers every other query in the same way comes to another
outcome. -/
def Consults (A : Arithmetic α) (root : Node) (q : Query α) : Prop :=
  ∃ B : Arithmetic α, (∀ q', q' ≠ q → B.answer q' = A.answer q') ∧
    evaluate B root ≠ evaluate A root

end Evaluation

/-- The right operands with which an operation is one on integers. -/
def Operation.Admits : Operation → Int → Prop
  | divide, y | modulo, y => y ≠ 0
  | exponent, y => 0 ≤ y
  | add, _ | subtract, _ | multiply, _ => True

namespace Integral

/-! ## Answers -/

theorem literal_cases (t : Text) :
    Explained InRange (literal t) ∨
      literal t = .error (.unreadable .integer (significant t)) ∧ ¬ Text.IsDigits t := by
  by_cases hdigits : Text.IsDigits t
  · exact .inl (explained_literal (.whole hdigits))
  · unfold literal
    dsimp only
    split
    · exact .inl (.inr ⟨_, rfl⟩)
    · split
      · exact .inl (.inr ⟨_, rfl⟩)
      · split
        · exact .inr ⟨rfl, hdigits⟩
        · exact .inl (explained_checked _)

theorem Explained.inRange {r : Except Refusal Int} (h : Explained InRange r) {v : Int}
    (hr : r = .ok v) : InRange v := by
  rcases h with ⟨w, hw, hrange⟩ | ⟨cause, hcause⟩
  · cases hw.symm.trans hr
    exact hrange
  · cases hcause.symm.trans hr

theorem inRange_of_answer {unit : AngleUnit} {q : Query Int} {v : Int}
    (h : (integral unit).answer q = .ok v) : InRange v := by
  cases q with
  | literal t =>
    rcases literal_cases t with hexplained | ⟨hunreadable, _⟩
    · exact Explained.inRange hexplained h
    · cases hunreadable.symm.trans h
  | negate x => exact Explained.inRange (explained_checked _) h
  | apply op x y => exact Explained.inRange (explained_apply op x y) h
  | call f x =>
    simp only [Arithmetic.answer, integral, call] at h
    split at h
    · cases h
    · split at h
      · cases h
      · exact Explained.inRange (explained_checked _) h

theorem checked_ne_error {v : Int} {cause : Cause} (h : ∀ w, cause ≠ .outOfRange w) :
    checked v ≠ .error (.unrepresentable cause) := by
  unfold checked
  split
  · exact nofun
  · intro heq
    cases heq
    exact h v rfl

/-- A result is computed only where the operation has one. -/
theorem admits_of_apply {op : Operation} {x y v : Int} (h : apply op x y = checked v) :
    op.Admits y := by
  cases op with
  | add | subtract | multiply => trivial
  | divide | modulo =>
    intro hy
    simp only [apply, if_pos hy] at h
    exact checked_ne_error (fun _ => by simp) h.symm
  | exponent =>
    refine Int.not_lt.mp fun hy => ?_
    simp only [apply, if_pos hy] at h
    exact checked_ne_error (fun _ => by simp) h.symm

/-! ## Evaluations -/

/-- What may go wrong when a tree is evaluated. -/
inductive Mishap (root : Node) : Fault → Prop
  | unrepresentable {cause : Cause} {p : Nat} : Mishap root (.refused (.unrepresentable cause) p)
  | inconsistent {mismatch : Mismatch} : Mishap root (.inconsistent mismatch)
  | unreadable {n : Node} :
      n ∈ root.preorder → n.rule = .number → ¬ Text.IsDigits n.text →
      Mishap root (.refused (.unreadable .integer (significant n.text)) n.start)

open Evaluation

section

variable {unit : AngleUnit} {root : Node} {B : Arithmetic Int}

theorem alike_of_explained {r s : Except Refusal Int} (h : Explained InRange r) (hs : s = r)
    (p : Nat) :
    Alike (fun x y => x = y ∧ InRange x) (fun f g => f = g ∧ Mishap root f) (place p r)
      (place p s) := by
  subst hs
  rcases h with ⟨v, rfl, hv⟩ | ⟨cause, rfl⟩
  · exact .value ⟨rfl, hv⟩
  · exact .fault ⟨rfl, .unrepresentable⟩

/-- A node takes values in the range to such values, in every arithmetic that
agrees on them. -/
theorem nodesAlike_self (hB : (integral unit).AgreesOn InRange B) {n : Node}
    (hn : n ∈ root.preorder) :
    NodesAlike (integral unit) B (fun x y => x = y ∧ InRange x) (fun f g => f = g ∧ Mishap root f)
      n n where
  rule := rfl
  name _ := rfl
  literal hrule := by
    have hagree : B.literal n.text = literal n.text := hB (.literal n.text) nofun
    rcases literal_cases n.text with hexplained | ⟨hunreadable, hdigits⟩
    · exact alike_of_explained hexplained hagree _
    · have hunreadable' : (integral unit).literal n.text = _ := hunreadable
      rw [hagree, hunreadable, hunreadable']
      exact .fault ⟨rfl, .unreadable hn hrule hdigits⟩
  steps :=
    { negate := by
        intro _ x y hxy
        obtain ⟨rfl, hx⟩ := hxy
        exact alike_of_explained (explained_checked _) (hB (.negate x) (by simpa [Query.operands]))
          _
      apply := by
        intro op _ x y x' y' hxy hxy'
        obtain ⟨rfl, hx⟩ := hxy
        obtain ⟨rfl, hx'⟩ := hxy'
        exact alike_of_explained (explained_apply op x x')
          (hB (.apply op x x') (by simp [Query.operands, hx, hx'])) _
      call := by
        intro _ f x y hxy
        obtain ⟨rfl, hx⟩ := hxy
        exact alike_of_explained (explained_call unit f x hx)
          (hB (.call f x) (by simpa [Query.operands])) _ }

theorem evaluate_alike_of_agreesOn (hB : (integral unit).AgreesOn InRange B) :
    Alike (fun x y => x = y ∧ InRange x) (fun f g => f = g ∧ Mishap root f)
      (evaluate (integral unit) root) (evaluate B root) :=
  evaluate_alike (Node.matches_self root fun _ hn => nodesAlike_self hB hn)

theorem evaluate_eq_of_agreesOn (hB : (integral unit).AgreesOn InRange B) :
    evaluate B root = evaluate (integral unit) root :=
  ((evaluate_alike_of_agreesOn hB).eq (fun _ _ h => h.1) fun _ _ h => h.1).symm

theorem inRange_of_consults {q : Query Int} (h : Consults (integral unit) root q) :
    ∀ x ∈ q.operands, InRange x := by
  obtain ⟨B, hB, hne⟩ := h
  intro x hx
  refine Decidable.byContradiction fun hrange => hne (evaluate_eq_of_agreesOn fun q' hq' => ?_)
  exact hB q' fun heq => hrange (hq' x (heq ▸ hx))

theorem evaluate_cases (unit : AngleUnit) (root : Node) :
    (∃ v, evaluate (integral unit) root = .ok v ∧ InRange v) ∨
      ∃ fault, evaluate (integral unit) root = .error fault ∧ Mishap root fault := by
  have h := @evaluate_alike_of_agreesOn unit root (integral unit) fun _ _ => rfl
  generalize evaluate (integral unit) root = r at h
  cases h with
  | @value v _ h => exact .inl ⟨v, rfl, h.2⟩
  | @fault fault _ h => exact .inr ⟨fault, rfl, h.2⟩
  | mismatch => exact .inr ⟨_, rfl, .inconsistent⟩

end
end Integral

open Calculator Evaluation Integral

/-- In 32-bit mode every integer that the arithmetic is asked about, and every
one that it answers with, fits in 32 bits.  What goes wrong is one of three
things, of which only the first may happen to a text. -/
theorem evaluateTree_confined {settings : Settings} (hmode : settings.mode = .int32)
    (root : Node) :
    (∀ q, Consults (integral settings.unit) root q → ∀ x ∈ q.operands, InRange x) ∧
      (∀ q v, (integral settings.unit).answer q = .ok v → InRange v) ∧
      (∀ op x y v, (integral settings.unit).apply op x y = checked v → op.Admits y) ∧
      ((∃ v, evaluateTree settings root = .ok (.int v) ∧ InRange v) ∨
        ∃ fault, evaluateTree settings root = .error fault ∧ Mishap root fault) ∧
      ∀ limit t, recognize limit t = .ok root → ∀ fault,
        evaluateTree settings root = .error fault →
          ∃ cause p, fault = .refused (.unrepresentable cause) p := by
  refine ⟨fun _ => inRange_of_consults, fun _ _ => inRange_of_answer,
    fun _ _ _ _ => admits_of_apply, ?_, ?_⟩
  · unfold evaluateTree
    rw [hmode]
    rcases evaluate_cases settings.unit root with ⟨v, hv, hrange⟩ | ⟨fault, hfault, hmishap⟩
    · exact .inl ⟨v, by simp [hv], hrange⟩
    · exact .inr ⟨fault, by simp [hfault], hmishap⟩
  · intro limit t hroot fault hfault
    obtain ⟨φ, _, hwithin, hvalue⟩ :=
      @evaluateTree_eq settings limit t root (hroot ▸ recognized limit t)
    rw [hvalue] at hfault
    rcases settings.placed_value hwithin with ⟨v, hv, _⟩ | ⟨cause, p, hv, _⟩
    · cases hv.symm.trans hfault
    · cases hv.symm.trans hfault
      exact ⟨cause, p, rfl⟩

/-- The tree of `2147483647+1`: both operands of the sum fit, and the sum does
not. -/
theorem confined_greatest_plus_one :
    let root : Node := ⟨.equation, [], 0, 0, [⟨.expression, [], 0, 0,
      [⟨.number, "2147483647".toList, 0, 10, []⟩, ⟨.operator .add, ['+'], 10, 11, []⟩,
        ⟨.number, ['1'], 11, 12, []⟩]⟩]⟩
    Consults (integral .radians) root (.apply .add 2147483647 1) ∧
      ∀ x ∈ [2147483647, 1], InRange x := by
  intro root
  have hconsults : Consults (integral .radians) root (.apply .add 2147483647 1) := by
    refine ⟨{ integral .radians with apply := fun op x y =>
      if op = .add ∧ x = 2147483647 ∧ y = 1 then .ok 0 else Integral.apply op x y }, ?_, ?_⟩
    · intro q hq
      cases q with
      | apply op x y =>
        refine if_neg fun h => hq ?_
        rw [h.1, h.2.1, h.2.2]
      | literal t | negate x | call f x => rfl
    · decide +kernel
  exact ⟨hconsults, (@evaluateTree_confined { mode := .int32 } rfl root).1 _ hconsults⟩

end Reckon
