/-
Why a formula has no value.

An arithmetic that is given numerals of the language, and values that it has
made itself, either has a value or says why it has none.  The faults that are no
failures of an expression need a literal that is no numeral or an integer beyond
the floats, and neither comes up.
-/
import Reckon.Proofs.Formula
import Reckon.Proofs.Numerals

namespace Reckon

/-- A value with the given property, or the cause that there is none. -/
def Explained (Q : α → Prop) (r : Except Refusal α) : Prop :=
  (∃ x, r = .ok x ∧ Q x) ∨ ∃ cause, r = .error (.unrepresentable cause)

/-- From values with the given property an arithmetic makes such values again,
or says why it makes none. -/
structure Arithmetic.Keeps (A : Arithmetic α) (Q : α → Prop) : Prop where
  literal : ∀ t, Text.IsNumeral t → Explained Q (A.literal t)
  negate : ∀ x, Q x → Explained Q (A.negate x)
  apply : ∀ op x y, Q x → Q y → Explained Q (A.apply op x y)
  call : ∀ f x, Q x → Explained Q (A.call f x)

/-! ## Formulas -/

/-- A value with the given property, or a cause that there is none, together
with a place before an offset. -/
def Placed (Q : α → Prop) (length : Nat) (r : Except Fault α) : Prop :=
  (∃ x, r = .ok x ∧ Q x) ∨
    ∃ cause p, r = .error (.refused (.unrepresentable cause) p) ∧ p < length

section

variable {α : Type} {A : Arithmetic α} {Q : α → Prop} {length : Nat}

theorem Explained.place {r : Except Refusal α} {p : Nat} (h : Explained Q r) (hp : p < length) :
    Placed Q length (Evaluation.place p r) := by
  rcases h with ⟨x, rfl, hx⟩ | ⟨cause, rfl⟩
  · exact .inl ⟨x, rfl, hx⟩
  · exact .inr ⟨cause, p, rfl, hp⟩

/-- Without a value there is a failure at the place of the step. -/
theorem Explained.refused {r : Except Refusal α} (h : Explained Q r)
    (hnone : ∀ x, Q x → r ≠ .ok x) (start : Nat) (expression : Text) :
    ∃ cause, Evaluation.place start r = .error (.refused (.unrepresentable cause) start) ∧
      (Fault.refused (.unrepresentable cause) start).failure? expression =
        some (.evaluation cause.message expression (some start)) := by
  rcases h with ⟨x, hr, hx⟩ | ⟨cause, rfl⟩
  · exact absurd hr (hnone x hx)
  · exact ⟨cause, rfl, rfl⟩

theorem Placed.bind {r : Except Fault α} {f : α → Except Fault α} (h : Placed Q length r)
    (hf : ∀ x, Q x → Placed Q length (f x)) : Placed Q length (r >>= f) := by
  rcases h with ⟨x, rfl, hx⟩ | ⟨cause, p, rfl, hp⟩
  · exact hf x hx
  · exact .inr ⟨cause, p, rfl, hp⟩

theorem Formula.placed_value (hA : A.Keeps Q) {φ : Formula} (hφ : φ.Within length) :
    Placed Q length (φ.value A) := by
  induction φ with
  | literal start text => exact (hA.literal text hφ.2).place hφ.1
  | negation start operand ih =>
    exact (ih hφ.2).bind fun x hx => (hA.negate x hx).place hφ.1
  | operation op start left right ihleft ihright =>
    obtain ⟨hstart, hleft, hright⟩ := hφ
    exact (ihleft hleft).bind fun x hx => (ihright hright).bind fun y hy =>
      (hA.apply op x y hx hy).place hstart
  | call f start argument ih =>
    exact (ih hφ.2).bind fun x hx => (hA.call f x hx).place hφ.1

end

/-! ## The two arithmetics -/

theorem floating_keeps (unit : AngleUnit) : (floating unit).Keeps fun _ => True where
  literal t ht := by
    obtain ⟨x, hx⟩ := Numeral.exists_float? ht
    unfold Explained
    simp only [floating, Floating.literal, hx]
    split
    · exact .inr ⟨_, rfl⟩
    · exact .inl ⟨x, rfl, trivial⟩
  negate x _ := .inl ⟨_, rfl, trivial⟩
  apply op x y _ _ := .inl ⟨_, rfl, trivial⟩
  call f x _ := .inl ⟨_, rfl, trivial⟩

namespace Integral

theorem explained_checked (v : Int) : Explained InRange (checked v) := by
  unfold checked
  split
  · next h => exact .inl ⟨v, rfl, h⟩
  · exact .inr ⟨_, rfl⟩

theorem explained_literal {t : Text} (ht : Text.IsNumeral t) :
    Explained InRange (literal t) := by
  unfold literal
  split
  · exact .inr ⟨_, rfl⟩
  · next hpoint =>
    have hdigits := ht.isDigits (by simpa using hpoint)
    obtain ⟨v, hv⟩ := Numeral.exists_integer? hdigits.significant
    dsimp only
    split
    · exact .inr ⟨_, rfl⟩
    · rw [hv]
      exact explained_checked v

theorem explained_apply (op : Operation) (x y : Int) : Explained InRange (apply op x y) := by
  cases op with
  | add | subtract | multiply => exact explained_checked _
  | divide | modulo =>
    unfold apply
    dsimp only
    split
    · exact .inr ⟨_, rfl⟩
    · exact explained_checked _
  | exponent =>
    unfold apply
    dsimp only
    split
    · exact .inr ⟨_, rfl⟩
    · split
      · exact .inr ⟨_, rfl⟩
      · exact explained_checked _

theorem natAbs_lt_beyondFloats {x : Int} (hx : InRange x) : x.natAbs < beyondFloats := by
  have hbits : x.natAbs ≤ 2 ^ 31 := by
    unfold InRange least greatest at hx
    omega
  exact Nat.lt_of_le_of_lt hbits (by decide +kernel)

theorem explained_call (unit : AngleUnit) (f : Function) (x : Int) (hx : InRange x) :
    Explained InRange (call unit f x) := by
  unfold call
  rw [if_neg (Nat.not_le.mpr (natAbs_lt_beyondFloats hx))]
  split
  · exact .inr ⟨_, rfl⟩
  · exact explained_checked _

end Integral

theorem integral_keeps (unit : AngleUnit) : (integral unit).Keeps Integral.InRange where
  literal _ ht := Integral.explained_literal ht
  negate x _ := Integral.explained_checked (-x)
  apply op x y _ _ := Integral.explained_apply op x y
  call := Integral.explained_call unit

end Reckon
