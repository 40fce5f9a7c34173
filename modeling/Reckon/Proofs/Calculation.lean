/-
The value of an expression.

An expression has the value of its formula.  It fails where the formula does,
and then the fault is one of the expression itself: it names a step of the
formula, and why this step has no value.
-/
import Reckon.Calculator
import Reckon.Proofs.Meaning
import Reckon.Proofs.Refusals

namespace Reckon

def Settings.value (settings : Settings) (φ : Formula) : Except Fault Value :=
  match settings.mode with
  | .float => .float <$> φ.value (floating settings.unit)
  | .int32 => .int <$> φ.value (integral settings.unit)

def Value.mode : Value → NumericMode
  | .int _ => .int32
  | .float _ => .float

theorem Placed.map {Q : α → Prop} {P : β → Prop} {length : Nat} {r : Except Fault α} {f : α → β}
    (h : Placed Q length r) (hf : ∀ x, Q x → P (f x)) : Placed P length (f <$> r) := by
  rcases h with ⟨x, rfl, hx⟩ | ⟨cause, p, rfl, hp⟩
  · exact .inl ⟨f x, rfl, hf x hx⟩
  · exact .inr ⟨cause, p, rfl, hp⟩

theorem Settings.placed_value (settings : Settings) {φ : Formula} {length : Nat}
    (hφ : φ.Within length) :
    Placed (fun v => v.mode = settings.mode) length (settings.value φ) := by
  unfold value
  split
  · next hmode =>
    exact (Formula.placed_value (floating_keeps settings.unit) hφ).map fun _ _ => hmode.symm
  · next hmode =>
    exact (Formula.placed_value (integral_keeps settings.unit) hφ).map fun _ _ => hmode.symm

theorem evaluateTree_eq {settings : Settings} {limit : Int} {t : Text} {root : Node}
    (h : Recognized limit t (.ok root)) :
    ∃ φ, root.formula? = some φ ∧ φ.Within t.length ∧
      Calculator.evaluateTree settings root = settings.value φ := by
  unfold Calculator.evaluateTree
  split
  · next hmode =>
    obtain ⟨φ, hφ, hwithin, hvalue⟩ := h.formula (floating settings.unit)
    exact ⟨φ, hφ, hwithin, by rw [hvalue, Settings.value, hmode]⟩
  · next hmode =>
    obtain ⟨φ, hφ, hwithin, hvalue⟩ := h.formula (integral settings.unit)
    exact ⟨φ, hφ, hwithin, by rw [hvalue, Settings.value, hmode]⟩

theorem evaluate_of_recognize {settings : Settings} {t : Text} {root : Node}
    (h : recognize settings.maxDepth t = .ok root) :
    Calculator.evaluate settings t = Calculator.evaluateTree settings root := by
  rw [Calculator.evaluate, h]
  rfl

/-- A recognized text has the value of the formula of its tree, as a value or as
the fault of the first step that fails.  It never fails because the tree does
not fit the evaluator or because a literal cannot be read. -/
theorem evaluate_eq_formula_value {settings : Settings} {t : Text} {root : Node}
    (h : recognize settings.maxDepth t = .ok root) :
    ∃ φ, root.formula? = some φ ∧ Calculator.evaluate settings t = settings.value φ ∧
      (∀ mismatch, Calculator.evaluate settings t ≠ .error (.inconsistent mismatch)) ∧
      ∀ form text p,
        Calculator.evaluate settings t ≠ .error (.refused (.unreadable form text) p) := by
  have hrecognized := h ▸ recognized settings.maxDepth t
  obtain ⟨φ, hφ, hwithin, hvalue⟩ := evaluateTree_eq hrecognized
  rw [evaluate_of_recognize h, hvalue]
  refine ⟨φ, hφ, rfl, ?_, ?_⟩
  · intro mismatch heq
    rcases settings.placed_value hwithin with ⟨v, hv, _⟩ | ⟨cause, p, hv, _⟩
    · cases hv.symm.trans heq
    · cases hv.symm.trans heq
  · intro form text p heq
    rcases settings.placed_value hwithin with ⟨v, hv, _⟩ | ⟨cause, p', hv, _⟩
    · cases hv.symm.trans heq
    · cases hv.symm.trans heq

/-- In `-2^3^2 - 7mod(3-3)/0` both right operands of the term are zero, and the
first of the two operators fails. -/
theorem evaluate_minus_two_cubed_squared :
    Calculator.evaluate { mode := .int32 } "-2^3^2 - 7mod(3-3)/0".toList =
      .error (.refused (.unrepresentable (.zeroDivisor .modulo)) 10) := by
  have hformula : (recognize 64 "-2^3^2 - 7mod(3-3)/0".toList).toOption.bind Node.formula? =
      some (.operation .subtract 7
        (.operation .exponent 4
          (.operation .exponent 2 (.negation 0 (.literal 1 ['2'])) (.literal 3 ['3']))
          (.literal 5 ['2']))
        (.operation .divide 18
          (.operation .modulo 10 (.literal 9 ['7'])
            (.operation .subtract 15 (.literal 14 ['3']) (.literal 16 ['3'])))
          (.literal 19 ['0']))) := by
    decide +kernel
  cases hroot : recognize 64 "-2^3^2 - 7mod(3-3)/0".toList with
  | error _ =>
    rw [hroot] at hformula
    cases hformula
  | ok root =>
    obtain ⟨φ, hφ, hvalue, _⟩ := @evaluate_eq_formula_value { mode := .int32 } _ root hroot
    rw [hroot] at hformula
    obtain rfl := Option.some.inj (hφ.symm.trans hformula)
    rw [hvalue]
    rfl

end Reckon
