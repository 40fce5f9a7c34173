/-
Where float mode stops.

In floats nothing but a literal is ever refused, so an expression fails to have
a value at the leftmost number token that reads as an infinite float, and
nowhere else.
-/
import Reckon.Proofs.Calculation
import Reckon.Proofs.Literals

namespace Reckon

/-! ## Literals too large -/

/-- The numeral reads as an infinite float. -/
def Numeral.overflows (t : Text) : Bool :=
  (float? t).any Float.isInf

/-- A value if none of the literals overflows, and otherwise the refusal of the
first one that does. -/
def RefusesFirst (ls : List (Nat × Text)) (r : Except Fault Float) : Prop :=
  (ls.find? (fun l => Numeral.overflows l.2) = none ∧ ∃ x, r = .ok x) ∨
    ∃ p s, ls.find? (fun l => Numeral.overflows l.2) = some (p, s) ∧
      r = .error (.refused (.unrepresentable (.literalTooLarge s)) p)

namespace RefusesFirst

variable {ls ms : List (Nat × Text)} {r : Except Fault Float} {f : Float → Except Fault Float}

theorem bind (h : RefusesFirst ls r) (hf : ∀ x, RefusesFirst ms (f x)) :
    RefusesFirst (ls ++ ms) (r >>= f) := by
  unfold RefusesFirst
  rw [List.find?_append]
  rcases h with ⟨hnone, x, rfl⟩ | ⟨p, s, hfirst, rfl⟩
  · rw [hnone]
    exact hf x
  · rw [hfirst]
    exact .inr ⟨p, s, rfl, rfl⟩

theorem bind_ok (h : RefusesFirst ls r) (hf : ∀ x, ∃ y, f x = .ok y) :
    RefusesFirst ls (r >>= f) := by
  have hbind : RefusesFirst (ls ++ []) (r >>= f) := h.bind fun x => .inl ⟨rfl, hf x⟩
  rwa [List.append_nil] at hbind

end RefusesFirst

theorem refusesFirst_literal (start : Nat) {t : Text} (ht : Text.IsNumeral t) :
    RefusesFirst [(start, t)] (Evaluation.place start (Floating.literal t)) := by
  obtain ⟨x, hx⟩ := Numeral.exists_float? ht
  have hoverflows : Numeral.overflows t = x.isInf := by simp [Numeral.overflows, hx]
  by_cases hinf : x.isInf = true
  · rw [hinf] at hoverflows
    refine .inr ⟨start, t, List.find?_cons_of_pos hoverflows, ?_⟩
    simp [Floating.literal, hx, hinf, Evaluation.place]
  · refine .inl ⟨?_, x, ?_⟩
    · simp [hoverflows, hinf]
    · simp [Floating.literal, hx, hinf, Evaluation.place]

theorem Formula.refusesFirst (unit : AngleUnit) {φ : Formula} {length : Nat}
    (hφ : φ.Within length) : RefusesFirst φ.literals (φ.value (floating unit)) := by
  induction φ with
  | literal start text => exact refusesFirst_literal start hφ.2
  | negation start operand ih => exact (ih hφ.2).bind_ok fun x => ⟨_, rfl⟩
  | operation op start left right ihleft ihright =>
    obtain ⟨_, hleft, hright⟩ := hφ
    exact (ihleft hleft).bind fun x => (ihright hright).bind_ok fun y => ⟨_, rfl⟩
  | call f start argument ih => exact (ih hφ.2).bind_ok fun x => ⟨_, rfl⟩

/-! ## The leftmost overflow -/

/-- A number token that reads as an infinite float begins at an offset. -/
def Text.OverflowsAt (t digits : Text) (p : Nat) : Prop :=
  t.HasNumeralAt digits p ∧ Numeral.overflows digits = true

structure Text.LeftmostOverflow (t digits : Text) (p : Nat) : Prop where
  overflows : t.OverflowsAt digits p
  leftmost : ∀ digits' q, t.OverflowsAt digits' q → p ≤ q

/-- Of rising places the first one with a property comes before all others. -/
theorem eq_or_lt_of_find? {ls : List (Nat × Text)} {ok : Nat × Text → Bool} {l l' : Nat × Text}
    (hls : ls.Pairwise fun l l' => l.1 < l'.1) (h : ls.find? ok = some l) (hmem : l' ∈ ls)
    (hl' : ok l' = true) : l' = l ∨ l.1 < l'.1 := by
  obtain ⟨_, before, after, rfl, hbefore⟩ := List.find?_eq_some_iff_append.mp h
  rcases List.mem_append.mp hmem with hmem | hmem
  · have hno := hbefore l' hmem
    rw [hl'] at hno
    cases hno
  · rcases List.mem_cons.mp hmem with heq | hmem
    · exact .inl heq
    · have htail := (List.pairwise_append.mp hls).2.1
      exact .inr ((List.pairwise_cons.mp htail).1 l' hmem)

section

variable {t : Text} {ls : List (Nat × Text)}
  (hmem : ∀ digits p, (p, digits) ∈ ls ↔ t.HasNumeralAt digits p)

include hmem

theorem overflowsAt_of_find? {digits : Text} {p : Nat}
    (h : ls.find? (fun l => Numeral.overflows l.2) = some (p, digits)) :
    t.OverflowsAt digits p := by
  have hoverflows := List.find?_some h
  exact ⟨(hmem digits p).mp (List.mem_of_find?_eq_some h), hoverflows⟩

theorem not_overflowsAt_of_find? (h : ls.find? (fun l => Numeral.overflows l.2) = none)
    (digits : Text) (p : Nat) : ¬ t.OverflowsAt digits p := by
  intro hat
  exact List.find?_eq_none.mp h _ ((hmem digits p).mpr hat.1) hat.2

theorem leftmostOverflow_iff (hls : ls.Pairwise fun l l' => l.1 < l'.1) (digits : Text) (p : Nat) :
    t.LeftmostOverflow digits p ↔
      ls.find? (fun l => Numeral.overflows l.2) = some (p, digits) := by
  refine ⟨fun h => ?_, fun h => ⟨overflowsAt_of_find? hmem h, fun digits' q hat => ?_⟩⟩
  · cases hfirst : ls.find? fun l => Numeral.overflows l.2 with
    | none => exact (not_overflowsAt_of_find? hmem hfirst digits p h.overflows).elim
    | some l =>
      rcases eq_or_lt_of_find? hls hfirst ((hmem digits p).mpr h.overflows.1) h.overflows.2 with
        rfl | hlt
      · rfl
      · have hle := h.leftmost l.2 l.1 (overflowsAt_of_find? hmem hfirst)
        exact absurd hlt (Nat.not_lt.mpr hle)
  · rcases eq_or_lt_of_find? hls h ((hmem digits' q).mpr hat.1) hat.2 with heq | hlt
    · exact Nat.le_of_eq (Prod.mk.inj heq).1.symm
    · exact Nat.le_of_lt hlt

end

/-- In float mode a recognized text is refused exactly if one of its number
tokens overflows, and then for the leftmost of these, at its place and with its
first characters.  Otherwise it has a float, whatever comes up in between. -/
theorem evaluate_overflowing {settings : Settings} {t : Text} {root : Node}
    (hmode : settings.mode = .float) (hroot : recognize settings.maxDepth t = .ok root) :
    ((∃ fault, Calculator.evaluate settings t = .error fault) ↔
      ∃ digits p, t.OverflowsAt digits p) ∧
    (∀ fault, Calculator.evaluate settings t = .error fault ↔
      ∃ digits p, t.LeftmostOverflow digits p ∧
        fault = .refused (.unrepresentable (.literalTooLarge digits)) p ∧
        fault.failure? t = some (.evaluation
          s!"Literal {Text.quoted (digits.take 32)} is too large for a 64-bit float" t
          (some p))) ∧
    ((∀ digits p, ¬ t.OverflowsAt digits p) →
      ∃ x, Calculator.evaluate settings t = .ok (.float x)) := by
  have hrecognized := hroot ▸ recognized settings.maxDepth t
  obtain ⟨φ, hφ, hwithin, hvalue⟩ := @evaluateTree_eq settings _ _ _ hrecognized
  obtain ⟨hsorted, hmem⟩ := hrecognized.literals hφ
  rw [evaluate_of_recognize hroot, hvalue, Settings.value, hmode]
  simp only [leftmostOverflow_iff hmem hsorted]
  rcases Formula.refusesFirst settings.unit hwithin with ⟨hnone, x, hx⟩ | ⟨p, digits, hfirst, hx⟩
  · have hno := not_overflowsAt_of_find? hmem hnone
    rw [hx, hnone]
    refine ⟨⟨fun h => ?_, fun h => ?_⟩, fun fault => ⟨fun h => ?_, fun h => ?_⟩,
      fun _ => ⟨x, rfl⟩⟩
    · obtain ⟨fault, h⟩ := h
      cases h
    · obtain ⟨digits, p, h⟩ := h
      exact (hno digits p h).elim
    · cases h
    · obtain ⟨digits, p, h, _⟩ := h
      cases h
  · have hoverflows := overflowsAt_of_find? hmem hfirst
    rw [hx, hfirst]
    refine ⟨⟨fun _ => ⟨digits, p, hoverflows⟩, fun _ => ⟨_, rfl⟩⟩, fun fault => ⟨fun h => ?_, ?_⟩,
      fun h => (h digits p hoverflows).elim⟩
    · obtain rfl := Except.error.inj h
      exact ⟨digits, p, rfl, rfl, rfl⟩
    · intro h
      obtain ⟨digits', q, heq, rfl, _⟩ := h
      cases heq
      rfl

/-- Neither the quotient by zero before the first of two overflows nor the second
one is what stops the evaluation. -/
theorem leftmostOverflow_one_by_zero_minus_nines :
    ∃ root,
      recognize 64 ("1/0-".toList ++ List.replicate 310 '9' ++ '*' :: List.replicate 320 '8') =
        .ok root ∧
      Text.LeftmostOverflow
        ("1/0-".toList ++ List.replicate 310 '9' ++ '*' :: List.replicate 320 '8')
        (List.replicate 310 '9') 4 := by
  have hfault : (recognize 64
      ("1/0-".toList ++ List.replicate 310 '9' ++ '*' :: List.replicate 320 '8')).toOption.map
        (fun root => (Calculator.evaluateTree {} root).map fun _ => ()) =
          some (.error
            (.refused (.unrepresentable (.literalTooLarge (List.replicate 310 '9'))) 4)) := by
    decide +kernel
  obtain ⟨root, hroot, hvalue⟩ := exists_recognized hfault
  obtain ⟨_, hfaults, _⟩ := @evaluate_overflowing {} _ _ rfl hroot
  cases hevaluated : Calculator.evaluateTree {} root with
  | ok v =>
    rw [hevaluated] at hvalue
    cases hvalue
  | error fault =>
    rw [hevaluated] at hvalue
    obtain rfl := Except.error.inj hvalue
    have hevaluate := (@evaluate_of_recognize {} _ _ hroot).trans hevaluated
    obtain ⟨digits, p, hleftmost, heq, _⟩ := (hfaults _).mp hevaluate
    cases heq
    exact ⟨root, hroot, hleftmost⟩

end Reckon
