/-
The numbers that integer literals stand for.

A digit counts by its place, so zeros on the left change nothing, and without
them a number has the more digits the greater it is.  This is why the length of
a literal may decide about it before its number is known.
-/
import Mathlib.Data.Nat.Digits.Lemmas
import Reckon.Proofs.Refusals

namespace Reckon

/-! ## Digits and their places -/

namespace Text

/-- The number that digits stand for, each with the weight of its place. -/
def decimalValue (t : Text) : Nat :=
  Nat.ofDigits 10 (t.reverse.map digitValue)

theorem digitsValue_eq_decimalValue (t : Text) : digitsValue t = decimalValue t := by
  induction t using List.reverseRecOn with
  | nil => rfl
  | append_singleton t c ih =>
    have hleft : digitsValue (t ++ [c]) = 10 * digitsValue t + digitValue c := by
      simp [digitsValue]
    have hright : decimalValue (t ++ [c]) = digitValue c + 10 * decimalValue t := by
      simp [decimalValue, Nat.ofDigits_cons]
    omega

theorem digitValue_ne_zero {c : Char} (h : isDigit c = true) (hc : c ≠ '0') :
    digitValue c ≠ 0 := by
  have hall : (digits.all fun c => c == '0' || digitValue c != 0) = true := by decide
  simpa [hc] using List.all_eq_true.mp hall c (mem_digits h)

theorem ten_pow_length_le {c : Char} {t : Text} (h : IsDigits (c :: t)) (hc : c ≠ '0') :
    10 ^ t.length ≤ decimalValue (c :: t) := by
  have hne : (c :: t).reverse.map digitValue ≠ [] := by simp
  have hlast : ((c :: t).reverse.map digitValue).getLast hne ≠ 0 := by
    simpa using digitValue_ne_zero (isDigit_of_isDigits_cons h) hc
  have hle : 10 ^ ((c :: t).reverse.map digitValue).length ≤ 10 * decimalValue (c :: t) :=
    Nat.pow_length_le_mul_ofDigits hne hlast
  rw [List.length_map, List.length_reverse, List.length_cons, Nat.pow_succ, Nat.mul_comm] at hle
  exact Nat.le_of_mul_le_mul_left hle (by decide)

end Text

namespace Integral

/-! ## Zeros on the left -/

theorem significant_replicate (k : Nat) (t : Text) :
    significant (List.replicate k '0' ++ t) = significant t := by
  unfold significant
  rw [List.dropWhile_append_of_pos fun c hc => by simp [List.eq_of_mem_replicate hc]]

theorem decimalValue_significant (t : Text) : (significant t).decimalValue = t.decimalValue := by
  rw [← Text.digitsValue_eq_decimalValue, ← Text.digitsValue_eq_decimalValue,
    digitsValue_significant]

theorem decimalValue_replicate (k : Nat) (t : Text) :
    Text.decimalValue (List.replicate k '0' ++ t) = t.decimalValue := by
  rw [← decimalValue_significant, significant_replicate, decimalValue_significant]

theorem significant_cases (t : Text) :
    significant t = ['0'] ∨ ∃ c more, significant t = c :: more ∧ c ≠ '0' := by
  have hhead := List.head?_dropWhile_not (· == '0') t
  unfold significant
  split
  · exact .inl rfl
  · next hne =>
    obtain ⟨c, more, hdrop⟩ := List.exists_cons_of_ne_nil hne
    rw [hdrop] at hhead ⊢
    exact .inr ⟨c, more, rfl, by simpa using hhead⟩

/-- A literal that is too long for its number to be worth knowing does not fit. -/
theorem greatest_lt_of_length {t : Text} (ht : Text.IsDigits t)
    (h : maxDigits < (significant t).length) : greatest < t.decimalValue := by
  rcases significant_cases t with hzero | ⟨c, more, hcons, hc⟩
  · rw [hzero] at h
    exact absurd h (by decide)
  · have hdigits := ht.significant
    rw [hcons, List.length_cons] at h
    rw [hcons] at hdigits
    have hle := Text.ten_pow_length_le hdigits hc
    rw [← hcons, decimalValue_significant] at hle
    have hlarge : 10 ^ 10 ≤ 10 ^ more.length := Nat.pow_le_pow_right (by decide) (by
      unfold maxDigits at h
      omega)
    unfold greatest
    omega

/-! ## Literals -/

/-- A literal, with its digits read in the given way. -/
def literalBy (read : Text → Option Int) (t : Text) : Except Refusal Int :=
  if t.contains '.' then .error (.unrepresentable (.literalNotInteger t))
  else
    let digits := significant t
    if maxDigits < digits.length then .error (.unrepresentable (.literalTooLong t))
    else
      match read digits with
      | none => .error (.unreadable .integer digits)
      | some v => checked v

theorem literal_eq_literalBy (t : Text) : literal t = literalBy Numeral.integer? t :=
  rfl

/-- Reading digits means knowing the number of at most as many as fit. -/
def ReadsDigits (read : Text → Option Int) : Prop :=
  ∀ s, Text.IsDigits s → s.length ≤ maxDigits → read s = some (s.decimalValue : Int)

theorem readsDigits_integer? : ReadsDigits Numeral.integer? := by
  intro s hs _
  rw [Numeral.integer?_eq hs, Text.digitsValue_eq_decimalValue]

theorem literalBy_eq {read : Text → Option Int} (hread : ReadsDigits read) {t : Text}
    (ht : t.IsNumeral) :
    literalBy read t =
      if '.' ∈ t then .error (.unrepresentable (.literalNotInteger t))
      else if maxDigits < (significant t).length then .error (.unrepresentable (.literalTooLong t))
      else checked t.decimalValue := by
  unfold literalBy
  by_cases hpoint : '.' ∈ t
  · rw [if_pos hpoint, if_pos (List.contains_iff_mem.mpr hpoint)]
  · rw [if_neg hpoint, if_neg (by simpa using hpoint)]
    by_cases hlong : maxDigits < (significant t).length
    · rw [if_pos hlong, if_pos hlong]
    · have hdigits := (ht.isDigits hpoint).significant
      simp only [if_neg hlong, hread _ hdigits (Nat.le_of_not_lt hlong), decimalValue_significant]

theorem inRange_natCast {n : Nat} : InRange n ↔ n ≤ 0x7FFFFFFF := by
  unfold InRange least greatest
  omega

theorem literal_eq_ok_iff {t : Text} (ht : t.IsNumeral) {n : Int} :
    literal t = .ok n ↔ '.' ∉ t ∧ n = t.decimalValue ∧ t.decimalValue ≤ 0x7FFFFFFF := by
  rw [literal_eq_literalBy, literalBy_eq readsDigits_integer? ht]
  by_cases hpoint : '.' ∈ t
  · simp [hpoint]
  · rw [if_neg hpoint]
    by_cases hlong : maxDigits < (significant t).length
    · have hlarge := greatest_lt_of_length (ht.isDigits hpoint) hlong
      unfold greatest at hlarge
      rw [if_pos hlong]
      refine iff_of_false (by simp) ?_
      rintro ⟨_, _, hle⟩
      omega
    · rw [if_neg hlong, checked_eq_ok, inRange_natCast]
      exact ⟨fun h => ⟨hpoint, h.2, h.1⟩, fun h => ⟨h.2.2, h.2.1⟩⟩

theorem isNumeral_replicate (k : Nat) {t : Text} (ht : Text.IsDigits t) :
    Text.IsNumeral (List.replicate k '0' ++ t) := by
  refine .whole ⟨List.append_ne_nil_of_right_ne_nil _ ht.1, fun c hc => ?_⟩
  rcases List.mem_append.mp hc with hzero | hdigit
  · rw [List.eq_of_mem_replicate hzero]
    rfl
  · exact ht.2 c hdigit

theorem literal_replicate_iff (k : Nat) {t : Text} (ht : Text.IsDigits t) {n : Int} :
    literal (List.replicate k '0' ++ t) = .ok n ↔ literal t = .ok n := by
  have hpoint : '.' ∉ List.replicate k '0' ++ t ↔ '.' ∉ t := by simp
  rw [literal_eq_ok_iff (isNumeral_replicate k ht), literal_eq_ok_iff (.whole ht),
    decimalValue_replicate, hpoint]

/-- A literal without a point has its number if that fits in 32 bits, and every
other literal is refused where it is written.  Its digits are only read if there
are few of them, however many zeros come first, and the zeros change nothing. -/
theorem literal_exact_or_refused {t : Text} (ht : t.IsNumeral) :
    (∀ n : Int, literal t = .ok n ↔
      '.' ∉ t ∧ n = t.decimalValue ∧ t.decimalValue ≤ 0x7FFFFFFF) ∧
    ((∀ n, literal t ≠ .ok n) → ∀ start expression, ∃ cause,
      Evaluation.place start (literal t) = .error (.refused (.unrepresentable cause) start) ∧
      (Fault.refused (.unrepresentable cause) start).failure? expression =
        some (.evaluation cause.message expression (some start))) ∧
    (∀ read, ReadsDigits read → literalBy read t = literal t) ∧
    ('.' ∉ t → ∀ (k : Nat) (n : Int),
      literal (List.replicate k '0' ++ t) = .ok n ↔ literal t = .ok n) := by
  refine ⟨fun n => literal_eq_ok_iff ht, ?_, ?_, ?_⟩
  · intro hnone
    exact (explained_literal ht).refused fun n _ => hnone n
  · intro read hread
    rw [literal_eq_literalBy, literalBy_eq hread ht, literalBy_eq readsDigits_integer? ht]
  · intro hpoint k n
    exact literal_replicate_iff k (ht.isDigits hpoint)

/-- Five thousand zeros before a seven. -/
theorem literal_zeros_seven :
    Text.IsNumeral ['7'] ∧ literal (List.replicate 5000 '0' ++ ['7']) = .ok 7 := by
  have hseven : Text.IsNumeral ['7'] := .whole (Text.isDigits_singleton rfl)
  obtain ⟨hvalue, _, _, hzeros⟩ := literal_exact_or_refused hseven
  exact ⟨hseven, (hzeros (by decide) 5000 7).mpr ((hvalue 7).mpr (by decide))⟩

end Integral
end Reckon
