/-
The numerals of the language are numerals to every reader of numbers.

A literal consists of digits and a point, so nothing of what the readers allow
besides, such as blanks, signs or underscores, comes into play.
-/
import Reckon.Arithmetic.Integral
import Reckon.Proofs.Lexeme

namespace Reckon
namespace Numeral

open Text

def IsPlain (t : Text) : Prop :=
  ∀ c ∈ t, c ∈ '.' :: Text.digits

theorem isPlain_of_isDigits {t : Text} (h : IsDigits t) : IsPlain t :=
  fun c hc => List.mem_cons_of_mem _ (mem_digits (h.2 c hc))

theorem isPlain_of_isNumeral {t : Text} (h : IsNumeral t) : IsPlain t := by
  intro c hc
  rcases h.mem hc with hdigit | rfl
  · exact List.mem_cons_of_mem _ (mem_digits hdigit)
  · exact List.mem_cons_self

theorem plainChar?_eq {c : Char} (h : c ∈ '.' :: Text.digits) : plainChar? c = some c := by
  have hall : (('.' :: Text.digits).all fun c => plainChar? c == some c) = true := by decide
  exact eq_of_beq (List.all_eq_true.mp hall c h)

theorem isSpace_eq_false {c : Char} (h : c ∈ '.' :: Text.digits) : isSpace c = false := by
  have hall : (('.' :: Text.digits).all fun c => !isSpace c) = true := by decide
  simpa using List.all_eq_true.mp hall c h

theorem mapM_plainChar? {t : Text} (h : IsPlain t) : t.mapM plainChar? = some t := by
  induction t with
  | nil => rfl
  | cons c t ih =>
    rw [List.mapM_cons, plainChar?_eq (h c List.mem_cons_self),
      ih fun c' hc' => h c' (List.mem_cons_of_mem _ hc')]
    rfl

theorem dropWhile_isSpace {t : Text} (h : IsPlain t) : t.dropWhile isSpace = t := by
  cases t with
  | nil => rfl
  | cons c t =>
    have hc := isSpace_eq_false (h c List.mem_cons_self)
    rw [List.dropWhile_cons_of_neg (by simp [hc])]

theorem trim_eq {t : Text} (h : IsPlain t) : trim t = t := by
  have hreverse : IsPlain t.reverse := fun c hc => h c (List.mem_reverse.mp hc)
  rw [trim, dropWhile_isSpace h, dropWhile_isSpace hreverse, List.reverse_reverse]

theorem ungroup?_eq {t : Text} (h : IsPlain t) (afterDigit : Bool) :
    ungroup? afterDigit t = some t := by
  induction t generalizing afterDigit with
  | nil => rfl
  | cons c t ih =>
    have hc : c ≠ '_' := by
      intro heq
      have hmem := heq ▸ h c List.mem_cons_self
      revert hmem
      decide
    have ht := ih (fun c' hc' => h c' (List.mem_cons_of_mem _ hc')) (isDigit c)
    rw [ungroup?, ht]
    · rfl
    · exact fun _ _ heq _ => hc heq
    · exact fun heq _ => hc heq

theorem plain?_eq {t : Text} (h : IsPlain t) : plain? t = some t := by
  rw [plain?, mapM_plainChar? h]
  show ungroup? false (trim t) = some t
  rw [trim_eq h, ungroup?_eq h]

theorem splitSign_eq {c : Char} {t : Text} (h : isDigit c = true) :
    splitSign (c :: t) = (false, c :: t) := by
  have hc := mem_digits h
  have hall : (Text.digits.all fun c => c != '-' && c != '+') = true := by decide
  have hsign : c ≠ '-' ∧ c ≠ '+' := by simpa using List.all_eq_true.mp hall c hc
  rw [splitSign]
  · exact fun _ heq => hsign.1 (List.cons.inj heq).1
  · exact fun _ heq => hsign.2 (List.cons.inj heq).1

/-! ## Integers -/

theorem integer?_eq {t : Text} (h : IsDigits t) : integer? t = some (digitsValue t : Int) := by
  obtain ⟨c, more, rfl⟩ := List.exists_cons_of_ne_nil h.1
  have hall : (c :: more).all isDigit = true := List.all_eq_true.mpr h.2
  rw [integer?, plain?_eq (isPlain_of_isDigits h)]
  show signedDigits? (c :: more) = _
  rw [signedDigits?, splitSign_eq (isDigit_of_isDigits_cons h)]
  simp only [digits?, hall]
  rfl

theorem exists_integer? {t : Text} (h : IsDigits t) : ∃ v, integer? t = some v :=
  ⟨_, integer?_eq h⟩

/-! ## Floats -/

theorem takeWhile_isDigit {t : Text} (h : IsDigits t) : t.takeWhile isDigit = t := by
  have htake : (t ++ []).takeWhile isDigit = t ++ [].takeWhile isDigit :=
    List.takeWhile_append_of_pos h.2
  simpa using htake

theorem dropWhile_isDigit {t : Text} (h : IsDigits t) : t.dropWhile isDigit = [] := by
  have hdrop : (t ++ []).dropWhile isDigit = [].dropWhile isDigit :=
    List.dropWhile_append_of_pos h.2
  simpa using hdrop

theorem exists_unsignedDecimal? {t : Text} (h : IsNumeral t) :
    ∃ x, unsignedDecimal? t = some x := by
  cases h with
  | whole hdigits => simp [unsignedDecimal?, takeWhile_isDigit hdigits, hdigits.1]
  | @decimal whole fraction hwhole hfraction =>
    simp [unsignedDecimal?, takeWhile_isDigit_append_point hwhole, takeWhile_isDigit hfraction,
      dropWhile_isDigit hfraction, hwhole.1]

theorem float?_eq {t : Text} (h : IsNumeral t) : float? t = unsignedDecimal? t := by
  obtain ⟨c, more, rfl, hc⟩ := h.exists_cons
  have hall : (Text.digits.all fun c => c.toLower != 'i' && c.toLower != 'n') = true := by decide
  have hlower : c.toLower ≠ 'i' ∧ c.toLower ≠ 'n' := by
    simpa using List.all_eq_true.mp hall c (mem_digits hc)
  rw [float?, plain?_eq (isPlain_of_isNumeral h)]
  show signedFloat? (c :: more) = _
  rw [signedFloat?, splitSign_eq hc]
  simp [unsignedFloat?, hlower]

theorem exists_float? {t : Text} (h : IsNumeral t) : ∃ x, float? t = some x := by
  obtain ⟨x, hx⟩ := exists_unsignedDecimal? h
  exact ⟨x, (float?_eq h).trans hx⟩

theorem float?_digits {t : Text} (h : IsDigits t) :
    float? t = some (ofDecimal (digitsValue t) t.length 0) := by
  rw [float?_eq (.whole h)]
  simp [unsignedDecimal?, takeWhile_isDigit h, h.1]

end Numeral

/-! ## Literals -/

theorem Text.IsDigits.significant {t : Text} (h : Text.IsDigits t) :
    Text.IsDigits (Integral.significant t) := by
  unfold Integral.significant
  split
  · exact Text.isDigits_singleton rfl
  · next hdrop =>
    refine ⟨hdrop, fun c hc => h.2 c ?_⟩
    exact (List.dropWhile_suffix _).subset hc

theorem Text.IsNumeral.isDigits {t : Text} (h : Text.IsNumeral t) (hpoint : '.' ∉ t) :
    Text.IsDigits t := by
  cases h with
  | whole h => exact h
  | decimal _ _ => simp at hpoint

theorem Text.digitsValue_dropWhile (t : Text) :
    digitsValue (t.dropWhile (· == '0')) = digitsValue t := by
  induction t with
  | nil => rfl
  | cons c t ih =>
    rw [List.dropWhile_cons]
    split
    · next hzero =>
      rw [ih, eq_of_beq hzero]
      rfl
    · rfl

theorem Integral.digitsValue_significant (t : Text) :
    Text.digitsValue (significant t) = Text.digitsValue t := by
  rw [← Text.digitsValue_dropWhile t, significant]
  split
  · next hzeros =>
    rw [hzeros]
    rfl
  · rfl

end Reckon
