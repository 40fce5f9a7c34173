/-
Reports on expressions.

Every text has a report.  Whatever keeps it from having a value is a failure of
the expression, with a position in the text, and the report repeats it field by
field.
-/
import Reckon.Proofs.Calculation

namespace Reckon

/-! ## Where parentheses lie too deep -/

theorem Overrun.start_lt {limit : Nat} {s : Stage} {c d : Cursor} {start : Nat}
    (h : Overrun limit s c start d) : start < c.total := by
  cases h with
  | group hrun _ _ _ hopen =>
    rw [← hrun.total]
    exact hopen.start_lt (by simp)
  | call hrun hname _ _ =>
    rw [← hrun.total]
    exact hname.takes.start_lt (Lexeme.spelled _).ne_nil

/-! ## Faults that are reported -/

/-- What can be said of the failure of a text at an offset. -/
structure Failure.Fits (t : Text) (p : Nat) (f : Failure) : Prop where
  position : f.position? = some (p : Int)
  le_length : p ≤ t.length
  lt_length : f.kind = .limit ∨ f.kind = .evaluation → p < t.length
  not_internal : f.kind ≠ .internal
  expected : f.expected ≠ [] ↔ f.kind = .syntaxError

theorem Failure.Fits.report {t : Text} {p : Nat} {f : Failure} (h : f.Fits t p) :
    f.report t = .ok (.failure t f.kind f.message (some p) f.expected) := by
  have hnatural : (Datum.int (p : Int)).natural? = .ok p := by
    simp [Datum.natural?, Datum.int?, bind, Except.bind]
  rw [Failure.report, h.position]
  dsimp only
  rw [hnatural]
  rfl

theorem Recognized.fits {limit : Int} {t : Text} {fault : Fault}
    (h : Recognized limit t (.error fault)) :
    ∃ f p, fault.failure? t = some f ∧ f.Fits t p ∧ (f.kind = .syntaxError ∨ f.kind = .limit) := by
  cases fault with
  | unexpected p expected =>
    obtain ⟨u, xs, q, e, ht, rfl, _, _, hlabels, _⟩ := h.exists_halt
    obtain ⟨l, hl⟩ := q.exists_expects
    refine ⟨_, u.length, rfl, ⟨rfl, ?_, ?_, by simp [Failure.kind], ?_⟩, .inl rfl⟩
    · rw [ht, List.length_append]
      exact Nat.le_add_right _ _
    · intro hkind
      rcases hkind with hkind | hkind <;> cases hkind
    · have hne : expected ≠ [] := List.ne_nil_of_mem ((hlabels l).mpr hl)
      simp [Failure.expected, Failure.kind, hne]
  | tooDeep limit' start =>
    cases h with
    | tooDeep hoverrun =>
      have hlt : start < t.length := by
        simpa [Cursor.total, Cursor.ofText] using hoverrun.start_lt
      exact ⟨_, start, rfl, ⟨rfl, Nat.le_of_lt hlt, fun _ => hlt, by simp [Failure.kind], by
        simp [Failure.expected, Failure.kind]⟩, .inr rfl⟩
  | refused _ _ => cases h
  | inconsistent _ => cases h

theorem fits_refused {t : Text} {p : Nat} (cause : Cause) (hp : p < t.length) :
    ∃ f, (Fault.refused (.unrepresentable cause) p).failure? t = some f ∧ f.Fits t p ∧
      f.kind = .evaluation :=
  ⟨_, rfl, ⟨rfl, Nat.le_of_lt hp, fun _ => hp, by simp [Failure.kind], by
    simp [Failure.expected, Failure.kind]⟩, rfl⟩

/-! ## Reports -/

open Calculator

theorem evaluate_of_recognize_error {settings : Settings} {t : Text} {fault : Fault}
    (h : recognize settings.maxDepth t = .error fault) : evaluate settings t = .error fault := by
  rw [evaluate, h]
  rfl

theorem evaluateResult_of_fits {settings : Settings} {t : Text} {fault : Fault} {f : Failure}
    {p : Nat} (h : evaluate settings t = .error fault) (hf : fault.failure? t = some f)
    (hfits : f.Fits t p) :
    evaluateResult settings t = .ok (.failure t f.kind f.message (some p) f.expected) := by
  rw [evaluateResult, h, report]
  simp only [hf, hfits.report]
  rfl

/-- The report on a text is the value of the text, of the kind that the settings
ask for, or else repeats the fault that keeps it from having one. -/
inductive Reported (settings : Settings) (t : Text) : Except Fault Value → Report → Prop
  | value {v : Value} : v.mode = settings.mode → Reported settings t (.ok v) (.result t v)
  | failure {fault : Fault} {f : Failure} {p : Nat} :
      fault.failure? t = some f → f.Fits t p →
      (f.kind = .syntaxError ∨ f.kind = .limit ↔ recognize settings.maxDepth t = .error fault) →
      Reported settings t (.error fault) (.failure t f.kind f.message (some p) f.expected)

theorem exists_reported (settings : Settings) (t : Text) :
    ∃ r, evaluateResult settings t = .ok r ∧ Reported settings t (evaluate settings t) r := by
  have hrecognized := recognized settings.maxDepth t
  cases hr : recognize settings.maxDepth t with
  | error fault =>
    obtain ⟨f, p, hf, hfits, hkind⟩ := (hr ▸ hrecognized).fits
    have heval := evaluate_of_recognize_error hr
    refine ⟨_, evaluateResult_of_fits heval hf hfits, ?_⟩
    rw [heval]
    exact .failure hf hfits ⟨fun _ => hr, fun _ => hkind⟩
  | ok root =>
    obtain ⟨φ, _, hwithin, hvalue⟩ := evaluateTree_eq (hr ▸ hrecognized)
    rw [← evaluate_of_recognize hr] at hvalue
    rcases settings.placed_value hwithin with ⟨v, hv, hmode⟩ | ⟨cause, p, hv, hp⟩
    · rw [evaluateResult, hvalue, hv]
      exact ⟨_, rfl, .value hmode⟩
    · rw [hv] at hvalue
      obtain ⟨f, hf, hfits, hkind⟩ := fits_refused cause hp
      refine ⟨_, evaluateResult_of_fits hvalue hf hfits, ?_⟩
      rw [hvalue]
      refine .failure hf hfits ⟨fun h => ?_, fun h => ?_⟩
      · rw [hkind] at h
        rcases h with h | h <;> cases h
      · cases hr.symm.trans h

/-- Every text has a report, which agrees with the evaluation of the text.  What
the recognizer refuses is reported alike in all modes and units. -/
theorem evaluateResult_total (settings : Settings) (t : Text) :
    (∃ r, evaluateResult settings t = .ok r ∧ Reported settings t (evaluate settings t) r) ∧
      ∀ (other : Settings) (fault : Fault), recognize settings.maxDepth t = .error fault →
        other.maxDepth = settings.maxDepth →
          evaluateResult other t = evaluateResult settings t := by
  refine ⟨exists_reported settings t, fun other fault h hdepth => ?_⟩
  have hother : recognize other.maxDepth t = .error fault := by rw [hdepth, h]
  rw [evaluateResult, evaluateResult, evaluate_of_recognize_error h,
    evaluate_of_recognize_error hother]

theorem evaluateResult_one_plus_times :
    evaluateResult { mode := .int32, unit := .degrees } "1 + * 2".toList =
      evaluateResult {} "1 + * 2".toList :=
  (evaluateResult_total {} _).2 _
    (.unexpected 4 [.openParen, .functionName, .number, .unaryMinus])
    (by decide +kernel) rfl

end Reckon
