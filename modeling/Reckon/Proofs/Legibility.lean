/-
Messages of visible characters.

A message holds words of its own, names, numbers and quoted texts, and a quoted
text escapes whatever has no visible form.  So no message holds a character that
ends a line or moves the cursor, whatever texts it is about.
-/
import Mathlib.Tactic.SplitIfs
import Reckon.Proofs.Emission

namespace Reckon

/-! ## Characters -/

namespace Text

/-- The characters that end a line for one reader or another. -/
def lineBreaks : List Char :=
  ['\n', '\x0b', '\x0c', '\r', '\x1c', '\x1d', '\x1e', '\x85', '\u2028', '\u2029']

theorem isPrintable_lineBreak {c : Char} (h : c ∈ lineBreaks) : isPrintable c = false := by
  have hall : (lineBreaks.all fun c => !isPrintable c) = true := by decide +kernel
  simpa using List.all_eq_true.mp hall c h

theorem isPrintable_of_ascii {c : Char} (hlow : 0x20 ≤ c.toNat) (hhigh : c.toNat ≤ 0x7E) :
    isPrintable c = true := by
  have hruns : (unprintableRuns.all fun run => decide (run.2 < 0x20 ∨ 0x7E < run.1)) = true := by
    decide +kernel
  have hnone : (unprintableRuns.any fun run => run.1 ≤ c.toNat && c.toNat ≤ run.2) = false := by
    rw [List.any_eq_false]
    intro run hrun
    have hout := of_decide_eq_true (List.all_eq_true.mp hruns run hrun)
    simp only [Bool.and_eq_true, decide_eq_true_eq]
    omega
  rw [isPrintable, hnone]
  rfl

/-! ## Texts -/

def IsLegible (t : Text) : Prop :=
  ∀ c ∈ t, isPrintable c = true

/-- The signs with which the messages of a console begin. -/
def signs : List Char :=
  ['🧩', '❌', '🧮']

/-- Words of this library are in ASCII, but for the signs. -/
def isWording (t : Text) : Bool :=
  t.all fun c => decide (0x20 ≤ c.toNat ∧ c.toNat ≤ 0x7E) || signs.contains c

theorem isLegible_of_isWording {t : Text} (h : isWording t = true) : IsLegible t := by
  intro c hc
  have hword := List.all_eq_true.mp h c hc
  rw [Bool.or_eq_true] at hword
  rcases hword with hascii | hsign
  · have hbounds := of_decide_eq_true hascii
    exact isPrintable_of_ascii hbounds.1 hbounds.2
  · have hsigns : (signs.all isPrintable) = true := by decide +kernel
    exact List.all_eq_true.mp hsigns c (List.contains_iff_mem.mp hsign)

theorem isLegible_nil : IsLegible [] :=
  nofun

theorem isLegible_cons {c : Char} {t : Text} :
    IsLegible (c :: t) ↔ isPrintable c = true ∧ IsLegible t :=
  List.forall_mem_cons

theorem isLegible_append {t t' : Text} : IsLegible (t ++ t') ↔ IsLegible t ∧ IsLegible t' :=
  List.forall_mem_append

theorem IsLegible.sublist {t t' : Text} (h : IsLegible t) (hsub : t'.Sublist t) : IsLegible t' :=
  fun c hc => h c (hsub.subset hc)

theorem IsLegible.not_lineBreak {t : Text} (h : IsLegible t) {c : Char} (hc : c ∈ t) :
    c ∉ lineBreaks := by
  intro hbreak
  have hprintable := h c hc
  rw [isPrintable_lineBreak hbreak] at hprintable
  cases hprintable

theorem isLegible_replicate {c : Char} (h : isPrintable c = true) (n : Nat) :
    IsLegible (List.replicate n c) := by
  intro c' hc'
  rw [(List.mem_replicate.mp hc').2]
  exact h

theorem isLegible_toDigits (n : Nat) : IsLegible (Nat.toDigits 10 n) := by
  intro c hc
  have hdigit := Nat.isDigit_of_mem_toDigits (by decide) (by decide) hc
  simp only [Char.isDigit, Bool.and_eq_true, decide_eq_true_eq, ge_iff_le, UInt32.le_iff_toNat_le]
    at hdigit
  exact isPrintable_of_ascii (Nat.le_trans (by decide) hdigit.1)
    (Nat.le_trans hdigit.2 (by decide))

/-! ## Quoted texts -/

theorem isLegible_hexDigits (width n : Nat) : IsLegible (hexDigits width n) := by
  induction width generalizing n with
  | zero => exact isLegible_nil
  | succ width ih =>
    have hdigit : ∀ d < 16, isPrintable (Nat.digitChar d) = true := by decide +kernel
    refine isLegible_append.mpr ⟨ih _, isLegible_cons.mpr ⟨?_, isLegible_nil⟩⟩
    exact hdigit _ (Nat.mod_lt _ (by decide))

theorem isPrintable_quoteMark (t : Text) : isPrintable (quoteMark t) = true := by
  unfold quoteMark
  split
  · exact isPrintable_of_ascii (by decide) (by decide)
  · exact isPrintable_of_ascii (by decide) (by decide)

/-- What is not escaped is printable, and an escape is in ASCII. -/
theorem isLegible_escape {mark : Char} (hmark : isPrintable mark = true) (c : Char) :
    IsLegible (escape mark c) := by
  have hbackslash : isPrintable '\\' = true := isPrintable_of_ascii (by decide) (by decide)
  unfold escape
  split_ifs with hself _ _ _ hprintable
  · simp only [Bool.or_eq_true, beq_iff_eq] at hself
    refine isLegible_cons.mpr ⟨hbackslash, isLegible_cons.mpr ⟨?_, isLegible_nil⟩⟩
    rcases hself with rfl | rfl
    · exact hbackslash
    · exact hmark
  · exact isLegible_of_isWording (by decide)
  · exact isLegible_of_isWording (by decide)
  · exact isLegible_of_isWording (by decide)
  · exact isLegible_cons.mpr ⟨hprintable, isLegible_nil⟩
  · exact isLegible_append.mpr ⟨isLegible_of_isWording (by decide), isLegible_hexDigits _ _⟩
  · exact isLegible_append.mpr ⟨isLegible_of_isWording (by decide), isLegible_hexDigits _ _⟩
  · exact isLegible_append.mpr ⟨isLegible_of_isWording (by decide), isLegible_hexDigits _ _⟩

theorem isLegible_quote (t : Text) : IsLegible (quote t) := by
  have hmark := isPrintable_quoteMark t
  refine isLegible_cons.mpr ⟨hmark, isLegible_append.mpr ⟨?_, ?_⟩⟩
  · intro c hc
    obtain ⟨c', _, hc⟩ := List.mem_flatMap.mp hc
    exact isLegible_escape hmark c' c hc
  · exact isLegible_cons.mpr ⟨hmark, isLegible_nil⟩

theorem isLegible_quoted (t : Text) : IsLegible (quoted t).toList := by
  rw [quoted, String.toList_ofList]
  exact isLegible_quote t

/-! ## Strings -/

theorem isLegible_concat {s s' : String} (h : IsLegible s.toList) (h' : IsLegible s'.toList) :
    IsLegible (s ++ s').toList := by
  rw [String.toList_append]
  exact isLegible_append.mpr ⟨h, h'⟩

/-- What stands between words of a message. -/
theorem isLegible_amid {w s w' : String} (hw : isWording w.toList = true) (h : IsLegible s.toList)
    (hw' : isWording w'.toList = true) : IsLegible (w ++ s ++ w').toList :=
  isLegible_concat (isLegible_concat (isLegible_of_isWording hw) h) (isLegible_of_isWording hw')

theorem isLegible_intercalate {s : String} {ss : List String} (h : IsLegible s.toList)
    (hall : ∀ s' ∈ ss, IsLegible s'.toList) : IsLegible (s.intercalate ss).toList := by
  induction ss with
  | nil => exact isLegible_nil
  | cons s' ss ih =>
    have hs' := hall s' List.mem_cons_self
    cases ss with
    | nil =>
      rw [String.intercalate_singleton]
      exact hs'
    | cons s'' ss =>
      rw [String.intercalate_cons_cons]
      have htail := ih fun t ht => hall t (List.mem_cons_of_mem _ ht)
      exact isLegible_concat (isLegible_concat hs' h) htail

/-! ## Numbers -/

theorem isLegible_natRepr (n : Nat) : IsLegible n.repr.toList := by
  rw [Nat.repr, String.toList_ofList]
  exact isLegible_toDigits n

theorem isLegible_int (v : Int) : IsLegible (toString v).toList := by
  cases v with
  | ofNat n => exact isLegible_natRepr n
  | negSucc n =>
    have hneg : IsLegible ("-" ++ (n + 1).repr).toList := by
      rw [String.toList_append]
      exact isLegible_append.mpr ⟨isLegible_of_isWording (by decide), isLegible_natRepr _⟩
    exact hneg

end Text

namespace Binary64

open Text

theorem isLegible_positional {digits : Text} (h : IsLegible digits) (first : Int) :
    IsLegible (positional digits first) := by
  have hzero : isPrintable '0' = true := isPrintable_of_ascii (by decide) (by decide)
  unfold positional
  split
  · simp only [isLegible_append]
    exact ⟨⟨isLegible_of_isWording (by decide), isLegible_replicate hzero _⟩, h⟩
  · simp only [isLegible_append, isLegible_cons]
    have hpoint := isPrintable_of_ascii (c := '.') (by decide) (by decide)
    refine ⟨⟨h.sublist (List.take_sublist _ _), isLegible_replicate hzero _⟩, hpoint, ?_⟩
    split
    · exact isLegible_of_isWording (by decide)
    · exact h.sublist (List.drop_sublist _ _)

theorem isLegible_scientific (layout : Layout) {digits : Text} (h : IsLegible digits)
    (first : Int) : IsLegible (scientific layout digits first) := by
  have hzero : isPrintable '0' = true := isPrintable_of_ascii (by decide) (by decide)
  simp only [scientific, isLegible_append]
  refine ⟨⟨⟨⟨h.sublist (List.take_sublist _ _), ?_⟩, ?_⟩, isLegible_replicate hzero _⟩,
    isLegible_toDigits _⟩
  · split
    · exact isLegible_nil
    · have hpoint := isPrintable_of_ascii (c := '.') (by decide) (by decide)
      exact isLegible_cons.mpr ⟨hpoint, h.sublist (List.drop_sublist _ _)⟩
  · split
    · exact isLegible_of_isWording (by decide)
    · exact isLegible_of_isWording (by decide)

theorem Decimal.isLegible_text (layout : Layout) (d : Decimal) : IsLegible (d.text layout) := by
  unfold Decimal.text
  dsimp only
  split
  · exact isLegible_positional (isLegible_toDigits _) _
  · exact isLegible_scientific _ (isLegible_toDigits _) _

theorem isLegible_signed {t : Text} (h : IsLegible t) (negative : Bool) :
    IsLegible (signed negative t) := by
  unfold signed
  split
  · exact isLegible_cons.mpr ⟨isPrintable_of_ascii (by decide) (by decide), h⟩
  · exact h

theorem Decoded.isLegible_text (d : Decoded) : IsLegible d.text := by
  unfold Decoded.text
  split
  · exact isLegible_of_isWording (by decide)
  · exact isLegible_signed (isLegible_of_isWording (by decide)) _
  · exact isLegible_signed (isLegible_of_isWording (by decide)) _
  · exact isLegible_signed (Decimal.isLegible_text _ _) _

end Binary64

open Text

theorem Value.isLegible_text (v : Value) : IsLegible v.text.toList := by
  cases v with
  | int v => exact isLegible_int v
  | float x =>
    rw [Value.text, String.toList_ofList]
    exact (Binary64.decode x).isLegible_text

/-! ## Messages -/

theorem Operation.isLegible_capitalize (op : Operation) :
    IsLegible op.name.capitalize.toList := by
  cases op <;> exact isLegible_of_isWording (by decide)

theorem Function.isLegible_name (f : Function) : IsLegible f.name := by
  cases f <;> exact isLegible_of_isWording (by decide)

theorem Operation.isLegible_name (op : Operation) : IsLegible op.name.toList := by
  cases op <;> exact isLegible_of_isWording (by decide)

theorem Rule.isLegible_name (rule : Rule) : IsLegible rule.name.toList := by
  cases rule with
  | operator op => exact op.isLegible_name
  | _ => exact isLegible_of_isWording (by decide)

theorem Label.isLegible_text (l : Label) : IsLegible l.text.toList := by
  cases l with
  | operator op => exact op.isLegible_name
  | _ => exact isLegible_of_isWording (by decide)

theorem Cause.isLegible_message (cause : Cause) : IsLegible cause.message.toList := by
  cases cause with
  | literalTooLarge literal =>
    dsimp only [Cause.message]
    exact isLegible_amid (by decide) (isLegible_quoted _) (by decide)
  | literalNotInteger literal =>
    dsimp only [Cause.message]
    exact isLegible_amid (by decide) (isLegible_quoted _) (by decide)
  | literalTooLong literal =>
    dsimp only [Cause.message]
    exact isLegible_amid (by decide) (isLegible_quoted _) (by decide)
  | outOfRange value =>
    dsimp only [Cause.message]
    exact isLegible_amid (by decide) (isLegible_int _) (by decide)
  | zeroDivisor op =>
    dsimp only [Cause.message]
    exact isLegible_concat op.isLegible_capitalize (isLegible_of_isWording (by decide))
  | negativeExponent exponent =>
    dsimp only [Cause.message]
    exact isLegible_amid (by decide) (isLegible_int _) (by decide)
  | powerOutOfRange base exponent =>
    dsimp only [Cause.message]
    refine isLegible_concat (isLegible_concat ?_ (isLegible_int _)) (isLegible_of_isWording ?_)
    · exact isLegible_amid (by decide) (isLegible_int _) (by decide)
    · decide
  | notFinite f arg =>
    dsimp only [Cause.message]
    have hname : IsLegible (String.ofList f.name).toList := by
      rw [String.toList_ofList]
      exact f.isLegible_name
    refine isLegible_concat (isLegible_concat (isLegible_concat hname ?_) (isLegible_int _)) ?_
    · exact isLegible_of_isWording (by decide)
    · exact isLegible_of_isWording (by decide)

theorem Mismatch.isLegible_detail (mismatch : Mismatch) : IsLegible mismatch.detail.toList := by
  cases mismatch with
  | noHandler rule =>
    dsimp only [Mismatch.detail]
    exact isLegible_concat (isLegible_of_isWording (by decide)) rule.isLegible_name
  | missingOperand => exact isLegible_of_isWording (by decide)
  | unknownFunction name =>
    dsimp only [Mismatch.detail]
    exact isLegible_concat (isLegible_of_isWording (by decide)) (isLegible_quoted _)

/-! ## Failures -/

/-- A failure of an expression is put into words of the library. -/
structure Failure.IsLegible (f : Failure) : Prop where
  message : Text.IsLegible f.message.toList
  expected : ∀ s ∈ f.expected, Text.IsLegible s.toList

theorem Fault.isLegible_failure {fault : Fault} {expression : Text} {f : Failure}
    (h : fault.failure? expression = some f) : f.IsLegible := by
  cases fault with
  | unexpected position expected =>
    cases h
    refine ⟨?_, fun s hs => ?_⟩
    · dsimp only [Failure.message]
      split
      · exact isLegible_of_isWording (by decide)
      · exact isLegible_of_isWording (by decide)
    · obtain ⟨l, _, rfl⟩ := List.mem_map.mp hs
      exact l.isLegible_text
  | tooDeep limit position =>
    cases h
    exact ⟨isLegible_amid (by decide) (isLegible_int _) (by decide), nofun⟩
  | refused refusal position =>
    cases refusal with
    | unrepresentable cause =>
      cases h
      exact ⟨cause.isLegible_message, nofun⟩
    | unreadable form text => cases h
    | beyondFloat => cases h
  | inconsistent mismatch =>
    cases h
    exact ⟨isLegible_concat (isLegible_of_isWording (by decide)) mismatch.isLegible_detail, nofun⟩

theorem Failure.IsLegible.text {f : Failure} (h : f.IsLegible) :
    Text.IsLegible f.text.toList := by
  cases f with
  | syntaxError message expression position expected =>
    have hplace : Text.IsLegible
        (s!"{message} at {expression.line position}:{expression.column position}").toList := by
      refine isLegible_concat (isLegible_concat (isLegible_concat (isLegible_concat h.message ?_)
        (isLegible_natRepr _)) ?_) (isLegible_int _)
      · exact isLegible_of_isWording (by decide)
      · exact isLegible_of_isWording (by decide)
    dsimp only [Failure.text]
    split
    · exact hplace
    · exact isLegible_concat (isLegible_concat hplace (isLegible_of_isWording (by decide)))
        (isLegible_intercalate (isLegible_of_isWording (by decide)) h.expected)
  | evaluation message expression position => exact h.message
  | limit message expression position maxDepth => exact h.message
  | internal message expression => exact h.message

/-! ## Records -/

namespace Console

open Recorded (mismatchRecord)

theorem isLegible_mismatchRecord (expression : Text) (m : Mismatch) :
    IsLegible (mismatchRecord expression m).message.toList := by
  dsimp only [mismatchRecord]
  exact isLegible_concat (isLegible_concat (isLegible_concat (isLegible_of_isWording (by decide))
    m.isLegible_detail) (isLegible_of_isWording (by decide))) (isLegible_quoted _)

theorem isLegible_valueRecord (expression : Text) (v : Value) :
    IsLegible (valueRecord expression v).message.toList := by
  dsimp only [valueRecord]
  exact isLegible_concat (isLegible_amid (by decide) (isLegible_quoted _) (by decide))
    v.isLegible_text

theorem isLegible_failureRecord (expression : Text) {f : Failure} (h : f.IsLegible) :
    IsLegible (failureRecord expression f).message.toList := by
  dsimp only [failureRecord]
  exact isLegible_concat (isLegible_amid (by decide) (isLegible_quoted _) (by decide)) h.text

theorem EmitsOfTree.isLegible {t : Text} {outcome : Except Fault Value} {rs : List Record}
    (h : EmitsOfTree t outcome rs) : ∀ r ∈ rs, IsLegible r.message.toList := by
  cases h with
  | mismatch m => exact List.forall_mem_singleton.mpr (isLegible_mismatchRecord t m)
  | other _ => exact nofun

theorem Emits.isLegible {t : Text} {outcome : Except Fault Value} {rs rs' : List Record}
    (h : Emits t outcome rs rs') :
    (∀ r ∈ rs, IsLegible r.message.toList) ∧ ∀ r ∈ rs', IsLegible r.message.toList := by
  cases h with
  | value v =>
    have hvalue : ∀ r ∈ [valueRecord t v], IsLegible r.message.toList :=
      List.forall_mem_singleton.mpr (isLegible_valueRecord t v)
    exact ⟨hvalue, hvalue⟩
  | failure hf =>
    have hfailure := isLegible_failureRecord t (Fault.isLegible_failure hf)
    exact ⟨nofun, List.forall_mem_singleton.mpr hfailure⟩

end Console

/-! ## Lines -/

namespace Journal

theorem isLegible_line {r : Record} (h : IsLegible r.message.toList) :
    IsLegible (line r).toList := by
  unfold line
  refine isLegible_concat (isLegible_of_isWording ?_) h
  cases r.severity <;> decide

theorem isLegible_write {r : Record} (h : IsLegible r.message.toList) (j : Journal) :
    ∀ l ∈ j.write r, IsLegible l.toList := by
  intro l hl
  unfold write at hl
  split at hl
  · cases hl
  · split at hl
    · split at hl
      · cases hl
      · rw [List.mem_singleton.mp hl]
        exact h
    · obtain ⟨handler, _, hl⟩ := List.mem_flatMap.mp hl
      cases handler with
      | silent => cases hl
      | stream serial =>
        rw [List.mem_singleton.mp hl]
        exact isLegible_line h

theorem isLegible_writeAll {rs : List Record} (h : ∀ r ∈ rs, IsLegible r.message.toList)
    (j : Journal) : ∀ l ∈ j.writeAll rs, IsLegible l.toList := by
  intro l hl
  obtain ⟨r, hr, hl⟩ := List.mem_flatMap.mp hl
  exact isLegible_write (h r hr) j l hl

end Journal

theorem Console.Request.isLegible_written (j : Journal) (request : Request) :
    ∀ l ∈ (request.step j).written, IsLegible l.toList := by
  cases request with
  | configure choice =>
    intro l hl
    simp only [step] at hl
    split at hl
    · cases hl
    · cases hl
  | clearHandlers => exact nofun
  | evaluate settings expression =>
    exact Journal.isLegible_writeAll (evaluate_emits settings expression).2.2.isLegible.1 j
  | evaluateResult settings expression =>
    exact Journal.isLegible_writeAll (evaluate_emits settings expression).2.2.isLegible.2 j
  | evaluateTree settings expression root =>
    exact Journal.isLegible_writeAll (evaluateTree_emits settings expression root).2.isLegible j

end Reckon
