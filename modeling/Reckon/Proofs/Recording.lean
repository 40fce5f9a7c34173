/-
What requests leave in the output.

An evaluation leaves one record at most, and a journal as a session leaves it
writes a record once or not at all.  So what an evaluation adds to the output is
decided by its outcome, the level and whether a stream handler is attached.
Whatever is written is one line.
-/
import Reckon.Proofs.Journals
import Reckon.Proofs.Legibility

namespace Reckon

/-! ## Records -/

namespace Journal

variable {j : Journal}

/-- A stream handler is attached. -/
def streams (j : Journal) : Bool :=
  j.handlers.any Handler.isStream

theorem line_eq (r : Record) : line r =
    (match r.severity with
      | .debug => "DEBUG    | equation | "
      | .info => "INFO     | equation | "
      | .error => "ERROR    | equation | ") ++ r.message := by
  unfold line
  cases r.severity <;> exact congrArg (· ++ r.message) (by decide)

/-- A record that is grave enough is written once, as a line if there is a stream
handler and bare if there is no handler at all. -/
theorem Tidy.write (h : j.Tidy) (r : Record) :
    j.write r =
      if r.severity.level < j.effectiveLevel then []
      else if j.streams then [line r]
      else if j.handlers = [] ∧ ¬ r.severity.level < warningLevel then [r.message]
      else [] := by
  obtain ⟨n, hhandlers⟩ := h.handlers
  simp only [List.mem_cons, List.not_mem_nil, or_false] at hhandlers
  unfold Journal.write streams
  split
  · rfl
  · rcases hhandlers with hj | hj | hj | hj
    · simp only [hj, List.any_nil, Bool.false_eq_true, if_false, true_and, ite_not]
    · simp [hj, linesOf, Handler.isStream]
    · simp [hj, linesOf, Handler.isStream]
    · simp [hj, linesOf, Handler.isStream]

/-- A line that is written at a level if there is a stream handler. -/
def logged (j : Journal) (level : Int) (line : String) : List String :=
  if j.streams ∧ j.effectiveLevel ≤ level then [line] else []

/-- Only grave records are written where there is no stream handler. -/
theorem Tidy.write_of_mild (h : j.Tidy) {r : Record} (hmild : r.severity.level < warningLevel) :
    j.write r = j.logged r.severity.level (line r) := by
  rw [h.write r, logged]
  by_cases hlevel : r.severity.level < j.effectiveLevel
  · rw [if_pos hlevel, if_neg fun hlogged => Int.not_lt.mpr hlogged.2 hlevel]
  · simp [hlevel, hmild, Int.not_lt.mp hlevel]

theorem Tidy.write_of_grave (h : j.Tidy) {r : Record} (hgrave : ¬ r.severity.level < warningLevel) :
    j.write r =
      if r.severity.level < j.effectiveLevel then []
      else if j.streams then [line r]
      else if j.handlers = [] then [r.message]
      else [] := by
  simp only [h.write r, hgrave, not_false_eq_true, and_true]

theorem writeAll_singleton (j : Journal) (r : Record) : j.writeAll [r] = j.write r :=
  List.append_nil _

end Journal

/-! ## Evaluations -/

namespace Console

open Journal Recorded

/-- The lines written by an evaluation and by a report on it. -/
inductive Writes (j : Journal) (t : Text) :
    Except Fault Value → List String → List String → Prop
  | value (v : Value) :
      Writes j t (.ok v)
        (j.logged 10 ("DEBUG    | equation | " ++ s!"🧮 {Text.quoted t} = {v.text}"))
        (j.logged 10 ("DEBUG    | equation | " ++ s!"🧮 {Text.quoted t} = {v.text}"))
  | failure {fault : Fault} {f : Failure} :
      fault.failure? t = some f →
      Writes j t (.error fault) []
        (j.logged 20 ("INFO     | equation | " ++ (failureRecord t f).message))

/-- The lines written by the evaluation of a tree. -/
inductive WritesOfTree (j : Journal) (t : Text) : Except Fault Value → List String → Prop
  | mismatch (m : Mismatch) :
      WritesOfTree j t (.error (.inconsistent m))
        (if 40 < j.effectiveLevel then []
        else if j.streams then ["ERROR    | equation | " ++ (mismatchRecord t m).message]
        else if j.handlers = [] then [(mismatchRecord t m).message]
        else [])
  | other {outcome : Except Fault Value} :
      (∀ m, outcome ≠ .error (.inconsistent m)) → WritesOfTree j t outcome []

section

variable {j : Journal} (h : j.Tidy) (t : Text)

include h

theorem writeAll_valueRecord (v : Value) : j.writeAll [valueRecord t v] =
    j.logged 10 ("DEBUG    | equation | " ++ s!"🧮 {Text.quoted t} = {v.text}") := by
  rw [writeAll_singleton, h.write_of_mild (show Severity.debug.level < warningLevel by decide),
    line_eq]
  rfl

theorem writeAll_failureRecord (f : Failure) : j.writeAll [failureRecord t f] =
    j.logged 20 ("INFO     | equation | " ++ (failureRecord t f).message) := by
  rw [writeAll_singleton, h.write_of_mild (show Severity.info.level < warningLevel by decide),
    line_eq]
  rfl

theorem Emits.writes {outcome : Except Fault Value} {rs rs' : List Record}
    (hemits : Emits t outcome rs rs') : Writes j t outcome (j.writeAll rs) (j.writeAll rs') := by
  cases hemits with
  | value v =>
    rw [writeAll_valueRecord h]
    exact .value v
  | failure hf =>
    rw [writeAll_failureRecord h]
    exact .failure hf

theorem EmitsOfTree.writes {outcome : Except Fault Value} {rs : List Record}
    (hemits : EmitsOfTree t outcome rs) : WritesOfTree j t outcome (j.writeAll rs) := by
  cases hemits with
  | mismatch m =>
    rw [writeAll_singleton, h.write_of_grave (show ¬ Severity.error.level < warningLevel by decide),
      line_eq]
    exact .mismatch m
  | other hnone => exact .other hnone

end

/-- Whatever was requested before, each request answers with the outcome of its
evaluation and writes at most one line, which the outcome, the level and the
handlers decide, and no line holds a character that ends it.  On any tree the
evaluator emits one record of the mismatch that it stops at, or none, and none on
the tree of a text. -/
theorem writes_of_session (requests : List Request) :
    let j := run Journal.initial requests
    (∀ settings t,
      (Request.step j (.evaluate settings t)).answer = .value (Calculator.evaluate settings t) ∧
      (Request.step j (.evaluateResult settings t)).answer =
        .report (Calculator.evaluateResult settings t) ∧
      Writes j t (Calculator.evaluate settings t) (Request.step j (.evaluate settings t)).written
        (Request.step j (.evaluateResult settings t)).written) ∧
    (∀ settings t root,
      (Request.step j (.evaluateTree settings t root)).answer =
        .value (Calculator.evaluateTree settings root) ∧
      WritesOfTree j t (Calculator.evaluateTree settings root)
        (Request.step j (.evaluateTree settings t root)).written) ∧
    (∀ settings t root,
      (evaluateTree settings t root).outcome = Calculator.evaluateTree settings root ∧
      EmitsOfTree t (Calculator.evaluateTree settings root)
        (evaluateTree settings t root).records) ∧
    (∀ limit settings t root, recognize limit t = .ok root →
      (evaluateTree settings t root).records = []) ∧
    ∀ request : Request, ∀ line ∈ (request.step j).written,
      ∀ c ∈ line.toList, Text.isPrintable c = true ∧ c ∉ Text.lineBreaks := by
  intro j
  have htidy : j.Tidy := tidy_run tidy_initial requests
  refine ⟨fun settings t => ?_, fun settings t root => ?_, evaluateTree_emits,
    fun limit settings t root h => evaluateTree_emits_of_recognize h settings,
    fun request line hline c hc => ?_⟩
  · obtain ⟨houtcome, hreport, hemits⟩ := evaluate_emits settings t
    exact ⟨congrArg Answer.value houtcome, congrArg Answer.report hreport, hemits.writes htidy⟩
  · obtain ⟨houtcome, hemits⟩ := evaluateTree_emits settings t root
    exact ⟨congrArg Answer.value houtcome, hemits.writes htidy⟩
  · have hlegible := request.isLegible_written j line hline
    exact ⟨hlegible c hc, hlegible.not_lineBreak hc⟩

theorem writes_of_session_one :
    ∃ root, recognize 64 ['1'] = .ok root ∧
      (evaluateTree { mode := .int32 } ['1'] root).records = [] ∧
      (Request.step (run Journal.initial [.configure (.number 10)])
        (.evaluate { mode := .int32 } ['1'])).written = ["DEBUG    | equation | 🧮 '1' = 1"] := by
  obtain ⟨_, _, _, hrecognized, _⟩ := writes_of_session [.configure (.number 10)]
  have hroot : recognize 64 ['1'] = .ok ⟨.equation, ['1'], 0, 1, [⟨.expression, ['1'], 0, 1,
      [⟨.term, ['1'], 0, 1, [⟨.number, ['1'], 0, 1, []⟩]⟩]⟩]⟩ := by
    cbv
  refine ⟨_, hroot, hrecognized 64 _ _ _ hroot, ?_⟩
  decide +kernel

end Console

end Reckon
