/-
Recording misses as a join.

A frontier keeps the greatest offset of all misses, with the labels that were
looked for there.  So it is a matter of which misses there were, and neither of
their order nor of how often they were recorded.  The misses of a session all
lie where its text goes on after blanks, or at the end of the text.
-/
import Mathlib.Data.List.Nodup
import Mathlib.Order.Bounds.Basic
import Reckon.Proofs.Settling

namespace Reckon

/-! ## Frontiers -/

namespace Frontier

/-- `g` is what is left of the frontier `f` and the misses `ms` together. -/
structure IsJoin (f : Frontier) (ms : List Miss) (g : Frontier) : Prop where
  furthest : IsGreatest {p | p = f.furthest ∨ ∃ m ∈ ms, p = m.pos} g.furthest
  mem_expected : ∀ l, l ∈ g.expected ↔
    (∃ m ∈ ms, m.pos = g.furthest ∧ m.label = l) ∨ (g.furthest = f.furthest ∧ l ∈ f.expected)
  nodup : f.expected.Nodup → g.expected.Nodup

/-- The same is reported from two frontiers. -/
structure Agrees (f g : Frontier) : Prop where
  furthest : f.furthest = g.furthest
  mem_expected : ∀ l, l ∈ f.expected ↔ l ∈ g.expected
  labels : f.labels = g.labels

theorem nodup_record {f : Frontier} (h : f.expected.Nodup) (m : Miss) :
    (f.record m).expected.Nodup := by
  unfold record
  split
  · exact List.nodup_singleton _
  · split
    · exact h.insert
    · exact h

theorem nodup_recordAll {f : Frontier} (h : f.expected.Nodup) (ms : List Miss) :
    (f.recordAll ms).expected.Nodup := by
  induction ms generalizing f with
  | nil => exact h
  | cons m ms ih => exact ih (nodup_record h m)

theorem isJoin_recordAll (f : Frontier) (ms : List Miss) : f.IsJoin ms (f.recordAll ms) where
  furthest := by
    refine ⟨furthest_recordAll_eq f ms, ?_⟩
    rintro p (rfl | ⟨m, hm, rfl⟩)
    · exact furthest_le_recordAll f ms
    · exact pos_le_recordAll hm
  mem_expected l := by
    rw [mem_expected_recordAll, or_comm]
    refine or_congr ⟨fun hm => ⟨_, hm, rfl, rfl⟩, ?_⟩ (and_congr_left' eq_comm)
    rintro ⟨⟨pos, label⟩, hm, rfl, rfl⟩
    exact hm
  nodup h := nodup_recordAll h ms

/-- A join depends on the misses only as a set. -/
theorem IsJoin.agrees {f g g' : Frontier} {ms ns : List Miss} (h : f.IsJoin ms g)
    (h' : f.IsJoin ns g') (hsame : ∀ m, m ∈ ms ↔ m ∈ ns) : g.Agrees g' := by
  have hfurthest : g.furthest = g'.furthest := by
    refine h.furthest.unique ?_
    simpa only [hsame] using h'.furthest
  have hmem : ∀ l, l ∈ g.expected ↔ l ∈ g'.expected := by
    intro l
    rw [h.mem_expected, h'.mem_expected, hfurthest]
    simp only [hsame]
  exact ⟨hfurthest, hmem, labels_congr hmem⟩

end Frontier

/-! ## The misses of a session -/

namespace Session

/-- The misses that a call records.  The end of the text is one of them, if the
text goes on after the expression. -/
def recorded (limit : Int) (s : Session) : List Miss :=
  match (s.reading limit).outcome with
  | .found _ next =>
    if next.skipBlanks.rest = [] then (s.reading limit).misses
    else (s.reading limit).misses ++ [next.miss .endOfInput]
  | .missing _ | .tooDeep _ _ => (s.reading limit).misses

/-- The misses that are recorded before the call with the given number. -/
def recordedBefore (limit : Int) (t : Text) (n : Nat) : List Miss :=
  (List.range n).flatMap fun i => (later limit t i).recorded limit

variable {limit : Int} {s : Session} {t : Text}

theorem frontier_recognize (limit : Int) (s : Session) :
    (s.recognize limit).2.frontier = s.frontier.recordAll (s.recorded limit) := by
  unfold recorded
  cases houtcome : (s.reading limit).outcome with
  | found e d =>
    by_cases hrest : d.skipBlanks.rest = []
    · rw [recognize_of_end houtcome hrest]
      simp only [if_pos hrest]
    · rw [recognize_of_more houtcome hrest]
      simp only [if_neg hrest]
  | missing d => rw [recognize_of_missing houtcome]
  | tooDeep start d => rw [recognize_of_tooDeep houtcome]

theorem In.stands_of_recorded (h : s.In t) : ∀ m ∈ s.recorded limit, t.Stands m.pos := by
  have hmisses : ∀ m ∈ (s.reading limit).misses, t.Stands m.pos :=
    fun m hm => ((verdict_reading limit s).tried m hm).stands h.cursor
  intro m hm
  unfold recorded at hm
  cases houtcome : (s.reading limit).outcome with
  | found e d =>
    simp only [houtcome] at hm
    split at hm
    · exact hmisses m hm
    · rcases List.mem_append.mp hm with hm | hm
      · exact hmisses m hm
      · rw [List.mem_singleton.mp hm]
        exact (h.found houtcome).1.stands
  | missing d =>
    simp only [houtcome] at hm
    exact hmisses m hm
  | tooDeep start d =>
    simp only [houtcome] at hm
    exact hmisses m hm

theorem frontier_later (limit : Int) (t : Text) (n : Nat) :
    (later limit t n).frontier = Frontier.empty.recordAll (recordedBefore limit t n) := by
  induction n with
  | zero => rfl
  | succ n ih =>
    rw [later, frontier_recognize, ih, recordedBefore, recordedBefore, List.range_succ,
      List.flatMap_append, List.flatMap_singleton, Frontier.recordAll_append]

end Session

open Session in
/-- Recording misses is a join.  What comes of it does not depend on the order of
the misses or on repetition, and misses that are recorded already change nothing.
A session keeps the join of all misses so far, and none of them is at a blank. -/
theorem frontier_is_join (f : Frontier) (ms : List Miss) :
    f.IsJoin ms (f.recordAll ms) ∧
    (∀ ns, (∀ m, m ∈ ms ↔ m ∈ ns) → (f.recordAll ms).Agrees (f.recordAll ns)) ∧
    (∀ ns, ns ⊆ ms → (f.recordAll ms).recordAll ns = f.recordAll ms) ∧
    ∀ (limit : Int) (t : Text) (n : Nat),
      (later limit t n).frontier = Frontier.empty.recordAll (recordedBefore limit t n) ∧
      ∀ m ∈ recordedBefore limit t n,
        m.pos ≤ t.length ∧ (m.pos < t.length → t.SolidAt m.pos) := by
  refine ⟨f.isJoin_recordAll ms,
    fun ns hsame => (f.isJoin_recordAll ms).agrees (f.isJoin_recordAll ns) hsame,
    fun ns hsub => f.recordAll_of_subset hsub,
    fun limit t n => ⟨frontier_later limit t n, fun m hm => ?_⟩⟩
  obtain ⟨i, _, hm⟩ := List.mem_flatMap.mp hm
  exact (in_later limit t i).stands_of_recorded m hm

/-- Two misses at 4 make those further back not matter, in either order.  In `2 )`
operators are looked for behind the blank. -/
theorem frontier_is_join_at_four :
    (Frontier.recordAll ⟨3, [.number]⟩
      [⟨2, .openParen⟩, ⟨4, .operator .add⟩, ⟨4, .closeParen⟩]).Agrees
      (Frontier.recordAll ⟨3, [.number]⟩
        [⟨4, .closeParen⟩, ⟨4, .operator .add⟩, ⟨2, .openParen⟩, ⟨4, .closeParen⟩]) ∧
    (Frontier.recordAll ⟨3, [.number]⟩
      [⟨2, .openParen⟩, ⟨4, .operator .add⟩, ⟨4, .closeParen⟩]).recordAll
        [⟨4, .closeParen⟩, ⟨2, .openParen⟩] = ⟨4, [.closeParen, .operator .add]⟩ ∧
    ⟨2, .operator .add⟩ ∈ Session.recordedBefore 64 ['2', ' ', ')'] 1 ∧
    Text.SolidAt ['2', ' ', ')'] 2 := by
  obtain ⟨_, hsame, hreplay, hsession⟩ := frontier_is_join ⟨3, [.number]⟩
    [⟨2, .openParen⟩, ⟨4, .operator .add⟩, ⟨4, .closeParen⟩]
  have hmem : ⟨2, .operator .add⟩ ∈ Session.recordedBefore 64 ['2', ' ', ')'] 1 := by
    decide +kernel
  obtain ⟨_, hstands⟩ := hsession 64 ['2', ' ', ')'] 1
  refine ⟨hsame _ fun m => ?_, (hreplay _ (by simp)).trans (by decide), hmem,
    (hstands _ hmem).2 (by decide)⟩
  simp only [List.mem_cons, List.not_mem_nil, or_false]
  tauto

end Reckon
