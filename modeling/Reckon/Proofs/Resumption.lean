/-
A session that goes on is a session that begins.

Asked again, a session answers as a new one would answer for the rest of the
text, with all offsets further on.  Only its frontier remembers more: a syntax
error is reported at the furthest place that any call has reached.
-/
import Reckon.Proofs.Calls
import Reckon.Proofs.Shifting

namespace Reckon

/-! ## Frontiers of the rest of a text -/

namespace Frontier

/-- The labels to report when there were others looked for at `p`: those of the
place that is further on, and all of them if it is one place. -/
def merged (f : Frontier) (p : Nat) (expected : List Label) : List Label :=
  if f.furthest < p then expected
  else if f.furthest = p then
    Label.all.filter fun l => decide (l ∈ f.expected ∨ l ∈ expected)
  else f.labels

theorem furthest_recordAll_shift (f : Frontier) {ms : List Miss} (hms : ms ≠ []) (k : Nat) :
    (f.recordAll (ms.map (·.shift k))).furthest =
      max f.furthest (k + (empty.recordAll ms).furthest) := by
  refine Nat.le_antisymm ?_ (Nat.max_le.mpr ⟨furthest_le_recordAll _ _, ?_⟩)
  · rcases furthest_recordAll_eq f (ms.map (·.shift k)) with heq | ⟨_, hmem, heq⟩
    · omega
    · obtain ⟨m, hm, rfl⟩ := List.mem_map.mp hmem
      have hle := pos_le_recordAll (f := empty) hm
      rw [heq, Miss.shift_pos]
      omega
  · have hexists : ∃ m ∈ ms, (empty.recordAll ms).furthest ≤ m.pos := by
      rcases furthest_recordAll_eq empty ms with heq | ⟨m, hm, heq⟩
      · obtain ⟨m, hm⟩ := List.exists_mem_of_ne_nil ms hms
        exact ⟨m, hm, heq ▸ Nat.zero_le _⟩
      · exact ⟨m, hm, Nat.le_of_eq heq⟩
    obtain ⟨m, hm, hle⟩ := hexists
    have hshift := pos_le_recordAll (f := f) (List.mem_map_of_mem (f := (·.shift k)) hm)
    rw [Miss.shift_pos] at hshift
    omega

theorem mem_expected_recordAll_shift (f : Frontier) {ms : List Miss} (hms : ms ≠ []) (k : Nat)
    (l : Label) :
    l ∈ (f.recordAll (ms.map (·.shift k))).expected ↔
      (k + (empty.recordAll ms).furthest ≤ f.furthest ∧ l ∈ f.expected) ∨
        (f.furthest ≤ k + (empty.recordAll ms).furthest ∧ l ∈ (empty.recordAll ms).expected) := by
  have hfurthest := furthest_recordAll_shift f hms k
  have hle : ∀ m ∈ ms, m.pos ≤ (empty.recordAll ms).furthest := fun m hm => pos_le_recordAll hm
  rw [mem_expected_recordAll, mem_expected_recordAll empty ms]
  constructor
  · intro h
    rcases h with ⟨heq, hl⟩ | hmem
    · exact .inl ⟨by omega, hl⟩
    · obtain ⟨⟨pos, label⟩, hm, hshift⟩ := List.mem_map.mp hmem
      have hpos := hle _ hm
      obtain ⟨heq, rfl⟩ := Miss.mk.inj hshift
      simp only at heq hpos
      obtain rfl : pos = (empty.recordAll ms).furthest := by omega
      exact .inr ⟨by omega, .inr hm⟩
  · intro h
    rcases h with ⟨hge, hl⟩ | ⟨hge, hl⟩
    · exact .inl ⟨by omega, hl⟩
    · rcases hl with ⟨_, hl⟩ | hmem
      · cases hl
      · refine .inr (List.mem_map.mpr ⟨_, hmem, ?_⟩)
        rw [hfurthest, Nat.max_eq_right hge, Nat.add_comm]
        rfl

theorem unexpected_recordAll_shift (f : Frontier) {ms : List Miss} (hms : ms ≠ []) (k : Nat) :
    Session.unexpected (f.recordAll (ms.map (·.shift k))) =
      .unexpected (max f.furthest (k + (empty.recordAll ms).furthest))
        (f.merged (k + (empty.recordAll ms).furthest) (empty.recordAll ms).labels) := by
  have hmem := mem_expected_recordAll_shift f hms k
  rw [Session.unexpected, furthest_recordAll_shift f hms k, merged]
  congr 1
  split
  · next hlt =>
    refine labels_congr fun l => (hmem l).trans ?_
    have hnot : ¬ k + (empty.recordAll ms).furthest ≤ f.furthest := by omega
    simp [hnot, Nat.le_of_lt hlt]
  · next hnlt =>
    split
    · next heq =>
      refine List.filter_congr fun l _ => ?_
      rw [decide_eq_decide, hmem, mem_labels, heq]
      simp
    · next hne =>
      refine labels_congr fun l => (hmem l).trans ?_
      have hnot : ¬ f.furthest ≤ k + (empty.recordAll ms).furthest := by omega
      have hle : k + (empty.recordAll ms).furthest ≤ f.furthest := by omega
      simp [hnot, hle]

end Frontier

/-! ## The next character -/

/-- The first offset from `p` on at which a character stands that is no blank,
or the end of the text if there is none. -/
structure Text.IsNextSolid (t : Text) (p i : Nat) : Prop where
  le : p ≤ i
  le_length : i ≤ t.length
  not_solidAt : ∀ j, p ≤ j → j < i → ¬ t.SolidAt j
  solidAt : i < t.length → t.SolidAt i

theorem Cursor.In.isNextSolid {c : Cursor} {t : Text} (h : c.In t) :
    t.IsNextSolid c.pos c.skipBlanks.pos where
  le := c.pos_le_pos_skipBlanks
  le_length := h.skipBlanks.pos_le
  not_solidAt _ hle hlt := h.not_solidAt_gap hle hlt
  solidAt hlt := h.solidAt_skipBlanks hlt

theorem Cursor.In.pos_eq {c : Cursor} {t : Text} (h : c.In t) (hrest : c.rest = []) :
    c.pos = t.length := by
  have hlength := congrArg List.length h.rest_eq
  rw [hrest, List.length_drop] at hlength
  have := h.pos_le
  simp only [List.length_nil] at hlength
  omega

/-! ## Going on -/

/-- What a session with its cursor at `q` and the frontier `f` answers, and
where it leaves the cursor, given the answer for the rest of the text alone. -/
inductive Resumed (limit : Int) (t : Text) (q : Nat) (f : Frontier) :
    Except Fault Node → Except Fault Node → Nat → Prop
  | tree {e : Node} :
      Resumed limit t q f
        (.ok { rule := .equation, text := t.drop q, start := 0, stop := (t.drop q).length,
               children := [e] })
        (.ok { rule := .equation, text := t, start := 0, stop := t.length,
               children := [e.relocate (· + q)] })
        t.length
  | tooDeep {x i : Nat} :
      Text.FirstBeyond (t.drop q) limit.toNat i x →
      Resumed limit t q f (.error (.tooDeep limit x)) (.error (.tooDeep limit (q + x))) (q + i + 1)
  | unexpected {x p : Nat} {expected : List Label} :
      t.IsNextSolid (q + (Text.leading? limit (t.drop q)).elim 0 Node.stop) p →
      Resumed limit t q f (.error (.unexpected x expected))
        (.error (.unexpected (max f.furthest (q + x)) (f.merged (q + x) expected))) p

theorem Spans.stop_of_row {room : Nat} {l : Layer} {c d : Cursor} {n : Node} {xs : List Lexeme}
    (h : Spans room (.row l) c [n] xs d) : n.stop = d.pos := by
  cases h
  rfl

namespace Session

variable {limit : Int} {s : Session} {t : Text}

/-- Reading goes on as it would begin with the rest of the text. -/
theorem In.reading_eq (h : s.In t) (limit : Int) :
    s.reading limit = ((ofText (t.drop s.cursor.pos)).reading limit).shift s.cursor.pos
      (Node.relocate (· + s.cursor.pos)) := by
  have hcursor : s.cursor = (Cursor.ofText (t.drop s.cursor.pos)).shift s.cursor.pos := by
    rw [← h.cursor.rest_eq, Cursor.shift, Cursor.ofText, Nat.zero_add]
  rw [reading, reading, ofText, ← Reader.shifts_expression, ← hcursor]

section

variable {u : Text} {e : Node} {d : Cursor}

theorem leading?_of_found (h : ((ofText u).reading limit).outcome = .found e d) :
    u.leading? limit = some e := by
  unfold reading ofText at h
  simp [Text.leading?, h]

theorem leading?_of_missing (h : ((ofText u).reading limit).outcome = .missing d) :
    u.leading? limit = none := by
  unfold reading ofText at h
  simp [Text.leading?, h]

end

/-- A syntax error after the misses `ms` in the rest of the text. -/
theorem resumed_unexpected {q p : Nat} {f : Frontier} {ms : List Miss} (hms : ms ≠ [])
    (hp : t.IsNextSolid (q + (Text.leading? limit (t.drop q)).elim 0 Node.stop) p) :
    Resumed limit t q f (.error (unexpected (Frontier.empty.recordAll ms)))
      (.error (unexpected (f.recordAll (ms.map (·.shift q))))) p := by
  rw [Frontier.unexpected_recordAll_shift f hms]
  exact .unexpected hp

/-- Every call is like the first one of a session with the rest of the text. -/
theorem In.resumed (h : s.In t) (limit : Int) :
    Resumed limit t s.cursor.pos s.frontier (Reckon.recognize limit (t.drop s.cursor.pos))
      (s.recognize limit).1 (s.recognize limit).2.cursor.pos := by
  have hreading := h.reading_eq limit
  have hmisses := congrArg Reading.misses hreading
  have houtcome := congrArg Reading.outcome hreading
  rw [Reading.shift] at hmisses houtcome
  dsimp only at hmisses houtcome
  rw [Reckon.recognize]
  cases hfresh : ((ofText (t.drop s.cursor.pos)).reading limit).outcome with
  | found e d =>
    rw [hfresh, Outcome.shift] at houtcome
    obtain ⟨hd, _⟩ := h.found houtcome
    have hpos : (d.shift s.cursor.pos).pos = s.cursor.pos + d.pos := Nat.add_comm _ _
    by_cases hrest : d.skipBlanks.rest = []
    · have hrest' : (d.shift s.cursor.pos).skipBlanks.rest = [] := by
        rw [Cursor.shift_skipBlanks, Cursor.shift_rest, hrest]
      rw [recognize_of_end hfresh hrest, recognize_of_end houtcome hrest', h.text_eq]
      dsimp only
      rw [hd.skipBlanks.pos_eq hrest']
      exact .tree
    · have hrest' : (d.shift s.cursor.pos).skipBlanks.rest ≠ [] := by
        rw [Cursor.shift_skipBlanks, Cursor.shift_rest]
        exact hrest
      have hmore : (s.reading limit).misses ++ [(d.shift s.cursor.pos).miss .endOfInput] =
          (((ofText (t.drop s.cursor.pos)).reading limit).misses ++ [d.miss .endOfInput]).map
            (·.shift s.cursor.pos) := by
        rw [hmisses, Cursor.miss_shift, List.map_append, List.map_singleton]
      rw [recognize_of_more hfresh hrest, recognize_of_more houtcome hrest', hmore]
      refine resumed_unexpected (by simp) ?_
      obtain ⟨_, hspans⟩ := exists_spans_of_found hfresh
      rw [leading?_of_found hfresh, Option.elim_some, hspans.stop_of_row, ← hpos]
      exact hd.isNextSolid
  | missing d =>
    rw [hfresh, Outcome.shift] at houtcome
    rw [recognize_of_missing hfresh, recognize_of_missing houtcome, hmisses]
    refine resumed_unexpected (misses_ne_nil_of_missing hfresh) ?_
    rw [leading?_of_missing hfresh]
    exact h.cursor.isNextSolid
  | tooDeep start d =>
    rw [hfresh, Outcome.shift] at houtcome
    obtain ⟨i, hi, hd⟩ := (overrun_of_tooDeep hfresh).exists_firstBeyond
    have hpos : (d.shift s.cursor.pos).pos = s.cursor.pos + i + 1 := by
      rw [Cursor.shift_pos, hd]
      omega
    rw [recognize_of_tooDeep hfresh, recognize_of_tooDeep houtcome, Nat.add_comm start]
    dsimp only
    rw [hpos]
    exact .tooDeep hi

end Session

end Reckon
