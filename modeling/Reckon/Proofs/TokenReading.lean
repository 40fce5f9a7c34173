/-
What the readers of tokens come to.

Each of them either takes the longest token of its kind or misses it, and then
no token of that kind stands there.
-/
import Reckon.Proofs.Spans

namespace Reckon

/-! ## Readings in sequence -/

namespace Reading

@[simp] theorem found_andThen (v : α) (d : Cursor) (f : α → Cursor → Reading β)
    (g : Cursor → Reading β) : (found v d).andThen f g = f v d := rfl

@[simp] theorem missing_andThen (d : Cursor) (f : α → Cursor → Reading β)
    (g : Cursor → Reading β) : (missing d).andThen f g = g d := rfl

@[simp] theorem after_andThen (ms : List Miss) (r : Reading α) (f : α → Cursor → Reading β)
    (g : Cursor → Reading β) : (r.after ms).andThen f g = (r.andThen f g).after ms := by
  obtain ⟨misses, outcome⟩ := r
  cases outcome <;> simp [andThen, after]

@[simp] theorem after_after (ms ns : List Miss) (r : Reading α) :
    (r.after ns).after ms = r.after (ms ++ ns) := by
  simp [after]

@[simp] theorem misses_after (ms : List Miss) (r : Reading α) :
    (r.after ms).misses = ms ++ r.misses := rfl

@[simp] theorem outcome_after (ms : List Miss) (r : Reading α) :
    (r.after ms).outcome = r.outcome := rfl

end Reading

/-! ## Absent tokens -/

/-- No token of a kind stands here, and if the kind is the end of the text, the
text goes on. -/
def Cursor.Lacks (c : Cursor) (l : Label) : Prop :=
  (∀ s, l.Spells s → ¬ s <+: c.skipBlanks.rest) ∧ (l = .endOfInput → c.skipBlanks.rest ≠ [])

theorem Cursor.lacks_skipBlanks {c : Cursor} {l : Label} : c.skipBlanks.Lacks l ↔ c.Lacks l := by
  simp [Lacks]

theorem Cursor.Lacks.congr {c d : Cursor} {l : Label} (h : c.Lacks l)
    (hcd : c.skipBlanks = d.skipBlanks) : d.Lacks l := by
  rw [← lacks_skipBlanks, ← hcd, lacks_skipBlanks]
  exact h

def Cursor.miss (c : Cursor) (l : Label) : Miss :=
  { pos := c.skipBlanks.pos, label := l }

/-! ## Readers of tokens -/

namespace Token

theorem fixed_cases {spelling : Text} {label : Label} (h : ∀ s, label.Spells s ↔ s = spelling)
    (c : Cursor) :
    (∃ d, c.Takes spelling d ∧ fixed spelling label c = .found c.skipBlanks d) ∨
      (c.Lacks label ∧
        fixed spelling label c = (Reading.missing c.skipBlanks).after [c.miss label]) := by
  unfold fixed
  dsimp only
  split
  · next hstarts =>
    exact .inl ⟨_, ⟨List.isPrefixOf_iff_prefix.mp hstarts, rfl⟩, rfl⟩
  · next hstarts =>
    refine .inr ⟨⟨fun s hs hs' => hstarts ?_, fun hend => ?_⟩, rfl⟩
    · rw [(h s).mp hs] at hs'
      exact List.isPrefixOf_iff_prefix.mpr hs'
    · have hspells := (h spelling).mpr rfl
      rw [hend] at hspells
      exact hspells.elim

theorem operatorAt_cases (start : Cursor) (ops : List Operation) :
    (∃ op ∈ ops, ∃ s ∈ op.spellings, ∃ ms, s <+: start.rest ∧
        (∀ m ∈ ms, ∃ op' ∈ ops, m = { pos := start.pos, label := .operator op' } ∧
          ∀ s ∈ op'.spellings, ¬ s <+: start.rest) ∧
        operatorAt start ops =
          (Reading.found (start.node (.operator op) (start.advance s.length) [])
            (start.advance s.length)).after ms) ∨
      ((∀ op ∈ ops, ∀ s ∈ op.spellings, ¬ s <+: start.rest) ∧
        operatorAt start ops = (Reading.missing start).after
          (ops.map fun op => { pos := start.pos, label := .operator op })) := by
  induction ops with
  | nil => exact .inr ⟨by simp, rfl⟩
  | cons op ops ih =>
    unfold operatorAt
    split
    · next s h =>
      refine .inl ⟨op, List.mem_cons_self, s, List.mem_of_find?_eq_some h, [], ?_, by simp, rfl⟩
      exact List.isPrefixOf_iff_prefix.mp (by simpa using List.find?_some h)
    · next h =>
      have hno : ∀ s ∈ op.spellings, ¬ s <+: start.rest := by
        simpa [List.find?_eq_none] using h
      rcases ih with ⟨op', hop', s, hs, ms, hstarts, hms, heq⟩ | ⟨hnone, heq⟩
      · refine .inl ⟨op', List.mem_cons_of_mem _ hop', s, hs, _ :: ms, hstarts, ?_, by
          rw [heq, Reading.after_after]; rfl⟩
        intro m hm
        rcases List.mem_cons.mp hm with rfl | hm
        · exact ⟨op, List.mem_cons_self, rfl, hno⟩
        · obtain ⟨op'', hop'', hm, hno''⟩ := hms m hm
          exact ⟨op'', List.mem_cons_of_mem _ hop'', hm, hno''⟩
      · refine .inr ⟨?_, by rw [heq, Reading.after_after]; rfl⟩
        intro op' hop'
        rcases List.mem_cons.mp hop' with rfl | hop'
        · exact hno
        · exact hnone op' hop'

theorem lacks_operator {c : Cursor} {op : Operation}
    (h : ∀ s ∈ op.spellings, ¬ s <+: c.skipBlanks.rest) : c.Lacks (.operator op) :=
  ⟨h, nofun⟩

theorem operator_cases (ops : List Operation) (c : Cursor) :
    (∃ op ∈ ops, ∃ s ∈ op.spellings, ∃ d ms, c.Takes s d ∧
        (∀ m ∈ ms, ∃ op' ∈ ops, m = c.miss (.operator op') ∧ c.Lacks (.operator op')) ∧
        operator ops c =
          (Reading.found (c.skipBlanks.node (.operator op) d []) d).after ms) ∨
      ((∀ op ∈ ops, c.Lacks (.operator op)) ∧
        operator ops c = (Reading.missing c.skipBlanks).after
          (ops.map fun op => c.miss (.operator op))) := by
  rcases operatorAt_cases c.skipBlanks ops with ⟨op, hop, s, hs, ms, hstarts, hms, heq⟩ |
    ⟨hnone, heq⟩
  · refine .inl ⟨op, hop, s, hs, _, ms, ⟨hstarts, rfl⟩, fun m hm => ?_, heq⟩
    obtain ⟨op', hop', hm, hno⟩ := hms m hm
    exact ⟨op', hop', hm, lacks_operator hno⟩
  · exact .inr ⟨fun op hop => lacks_operator (hnone op hop), heq⟩

theorem number_cases (c : Cursor) :
    (∃ digits, ∃ _ : Text.IsNumeral digits, ∃ d, c.Takes digits d ∧
        (∀ s, Text.IsNumeral s → s <+: c.skipBlanks.rest → s.length ≤ digits.length) ∧
        number c.skipBlanks = .found (c.skipBlanks.node .number d []) d) ∨
      (c.Lacks .number ∧
        number c.skipBlanks = (Reading.missing c.skipBlanks).after [c.miss .number]) := by
  unfold number
  split
  · next h =>
    refine .inr ⟨⟨fun s hs hstarts => ?_, nofun⟩, rfl⟩
    have hle := length_le_length_numeral hs hstarts
    rw [h] at hle
    exact hs.exists_cons.elim fun _ ⟨_, hcons, _⟩ => by simp [hcons] at hle
  · next h =>
    exact .inl ⟨_, isNumeral_numeral h, _, ⟨numeral_begins _, rfl⟩,
      fun s hs hstarts => length_le_length_numeral hs hstarts, rfl⟩

/-- Of the functions with a property none has a longer name than the first one
that is found. -/
theorem length_name_le {p : Function → Bool} {f g : Function}
    (hf : Function.all.find? p = some f) (hg : p g = true) : g.name.length ≤ f.name.length := by
  obtain ⟨_, before, after, hall, hbefore⟩ := List.find?_eq_some_iff_append.mp hf
  have hmem : g ∈ before ++ f :: after := hall ▸ Function.mem_all g
  have hsorted := Function.all_pairwise_length
  rw [hall, List.pairwise_append] at hsorted
  rcases List.mem_append.mp hmem with hg' | hg'
  · have := hbefore g hg'
    rw [hg] at this
    simp at this
  · rcases List.mem_cons.mp hg' with rfl | hg'
    · exact Nat.le_refl _
    · exact (List.pairwise_cons.mp hsorted.2.1).1 g hg'

theorem functionName_cases (c : Cursor) :
    (∃ f : Function, ∃ d, c.Takes f.name d ∧
        (∀ g : Function, g.name <+: c.skipBlanks.rest → g.name.length ≤ f.name.length) ∧
        functionName c.skipBlanks = .found (c.skipBlanks.node .functionName d []) d) ∨
      (c.Lacks .functionName ∧
        functionName c.skipBlanks =
          (Reading.missing c.skipBlanks).after [c.miss .functionName]) := by
  unfold functionName
  split
  · next f h =>
    refine .inl ⟨f, _, ⟨?_, rfl⟩, fun g hg => ?_, rfl⟩
    · exact List.isPrefixOf_iff_prefix.mp (by simpa using List.find?_some h)
    · exact length_name_le h (List.isPrefixOf_iff_prefix.mpr hg)
  · next h =>
    refine .inr ⟨⟨?_, nofun⟩, rfl⟩
    intro s hs hstarts
    obtain ⟨f, rfl⟩ := hs
    have := List.find?_eq_none.mp h f (Function.mem_all f)
    simp [List.isPrefixOf_iff_prefix.mpr hstarts] at this

end Token

/-! ## Steps over tokens -/

section

variable {limit : Nat} {s s' : Stage} {c d : Cursor}

theorem Step.of_label {x : Lexeme} (hafter : s.after? x.label = some s') (hroom : s'.opened ≤ limit)
    (htakes : c.Takes x.text d)
    (hlongest : ∀ y : Lexeme, y.label = x.label → y.text <+: c.skipBlanks.rest →
      y.text.length ≤ x.text.length) : Step limit s c x s' d :=
  ⟨hafter, hroom, htakes, fun y hy hstarts =>
    hlongest y (Lexeme.label_eq_of_prefix hy (by simp [hafter]) hstarts htakes.1) hstarts⟩

theorem Step.of_fixed {x : Lexeme} (hfixed : x.label.IsFixed)
    (hafter : s.after? x.label = some s') (hroom : s'.opened ≤ limit)
    (htakes : c.Takes x.text d) : Step limit s c x s' d := by
  refine .of_label hafter hroom htakes fun y hy hstarts => ?_
  have hys := y.spelled
  rw [hy] at hys
  exact Nat.le_of_eq (congrArg List.length (hys.eq_of_prefix hfixed x.spelled hstarts htakes.1))

theorem Step.number {digits : Text} {hdigits : Text.IsNumeral digits}
    (hafter : s.after? .number = some s') (hroom : s'.opened ≤ limit) (htakes : c.Takes digits d)
    (hlongest : ∀ s, Text.IsNumeral s → s <+: c.skipBlanks.rest → s.length ≤ digits.length) :
    Step limit s c (.number digits hdigits) s' d := by
  refine .of_label hafter hroom htakes fun y hy hstarts => hlongest y.text ?_ hstarts
  have hys := y.spelled
  rw [hy] at hys
  exact hys

theorem Step.functionName {f : Function} (hafter : s.after? .functionName = some s')
    (hroom : s'.opened ≤ limit) (htakes : c.Takes f.name d)
    (hlongest : ∀ g : Function, g.name <+: c.skipBlanks.rest → g.name.length ≤ f.name.length) :
    Step limit s c (.functionName f) s' d := by
  refine .of_label hafter hroom htakes fun y hy hstarts => ?_
  have hys := y.spelled
  rw [hy] at hys
  obtain ⟨g, hg⟩ := hys
  rw [hg] at hstarts ⊢
  exact hlongest g hstarts

end
end Reckon
