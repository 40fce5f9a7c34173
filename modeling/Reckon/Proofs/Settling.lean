/-
A session settles.

Where a session finds no expression it stays, and looks for the same things
again, so from then on it always answers the same.  Every other call uses up
characters.  So a session comes to such a place after at most as many calls as
its text has characters, and on the way it finds the whole text at most once.
-/
import Reckon.Proofs.Resumption

namespace Reckon

/-! ## Misses recorded twice -/

namespace Frontier

theorem recordAll_eq_self {f : Frontier} {ms : List Miss}
    (h : ∀ m ∈ ms, m.pos < f.furthest ∨ m.pos = f.furthest ∧ m.label ∈ f.expected) :
    f.recordAll ms = f := by
  induction ms with
  | nil => rfl
  | cons m ms ih =>
    have hrecord : f.record m = f := by
      unfold record
      rcases h m List.mem_cons_self with hlt | ⟨heq, hmem⟩
      · rw [if_neg (by omega), if_neg (by omega)]
      · rw [if_neg (by omega), if_pos heq, List.insert_of_mem hmem]
    rw [recordAll_cons, hrecord]
    exact ih fun m' hm' => h m' (List.mem_cons_of_mem _ hm')

/-- Misses that are recorded already change nothing. -/
theorem recordAll_of_subset (f : Frontier) {ms ns : List Miss} (h : ns ⊆ ms) :
    (f.recordAll ms).recordAll ns = f.recordAll ms := by
  refine recordAll_eq_self fun m hm => ?_
  rcases Nat.lt_or_eq_of_le (pos_le_recordAll (f := f) (h hm)) with hlt | heq
  · exact .inl hlt
  · exact .inr ⟨heq, (mem_expected_recordAll f ms m.label).mpr (.inr (heq ▸ h hm))⟩

end Frontier

namespace Session

/-! ## Where a session stays -/

/-- There is no expression where the session is. -/
def Spent (limit : Int) (s : Session) : Prop :=
  ∃ d, (s.reading limit).outcome = .missing d

section

variable {limit : Int} {s : Session} {t : Text} {m n : Nat}

/-- Asked again, the session looks at the same place for the same things. -/
theorem Spent.recognize_recognize (h : Spent limit s) :
    (s.recognize limit).2.recognize limit = s.recognize limit := by
  obtain ⟨d, hd⟩ := h
  rw [recognize_of_missing hd]
  dsimp only
  have hreading : reading limit { s with
      cursor := s.cursor.skipBlanks,
      frontier := s.frontier.recordAll (s.reading limit).misses } = s.reading limit :=
    Reader.expression_skipBlanks _ _
  rw [recognize_of_missing (hreading ▸ hd), hreading]
  simp only [Frontier.recordAll_of_subset _ (List.Subset.refl _), Cursor.skipBlanks_skipBlanks]

theorem Spent.answer_eq_unexpected (h : Spent limit s) :
    (s.recognize limit).1 = .error (unexpected (s.recognize limit).2.frontier) := by
  obtain ⟨d, hd⟩ := h
  rw [recognize_of_missing hd]

theorem Spent.answer_eq (h : Spent limit (later limit t m)) (hmn : m ≤ n) :
    answer limit t n = answer limit t m := by
  have hlater : (later limit t n).recognize limit = (later limit t m).recognize limit := by
    induction n, hmn using Nat.le_induction with
    | base => rfl
    | succ n _ ih => rw [later, ih, h.recognize_recognize]
  exact congrArg Prod.fst hlater

theorem In.lt_recognize (h : s.In t) (hspent : ¬ Spent limit s) :
    s.cursor.pos < (s.recognize limit).2.cursor.pos := by
  cases houtcome : (s.reading limit).outcome with
  | found e d =>
    have hlt := Nat.lt_of_lt_of_le (h.found houtcome).2 d.pos_le_pos_skipBlanks
    by_cases hrest : d.skipBlanks.rest = []
    · rw [recognize_of_end houtcome hrest]
      exact hlt
    · rw [recognize_of_more houtcome hrest]
      exact hlt
  | missing d => exact absurd ⟨d, houtcome⟩ hspent
  | tooDeep start d =>
    rw [recognize_of_tooDeep houtcome]
    exact ((overrun_of_tooDeep houtcome).in_of_in h.cursor).2

theorem In.spent_of_end (h : s.In t) (limit : Int) (hend : s.cursor.pos = t.length) :
    Spent limit s := by
  by_contra hspent
  have hlt := h.lt_recognize hspent
  have hle := (h.recognize limit).within.cursor.pos_le
  omega

/-- Every call that finds anything uses up a character. -/
theorem exists_spent (limit : Int) (t : Text) :
    ∃ m ≤ t.length, Spent limit (later limit t m) := by
  by_contra hnone
  have hpos : ∀ m ≤ t.length, m ≤ (later limit t m).cursor.pos := by
    intro m hm
    induction m with
    | zero => exact Nat.zero_le _
    | succ m ih =>
      have hlt := (in_later limit t m).lt_recognize fun h => hnone ⟨m, by omega, h⟩
      exact Nat.lt_of_le_of_lt (ih (by omega)) hlt
  have hin := in_later limit t t.length
  refine hnone ⟨t.length, Nat.le_refl _, hin.spent_of_end limit ?_⟩
  exact Nat.le_antisymm hin.cursor.pos_le (hpos _ (Nat.le_refl _))

/-! ## After a tree -/

/-- At the end of the text there is nowhere else to look. -/
theorem In.furthest_of_end (h : s.In t) (hend : s.cursor.pos = t.length) :
    (s.recognize limit).2.frontier.furthest = t.length := by
  obtain ⟨d, hd⟩ := h.spent_of_end limit hend
  refine Nat.le_antisymm (h.recognize limit).within.furthest_le ?_
  obtain ⟨m, hm⟩ := List.exists_mem_of_ne_nil _ (misses_ne_nil_of_missing hd)
  obtain ⟨_, _, e, hrun, hmiss, _⟩ := (verdict_reading limit s).tried m hm
  have hle : t.length ≤ m.pos := by
    rw [hmiss, ← hend]
    exact Nat.le_trans s.cursor.pos_le_pos_skipBlanks hrun.pos_le
  rw [recognize_of_missing hd]
  exact Nat.le_trans hle (Frontier.pos_le_recordAll hm)

theorem In.end_of_ok (h : s.In t) {root : Node} (hroot : (s.recognize limit).1 = .ok root) :
    (s.recognize limit).2.cursor.pos = t.length := by
  have hresumed := h.resumed limit
  rw [hroot] at hresumed
  generalize Reckon.recognize limit (t.drop s.cursor.pos) = fresh at hresumed
  generalize hleft : (s.recognize limit).2.cursor.pos = left at hresumed
  cases hresumed
  rfl

theorem answer_after_ok {root : Node} (hmn : m < n) (hroot : answer limit t m = .ok root) :
    ∃ expected, answer limit t n = .error (.unexpected t.length expected) := by
  have hend := (in_later limit t m).end_of_ok hroot
  have hin := in_later limit t (m + 1)
  have hspent := hin.spent_of_end limit hend
  refine ⟨((later limit t (m + 1)).recognize limit).2.frontier.labels, ?_⟩
  rw [hspent.answer_eq hmn, answer, hspent.answer_eq_unexpected, unexpected,
    hin.furthest_of_end hend]

/-! ## Syntax errors -/

/-- A syntax error shows the frontier. -/
theorem furthest_of_unexpected {p : Nat} {expected : List Label}
    (h : (s.recognize limit).1 = .error (.unexpected p expected)) :
    (s.recognize limit).2.frontier.furthest = p := by
  cases houtcome : (s.reading limit).outcome with
  | found e d =>
    by_cases hrest : d.skipBlanks.rest = []
    · rw [recognize_of_end houtcome hrest] at h
      cases h
    · rw [recognize_of_more houtcome hrest] at h ⊢
      exact (Fault.unexpected.inj (Except.error.inj h)).1
  | missing d =>
    rw [recognize_of_missing houtcome] at h ⊢
    exact (Fault.unexpected.inj (Except.error.inj h)).1
  | tooDeep start d =>
    rw [recognize_of_tooDeep houtcome] at h
    cases h

/-- A syntax error without an expression before it. -/
theorem In.spent_of_leading? (h : s.In t) {p : Nat} {expected : List Label}
    (herror : (s.recognize limit).1 = .error (.unexpected p expected))
    (hleading : Text.leading? limit (t.drop s.cursor.pos) = none) : Spent limit s := by
  have houtcome := congrArg Reading.outcome (h.reading_eq limit)
  cases hfresh : ((ofText (t.drop s.cursor.pos)).reading limit).outcome with
  | found e d =>
    rw [leading?_of_found hfresh] at hleading
    cases hleading
  | missing d => exact ⟨_, houtcome.trans (congrArg (Outcome.shift _ _) hfresh)⟩
  | tooDeep start d =>
    have hdeep := houtcome.trans (congrArg (Outcome.shift _ _) hfresh)
    rw [recognize_of_tooDeep hdeep] at herror
    cases herror

end

/-! ## The whole session -/

/-- What can be said of the answers of one session, call by call. -/
structure Settles (limit : Int) (t : Text) : Prop where
  /-- The whole text is found once at most. -/
  once : ∀ m n root root', answer limit t m = .ok root → answer limit t n = .ok root' → m = n
  forward : ∀ m n, m ≤ n → (later limit t m).cursor.pos ≤ (later limit t n).cursor.pos
  /-- Later syntax errors are no further back. -/
  rising : ∀ m n p p' expected expected', m ≤ n →
    answer limit t m = .error (.unexpected p expected) →
    answer limit t n = .error (.unexpected p' expected') → p ≤ p'
  /-- A syntax error with no expression before it is the answer from then on. -/
  stuck : ∀ m n p expected, m ≤ n → answer limit t m = .error (.unexpected p expected) →
    Text.leading? limit (t.drop (later limit t m).cursor.pos) = none →
    answer limit t n = .error (.unexpected p expected)
  /-- There is a last answer, and it comes soon. -/
  settled : ∃ p expected, ∀ n, t.length ≤ n → answer limit t n = .error (.unexpected p expected)
  /-- After the tree there is nothing but the end of the text. -/
  ended : ∀ m n root, m < n → answer limit t m = .ok root →
    ∃ expected, answer limit t n = .error (.unexpected t.length expected) ∧
      (Fault.unexpected t.length expected).failure? t =
        some (.syntaxError "Unexpected end of input" t t.length (expected.map Label.text))

theorem settles (limit : Int) (t : Text) : Settles limit t where
  once m n root root' hm hn := by
    by_contra hne
    rcases Nat.lt_or_gt_of_ne hne with hlt | hlt
    · obtain ⟨_, herror⟩ := answer_after_ok hlt hm
      rw [hn] at herror
      cases herror
    · obtain ⟨_, herror⟩ := answer_after_ok hlt hn
      rw [hm] at herror
      cases herror
  forward m n hmn := (onward_later limit t hmn).pos_le
  rising m n p p' expected expected' hmn hm hn := by
    have hle := (onward_later limit t (Nat.succ_le_succ hmn)).furthest_le
    rwa [later, later, furthest_of_unexpected hm, furthest_of_unexpected hn] at hle
  stuck m n p expected hmn hm hleading := by
    have hspent := (in_later limit t m).spent_of_leading? hm hleading
    exact (hspent.answer_eq hmn).trans hm
  settled := by
    obtain ⟨m, hm, hspent⟩ := exists_spent limit t
    have hanswer := hspent.answer_eq_unexpected
    exact ⟨_, _, fun n hn => (hspent.answer_eq (Nat.le_trans hm hn)).trans hanswer⟩
  ended m n root hmn hroot := by
    obtain ⟨expected, herror⟩ := answer_after_ok hmn hroot
    exact ⟨expected, herror, by simp [Fault.failure?]⟩

/-- In `1 2` the second call finds what the first one has left. -/
example : (answers 64 4 (ofText "1 2".toList)).map (·.toOption.isSome) =
    [false, true, false, false] := by
  decide +kernel

end Session

end Reckon
