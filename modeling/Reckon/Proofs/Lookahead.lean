/-
How far reading looks ahead.

Where a token ends is settled by the few characters after it: only a numeral is
longer than five characters, and a numeral goes on without a break.  So an error
that is found five characters before the end of a text, or at a parenthesis, is
found at the same place in every text that goes on from there.
-/
import Reckon.Proofs.Nesting
import Reckon.Proofs.Relocation

namespace Reckon

/-! ## Beginnings of spellings -/

/-- The length of the longest spelling that is no numeral. -/
def Label.longestFixed : Nat := 5

theorem Text.IsNumeral.exists_beginning {digits u : Text} (h : IsNumeral digits)
    (hu : u <+: digits) (hne : u ≠ []) :
    ∃ s, IsNumeral s ∧ s <+: u ∧ u.length ≤ s.length + 1 := by
  have hwhole {w : Text} (hw : IsDigits w) (huw : u <+: w) : IsNumeral u :=
    .whole ⟨hne, fun c hc => hw.2 c (huw.subset hc)⟩
  cases h with
  | whole h => exact ⟨u, hwhole h hu, List.prefix_refl u, Nat.le_succ _⟩
  | @decimal whole fraction h hfraction =>
    rcases List.prefix_or_prefix_of_prefix hu (List.prefix_append whole _) with huw | ⟨v, rfl⟩
    · exact ⟨u, hwhole h huw, List.prefix_refl u, Nat.le_succ _⟩
    · rw [List.prefix_append_right_inj] at hu
      rcases List.prefix_cons_iff.mp hu with rfl | ⟨v', rfl, hv'⟩
      · exact ⟨whole, .whole h, List.prefix_append _ _, by simp⟩
      · cases v' with
        | nil => exact ⟨whole, .whole h, List.prefix_append _ _, by simp⟩
        | cons d ds =>
          have hdigits : IsDigits (d :: ds) :=
            ⟨List.cons_ne_nil d ds, fun c hc => hfraction.2 c (hv'.subset hc)⟩
          exact ⟨_, .decimal h hdigits, List.prefix_refl _, Nat.le_succ _⟩

namespace Label.Spells

variable {l : Label} {s u more : Text}

theorem length_le (h : l.Spells s) (hl : l ≠ .number) : s.length ≤ longestFixed := by
  cases l with
  | number => exact absurd rfl hl
  | functionName =>
    obtain ⟨f, rfl⟩ := h
    cases f <;> decide
  | unaryMinus | openParen | closeParen =>
    cases h
    decide
  | operator op =>
    have hall : ∀ op ∈ Operation.all, ∀ s ∈ op.spellings, s.length ≤ longestFixed := by decide
    exact hall op (Operation.mem_all op) s h
  | endOfInput => exact h.elim

/-- No spelling reaches past a parenthesis. -/
theorem prefix_of_paren (h : l.Spells s) (hs : s <+: u ++ more) (hparen : '(' ∈ u) : s <+: u := by
  rcases List.prefix_or_prefix_of_prefix hs (List.prefix_append u more) with hsu | hus
  · exact hsu
  · have hmem : '(' ∈ s := hus.subset hparen
    have hlength : s.length ≤ 1 := by
      by_cases hopen : l = .openParen
      · subst hopen
        cases h
        exact Nat.le_refl 1
      · by_cases hclose : l = .closeParen
        · subst hclose
          cases h
          exact Nat.le_refl 1
        · exact absurd rfl (h.not_paren hopen hclose _ hmem).1
    have hu : 1 ≤ u.length := List.length_pos_of_mem hparen
    exact List.prefix_of_prefix_length_le hs (List.prefix_append u more) (Nat.le_trans hlength hu)

end Label.Spells

/-! ## Enough characters -/

/-- Characters that settle what stands before them, whatever comes after. -/
def Text.IsAmple (u : Text) : Prop :=
  Label.longestFixed ≤ u.length ∨ '(' ∈ u

namespace Text.IsAmple

variable {u v : Text}

theorem ne_nil (h : IsAmple u) : u ≠ [] := by
  rintro rfl
  rcases h with hlength | hparen
  · exact absurd hlength (by decide)
  · cases hparen

theorem append_left (h : IsAmple v) (u : Text) : IsAmple (u ++ v) := by
  rcases h with hlength | hparen
  · left
    rw [List.length_append]
    omega
  · exact .inr (List.mem_append_right u hparen)

end Text.IsAmple

/-- A spelling that reaches past enough characters is a numeral, and most of
these characters are one as well. -/
theorem Label.Spells.exists_of_append {l : Label} {s u more : Text} (h : l.Spells s)
    (hs : s <+: u ++ more) (hample : u.IsAmple) :
    ∃ s', l.Spells s' ∧ s' <+: u ∧
      (s.length ≤ s'.length ∨ ('(' ∉ u ∧ u.length ≤ s'.length + 1)) := by
  by_cases hparen : '(' ∈ u
  · exact ⟨s, h, h.prefix_of_paren hs hparen, .inl (Nat.le_refl _)⟩
  · rcases List.prefix_or_prefix_of_prefix hs (List.prefix_append u more) with hsu | hus
    · exact ⟨s, h, hsu, .inl (Nat.le_refl _)⟩
    · by_cases hl : l = .number
      · subst hl
        obtain ⟨s', hs', hs'u, hlength⟩ := Text.IsNumeral.exists_beginning h hus hample.ne_nil
        exact ⟨s', hs', hs'u, .inr ⟨hparen, hlength⟩⟩
      · have hlength : s.length ≤ u.length :=
          Nat.le_trans (h.length_le hl) (hample.resolve_right hparen)
        exact ⟨s, h, List.prefix_of_prefix_length_le hs (List.prefix_append u more) hlength,
          .inl (Nat.le_refl _)⟩

/-! ## Reading in a longer text -/

section

variable {limit : Nat} {s s' q : Stage} {c c' d e next : Cursor} {x : Lexeme} {xs : List Lexeme}
  {start : Nat}

theorem Cursor.Lacks.within {l : Label} (h : e.Lacks l) (hample : e.skipBlanks.rest.IsAmple)
    (k : Nat) (more : Text) : (e.within k more).Lacks l := by
  unfold Cursor.Lacks
  rw [Cursor.skipBlanks_within hample.ne_nil]
  refine ⟨fun s hs hprefix => ?_, fun _ => List.append_ne_nil_of_left_ne_nil hample.ne_nil more⟩
  obtain ⟨s', hs', hprefix', _⟩ := hs.exists_of_append hprefix hample
  exact h.1 s' hs' hprefix'

theorem Step.within (h : Step limit s c x s' c') (hample : c'.skipBlanks.rest.IsAmple) (k : Nat)
    (more : Text) : Step limit s (c.within k more) x s' (c'.within k more) := by
  obtain ⟨gap, _, hgap, _⟩ := c'.exists_gap
  have hrest : c.skipBlanks.rest = x.text ++ gap ++ c'.skipBlanks.rest := by
    rw [h.takes.rest, hgap, List.append_assoc, ← hgap]
  refine ⟨h.after, h.room, h.takes.within x.spelled.ne_nil, fun y hy hyt => ?_⟩
  rw [Cursor.skipBlanks_within (h.takes.rest_ne_nil x.spelled.ne_nil)] at hyt
  obtain ⟨t, ht, htc, hlonger⟩ := y.spelled.exists_of_append hyt (hrest ▸ hample.append_left _)
  have hle : t.length ≤ x.text.length := h.longest ⟨y.label, t, ht⟩ hy htc
  rcases hlonger with hlonger | ⟨hparen, hlonger⟩
  · exact Nat.le_trans hlonger hle
  · -- A longer numeral would take in all the characters that are enough.
    rw [hrest, List.mem_append, not_or] at hparen
    have hlong := hample.resolve_right hparen.2
    rw [hrest] at hlonger
    simp only [List.length_append, Label.longestFixed] at hlonger hlong
    omega

theorem Run.within (h : Run limit s c xs q d) (hample : d.skipBlanks.rest.IsAmple) (k : Nat)
    (more : Text) : Run limit s (c.within k more) xs q (d.within k more) := by
  induction h with
  | @done s c d hcd =>
    refine .done ?_
    rw [Cursor.skipBlanks_within (hcd ▸ hample.ne_nil), Cursor.skipBlanks_within hample.ne_nil, hcd]
  | @next s s' q c c' d x xs hstep hrun ih =>
    obtain ⟨t, ht, _, _⟩ := Run.layout (hrun.congr c'.skipBlanks_skipBlanks.symm)
    exact .next (hstep.within (ht ▸ hample.append_left t) k more) (ih hample)

theorem Overrun.within (h : Overrun limit s c start next) (k : Nat) (more : Text) :
    Overrun limit s (c.within k more) (start + k) (next.within k more) := by
  have hparen : ['('] ≠ [] := List.cons_ne_nil _ _
  cases h with
  | @group xs q q' e _ hrun hmode hafter hlimit hopen =>
    have hample : e.skipBlanks.rest.IsAmple := .inr (by simp [hopen.rest])
    have hover := Overrun.group (hrun.within hample k more) hmode hafter hlimit
      (hopen.within hparen)
    rwa [Cursor.skipBlanks_within hample.ne_nil] at hover
  | @call xs q q' e e' _ f hrun hname hlimit hopen =>
    have hample' : e'.skipBlanks.rest.IsAmple := .inr (by simp [hopen.rest])
    have hample : e.skipBlanks.rest.IsAmple := by
      obtain ⟨gap, _, hrest, _⟩ := e'.exists_gap
      rw [hname.takes.rest, hrest, ← List.append_assoc]
      exact hample'.append_left _
    have hover := Overrun.call (hrun.within hample k more) (hname.within hample' k more) hlimit
      (hopen.within hparen)
    rwa [Cursor.skipBlanks_within hample.ne_nil] at hover

theorem Halt.within (h : Halt limit s c xs q e) (hample : e.skipBlanks.rest.IsAmple) (k : Nat)
    (more : Text) : Halt limit s (c.within k more) xs q (e.within k more) :=
  ⟨h.run.within hample k more, fun l hl => (h.lacks l hl).within hample k more⟩

/-! ## One outcome for one text -/

/-- There is one place only where reading halts. -/
theorem Halt.unique {q' : Stage} {ys : List Lexeme} (h : Halt limit s c xs q e)
    (h' : Halt limit s c ys q' d) : q = q' ∧ e.skipBlanks = d.skipBlanks := by
  obtain ⟨zs, _, hzs⟩ := h.exceeds h'.run
  cases hzs with
  | done hde => exact ⟨rfl, hde.symm⟩
  | next hstep _ => exact absurd (h'.lacks _ (Stage.expects_of_after? hstep.after)) hstep.not_lacks

theorem Halt.not_overrun (h : Halt limit s c xs q e) (hover : Overrun limit s c start next) :
    False := by
  obtain ⟨_, _, _, _, hrun, hstep, hopened⟩ := hover.step
  obtain ⟨_, _, hzs⟩ := h.exceeds hrun
  cases hzs with
  | done hed =>
    have hlacks := h.lacks _ (Stage.expects_of_after? hstep.after)
    exact hstep.not_lacks (hlacks.congr hed.symm)
  | next hstep' _ =>
    obtain ⟨_, rfl, _⟩ := hstep.unique hstep'
    have hroom := hstep'.room
    omega

end

section

variable {limit : Int} {t : Text} {r : Except Fault Node}

theorem Recognized.eq_of_halt {q : Stage} {e : Cursor} {xs : List Lexeme} {f : Frontier}
    (h : Recognized limit t r) (hhalt : Halt limit.toNat .start (.ofText t) xs q e)
    (hlabels : ∀ l, l ∈ f.labels ↔ q.Expects l) :
    r = .error (.unexpected e.skipBlanks.pos f.labels) := by
  cases h with
  | @tree _ _ d _ hrun hrest =>
    have hrun' := hrun.append (.done d.skipBlanks_skipBlanks.symm)
    exact (hhalt.ne_finish hrest hrun').elim
  | @unexpected _ _ _ f' hhalt' hfurthest' hlabels' =>
    obtain ⟨rfl, hee⟩ := hhalt.unique hhalt'
    have heq : f'.labels = f.labels := Frontier.labels_congr fun l => by
      rw [← Frontier.mem_labels, ← Frontier.mem_labels, hlabels, hlabels']
    rw [Session.unexpected, hfurthest', hee, heq]
  | tooDeep hover => exact (hhalt.not_overrun hover).elim

theorem Text.FirstBeyond.unique {i j start start' : Nat}
    (h : t.FirstBeyond limit.toNat i start) (h' : t.FirstBeyond limit.toNat j start') :
    start = start' := by
  have hbefore := Text.not_deepAt_of_opensWithin h.within
  have hbefore' := Text.not_deepAt_of_opensWithin h'.within
  obtain rfl : i = j := by
    rcases Nat.lt_trichotomy i j with hlt | heq | hlt
    · exact absurd h.deepAt (hbefore' i hlt)
    · exact heq
    · exact absurd h'.deepAt (hbefore j hlt)
  exact h.start.symm.trans h'.start

theorem Recognized.eq_of_overrun {start : Nat} {next : Cursor} (h : Recognized limit t r)
    (hover : Overrun limit.toNat .start (.ofText t) start next) :
    r = .error (.tooDeep limit start) := by
  cases h with
  | @tree _ _ d _ hrun hrest =>
    have hrun' := hrun.append (.done d.skipBlanks_skipBlanks.symm)
    exact (hover.ne_finish hrest hrun').elim
  | unexpected hhalt _ _ => exact (hhalt.not_overrun hover).elim
  | tooDeep hover' =>
    obtain ⟨i, hi, _⟩ := hover.exists_firstBeyond
    obtain ⟨j, hj, _⟩ := hover'.exists_firstBeyond
    rw [hi.unique hj]

end

/-! ## Errors that stay -/

theorem Cursor.within_ofText (t s : Text) : (Cursor.ofText t).within 0 s = .ofText (t ++ s) := rfl

theorem Fault.failure?_unexpected_of_lt {t : Text} {p : Nat} (h : p < t.length)
    (expected : List Label) :
    (Fault.unexpected p expected).failure? t =
      some (.syntaxError "Unexpected input" t p (expected.map Label.text)) := by
  rw [failure?, if_neg (Nat.not_le.mpr h)]

/-- A text that goes on keeps the errors it has.  Nesting that is too deep stays
so, and so does a syntax error if there are five characters from its place on: a
token that would mend it would end among them. -/
theorem recognize_append (limit : Int) (t s : Text) :
    (∀ p, recognize limit t = .error (.tooDeep limit p) →
      recognize limit (t ++ s) = .error (.tooDeep limit p)) ∧
    ∀ p expected, recognize limit t = .error (.unexpected p expected) → p + 5 ≤ t.length →
      recognize limit (t ++ s) = .error (.unexpected p expected) ∧
      ∃ message,
        (Fault.unexpected p expected).failure? t =
          some (.syntaxError message t p (expected.map Label.text)) ∧
        (Fault.unexpected p expected).failure? (t ++ s) =
          some (.syntaxError message (t ++ s) p (expected.map Label.text)) := by
  have hlonger := recognized limit (t ++ s)
  refine ⟨fun p hp => ?_, fun p expected hp hlength => ⟨?_, "Unexpected input", ?_, ?_⟩⟩
  · obtain ⟨_, _, _, _, hover⟩ := (hp ▸ recognized limit t).exists_firstBeyond
    have hover' := hover.within 0 s
    rw [Cursor.within_ofText, Nat.add_zero] at hover'
    exact hlonger.eq_of_overrun hover'
  · obtain ⟨u, xs, q, e, ht, rfl, _, hhalt, hlabels, f, rfl⟩ :=
      (hp ▸ recognized limit t).exists_halt
    have hample : e.skipBlanks.rest.IsAmple := by
      rw [ht, List.length_append] at hlength
      exact .inl (Nat.le_of_add_le_add_left hlength)
    have hhalt' := hhalt.within hample 0 s
    rw [Cursor.within_ofText] at hhalt'
    have heq := hlonger.eq_of_halt hhalt' hlabels
    rwa [Cursor.skipBlanks_within hample.ne_nil, Cursor.within, Nat.add_zero,
      hhalt.run.pos_eq_length ht] at heq
  · exact Fault.failure?_unexpected_of_lt (by omega) expected
  · exact Fault.failure?_unexpected_of_lt (by rw [List.length_append]; omega) expected

/-- The second of two parentheses, and a point that ends no numeral. -/
theorem recognize_append_seven :
    recognize 1 "((2".toList = .error (.tooDeep 1 1) ∧
    recognize 1 "((27".toList = .error (.tooDeep 1 1) ∧
    ∃ expected, recognize 1 "1.mod 2".toList = .error (.unexpected 1 expected) ∧
      recognize 1 "1.mod 27".toList = .error (.unexpected 1 expected) := by
  have hdeep : recognize 1 "((2".toList = .error (.tooDeep 1 1) := by decide +kernel
  have hpoint : recognize 1 "1.mod 2".toList = .error (.unexpected 1
      [.endOfInput, .operator .add, .operator .divide, .operator .exponent, .operator .modulo,
        .operator .multiply, .operator .subtract]) := by
    decide +kernel
  exact ⟨hdeep, (recognize_append 1 "((2".toList "7".toList).1 1 hdeep, _, hpoint,
    ((recognize_append 1 "1.mod 2".toList "7".toList).2 1 _ hpoint (by decide)).1⟩

/-- Three characters after the place of an error are not enough. -/
example :
    recognize 1 "2*asi".toList = .error (.unexpected 2
      [.openParen, .functionName, .number, .unaryMinus]) ∧
    (recognize 1 "2*asin(1)".toList).isOk = true := by
  decide +kernel

end Reckon
