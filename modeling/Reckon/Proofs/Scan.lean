/-
Reading lexemes one after another.

What may come next in an expression depends on little: on whether an operand is
due or complete, and on how many parentheses are open.  A run takes one lexeme
after another from a text, at every stage the longest that may come next.  So
there is at most one way to go on, and two runs from one place differ only in
how far they go.
-/
import Reckon.Proofs.Derivation

namespace Reckon

/-! ## Stages -/

inductive Mode where
  /-- An operand is due, perhaps with a minus sign before it. -/
  | operand
  /-- An operand without a sign is due. -/
  | unsigned
  /-- The parenthesis after the name of a function is due. -/
  | argument
  /-- An operand is complete. -/
  | complete
  deriving DecidableEq, Repr

/-- An operand is due, with or without a minus sign before it. -/
def Mode.IsOperand (m : Mode) : Prop :=
  m = .operand ∨ m = .unsigned

structure Stage where
  mode : Mode
  opened : Nat
  deriving DecidableEq, Repr

namespace Stage

/-- The stage after a token of the given kind, which there is only if such a
token may come next. -/
def after? : Stage → Label → Option Stage
  | ⟨.operand, n⟩, .unaryMinus => some ⟨.unsigned, n⟩
  | ⟨.operand, n⟩, .number | ⟨.unsigned, n⟩, .number => some ⟨.complete, n⟩
  | ⟨.operand, n⟩, .functionName | ⟨.unsigned, n⟩, .functionName => some ⟨.argument, n⟩
  | ⟨.operand, n⟩, .openParen | ⟨.unsigned, n⟩, .openParen | ⟨.argument, n⟩, .openParen =>
    some ⟨.operand, n + 1⟩
  | ⟨.complete, n⟩, .operator _ => some ⟨.operand, n⟩
  | ⟨.complete, n + 1⟩, .closeParen => some ⟨.complete, n⟩
  | _, _ => none

def start : Stage := ⟨.operand, 0⟩

def finish : Stage := ⟨.complete, 0⟩

/-- What may come next, the end of the text included. -/
def Expects (s : Stage) : Label → Prop
  | .endOfInput => s = finish
  | l => (s.after? l).isSome

theorem expects_of_after? {s s' : Stage} {l : Label} (h : s.after? l = some s') : s.Expects l := by
  cases l <;> simp [Expects, h]
  obtain ⟨mode, _ | n⟩ := s <;> cases mode <;> cases h

theorem of_expects_argument {n : Nat} {l : Label} (h : Expects ⟨.argument, n⟩ l) :
    l = .openParen := by
  cases l <;> simp_all [Expects, after?, finish]

/-- After an operand come operators, and a closing parenthesis or the end. -/
theorem of_expects_complete {n : Nat} {l : Label} (h : Expects ⟨.complete, n⟩ l) :
    (∃ op, l = .operator op) ∨ (l = .closeParen ∧ 0 < n) ∨ (l = .endOfInput ∧ n = 0) := by
  cases n <;> cases l <;> simp_all [Expects, after?, finish]

section

variable {m : Mode} (hm : m.IsOperand) (n : Nat)

include hm

theorem after?_number : after? ⟨m, n⟩ .number = some ⟨.complete, n⟩ := by
  cases hm with
  | inl h => rw [h]; rfl
  | inr h => rw [h]; rfl

theorem after?_openParen : after? ⟨m, n⟩ .openParen = some ⟨.operand, n + 1⟩ := by
  cases hm with
  | inl h => rw [h]; rfl
  | inr h => rw [h]; rfl

theorem after?_functionName : after? ⟨m, n⟩ .functionName = some ⟨.argument, n⟩ := by
  cases hm with
  | inl h => rw [h]; rfl
  | inr h => rw [h]; rfl

theorem of_expects_operand {l : Label} (h : Expects ⟨m, n⟩ l) :
    l = .number ∨ l = .openParen ∨ l = .functionName ∨ (l = .unaryMinus ∧ m = .operand) := by
  cases hm with
  | inl hm => subst hm; cases l <;> simp_all [Expects, after?, finish]
  | inr hm => subst hm; cases l <;> simp_all [Expects, after?, finish]

end

theorem exists_after?_of_expects {s : Stage} {l : Label} (h : s.Expects l)
    (hl : l ≠ .endOfInput) : ∃ s', s.after? l = some s' := by
  cases l <;> first | exact absurd rfl hl | exact Option.isSome_iff_exists.mp h

theorem label_eq {s : Stage} {l l' : Label} {c : Char} (h : (s.after? l).isSome)
    (h' : (s.after? l').isSome) (hc : c ∈ l.firsts) (hc' : c ∈ l'.firsts) : l = l' := by
  obtain ⟨mode, n⟩ := s
  rcases Label.eq_of_mem_firsts hc hc' with hl | ⟨rfl, rfl⟩ | ⟨rfl, rfl⟩
  · exact hl
  · cases mode <;> simp [after?] at h h'
  · cases mode <;> simp [after?] at h h'

/-- The lexemes lead from one stage to another, and never are more than `limit`
parentheses open. -/
inductive Path (limit : Nat) : Stage → List Lexeme → Stage → Prop
  | done {s : Stage} : Path limit s [] s
  | next {s s' q : Stage} {x : Lexeme} {xs : List Lexeme} :
      s.after? x.label = some s' → s'.opened ≤ limit → Path limit s' xs q →
      Path limit s (x :: xs) q

theorem Path.append {limit : Nat} {s q r : Stage} {xs ys : List Lexeme} (h : Path limit s xs q)
    (h' : Path limit q ys r) : Path limit s (xs ++ ys) r := by
  induction h with
  | done => exact h'
  | next hafter hroom _ ih => exact .next hafter hroom (ih h')

theorem Path.single {limit : Nat} {s s' : Stage} {x : Lexeme} (h : s.after? x.label = some s')
    (hroom : s'.opened ≤ limit) : Path limit s [x] s' :=
  .next h hroom .done

theorem Path.mono {limit limit' : Nat} (hle : limit ≤ limit') {s q : Stage} {xs : List Lexeme}
    (h : Path limit s xs q) : Path limit' s xs q := by
  induction h with
  | done => exact .done
  | next hafter hroom _ ih => exact .next hafter (Nat.le_trans hroom hle) ih

theorem Path.of_append {limit : Nat} {s r : Stage} {xs ys : List Lexeme}
    (h : Path limit s (xs ++ ys) r) : ∃ q, Path limit s xs q ∧ Path limit q ys r := by
  induction xs generalizing s with
  | nil => exact ⟨s, .done, h⟩
  | cons x xs ih =>
    cases h with
    | next hafter hroom h =>
      obtain ⟨q, hxs, hys⟩ := ih h
      exact ⟨q, .next hafter hroom hxs, hys⟩

end Stage

/-! ## Cursors and blanks -/

namespace Cursor

theorem rest_skipBlanks (c : Cursor) : c.skipBlanks.rest = c.rest.dropWhile Text.isBlank := by
  have h : c.rest.takeWhile Text.isBlank ++ c.rest.dropWhile Text.isBlank = c.rest :=
    List.takeWhile_append_dropWhile
  calc c.skipBlanks.rest
      = (c.rest.takeWhile Text.isBlank ++ c.rest.dropWhile Text.isBlank).drop
          (c.rest.takeWhile Text.isBlank).length := by rw [h]; rfl
    _ = c.rest.dropWhile Text.isBlank := List.drop_left

theorem exists_gap (c : Cursor) :
    ∃ gap, Text.IsGap gap ∧ c.rest = gap ++ c.skipBlanks.rest ∧
      c.skipBlanks.pos = c.pos + gap.length := by
  refine ⟨c.rest.takeWhile Text.isBlank, fun x hx => ?_, ?_, rfl⟩
  · exact List.all_eq_true.mp List.all_takeWhile x hx
  · rw [rest_skipBlanks, List.takeWhile_append_dropWhile]

theorem isBlank_head_skipBlanks {c : Cursor} {x : Char} {rest : Text}
    (h : c.skipBlanks.rest = x :: rest) : Text.isBlank x = false := by
  have hdrop := List.head?_dropWhile_not Text.isBlank c.rest
  rwa [← rest_skipBlanks, h] at hdrop

theorem skipBlanks_of_gap (pos : Nat) {gap rest : Text} (hgap : Text.IsGap gap)
    (hrest : ∀ x more, rest = x :: more → Text.isBlank x = false) :
    ({ pos, rest := gap ++ rest } : Cursor).skipBlanks = { pos := pos + gap.length, rest } := by
  have htake : (gap ++ rest).takeWhile Text.isBlank = gap := by
    rw [List.takeWhile_append_of_pos hgap]
    cases rest with
    | nil => simp
    | cons x more => rw [List.takeWhile_cons_of_neg (by simp [hrest x more rfl]), List.append_nil]
  simp [skipBlanks, advance, htake]

theorem skipBlanks_of_lexeme (pos : Nat) {gap : Text} (hgap : Text.IsGap gap) (x : Lexeme)
    (rest : Text) :
    ({ pos, rest := gap ++ x.text ++ rest } : Cursor).skipBlanks =
      { pos := pos + gap.length, rest := x.text ++ rest } := by
  rw [List.append_assoc]
  refine skipBlanks_of_gap pos hgap fun a more ha => ?_
  obtain ⟨b, bs, hxs, _⟩ := x.spelled.exists_cons
  rw [hxs] at ha
  obtain rfl : b = a := (List.cons.inj ha).1
  exact x.spelled.isBlank_eq_false (by simp [hxs])

@[simp] theorem skipBlanks_skipBlanks (c : Cursor) : c.skipBlanks.skipBlanks = c.skipBlanks :=
  skipBlanks_of_gap _ Text.isGap_nil fun _ _ h => isBlank_head_skipBlanks h

theorem pos_le_pos_skipBlanks (c : Cursor) : c.pos ≤ c.skipBlanks.pos :=
  Nat.le_add_right _ _

/-- After blanks the given characters come, and the second cursor stands just
after them. -/
def Takes (c : Cursor) (s : Text) (d : Cursor) : Prop :=
  s <+: c.skipBlanks.rest ∧ d = c.skipBlanks.advance s.length

theorem Takes.rest {c d : Cursor} {s : Text} (h : c.Takes s d) :
    c.skipBlanks.rest = s ++ d.rest := by
  obtain ⟨⟨rest, hrest⟩, rfl⟩ := h
  simp [advance, ← hrest]

theorem Takes.pos {c d : Cursor} {s : Text} (h : c.Takes s d) :
    d.pos = c.skipBlanks.pos + s.length := by
  rw [h.2]
  rfl

theorem takes_skipBlanks {c d : Cursor} {s : Text} : c.skipBlanks.Takes s d ↔ c.Takes s d := by
  simp [Takes]

/-- The length of the whole text, for a cursor that has come from its beginning. -/
def total (c : Cursor) : Nat :=
  c.pos + c.rest.length

theorem total_skipBlanks (c : Cursor) : c.skipBlanks.total = c.total := by
  obtain ⟨gap, _, hrest, hpos⟩ := c.exists_gap
  have hlength := congrArg List.length hrest
  rw [List.length_append] at hlength
  unfold Cursor.total
  omega

theorem Takes.total {c d : Cursor} {s : Text} (h : c.Takes s d) : d.total = c.total := by
  have hlength := congrArg List.length h.rest
  have hpos := h.pos
  have hskip := c.total_skipBlanks
  rw [List.length_append] at hlength
  unfold Cursor.total at hskip ⊢
  omega

theorem Takes.start_lt {c d : Cursor} {s : Text} (h : c.Takes s d) (hs : s ≠ []) :
    c.skipBlanks.pos < c.total := by
  have hlength := congrArg List.length h.rest
  have hskip := c.total_skipBlanks
  have hne := List.length_pos_iff.mpr hs
  rw [List.length_append] at hlength
  unfold Cursor.total at hskip ⊢
  omega

end Cursor

/-! ## Runs -/

/-- Take the longest lexeme that may come next. -/
structure Step (limit : Nat) (s : Stage) (c : Cursor) (x : Lexeme) (s' : Stage) (c' : Cursor) :
    Prop where
  after : s.after? x.label = some s'
  room : s'.opened ≤ limit
  takes : c.Takes x.text c'
  longest : ∀ y : Lexeme, (s.after? y.label).isSome → y.text <+: c.skipBlanks.rest →
    y.text.length ≤ x.text.length

/-- Take lexemes one after another.  Blanks after the last one do not matter. -/
inductive Run (limit : Nat) : Stage → Cursor → List Lexeme → Stage → Cursor → Prop
  | done {s : Stage} {c d : Cursor} : c.skipBlanks = d.skipBlanks → Run limit s c [] s d
  | next {s s' q : Stage} {c c' d : Cursor} {x : Lexeme} {xs : List Lexeme} :
      Step limit s c x s' c' → Run limit s' c' xs q d → Run limit s c (x :: xs) q d

section

variable {limit limit' : Nat} {s s' q q' r : Stage} {c c' d d' e : Cursor} {x y : Lexeme}
  {xs ys : List Lexeme}

theorem Lexeme.label_eq_of_prefix {t : Text} (hx : (s.after? x.label).isSome)
    (hy : (s.after? y.label).isSome) (hxt : x.text <+: t) (hyt : y.text <+: t) :
    x.label = y.label := by
  obtain ⟨a, as, hxs, ha⟩ := x.spelled.exists_cons
  obtain ⟨b, bs, hys, hb⟩ := y.spelled.exists_cons
  obtain ⟨more, rfl⟩ := hxt
  rw [hxs, hys] at hyt
  obtain rfl : b = a := (List.cons_prefix_cons.mp hyt).1
  exact Stage.label_eq hx hy ha hb

theorem Step.of_skipBlanks (h : Step limit s c.skipBlanks x s' c') : Step limit s c x s' c' :=
  ⟨h.after, h.room, Cursor.takes_skipBlanks.mp h.takes, by simpa using h.longest⟩

theorem Step.to_skipBlanks (h : Step limit s c x s' c') : Step limit s c.skipBlanks x s' c' :=
  ⟨h.after, h.room, Cursor.takes_skipBlanks.mpr h.takes, by simpa using h.longest⟩

theorem Step.congr (h : Step limit s c x s' c') (hcd : c.skipBlanks = d.skipBlanks) :
    Step limit s d x s' c' :=
  Step.of_skipBlanks (hcd ▸ h.to_skipBlanks)

theorem Step.pos_lt (h : Step limit s c x s' c') : c.skipBlanks.pos < c'.pos := by
  have := List.length_pos_iff.mpr x.spelled.ne_nil
  rw [h.takes.pos]
  omega

theorem Step.unique (h : Step limit s c x s' c') (h' : Step limit' s c y q d) :
    x = y ∧ s' = q ∧ c' = d := by
  have hx : (s.after? x.label).isSome := by simp [h.after]
  have hy : (s.after? y.label).isSome := by simp [h'.after]
  have hlabel := Lexeme.label_eq_of_prefix hx hy h.takes.1 h'.takes.1
  have hlength : x.text.length = y.text.length :=
    Nat.le_antisymm (h'.longest x hx h.takes.1) (h.longest y hy h'.takes.1)
  have htext : x.text = y.text :=
    (List.prefix_of_prefix_length_le h.takes.1 h'.takes.1 (Nat.le_of_eq hlength)).eq_of_length
      hlength
  refine ⟨Lexeme.ext hlabel htext, ?_, ?_⟩
  · exact Option.some.inj (h.after.symm.trans (hlabel ▸ h'.after))
  · rw [h.takes.2, h'.takes.2, htext]

theorem Step.mono (hle : limit ≤ limit') (h : Step limit s c x s' c') : Step limit' s c x s' c' :=
  ⟨h.after, Nat.le_trans h.room hle, h.takes, h.longest⟩

theorem Run.congr (h : Run limit s c xs q d) (hcd : c.skipBlanks = c'.skipBlanks) :
    Run limit s c' xs q d := by
  cases h with
  | done h => exact .done (hcd.symm.trans h)
  | next hstep h => exact .next (hstep.congr hcd) h

theorem Run.refl (s : Stage) (c : Cursor) : Run limit s c [] s c :=
  .done rfl

theorem Run.single (h : Step limit s c x s' c') : Run limit s c [x] s' c' :=
  .next h (.refl s' c')

theorem Run.append (h : Run limit s c xs q d) (h' : Run limit q d ys r e) :
    Run limit s c (xs ++ ys) r e := by
  induction h with
  | done hcd => exact h'.congr hcd.symm
  | next hstep _ ih => exact .next hstep (ih h')

theorem Run.mono (hle : limit ≤ limit') (h : Run limit s c xs q d) : Run limit' s c xs q d := by
  induction h with
  | done hcd => exact .done hcd
  | next hstep _ ih => exact .next (hstep.mono hle) ih

theorem Run.path (h : Run limit s c xs q d) : Stage.Path limit s xs q := by
  induction h with
  | done => exact .done
  | next hstep _ ih => exact .next hstep.after hstep.room ih

theorem Run.layout (h : Run limit s c xs q d) :
    ∃ t, c.rest = t ++ d.skipBlanks.rest ∧ d.skipBlanks.pos = c.pos + t.length ∧
      Text.Layout xs t := by
  induction h with
  | @done s c d hcd =>
    obtain ⟨gap, hgap, hrest, hpos⟩ := c.exists_gap
    exact ⟨gap, hcd ▸ hrest, hcd ▸ hpos, .done hgap⟩
  | @next s s' q c c' d x xs hstep _ ih =>
    obtain ⟨gap, hgap, hrest, hpos⟩ := c.exists_gap
    obtain ⟨t, hrest', hpos', hlayout⟩ := ih
    refine ⟨gap ++ x.text ++ t, ?_, ?_, .next hgap hlayout⟩
    · rw [hrest, hstep.takes.rest, hrest', List.append_assoc, List.append_assoc]
    · rw [hpos', hstep.takes.pos, hpos]
      simp only [List.length_append]
      omega

theorem Run.total (h : Run limit s c xs q d) : d.total = c.total := by
  induction h with
  | done hcd => rw [← Cursor.total_skipBlanks, ← hcd, Cursor.total_skipBlanks]
  | next hstep _ ih => rw [ih, hstep.takes.total]

theorem Run.pos_eq_length {t u : Text} (h : Run limit s (.ofText t) xs q d)
    (ht : t = u ++ d.skipBlanks.rest) : d.skipBlanks.pos = u.length := by
  have htotal := d.total_skipBlanks.trans h.total
  have hlength := congrArg List.length ht
  simp only [Cursor.total, Cursor.ofText, List.length_append] at htotal hlength
  omega

theorem Run.pos_le (h : Run limit s c xs q d) : c.skipBlanks.pos ≤ d.skipBlanks.pos := by
  induction h with
  | done hcd => exact Nat.le_of_eq (congrArg Cursor.pos hcd)
  | next hstep _ ih =>
    exact Nat.le_trans (Nat.le_of_lt hstep.pos_lt)
      (Nat.le_trans (Cursor.pos_le_pos_skipBlanks _) ih)

theorem Run.pos_lt (h : Run limit s c (x :: xs) q d) : c.skipBlanks.pos < d.skipBlanks.pos := by
  cases h with
  | next hstep h =>
    exact Nat.lt_of_lt_of_le hstep.pos_lt (Nat.le_trans (Cursor.pos_le_pos_skipBlanks _) h.pos_le)

/-- Of two runs from one place one goes on where the other ends. -/
theorem Run.comparable (h : Run limit s c xs q d) (h' : Run limit' s c ys q' d') :
    (∃ zs, ys = xs ++ zs ∧ Run limit' q d zs q' d') ∨
      (∃ zs, xs = ys ++ zs ∧ Run limit q' d' zs q d) := by
  induction h generalizing ys with
  | done hcd => exact .inl ⟨ys, rfl, h'.congr hcd⟩
  | @next s s' q c c' d x xs hstep hrun ih =>
    cases h' with
    | done hcd => exact .inr ⟨x :: xs, rfl, (Run.next hstep hrun).congr hcd⟩
    | next hstep' hrun' =>
      obtain ⟨rfl, rfl, rfl⟩ := hstep.unique hstep'
      rcases ih hrun' with ⟨zs, rfl, hzs⟩ | ⟨zs, rfl, hzs⟩
      · exact .inl ⟨zs, rfl, hzs⟩
      · exact .inr ⟨zs, rfl, hzs⟩

/-- Two runs that come to one place of the text have taken the same lexemes. -/
theorem Run.eq_of_pos_eq (h : Run limit s c xs q d) (h' : Run limit' s c ys q' d')
    (hpos : d.skipBlanks.pos = d'.skipBlanks.pos) :
    xs = ys ∧ q = q' ∧ d.skipBlanks = d'.skipBlanks := by
  rcases h.comparable h' with ⟨zs, rfl, hzs⟩ | ⟨zs, rfl, hzs⟩
  · cases hzs with
    | done hdd => exact ⟨by simp, rfl, hdd⟩
    | next hstep hrun => exact absurd hpos (Nat.ne_of_lt (Run.next hstep hrun).pos_lt)
  · cases hzs with
    | done hdd => exact ⟨by simp, rfl, hdd.symm⟩
    | next hstep hrun => exact absurd hpos.symm (Nat.ne_of_lt (Run.next hstep hrun).pos_lt)

end

/-! ## From layouts to runs -/

theorem Text.Layout.head {xs : List Lexeme} {c : Char} {rest : Text}
    (h : Text.Layout xs (c :: rest)) :
    Text.isBlank c = true ∨ ∃ x ys, xs = x :: ys ∧ c ∈ x.label.firsts := by
  generalize ht : c :: rest = t at h
  cases h with
  | done hgap => exact .inl (hgap c (ht ▸ List.mem_cons_self))
  | @next gap rest' x ys hgap h =>
    cases gap with
    | nil =>
      obtain ⟨a, as, hx, ha⟩ := x.spelled.exists_cons
      rw [hx] at ht
      obtain rfl : c = a := (List.cons.inj ht).1
      exact .inr ⟨x, ys, rfl, ha⟩
    | cons b gap =>
      obtain rfl : c = b := (List.cons.inj ht).1
      exact .inl (hgap c List.mem_cons_self)

theorem Stage.of_after?_complete {n : Nat} {l : Label}
    (h : (Stage.after? ⟨.complete, n⟩ l).isSome) :
    l = .closeParen ∨ ∃ op, l = .operator op := by
  cases l <;> simp [Stage.after?] at h ⊢

theorem Stage.of_after?_argument {n : Nat} {l : Label}
    (h : (Stage.after? ⟨.argument, n⟩ l).isSome) :
    l = .openParen := by
  cases l <;> simp [Stage.after?] at h ⊢

theorem Operation.firsts_not_numeral {op : Operation} {c : Char}
    (hc : c ∈ (Label.operator op).firsts) : Text.isDigit c = false ∧ c ≠ '.' := by
  have hall : ∀ op ∈ Operation.all,
      ((Label.operator op).firsts.all fun c => !Text.isDigit c && c != '.') = true := by
    decide
  simpa using List.all_eq_true.mp (hall op (Operation.mem_all op)) c hc

/-- What may come after a token is no part of a longer token of the same kind. -/
theorem Lexeme.not_extends {s s' : Stage} {x y z : Lexeme} {c : Char} {rest : Text}
    (hx : s.after? x.label = some s') (hz : (s'.after? z.label).isSome)
    (hc : c ∈ z.label.firsts) (hy : y.label = x.label) (hyt : y.text = x.text ++ c :: rest) :
    False := by
  have hmem : c ∈ y.text := by simp [hyt]
  have hys := y.spelled
  rw [hy] at hys
  by_cases hfixed : x.label.IsFixed
  · have := hys.eq_of_prefix hfixed x.spelled (List.prefix_refl _) ⟨c :: rest, hyt.symm⟩
    rw [hyt] at this
    simp at this
  · obtain ⟨mode, n⟩ := s
    cases hl : x.label with
    | number =>
      rw [hl] at hx hys
      obtain rfl : s' = ⟨.complete, n⟩ := by cases mode <;> simp_all [Stage.after?]
      obtain ⟨hdigit, hpoint⟩ : Text.isDigit c = false ∧ c ≠ '.' := by
        rcases Stage.of_after?_complete hz with hl' | ⟨op, hl'⟩
        · obtain rfl : c = ')' := by simpa [hl', Label.firsts] using hc
          decide
        · exact Operation.firsts_not_numeral (hl' ▸ hc)
      rcases Text.IsNumeral.mem hys hmem with h | h
      · simp [hdigit] at h
      · exact hpoint h
    | functionName =>
      rw [hl] at hx hys
      obtain rfl : s' = ⟨.argument, n⟩ := by cases mode <;> simp_all [Stage.after?]
      obtain rfl : c = '(' := by simpa [Stage.of_after?_argument hz, Label.firsts] using hc
      obtain ⟨f, hf⟩ := hys
      rw [hf] at hmem
      exact (by decide : ∀ f ∈ Function.all, '(' ∉ f.name) f (Function.mem_all f) hmem
    | unaryMinus | openParen | closeParen | operator | endOfInput =>
      exact hfixed (hl ▸ trivial)

/-- In a layout every lexeme is the longest that may stand in its place. -/
theorem Text.Layout.longest {limit : Nat} {s s' q : Stage} {x : Lexeme} {xs : List Lexeme}
    {rest : Text} (hx : s.after? x.label = some s') (hlayout : Text.Layout xs rest)
    (hpath : Stage.Path limit s' xs q) (y : Lexeme) (hy : (s.after? y.label).isSome)
    (hyt : y.text <+: x.text ++ rest) : y.text.length ≤ x.text.length := by
  have hxt : x.text <+: x.text ++ rest := List.prefix_append _ _
  have hlabel := Lexeme.label_eq_of_prefix hy (by simp [hx]) hyt hxt
  refine Nat.le_of_not_lt fun hlt => ?_
  -- A longer lexeme would go on with the first character of what is laid out
  -- after this one: a blank, or the beginning of the next lexeme.
  obtain ⟨more, hmore⟩ := List.prefix_of_prefix_length_le hxt hyt (by omega)
  obtain ⟨c, more, rfl⟩ : ∃ c more', more = c :: more' := by
    refine List.exists_cons_of_ne_nil fun hnil => ?_
    simp [← hmore, hnil] at hlt
  rw [← hmore, List.prefix_append_right_inj] at hyt
  obtain ⟨rest', rfl⟩ := hyt
  rcases hlayout.head with hblank | ⟨z, zs, rfl, hc⟩
  · have := y.spelled.isBlank_eq_false (c := c) (by simp [← hmore])
    simp [this] at hblank
  · cases hpath with
    | next hz _ _ => exact Lexeme.not_extends hx (by simp [hz]) hc hlabel hmore.symm

/-- A layout of lexemes that may follow one another is read as these. -/
theorem Text.Layout.run {limit : Nat} {s q : Stage} {xs : List Lexeme} {t : Text}
    (h : Text.Layout xs t) (hpath : Stage.Path limit s xs q) (pos : Nat) :
    Run limit s { pos, rest := t } xs q { pos := pos + t.length, rest := [] } := by
  induction h generalizing s pos with
  | @done gap hgap =>
    cases hpath with
    | done =>
      refine .done ?_
      have hskip := Cursor.skipBlanks_of_gap pos hgap (nofun : ∀ x more, [] = x :: more → _)
      rw [List.append_nil] at hskip
      rw [hskip]
      rfl
  | @next gap rest x xs hgap hlayout ih =>
    cases hpath with
    | @next _ s' _ _ _ hafter hroom hpath =>
      have hskip := Cursor.skipBlanks_of_lexeme pos hgap x rest
      have hstep : Step limit s { pos, rest := gap ++ x.text ++ rest } x s'
          { pos := pos + gap.length + x.text.length, rest } := by
        refine ⟨hafter, hroom, ⟨?_, ?_⟩, ?_⟩
        · rw [hskip]
          exact List.prefix_append _ _
        · rw [hskip]
          simp [Cursor.advance]
        · rw [hskip]
          exact hlayout.longest hafter hpath
      have hrun := ih hpath (pos + gap.length + x.text.length)
      exact .next hstep (by simpa [Nat.add_assoc] using hrun)

theorem Text.Layout.unique {limit limit' : Nat} {s q q' : Stage} {xs ys : List Lexeme} {t : Text}
    (hxs : Text.Layout xs t) (hpath : Stage.Path limit s xs q) (hys : Text.Layout ys t)
    (hpath' : Stage.Path limit' s ys q') : xs = ys ∧ q = q' := by
  obtain ⟨hlexemes, hstages, _⟩ := (hxs.run hpath 0).eq_of_pos_eq (hys.run hpath' 0) rfl
  exact ⟨hlexemes, hstages⟩

end Reckon
