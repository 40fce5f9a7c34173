/-
What a syntax error says about a text.

The run that an error reports halts at a stage, and every stage can be carried
on to the end of an expression.  So the text up to the error is the beginning of
an expression, and what the stage expects is what some expression with this
beginning has there.
-/
import Reckon.Proofs.Recognition

namespace Reckon

/-! ## Accepted texts -/

namespace Text

/-- The text is an expression, if only the limit is high enough. -/
def IsAccepted (t : Text) : Prop :=
  ∃ bound : Int, ∀ limit, bound ≤ limit → ∃ root, recognize limit t = .ok root

/-- A token of the given kind begins at an offset of an expression. -/
def HasTokenAt (t : Text) (l : Label) (p : Nat) : Prop :=
  ∃ (tree : Tree) (before after : List Lexeme) (x : Lexeme) (u v : Text),
    tree.IsDerivation (before ++ x :: after) ∧ Layout before u ∧ Layout after v ∧
      t = u ++ x.text ++ v ∧ u.length = p ∧ x.label = l

theorem Layout.single (x : Lexeme) : Layout [x] x.text := by
  have h : Layout [x] ([] ++ x.text ++ []) := .next nofun (.done nofun)
  simpa using h

theorem layout_texts (xs : List Lexeme) : Layout xs (xs.flatMap Lexeme.text) := by
  induction xs with
  | nil => exact .done nofun
  | cons x xs ih => exact (Layout.single x).append ih

theorem isAccepted_of_path {n : Nat} {xs : List Lexeme} {t : Text}
    (hpath : Stage.Path n .start xs .finish) (hlayout : Layout xs t) : t.IsAccepted :=
  ⟨n, fun limit hlimit =>
    (recognized limit t).exists_ok (hpath.mono (by omega)) hlayout⟩

theorem IsAccepted.exists_isTreeOf {t : Text} (h : t.IsAccepted) :
    ∃ tree : Tree, tree.IsTreeOf t := by
  obtain ⟨bound, h⟩ := h
  obtain ⟨root, hroot⟩ := h bound (Int.le_refl _)
  exact ⟨root.shape, (hroot ▸ recognized bound t).isTreeOf.1⟩

end Text

/-- Lexemes that may follow one another up to the end are those of a derivation,
because the recognizer finds one. -/
theorem Stage.Path.isDerivation {n : Nat} {xs : List Lexeme} (h : Path n .start xs .finish) :
    ∃ tree : Tree, tree.IsDerivation xs := by
  have hlayout := Text.layout_texts xs
  obtain ⟨tree, ys, hderivation, hlayout'⟩ :=
    (Text.isAccepted_of_path h hlayout).exists_isTreeOf
  obtain ⟨rfl, _⟩ := hlayout.unique h hlayout' hderivation.path
  exact ⟨tree, hderivation⟩

/-! ## Carrying on -/

def Lexeme.zero : Lexeme :=
  .number ['0'] (.whole (Text.isDigits_singleton rfl))

theorem Label.exists_lexeme {l : Label} (hl : l ≠ .endOfInput) : ∃ x : Lexeme, x.label = l := by
  cases l with
  | number => exact ⟨.zero, rfl⟩
  | functionName => exact ⟨.functionName .sin, rfl⟩
  | unaryMinus => exact ⟨.unaryMinus, rfl⟩
  | openParen => exact ⟨.openParen, rfl⟩
  | closeParen => exact ⟨.closeParen, rfl⟩
  | operator op =>
    obtain ⟨s, hs⟩ := List.exists_mem_of_ne_nil op.spellings (by cases op <;> decide)
    exact ⟨.operator op s hs, rfl⟩
  | endOfInput => exact absurd rfl hl

namespace Stage

theorem exists_path_of_complete (n : Nat) :
    ∃ xs limit, Path limit ⟨.complete, n⟩ xs .finish := by
  induction n with
  | zero => exact ⟨[], 0, .done⟩
  | succ n ih =>
    obtain ⟨xs, limit, hpath⟩ := ih
    exact ⟨.closeParen :: xs, max n limit, .next rfl
      (Nat.le_max_left _ _) (hpath.mono (Nat.le_max_right _ _))⟩

/-- An expression can be carried on to its end from every stage. -/
theorem exists_path_finish (s : Stage) : ∃ xs limit, Path limit s xs .finish := by
  obtain ⟨mode, n⟩ := s
  have hoperand (m : Mode) (k : Nat)
      (h : after? ⟨m, k⟩ Lexeme.zero.label = some ⟨.complete, k⟩) :
      ∃ xs limit, Path limit ⟨m, k⟩ xs .finish := by
    obtain ⟨xs, limit, hpath⟩ := exists_path_of_complete k
    exact ⟨.zero :: xs, max k limit, .next h (Nat.le_max_left _ _)
      (hpath.mono (Nat.le_max_right _ _))⟩
  cases mode with
  | complete => exact exists_path_of_complete n
  | operand | unsigned => exact hoperand _ n rfl
  | argument =>
    obtain ⟨xs, limit, hpath⟩ := hoperand .operand (n + 1) rfl
    exact ⟨.openParen :: xs, max (n + 1) limit, .next rfl
      (Nat.le_max_left _ _) (hpath.mono (Nat.le_max_right _ _))⟩

end Stage

/-! ## Beginnings of expressions -/

section

variable {limit : Nat} {q : Stage} {xs : List Lexeme} {u : Text}

theorem Stage.Path.completes (hpath : Path limit .start xs q) (hlayout : Text.Layout xs u) :
    ∃ v, Text.IsAccepted (u ++ v) := by
  obtain ⟨ys, limit', hrest⟩ := q.exists_path_finish
  exact ⟨_, Text.isAccepted_of_path
    ((hpath.mono (Nat.le_max_left limit limit')).append (hrest.mono (Nat.le_max_right _ _)))
    (hlayout.append (Text.layout_texts ys))⟩

theorem Stage.Path.isAccepted_iff (hpath : Path limit .start xs q)
    (hlayout : Text.Layout xs u) : u.IsAccepted ↔ q = .finish := by
  constructor
  · intro h
    obtain ⟨tree, ys, hderivation, hlayout'⟩ := h.exists_isTreeOf
    exact (hlayout.unique hpath hlayout' hderivation.path).2
  · intro hq
    subst hq
    exact Text.isAccepted_of_path hpath hlayout

/-- A stage expects a token just if some expression with this beginning has such
a token there. -/
theorem Stage.Path.expects_iff (hpath : Path limit .start xs q) (hlayout : Text.Layout xs u)
    {l : Label} (hl : l ≠ .endOfInput) :
    q.Expects l ↔ ∃ t : Text, t.IsAccepted ∧ u <+: t ∧ t.HasTokenAt l u.length := by
  constructor
  · intro h
    obtain ⟨q', hafter⟩ := exists_after?_of_expects h hl
    -- Any token of the kind will do, with whatever leads from there to the end.
    obtain ⟨x, rfl⟩ := Label.exists_lexeme hl
    obtain ⟨ys, limit', hrest⟩ := q'.exists_path_finish
    have hle : limit ≤ max limit (max q'.opened limit') := Nat.le_max_left _ _
    have hwhole := (hpath.mono hle).append
      (.next hafter (by omega) (hrest.mono (by omega)))
    have hrestLayout := Text.layout_texts ys
    have hwholeLayout := hlayout.append ((Text.Layout.single x).append hrestLayout)
    obtain ⟨tree, hderivation⟩ := hwhole.isDerivation
    refine ⟨_, Text.isAccepted_of_path hwhole hwholeLayout, List.prefix_append _ _, tree, xs, ys,
      x, u, _, hderivation, hlayout, hrestLayout, ?_, rfl, rfl⟩
    rw [List.append_assoc]
  · intro h
    obtain ⟨t, _, hstarts, tree, before, after, x, u', v, hderivation, hlayout', _, rfl, hlength,
      rfl⟩ := h
    obtain ⟨q', hbefore, hafter⟩ := hderivation.path.of_append
    rw [List.append_assoc] at hstarts
    have hu : u = u' :=
      (List.prefix_of_prefix_length_le hstarts (List.prefix_append u' _)
        (Nat.le_of_eq hlength.symm)).eq_of_length hlength.symm
    subst hu
    obtain ⟨_, rfl⟩ := hlayout.unique hpath hlayout' hbefore
    cases hafter with
    | next hafter _ _ => exact expects_of_after? hafter

end

/-! ## Syntax errors -/

theorem Label.text_pairwise : (all.map text).Pairwise (· < ·) := by
  decide +kernel

theorem Frontier.labels_pairwise (f : Frontier) : (f.labels.map Label.text).Pairwise (· < ·) :=
  Label.text_pairwise.sublist (List.filter_sublist.map _)

/-- An offset of a text with the kinds of token expected there, where the text
stops being the beginning of an expression. -/
structure Culprit (t : Text) (p : Nat) (expected : List Label) : Prop where
  le_length : p ≤ t.length
  not_blank : p = t.length ∨ ∃ c, t[p]? = some c ∧ Text.isBlank c = false
  /-- What stands before the offset is the beginning of an expression. -/
  completes : ∃ s, Text.IsAccepted (t.take p ++ s)
  mem_endOfInput : .endOfInput ∈ expected ↔ Text.IsAccepted (t.take p)
  /-- What is expected is what expressions with this beginning have there. -/
  mem : ∀ l, l ≠ .endOfInput →
    (l ∈ expected ↔ ∃ u : Text, u.IsAccepted ∧ t.take p <+: u ∧ u.HasTokenAt l p)
  /-- Nothing of what is expected stands there. -/
  absent : ∀ l ∈ expected, ∀ s, l.Spells s → ¬ s <+: t.drop p
  not_ended : .endOfInput ∈ expected → p < t.length
  ne_nil : expected ≠ []
  increasing : (expected.map Label.text).Pairwise (· < ·)
  failure : (Fault.unexpected p expected).failure? t =
    some (.syntaxError (if p = t.length then "Unexpected end of input" else "Unexpected input")
      t p (expected.map Label.text))

/-- The error of a text that is no expression tells how far the text is the
beginning of one, and exactly what may come next there. -/
theorem culprit_of_unexpected {limit : Int} {t : Text} {p : Nat} {expected : List Label}
    (h : recognize limit t = .error (.unexpected p expected)) : Culprit t p expected := by
  obtain ⟨u, xs, q, e, ht, rfl, hlayout, hhalt, hlabels, f, rfl⟩ :=
    (h ▸ recognized limit t).exists_halt
  have htake : t.take u.length = u := by rw [ht, List.take_left]
  have hdrop : t.drop u.length = e.skipBlanks.rest := by rw [ht, List.drop_left]
  have hlength : t.length = u.length + e.skipBlanks.rest.length := by
    rw [ht, List.length_append]
  have hpath := hhalt.run.path
  obtain ⟨l, hl⟩ := q.exists_expects
  constructor
  · omega
  · cases hrest : e.skipBlanks.rest with
    | nil => exact .inl (by simp [hlength, hrest])
    | cons c more => exact .inr ⟨c, by simp [ht, hrest], Cursor.isBlank_head_skipBlanks hrest⟩
  · rw [htake]
    exact hpath.completes hlayout
  · rw [htake, hlabels, hpath.isAccepted_iff hlayout]
    rfl
  · intro l hl
    rw [htake, hlabels, hpath.expects_iff hlayout hl]
  · intro l hl
    rw [hdrop]
    exact (hhalt.lacks l ((hlabels l).mp hl)).1
  · intro hl
    have hrest := (hhalt.lacks _ ((hlabels _).mp hl)).2 rfl
    have := List.length_pos_iff.mpr hrest
    omega
  · exact List.ne_nil_of_mem ((hlabels l).mpr hl)
  · exact f.labels_pairwise
  · have hiff : t.length ≤ u.length ↔ u.length = t.length := by omega
    simp only [Fault.failure?, hiff]

/-- In `3mod -(2 sinh` the name of a function comes where the operand is
complete. -/
theorem culprit_three_mod_two_sinh :
    Culprit "3mod -(2 sinh".toList 9
      [.closeParen, .operator .add, .operator .divide, .operator .exponent, .operator .modulo,
        .operator .multiply, .operator .subtract] :=
  culprit_of_unexpected (by decide +kernel : recognize 1 _ = _)

end Reckon
