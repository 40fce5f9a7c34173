/-
Parentheses counted in the text.

A run opens and closes parentheses as the characters of the text do, since no
other lexeme holds one.  So how many are open at a stage, and whether a run has
stayed within a limit, can be read off the text without reading any lexeme.  The
same holds of the place where the construct of an opening parenthesis begins: no
lexeme but the name of a function ends as such a name does.
-/
import Mathlib.Data.List.DropRight
import Reckon.Proofs.Recognition

namespace Reckon
namespace Text

/-! ## Open parentheses -/

/-- How many parentheses are open after a character.  A parenthesis that closes
none changes nothing. -/
def countParen (opened : Nat) (c : Char) : Nat :=
  if c = '(' then opened + 1 else if c = ')' then opened - 1 else opened

/-- How many parentheses a text opens and does not close. -/
def unclosed (t : Text) : Nat :=
  t.foldl countParen 0

/-- Going on from a number of open parentheses, a text opens none where the
limit is reached. -/
def OpensWithin (limit : Nat) : Nat → Text → Prop
  | _, [] => True
  | n, c :: t => (c = '(' → n < limit) ∧ OpensWithin limit (countParen n c) t

section

variable {limit n : Nat} {u v : Text}

theorem opensWithin_append :
    OpensWithin limit n (u ++ v) ↔
      OpensWithin limit n u ∧ OpensWithin limit (u.foldl countParen n) v := by
  induction u generalizing n with
  | nil => simp [OpensWithin]
  | cons c u ih => simp [OpensWithin, ih, and_assoc]

theorem opensWithin_iff {t : Text} :
    OpensWithin limit n t ↔
      ∀ i, t[i]? = some '(' → (t.take i).foldl countParen n < limit := by
  induction t generalizing n with
  | nil => simp [OpensWithin]
  | cons c t ih =>
    rw [OpensWithin, ih]
    constructor
    · intro h i hi
      cases i with
      | zero => exact h.1 (Option.some.inj hi)
      | succ i => exact h.2 i hi
    · intro h
      exact ⟨fun hc => h 0 (congrArg some hc), fun i hi => h (i + 1) hi⟩

theorem countParen_of_ne {c : Char} (hopen : c ≠ '(') (hclose : c ≠ ')') : countParen n c = n := by
  rw [countParen, if_neg hopen, if_neg hclose]

/-- Text without parentheses changes nothing. -/
theorem opensWithin_of_forall (h : ∀ c ∈ u, c ≠ '(' ∧ c ≠ ')') :
    OpensWithin limit n u ∧ u.foldl countParen n = n := by
  induction u with
  | nil => exact ⟨trivial, rfl⟩
  | cons c u ih =>
    obtain ⟨hopen, hclose⟩ := h c List.mem_cons_self
    have hcount : countParen n c = n := countParen_of_ne hopen hclose
    rw [OpensWithin, List.foldl_cons, hcount]
    exact ⟨⟨fun hc => absurd hc hopen, (ih fun c' hc' => h c' (List.mem_cons_of_mem _ hc')).1⟩,
      (ih fun c' hc' => h c' (List.mem_cons_of_mem _ hc')).2⟩

theorem unclosed_le_length (t : Text) : t.unclosed ≤ t.length := by
  have h : ∀ n, t.foldl countParen n ≤ n + t.length := by
    induction t with
    | nil => exact fun n => Nat.le_refl n
    | cons c t ih =>
      intro n
      have hcount : countParen n c ≤ n + 1 := by
        unfold countParen
        split
        · exact Nat.le_refl _
        · split <;> omega
      have := ih (countParen n c)
      rw [List.foldl_cons, List.length_cons]
      omega
  simpa [unclosed] using h 0

end

end Text

/-! ## Lexemes and parentheses -/

theorem Text.IsGap.not_paren {gap : Text} (h : Text.IsGap gap) :
    ∀ c ∈ gap, c ≠ '(' ∧ c ≠ ')' := by
  intro c hc
  have hblank := h c hc
  constructor
  · rintro rfl
    revert hblank
    decide
  · rintro rfl
    revert hblank
    decide

theorem Label.Spells.not_paren {l : Label} {t : Text} (h : l.Spells t) (hopen : l ≠ .openParen)
    (hclose : l ≠ .closeParen) : ∀ c ∈ t, c ≠ '(' ∧ c ≠ ')' := by
  have hsome {s : Text} (hs : (s.all fun c => c != '(' && c != ')') = true) :
      ∀ c ∈ s, c ≠ '(' ∧ c ≠ ')' := by
    simpa using hs
  cases l with
  | number =>
    intro c hc
    rcases Text.IsNumeral.mem h hc with hdigit | rfl
    · exact hsome (s := Text.digits) (by decide) c (Text.mem_digits hdigit)
    · decide
  | functionName =>
    obtain ⟨f, rfl⟩ := h
    exact hsome (by cases f <;> decide)
  | unaryMinus =>
    cases h
    exact hsome (by decide)
  | operator op =>
    have hall : ∀ op ∈ Operation.all, ∀ s ∈ op.spellings,
        (s.all fun c => c != '(' && c != ')') = true := by
      decide
    exact hsome (hall op (Operation.mem_all op) t h)
  | openParen => exact absurd rfl hopen
  | closeParen => exact absurd rfl hclose
  | endOfInput => exact h.elim

namespace Stage

theorem opened_after_openParen {s s' : Stage} (h : s.after? .openParen = some s') :
    s'.opened = s.opened + 1 := by
  obtain ⟨mode, n⟩ := s
  cases mode <;> cases h <;> rfl

theorem opened_after_closeParen {s s' : Stage} (h : s.after? .closeParen = some s') :
    s'.opened = s.opened - 1 := by
  obtain ⟨mode, n⟩ := s
  cases mode with
  | complete =>
    cases n with
    | zero => cases h
    | succ n =>
      cases h
      rfl
  | operand | unsigned | argument => cases h

theorem opened_after {s s' : Stage} {l : Label} (h : s.after? l = some s') (hopen : l ≠ .openParen)
    (hclose : l ≠ .closeParen) : s'.opened = s.opened := by
  obtain ⟨mode, n⟩ := s
  cases l with
  | openParen => exact absurd rfl hopen
  | closeParen => exact absurd rfl hclose
  | number | functionName | unaryMinus | operator op | endOfInput =>
    cases mode <;> cases h <;> rfl

end Stage

/-- One lexeme opens and closes what its characters do. -/
theorem Lexeme.opensWithin {limit : Nat} {s s' : Stage} {x : Lexeme}
    (hafter : s.after? x.label = some s') (hroom : s'.opened ≤ limit) :
    Text.OpensWithin limit s.opened x.text ∧ x.text.foldl Text.countParen s.opened = s'.opened := by
  obtain ⟨label, text, spelled⟩ := x
  dsimp only at hafter ⊢
  by_cases hopen : label = .openParen
  · subst hopen
    cases spelled
    have hopened := Stage.opened_after_openParen hafter
    exact ⟨⟨fun _ => by omega, trivial⟩, hopened.symm⟩
  · by_cases hclose : label = .closeParen
    · subst hclose
      cases spelled
      exact ⟨⟨nofun, trivial⟩, (Stage.opened_after_closeParen hafter).symm⟩
    · rw [Stage.opened_after hafter hopen hclose]
      exact Text.opensWithin_of_forall (spelled.not_paren hopen hclose)

theorem Text.Layout.opensWithin {limit : Nat} {s q : Stage} {xs : List Lexeme} {u : Text}
    (h : Text.Layout xs u) (hpath : Stage.Path limit s xs q) :
    Text.OpensWithin limit s.opened u ∧ u.foldl Text.countParen s.opened = q.opened := by
  induction h generalizing s with
  | done hgap =>
    cases hpath with
    | done => exact Text.opensWithin_of_forall hgap.not_paren
  | @next gap rest x xs hgap _ ih =>
    cases hpath with
    | @next _ s' _ _ _ hafter hroom hpath =>
      obtain ⟨hgapWithin, hgapCount⟩ : Text.OpensWithin limit s.opened gap ∧
          gap.foldl Text.countParen s.opened = s.opened :=
        Text.opensWithin_of_forall hgap.not_paren
      obtain ⟨hwithin, hcount⟩ := x.opensWithin hafter hroom
      obtain ⟨hrest, hrestCount⟩ := ih hpath
      simp only [Text.opensWithin_append, List.foldl_append, hgapCount, hcount]
      exact ⟨⟨⟨hgapWithin, hwithin⟩, hrest⟩, hrestCount⟩

/-! ## Last characters -/

section

variable {x : Lexeme} {xs : List Lexeme} {t : Text}

theorem Lexeme.exists_getLast? (x : Lexeme) :
    ∃ c, x.text.getLast? = some c ∧ Text.isBlank c = false := by
  have hlast := List.getLast?_eq_some_getLast x.spelled.ne_nil
  exact ⟨_, hlast, x.spelled.isBlank_eq_false (List.mem_of_getLast? hlast)⟩

theorem Lexeme.getLast?_ne_a (x : Lexeme) : x.text.getLast? ≠ some 'a' := by
  obtain ⟨label, text, spelled⟩ := x
  cases label with
  | number =>
    intro h
    rcases Text.IsNumeral.mem spelled (List.mem_of_getLast? h) with hdigit | hpoint
    · revert hdigit
      decide
    · revert hpoint
      decide
  | functionName =>
    obtain ⟨f, rfl⟩ := spelled
    cases f <;> decide
  | unaryMinus | openParen | closeParen =>
    cases spelled
    decide
  | operator op =>
    exact (by decide : ∀ op ∈ Operation.all, ∀ s ∈ op.spellings, s.getLast? ≠ some 'a') op
      (Operation.mem_all op) text spelled
  | endOfInput => exact spelled.elim

/-- Only the name of a function ends as the name of a function does. -/
theorem Lexeme.getLast?_ne_name (hx : x.label ≠ .functionName) (f : Function) :
    x.text.getLast? ≠ f.name.getLast? := by
  obtain ⟨label, text, spelled⟩ := x
  cases label with
  | number =>
    intro h
    have hlast := List.getLast?_eq_some_getLast (Token.name_ne_nil f)
    have hletters : ∀ f ∈ Function.all,
        (f.name.all fun c => !Text.isDigit c && c != '.') = true := by
      decide
    have hletter := List.all_eq_true.mp (hletters f (Function.mem_all f)) _
      (List.mem_of_getLast? hlast)
    rcases Text.IsNumeral.mem spelled (List.mem_of_getLast? (h.trans hlast)) with hdigit | hpoint
    · simp [hdigit] at hletter
    · simp [hpoint] at hletter
  | functionName => exact absurd rfl hx
  | unaryMinus | openParen | closeParen =>
    cases spelled
    cases f <;> decide
  | operator op =>
    exact (by decide : ∀ op ∈ Operation.all, ∀ s ∈ op.spellings, ∀ f ∈ Function.all,
      s.getLast? ≠ f.name.getLast?) op (Operation.mem_all op) text spelled f (Function.mem_all f)
  | endOfInput => exact spelled.elim

theorem Text.Layout.getLast?_ne_a (h : Text.Layout xs t) : t.getLast? ≠ some 'a' := by
  induction h with
  | done hgap =>
    intro h
    have hblank := hgap 'a' (List.mem_of_getLast? h)
    revert hblank
    decide
  | @next gap rest x xs _ _ ih =>
    cases hrest : rest.getLast? with
    | some c =>
      rw [List.getLast?_append, hrest]
      rwa [hrest] at ih
    | none =>
      obtain ⟨c, hc, _⟩ := x.exists_getLast?
      have hx := x.getLast?_ne_a
      rw [hc] at hx
      simpa [List.getLast?_append, hrest, hc] using hx

theorem Text.Layout.concat (h : Text.Layout (xs ++ [x]) t) :
    ∃ u gap, t = u ++ x.text ++ gap ∧ Text.IsGap gap := by
  induction xs generalizing t with
  | nil =>
    cases h with
    | next _ h =>
      cases h with
      | done hgap => exact ⟨_, _, rfl, hgap⟩
  | cons y ys ih =>
    cases h with
    | @next gap _ _ _ _ h =>
      obtain ⟨u, gap', rfl, hgap'⟩ := ih h
      exact ⟨gap ++ y.text ++ u, gap', by simp, hgap'⟩

end

/-! ## Where constructs begin -/

namespace Text

/-- Where the construct begins whose parenthesis comes after the given text: at
the name of a function that the text ends with, up to blanks, and else at the
parenthesis itself. -/
def constructStart (u : Text) : Nat :=
  let word := u.rdropWhile isBlank
  match Function.all.find? (·.name.isSuffixOf word) with
  | some f => word.length - f.name.length
  | none => u.length

theorem rdropWhile_append_gap {word gap : Text} {c : Char} (hgap : IsGap gap)
    (hlast : word.getLast? = some c) (hc : isBlank c = false) :
    (word ++ gap).rdropWhile isBlank = word := by
  induction gap using List.reverseRecOn with
  | nil =>
    rw [List.append_nil, List.rdropWhile_eq_self_iff]
    intro hne
    rw [List.getLast?_eq_some_getLast hne] at hlast
    simp [Option.some.inj hlast, hc]
  | append_singleton gap d ih =>
    rw [← List.append_assoc, List.rdropWhile_concat_pos _ _ _ (hgap d (by simp))]
    exact ih fun c hc => hgap c (List.mem_append_left _ hc)

theorem getLast?_of_suffix {s t : Text} (h : s <:+ t) (hs : s ≠ []) :
    t.getLast? = s.getLast? := by
  obtain ⟨u, rfl⟩ := h
  rw [List.getLast?_append, List.getLast?_eq_some_getLast hs]
  rfl

theorem constructStart_of_find?_eq_none {u : Text}
    (h : ∀ f : Function, ¬ f.name <:+ u.rdropWhile isBlank) : constructStart u = u.length := by
  have hnone : Function.all.find? (·.name.isSuffixOf (u.rdropWhile isBlank)) = none := by
    refine List.find?_eq_none.mpr fun f _ hf => h f ?_
    exact List.isSuffixOf_iff_suffix.mp hf
  simp only [constructStart, hnone]

/-- After a lexeme that is no name a parenthesis opens a group. -/
theorem Layout.constructStart_group {limit : Nat} {q : Stage} {xs : List Lexeme} {u : Text}
    (h : Layout xs u) (hpath : Stage.Path limit .start xs q) (hq : q.mode ≠ .argument) :
    constructStart u = u.length := by
  refine constructStart_of_find?_eq_none fun f hf => ?_
  rcases List.eq_nil_or_concat xs with rfl | ⟨ys, x, rfl⟩
  · cases h with
    | done hgap =>
      have hnil : u.rdropWhile isBlank = [] := List.rdropWhile_eq_nil_iff.mpr hgap
      rw [hnil] at hf
      exact Token.name_ne_nil f (List.suffix_nil.mp hf)
  · rw [List.concat_eq_append] at h hpath
    obtain ⟨v, gap, rfl, hgap⟩ := h.concat
    obtain ⟨c, hc, hblank⟩ := x.exists_getLast?
    have hlast : (v ++ x.text).getLast? = x.text.getLast? :=
      getLast?_of_suffix (List.suffix_append v x.text) x.spelled.ne_nil
    rw [rdropWhile_append_gap hgap (hlast.trans hc) hblank] at hf
    have hname : x.label ≠ .functionName := by
      intro hlabel
      obtain ⟨r, _, hstep⟩ := hpath.of_append
      cases hstep with
      | next hafter _ hdone =>
        cases hdone
        rw [hlabel] at hafter
        obtain ⟨mode, n⟩ := r
        cases mode <;> cases hafter <;> exact hq rfl
    exact Lexeme.getLast?_ne_name hname f
      (hlast.symm.trans (getLast?_of_suffix hf (Token.name_ne_nil f)))

/-- One name of a function ends with another only if an `a` comes before that. -/
theorem name_eq_or_a {f g : Function} {z : Text} (h : z ++ f.name = g.name) :
    z = [] ∨ z = ['a'] := by
  have hall : ∀ f ∈ Function.all, ∀ g ∈ Function.all,
      f.name.isSuffixOf g.name = true →
        g.name.take (g.name.length - f.name.length) ∈ [[], ['a']] := by
    decide +kernel
  have hz := hall f (Function.mem_all f) g (Function.mem_all g)
    (List.isSuffixOf_iff_suffix.mpr ⟨z, h⟩)
  rw [← h] at hz
  simpa using hz

/-- After the name of a function a parenthesis opens a call, which begins at the
whole of the name: what comes before is no part of a longer one. -/
theorem Layout.constructStart_call {xs : List Lexeme} {w gap : Text} (h : Layout xs w)
    (f : Function) (hgap : IsGap gap) : constructStart (w ++ f.name ++ gap) = w.length := by
  have hsuffix : f.name <:+ w ++ f.name := List.suffix_append w f.name
  obtain ⟨c, hc, hblank⟩ := (Lexeme.functionName f).exists_getLast?
  have hword : (w ++ f.name ++ gap).rdropWhile isBlank = w ++ f.name :=
    rdropWhile_append_gap hgap ((getLast?_of_suffix hsuffix (Token.name_ne_nil f)).trans hc) hblank
  obtain ⟨g, hg⟩ := Option.isSome_iff_exists.mp
    (List.find?_isSome.mpr ⟨f, Function.mem_all f, List.isSuffixOf_iff_suffix.mpr hsuffix⟩ :
      (Function.all.find? (·.name.isSuffixOf (w ++ f.name))).isSome)
  have hgsuffix : g.name <:+ w ++ f.name :=
    List.isSuffixOf_iff_suffix.mp (by simpa using List.find?_some hg)
  have hle : f.name.length ≤ g.name.length :=
    Token.length_name_le hg (List.isSuffixOf_iff_suffix.mpr hsuffix)
  obtain ⟨z, hz⟩ : f.name <:+ g.name := List.suffix_of_suffix_length_le hsuffix hgsuffix hle
  obtain rfl : z = [] := by
    refine (name_eq_or_a hz).resolve_right fun hza => h.getLast?_ne_a ?_
    obtain ⟨v, hv⟩ := hgsuffix
    rw [← hz, hza, ← List.append_assoc, List.append_left_inj] at hv
    rw [← hv, List.getLast?_append]
    rfl
  have hlength := congrArg List.length hz
  simp only [constructStart, hword, hg, List.length_append]
  simp only [List.nil_append] at hlength
  omega

end Text
end Reckon
