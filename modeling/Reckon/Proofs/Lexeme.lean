/-
Tokens as pieces of a text.

A lexeme is a kind of token together with one of its spellings.  The first
character of a spelling tells the kind among those that may stand at one place,
and no spelling holds a blank, so a layout of lexemes with blanks around them
loses nothing.
-/
import Reckon.Reading.Token

namespace Reckon

/-! ## Numerals -/

namespace Text

def IsDigits (t : Text) : Prop :=
  t ≠ [] ∧ ∀ c ∈ t, isDigit c = true

def digits : Text :=
  ['0', '1', '2', '3', '4', '5', '6', '7', '8', '9']

theorem mem_digits {c : Char} (h : isDigit c = true) : c ∈ digits := by
  simp only [isDigit, Bool.and_eq_true, decide_eq_true_eq, Char.le_def, UInt32.le_iff_toNat_le] at h
  have bounds : 48 ≤ c.toNat ∧ c.toNat ≤ 57 := h
  obtain ⟨k, hk, hc⟩ : ∃ k < 10, c.toNat = 48 + k := ⟨c.toNat - 48, by omega, by omega⟩
  have hall : ∀ k < 10, Char.ofNat (48 + k) ∈ digits := by decide
  rw [← Char.ofNat_toNat c, hc]
  exact hall k hk

/-- Digits, and perhaps a point with digits after it. -/
inductive IsNumeral : Text → Prop
  | whole {digits : Text} : IsDigits digits → IsNumeral digits
  | decimal {whole fraction : Text} :
      IsDigits whole → IsDigits fraction → IsNumeral (whole ++ '.' :: fraction)

theorem isDigits_takeWhile {t : Text} (h : t.takeWhile isDigit ≠ []) :
    IsDigits (t.takeWhile isDigit) :=
  ⟨h, fun c hc => List.all_eq_true.mp List.all_takeWhile c hc⟩

theorem isDigits_singleton {c : Char} (h : isDigit c = true) : IsDigits [c] :=
  ⟨List.cons_ne_nil _ _, fun _ hc' => List.mem_singleton.mp hc' ▸ h⟩

theorem isDigit_of_isDigits_cons {c : Char} {t : Text} (h : IsDigits (c :: t)) :
    isDigit c = true :=
  h.2 c List.mem_cons_self

theorem takeWhile_isDigit_append_point {digits : Text} (h : IsDigits digits) (t : Text) :
    (digits ++ '.' :: t).takeWhile isDigit = digits := by
  have hpoint : isDigit '.' = false := by decide
  rw [List.takeWhile_append_of_pos h.2, List.takeWhile_cons_of_neg (by simp [hpoint]),
    List.append_nil]

theorem IsNumeral.mem {t : Text} (h : IsNumeral t) {c : Char} (hc : c ∈ t) :
    isDigit c = true ∨ c = '.' := by
  cases h with
  | whole h => exact .inl (h.2 c hc)
  | decimal hwhole hfraction =>
    rcases List.mem_append.mp hc with hc | hc
    · exact .inl (hwhole.2 c hc)
    · rcases List.mem_cons.mp hc with rfl | hc
      · exact .inr rfl
      · exact .inl (hfraction.2 c hc)

theorem IsNumeral.exists_cons {t : Text} (h : IsNumeral t) :
    ∃ c rest, t = c :: rest ∧ isDigit c = true := by
  cases h with
  | @whole digits h =>
    obtain ⟨c, rest, rfl⟩ := List.exists_cons_of_ne_nil h.1
    exact ⟨c, rest, rfl, isDigit_of_isDigits_cons h⟩
  | @decimal digits fraction h _ =>
    obtain ⟨c, rest, rfl⟩ := List.exists_cons_of_ne_nil h.1
    exact ⟨c, rest ++ '.' :: fraction, rfl, isDigit_of_isDigits_cons h⟩

theorem isBlank_eq_false_of_all {t : Text} (h : (t.all fun c => !isBlank c) = true) {c : Char}
    (hc : c ∈ t) : isBlank c = false := by
  simpa using List.all_eq_true.mp h c hc

end Text

namespace Token

open Text

theorem numeral_begins (t : Text) : numeral t <+: t := by
  have hwhole : t.takeWhile isDigit <+: t := List.takeWhile_prefix _
  unfold numeral
  split
  · exact List.nil_prefix
  · split
    · next more hdrop =>
      split
      · exact hwhole
      · obtain ⟨rest, hrest⟩ : more.takeWhile isDigit <+: more := List.takeWhile_prefix _
        refine ⟨rest, ?_⟩
        calc t.takeWhile isDigit ++ '.' :: more.takeWhile isDigit ++ rest
            = t.takeWhile isDigit ++ '.' :: more := by
              rw [List.append_assoc, List.cons_append, hrest]
          _ = t.take (t.takeWhile isDigit).length ++ t.drop (t.takeWhile isDigit).length := by
              rw [← List.prefix_iff_eq_take.mp hwhole, hdrop]
          _ = t := List.take_append_drop _ _
    · exact hwhole

theorem isNumeral_numeral {t : Text} (h : numeral t ≠ []) : IsNumeral (numeral t) := by
  unfold numeral at h ⊢
  split
  · next hwhole => simp [hwhole] at h
  · next whole hwhole =>
    have hdigits := isDigits_takeWhile hwhole
    split
    · split
      · exact .whole hdigits
      · next hfraction => exact .decimal hdigits (isDigits_takeWhile hfraction)
    · exact .whole hdigits

theorem numeral_of_point {t more : Text} (hwhole : t.takeWhile isDigit ≠ [])
    (hpoint : t.drop (t.takeWhile isDigit).length = '.' :: more)
    (hmore : more.takeWhile isDigit ≠ []) :
    numeral t = t.takeWhile isDigit ++ '.' :: more.takeWhile isDigit := by
  unfold numeral
  split
  · next hnil => exact absurd hnil hwhole
  · split
    · next more' hmore' =>
      obtain rfl : more' = more := (List.cons.inj (hmore'.symm.trans hpoint)).2
      split
      · next hnil => exact absurd hnil hmore
      · rfl
    · next hno => exact absurd hpoint (hno more)

theorem length_takeWhile_le_length_numeral (t : Text) :
    (t.takeWhile isDigit).length ≤ (numeral t).length := by
  unfold numeral
  split
  · next hnil => simp [hnil]
  · split
    · split
      · exact Nat.le_refl _
      · simp
    · exact Nat.le_refl _

/-- No numeral that begins a text is longer than the one that is read. -/
theorem length_le_length_numeral {digits t : Text} (hd : IsNumeral digits) (h : digits <+: t) :
    digits.length ≤ (numeral t).length := by
  obtain ⟨rest, rfl⟩ := h
  cases hd with
  | whole hdigits =>
    refine Nat.le_trans ?_ (length_takeWhile_le_length_numeral _)
    rw [List.takeWhile_append_of_pos hdigits.2, List.length_append]
    omega
  | @decimal whole fraction hwhole hfraction =>
    have htake : (whole ++ '.' :: fraction ++ rest).takeWhile isDigit = whole := by
      rw [List.append_assoc, List.cons_append, takeWhile_isDigit_append_point hwhole]
    have hmore : (fraction ++ rest).takeWhile isDigit = fraction ++ rest.takeWhile isDigit :=
      List.takeWhile_append_of_pos hfraction.2
    have hdrop : (whole ++ '.' :: fraction ++ rest).drop
        ((whole ++ '.' :: fraction ++ rest).takeWhile isDigit).length =
          '.' :: (fraction ++ rest) := by
      rw [htake, List.append_assoc, List.cons_append, List.drop_left]
    rw [numeral_of_point (by rw [htake]; exact hwhole.1) hdrop (by rw [hmore]; simp [hfraction.1]),
      htake, hmore]
    simp

end Token

/-! ## Spellings of a kind of token -/

namespace Label

/-- The spellings of a kind of token.  The end of the text has none. -/
def Spells : Label → Text → Prop
  | number, t => Text.IsNumeral t
  | functionName, t => ∃ f : Function, t = f.name
  | unaryMinus, t => t = ['-']
  | openParen, t => t = ['(']
  | closeParen, t => t = [')']
  | operator op, t => t ∈ op.spellings
  | endOfInput, _ => False

/-- The characters with which a spelling may begin. -/
def firsts : Label → Text
  | number => Text.digits
  | functionName => ['s', 'c', 't', 'a']
  | unaryMinus => ['-']
  | openParen => ['(']
  | closeParen => [')']
  | operator op => op.spellings.filterMap List.head?
  | endOfInput => []

theorem spells_unaryMinus (t : Text) : unaryMinus.Spells t ↔ t = ['-'] := Iff.rfl

theorem spells_openParen (t : Text) : openParen.Spells t ↔ t = ['('] := Iff.rfl

theorem spells_closeParen (t : Text) : closeParen.Spells t ↔ t = [')'] := Iff.rfl

theorem Spells.exists_cons {l : Label} {t : Text} (h : l.Spells t) :
    ∃ c rest, t = c :: rest ∧ c ∈ l.firsts := by
  cases l with
  | number =>
    obtain ⟨c, rest, rfl, hc⟩ := Text.IsNumeral.exists_cons h
    exact ⟨c, rest, rfl, Text.mem_digits hc⟩
  | functionName =>
    obtain ⟨f, rfl⟩ := h
    cases f <;> exact ⟨_, _, rfl, by decide⟩
  | unaryMinus | openParen | closeParen =>
    cases h
    exact ⟨_, _, rfl, by decide⟩
  | operator op =>
    obtain ⟨c, rest, rfl⟩ := List.exists_cons_of_ne_nil (Operation.spellings_ne_nil h)
    exact ⟨c, rest, rfl, List.mem_filterMap.mpr ⟨_, h, rfl⟩⟩
  | endOfInput => exact h.elim

/-- Only a minus sign and a subtraction begin alike. -/
theorem eq_of_mem_firsts {l l' : Label} {c : Char} (h : c ∈ l.firsts) (h' : c ∈ l'.firsts) :
    l = l' ∨ (l = unaryMinus ∧ l' = operator .subtract) ∨
      (l = operator .subtract ∧ l' = unaryMinus) := by
  have hall : ∀ l ∈ all, ∀ l' ∈ all, (l.firsts.all fun c => !l'.firsts.contains c) = true ∨
      l = l' ∨ (l = unaryMinus ∧ l' = operator .subtract) ∨
        (l = operator .subtract ∧ l' = unaryMinus) := by
    decide +kernel
  rcases hall l (mem_all l) l' (mem_all l') with hapart | hlabels
  · have hno := List.all_eq_true.mp hapart c h
    simp [h'] at hno
  · exact hlabels

theorem Spells.ne_nil {l : Label} {t : Text} (h : l.Spells t) : t ≠ [] := by
  obtain ⟨c, rest, rfl, _⟩ := h.exists_cons
  exact List.cons_ne_nil c rest

theorem Spells.isBlank_eq_false {l : Label} {t : Text} (h : l.Spells t) {c : Char} (hc : c ∈ t) :
    Text.isBlank c = false := by
  cases l with
  | number =>
    rcases Text.IsNumeral.mem h hc with hdigit | rfl
    · exact Text.isBlank_eq_false_of_isDigit hdigit
    · decide
  | functionName =>
    obtain ⟨f, rfl⟩ := h
    exact Text.isBlank_eq_false_of_all (by cases f <;> decide) hc
  | unaryMinus | openParen | closeParen =>
    cases h
    exact Text.isBlank_eq_false_of_all (by decide) hc
  | operator op =>
    have hall : ∀ op ∈ Operation.all, ∀ s ∈ op.spellings,
        (s.all fun c => !Text.isBlank c) = true := by
      decide
    exact Text.isBlank_eq_false_of_all (hall op (Operation.mem_all op) t h) hc
  | endOfInput => exact h.elim

/-- The kinds of which no spelling begins another one. -/
def IsFixed : Label → Prop
  | number | functionName => False
  | _ => True

theorem Spells.eq_of_prefix {l : Label} (hl : l.IsFixed) {s u t : Text} (hs : l.Spells s)
    (hu : l.Spells u) (hst : s <+: t) (hut : u <+: t) : s = u := by
  cases l with
  | number | functionName => exact hl.elim
  | unaryMinus | openParen | closeParen => exact hs.trans hu.symm
  | operator op =>
    have hhead : s.head? = u.head? := by
      obtain ⟨c, cs, rfl, _⟩ := hs.exists_cons
      obtain ⟨d, ds, rfl, _⟩ := hu.exists_cons
      obtain ⟨_, rfl⟩ := hst
      exact congrArg some (List.cons_prefix_cons.mp hut).1.symm
    have hall : ∀ op ∈ Operation.all, ∀ s ∈ op.spellings, ∀ u ∈ op.spellings,
        s.head? = u.head? → s = u := by
      decide
    exact hall op (Operation.mem_all op) s hs u hu hhead
  | endOfInput => exact hs.elim

end Label

/-! ## Lexemes and their layout -/

@[ext] structure Lexeme where
  label : Label
  text : Text
  spelled : label.Spells text

namespace Lexeme

def number (digits : Text) (h : Text.IsNumeral digits) : Lexeme :=
  { label := .number, text := digits, spelled := h }

def functionName (f : Function) : Lexeme :=
  { label := .functionName, text := f.name, spelled := ⟨f, rfl⟩ }

def unaryMinus : Lexeme := { label := .unaryMinus, text := ['-'], spelled := rfl }

def openParen : Lexeme := { label := .openParen, text := ['('], spelled := rfl }

def closeParen : Lexeme := { label := .closeParen, text := [')'], spelled := rfl }

def operator (op : Operation) (spelling : Text) (h : spelling ∈ op.spellings) : Lexeme :=
  { label := .operator op, text := spelling, spelled := h }

@[simp] theorem label_number (digits : Text) (h : Text.IsNumeral digits) :
    (number digits h).label = .number := rfl

@[simp] theorem label_functionName (f : Function) : (functionName f).label = .functionName := rfl

@[simp] theorem label_unaryMinus : unaryMinus.label = .unaryMinus := rfl

@[simp] theorem label_openParen : openParen.label = .openParen := rfl

@[simp] theorem label_closeParen : closeParen.label = .closeParen := rfl

@[simp] theorem label_operator (op : Operation) (spelling : Text) (h : spelling ∈ op.spellings) :
    (operator op spelling h).label = .operator op := rfl

end Lexeme

namespace Text

def IsGap (t : Text) : Prop :=
  ∀ c ∈ t, isBlank c = true

theorem isGap_nil : IsGap [] := by
  intro c hc
  cases hc

theorem isGap_singleton {c : Char} (h : isBlank c = true) : IsGap [c] :=
  List.forall_mem_singleton.mpr h

theorem IsGap.append {s t : Text} (hs : IsGap s) (ht : IsGap t) : IsGap (s ++ t) := by
  intro c hc
  exact (List.mem_append.mp hc).elim (hs c) (ht c)

/-- The lexemes in order, with gaps before, between and after them. -/
inductive Layout : List Lexeme → Text → Prop
  | done {gap : Text} : IsGap gap → Layout [] gap
  | next {gap rest : Text} {x : Lexeme} {xs : List Lexeme} :
      IsGap gap → Layout xs rest → Layout (x :: xs) (gap ++ x.text ++ rest)

theorem Layout.gap_append {gap t : Text} {xs : List Lexeme} (hgap : IsGap gap)
    (h : Layout xs t) : Layout xs (gap ++ t) := by
  cases h with
  | done hgap' => exact .done (hgap.append hgap')
  | next hgap' h =>
    rw [← List.append_assoc, ← List.append_assoc]
    exact .next (hgap.append hgap') h

theorem Layout.append {s t : Text} {xs ys : List Lexeme} (hs : Layout xs s) (ht : Layout ys t) :
    Layout (xs ++ ys) (s ++ t) := by
  induction hs with
  | done hgap => exact ht.gap_append hgap
  | next hgap _ ih =>
    rw [List.append_assoc]
    exact .next hgap ih

theorem Layout.mem {xs : List Lexeme} {t : Text} (h : Layout xs t) {c : Char} (hc : c ∈ t) :
    isBlank c = true ∨ ∃ x ∈ xs, c ∈ x.text := by
  induction h with
  | done hgap => exact .inl (hgap c hc)
  | next hgap _ ih =>
    rcases List.mem_append.mp hc with hc | hc
    · rcases List.mem_append.mp hc with hc | hc
      · exact .inl (hgap c hc)
      · exact .inr ⟨_, List.mem_cons_self, hc⟩
    · exact (ih hc).imp id fun ⟨x, hx, hc⟩ => ⟨x, List.mem_cons_of_mem _ hx, hc⟩

theorem Layout.subset {xs : List Lexeme} {t : Text} (h : Layout xs t) {x : Lexeme} (hx : x ∈ xs) :
    x.text ⊆ t := by
  intro c hc
  induction h with
  | done _ => cases hx
  | next _ _ ih =>
    rcases List.mem_cons.mp hx with rfl | hx
    · exact List.mem_append_left _ (List.mem_append_right _ hc)
    · exact List.mem_append_right _ (ih hx)

end Text
end Reckon
