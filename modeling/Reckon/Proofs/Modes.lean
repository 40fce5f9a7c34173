/-
The two modes agree on whole numbers.

Literals without a point, minus signs, sums, differences, products and
remainders have exact values on floats, as long as the integers fit 32 bits.
So where an expression of nothing else has an integer value, every step on the
way to it does, and the same steps on floats come to the same number.
-/
import Reckon.Proofs.Composition
import Reckon.Proofs.Packing
import Reckon.Proofs.Subtrees

namespace Reckon

open Binary64

/-! ## Steps -/

/-- The operators that are exact on floats if they are on integers. -/
def Operation.shared : List Operation := [add, subtract, multiply, modulo]

theorem Integral.InRange.fits {n : Int} (h : Integral.InRange n) : FitsSignificand n := by
  obtain ⟨hleast, hgreatest⟩ := h
  unfold Integral.least at hleast
  unfold Integral.greatest at hgreatest
  unfold FitsSignificand
  omega

theorem Integral.apply_shared {op : Operation} {a b n : Int} {x y : Float}
    (hop : op ∈ Operation.shared) (h : Integral.apply op a b = .ok n) (hx : IsWhole x a)
    (hy : IsWhole y b) : IsWhole (op.onFloats x y) n := by
  cases op with
  | add =>
    obtain ⟨hrange, rfl⟩ := Integral.checked_eq_ok.mp h
    exact hx.add hy hrange.fits
  | subtract =>
    obtain ⟨hrange, rfl⟩ := Integral.checked_eq_ok.mp h
    exact hx.sub hy hrange.fits
  | multiply =>
    obtain ⟨hrange, rfl⟩ := Integral.checked_eq_ok.mp h
    exact hx.mul hy hrange.fits
  | modulo =>
    unfold Integral.apply at h
    dsimp only at h
    split at h
    · cases h
    · next hzero =>
      obtain ⟨_, rfl⟩ := Integral.checked_eq_ok.mp h
      exact hx.remainder hy hzero
  | divide | exponent => simp [Operation.shared] at hop

/-! ## Literals -/

theorem Integral.literal_eq_ok {t : Text} {n : Int} (ht : Text.IsDigits t)
    (h : Integral.literal t = .ok n) : n = Text.digitsValue t ∧ InRange n := by
  unfold Integral.literal at h
  split at h
  · cases h
  · dsimp only at h
    split at h
    · cases h
    · rw [Numeral.integer?_eq ht.significant, digitsValue_significant] at h
      obtain ⟨hrange, rfl⟩ := Integral.checked_eq_ok.mp h
      exact ⟨rfl, hrange⟩

theorem isWhole_ofDecimal {n : Nat} (hfits : FitsSignificand n) (width : Nat) :
    IsWhole (Numeral.ofDecimal n width 0) n := by
  have hrange : ¬(width : Int) + 0 < -330 := by omega
  by_cases hzero : n = 0
  · subst hzero
    exact isWhole_decimal_zero
  · simp only [Numeral.ofDecimal, hzero, hrange, decide_false, Bool.or_self]
    exact isWhole_ofScientific hfits

theorem Floating.literal_digits {t : Text} (ht : Text.IsDigits t)
    (hfits : FitsSignificand (Text.digitsValue t)) :
    ∃ x, Floating.literal t = .ok x ∧ IsWhole x (Text.digitsValue t) := by
  have hwhole := isWhole_ofDecimal hfits t.length
  refine ⟨_, ?_, hwhole⟩
  simp [Floating.literal, Numeral.float?_digits ht, hwhole.isInf_eq_false]

/-! ## Formulas -/

/-- Every step of the formula is one that both modes take alike. -/
def Formula.IsShared : Formula → Prop
  | literal _ text => Text.IsDigits text
  | negation _ operand => operand.IsShared
  | operation op _ left right => op ∈ Operation.shared ∧ left.IsShared ∧ right.IsShared
  | call .. => False

theorem Formula.value_shared {unit unit' : AngleUnit} {φ : Formula} {n : Int} (hφ : φ.IsShared)
    (h : φ.value (integral unit) = .ok n) :
    ∃ x, φ.value (floating unit') = .ok x ∧ IsWhole x n := by
  induction φ generalizing n with
  | literal start text =>
    obtain ⟨rfl, hrange⟩ := Integral.literal_eq_ok hφ (eq_ok_of_place h)
    obtain ⟨x, hx, hwhole⟩ := Floating.literal_digits hφ hrange.fits
    exact ⟨x, congrArg (Evaluation.place start) hx, hwhole⟩
  | negation start operand ih =>
    obtain ⟨a, ha, h⟩ := exists_of_bind_eq_ok h
    obtain ⟨_, rfl⟩ := Integral.checked_eq_ok.mp (eq_ok_of_place h)
    obtain ⟨x, hx, hwhole⟩ := ih hφ ha
    exact ⟨-x, by rw [value, hx]; rfl, hwhole.neg⟩
  | operation op start left right ihleft ihright =>
    obtain ⟨a, ha, h⟩ := exists_of_bind_eq_ok h
    obtain ⟨b, hb, h⟩ := exists_of_bind_eq_ok h
    obtain ⟨hop, hleft, hright⟩ := hφ
    obtain ⟨x, hx, hwholex⟩ := ihleft hleft ha
    obtain ⟨y, hy, hwholey⟩ := ihright hright hb
    exact ⟨op.onFloats x y, by rw [value, hx, hy]; rfl,
      Integral.apply_shared hop (eq_ok_of_place h) hwholex hwholey⟩
  | call f start argument => exact hφ.elim

/-! ## Trees -/

/-- The node adds no step of another kind to the formula of a tree. -/
structure Node.IsShared (n : Node) : Prop where
  digits : n.rule = .number → Text.IsDigits n.text
  operator : ∀ op, n.rule = .operator op → op ∈ Operation.shared
  not_call : n.rule ≠ .functionCall

structure Piece.IsShared (p : Piece) : Prop where
  operator : ∀ op, p.rule = .operator op → op ∈ Operation.shared
  formula : ∀ φ, p.formula? = some φ → φ.IsShared

section

variable {pieces rest : List Piece} {φ : Formula} {ops : List Operation}
  {links : List Formula.Link}

theorem Piece.operand?_shared (hpieces : ∀ p ∈ pieces, p.IsShared)
    (h : operand? pieces = some (φ, rest)) : φ.IsShared ∧ ∀ p ∈ rest, p.IsShared := by
  unfold operand? at h
  split at h
  · next start _ _ ψ _ =>
    obtain ⟨rfl, rfl⟩ := Prod.mk.inj (Option.some.inj h)
    obtain ⟨_, hpieces⟩ := List.forall_mem_cons.mp hpieces
    obtain ⟨hoperand, hrest⟩ := List.forall_mem_cons.mp hpieces
    exact ⟨(hoperand.formula ψ rfl : ψ.IsShared), hrest⟩
  · obtain ⟨rfl, rfl⟩ := Prod.mk.inj (Option.some.inj h)
    obtain ⟨hoperand, hrest⟩ := List.forall_mem_cons.mp hpieces
    exact ⟨hoperand.formula _ rfl, hrest⟩
  · cases h

theorem Piece.links?_shared (hpieces : ∀ p ∈ pieces, p.IsShared)
    (h : links? ops pieces = some links) :
    ∀ link ∈ links, link.op ∈ Operation.shared ∧ link.operand.IsShared := by
  fun_induction links? ops pieces generalizing links with
  | case1 =>
    cases h
    exact fun link hlink => by cases hlink
  | case2 op _ _ _ _ _ _ ψ _ _ ih =>
    obtain ⟨more, hmore, rfl⟩ := Option.map_eq_some_iff.mp h
    obtain ⟨hoperator, hpieces⟩ := List.forall_mem_cons.mp hpieces
    obtain ⟨_, hpieces⟩ := List.forall_mem_cons.mp hpieces
    obtain ⟨hoperand, hrest⟩ := List.forall_mem_cons.mp hpieces
    exact List.forall_mem_cons.mpr
      ⟨⟨hoperator.operator op rfl, hoperand.formula ψ rfl⟩, ih hrest hmore⟩
  | case3 => cases h
  | case4 op _ _ _ _ ψ _ _ _ ih =>
    obtain ⟨more, hmore, rfl⟩ := Option.map_eq_some_iff.mp h
    obtain ⟨hoperator, hpieces⟩ := List.forall_mem_cons.mp hpieces
    obtain ⟨hoperand, hrest⟩ := List.forall_mem_cons.mp hpieces
    exact List.forall_mem_cons.mpr
      ⟨⟨hoperator.operator op rfl, hoperand.formula ψ rfl⟩, ih hrest hmore⟩
  | case5 => cases h
  | case6 => cases h

theorem Formula.leftFold_shared {first : Formula} (hfirst : first.IsShared)
    (hlinks : ∀ link ∈ links, link.op ∈ Operation.shared ∧ link.operand.IsShared) :
    (leftFold first links).IsShared := by
  induction links generalizing first with
  | nil => exact hfirst
  | cons link links ih =>
    obtain ⟨⟨hop, hoperand⟩, hlinks⟩ := List.forall_mem_cons.mp hlinks
    exact ih ⟨hop, hfirst, hoperand⟩ hlinks

theorem Piece.leftFold?_shared (hpieces : ∀ p ∈ pieces, p.IsShared)
    (h : leftFold? ops pieces = some φ) : φ.IsShared := by
  unfold leftFold? at h
  obtain ⟨⟨first, rest⟩, hfirst, h⟩ := Option.bind_eq_some_iff.mp h
  obtain ⟨links, hlinks, h⟩ := Option.bind_eq_some_iff.mp h
  obtain rfl := Option.some.inj h
  obtain ⟨hshared, hrest⟩ := operand?_shared hpieces hfirst
  exact Formula.leftFold_shared hshared (links?_shared hrest hlinks)

end

/-- A node adds its own step to the formulas of its children. -/
theorem Node.formula?_shared_of_pieces {n : Node} {φ : Formula} (hnode : n.IsShared)
    (hpieces : ∀ p ∈ pieces n.children, p.IsShared) (h : n.formula? = some φ) : φ.IsShared := by
  unfold formula? at h
  split at h
  · exact (hpieces _ List.mem_cons_self).formula φ h
  · exact Piece.leftFold?_shared hpieces h
  · exact Piece.leftFold?_shared hpieces h
  · cases h
    exact hnode.digits rfl
  · exact (hpieces _ List.mem_cons_self).formula φ h
  · exact absurd rfl hnode.not_call
  · cases h

mutual

theorem Node.formula?_shared (n : Node) (h : ∀ m ∈ n.preorder, m.IsShared) {φ : Formula}
    (hφ : n.formula? = some φ) : φ.IsShared := by
  obtain ⟨rule, text, start, stop, children⟩ := n
  obtain ⟨hnode, hchildren⟩ := List.forall_mem_cons.mp h
  exact formula?_shared_of_pieces hnode (pieces_shared children hchildren) hφ

theorem Node.pieces_shared (ns : List Node) (h : ∀ m ∈ preorders ns, m.IsShared) :
    ∀ p ∈ pieces ns, p.IsShared := by
  match ns with
  | [] => exact fun p hp => by cases hp
  | n :: ns =>
    obtain ⟨hn, hns⟩ := List.forall_mem_append.mp h
    have hpiece : Piece.IsShared ⟨n.rule, n.start, n.formula?⟩ :=
      ⟨(hn n n.mem_preorder_self).operator, fun φ hφ => formula?_shared n hn hφ⟩
    exact List.forall_mem_cons.mpr ⟨hpiece, pieces_shared ns hns⟩

end

/-! ## Texts -/

/-- A literal without a point, a parenthesis, a minus sign or an operator that
both modes share. -/
structure Lexeme.IsShared (x : Lexeme) : Prop where
  label : x.label ∈ [.number, .unaryMinus, .openParen, .closeParen] ++
    Operation.shared.map Label.operator
  not_point : '.' ∉ x.text

/-- A text of shared lexemes and blanks. -/
def Text.IsShared (t : Text) : Prop :=
  ∃ xs, Text.Layout xs t ∧ ∀ x ∈ xs, x.IsShared

/-- The characters of shared lexemes.  A lexeme of any other kind has another
character, too. -/
def Text.sharedCharacters : Text :=
  digits ++ ['(', ')', '-', '+', '*', '%', 'm', 'o', 'd']

theorem Lexeme.IsShared.mem {x : Lexeme} (h : x.IsShared) {c : Char} (hc : c ∈ x.text) :
    c ∈ Text.sharedCharacters := by
  obtain ⟨label, text, spelled⟩ := x
  obtain ⟨hlabel, hpoint⟩ := h
  dsimp only at hlabel hpoint hc
  cases label with
  | number =>
    rcases Text.IsNumeral.mem spelled hc with hdigit | rfl
    · exact List.mem_append_left _ (Text.mem_digits hdigit)
    · exact absurd hc hpoint
  | unaryMinus | openParen | closeParen =>
    cases spelled
    rw [List.mem_singleton.mp hc]
    decide
  | operator op =>
    have hall : ∀ op ∈ Operation.shared, ∀ s ∈ op.spellings,
        (s.all fun c => Text.sharedCharacters.contains c) = true := by
      decide
    have hop : op ∈ Operation.shared := by simpa using hlabel
    exact List.contains_iff_mem.mp (List.all_eq_true.mp (hall op hop text spelled) c hc)
  | functionName | endOfInput => simp at hlabel

theorem Lexeme.isShared_of_mem {x : Lexeme} (h : ∀ c ∈ x.text, c ∈ Text.sharedCharacters) :
    x.IsShared := by
  refine ⟨?_, fun hpoint => absurd (h _ hpoint) (by decide)⟩
  have hcontains : (x.text.all fun c => Text.sharedCharacters.contains c) = true :=
    List.all_eq_true.mpr fun c hc => List.contains_iff_mem.mpr (h c hc)
  obtain ⟨label, text, spelled⟩ := x
  cases label with
  | number | unaryMinus | openParen | closeParen => simp
  | operator op =>
    have hall : ∀ op ∈ Operation.all, ∀ s ∈ op.spellings,
        (s.all fun c => Text.sharedCharacters.contains c) = true → op ∈ Operation.shared := by
      decide
    exact List.mem_append_right _
      (List.mem_map_of_mem (hall op (Operation.mem_all op) text spelled hcontains))
  | functionName =>
    obtain ⟨f, rfl⟩ := spelled
    have hnone : (f.name.all fun c => Text.sharedCharacters.contains c) = false := by
      cases f <;> decide
    cases hnone.symm.trans hcontains
  | endOfInput => exact spelled.elim

/-- However a shared text is taken apart, the lexemes are shared. -/
theorem Text.IsShared.lexemes {t : Text} {xs : List Lexeme} (ht : t.IsShared)
    (h : Text.Layout xs t) : ∀ x ∈ xs, x.IsShared := by
  obtain ⟨ys, hys, hshared⟩ := ht
  refine fun x hx => Lexeme.isShared_of_mem fun c hc => ?_
  rcases hys.mem (h.subset hx hc) with hblank | ⟨y, hy, hcy⟩
  · rw [x.spelled.isBlank_eq_false hc] at hblank
    cases hblank
  · exact (hshared y hy).mem hcy

namespace Node.IsShared

variable {n : Node}

theorem of_number (h : n.rule = .number) (hdigits : Text.IsDigits n.text) : n.IsShared where
  digits _ := hdigits
  operator op hop := by simp [h] at hop
  not_call := by simp [h]

theorem of_operator {op : Operation} (h : n.rule = .operator op) (hop : op ∈ Operation.shared) :
    n.IsShared where
  digits hnumber := by simp [h] at hnumber
  operator op' hop' := Rule.operator.inj (h.symm.trans hop') ▸ hop
  not_call := by simp [h]

theorem of_rule (h : n.rule ∈ [.group, .unaryMinus, .expression, .term, .equation]) :
    n.IsShared where
  digits hrule := by simp [hrule] at h
  operator op hrule := by simp [hrule] at h
  not_call hrule := by simp [hrule] at h

end Node.IsShared

theorem Spans.shared {room : Nat} {p : Part} {c d : Cursor} {ns : List Node} {xs : List Lexeme}
    (h : Spans room p c ns xs d) (hxs : ∀ x ∈ xs, x.IsShared) :
    ∀ m ∈ Node.preorders ns, m.IsShared := by
  have hnil : ∀ m ∈ Node.preorders [], m.IsShared := List.forall_mem_nil _
  induction h with
  | @number room c d digits hdigits htakes =>
    have htext := Text.IsNumeral.isDigits hdigits (hxs _ List.mem_cons_self).not_point
    have hnode : (c.skipBlanks.node .number d []).IsShared :=
      .of_number rfl (by rwa [Cursor.node, htakes.take_rest])
    exact Node.forall_mem_preorders_cons.mpr ⟨hnode, hnil, hnil⟩
  | group _ _ _ ih =>
    obtain ⟨_, hxs⟩ := List.forall_mem_cons.mp hxs
    obtain ⟨hxs, _⟩ := List.forall_mem_append.mp hxs
    exact Node.forall_mem_preorders_cons.mpr ⟨.of_rule List.mem_cons_self, ih hxs, hnil⟩
  | call f _ _ _ _ _ =>
    have hlabel := (hxs _ List.mem_cons_self).label
    simp at hlabel
  | plain _ ih => exact ih hxs
  | minus _ _ ih =>
    obtain ⟨_, hxs⟩ := List.forall_mem_cons.mp hxs
    exact Node.forall_mem_preorders_cons.mpr ⟨.of_rule (by simp [Cursor.node]), hnil, ih hxs⟩
  | done l => exact hnil
  | more hop hs _ _ _ ihfirst ihtail =>
    obtain ⟨hx, hxs⟩ := List.forall_mem_cons.mp hxs
    obtain ⟨hfirst, htail⟩ := List.forall_mem_append.mp hxs
    have hshared := hx.label
    refine Node.forall_mem_preorders_cons.mpr
      ⟨.of_operator rfl (by simpa using hshared), hnil, ?_⟩
    rw [Node.preorders_append]
    exact List.forall_mem_append.mpr ⟨ihfirst hfirst, ihtail htail⟩
  | @row room l c c₁ d ns ms xs ys _ _ ihfirst ihtail =>
    obtain ⟨hfirst, htail⟩ := List.forall_mem_append.mp hxs
    refine Node.forall_mem_preorders_cons.mpr
      ⟨.of_rule (by cases l <;> simp [Cursor.node, Layer.rule]), ?_, hnil⟩
    show ∀ m ∈ Node.preorders (ns ++ ms), m.IsShared
    rw [Node.preorders_append]
    exact List.forall_mem_append.mpr ⟨ihfirst hfirst, ihtail htail⟩

/-! ## Evaluations -/

theorem Recognized.formula_shared {limit : Int} {t : Text} {root : Node} {φ : Formula}
    (h : Recognized limit t (.ok root)) (ht : t.IsShared) (hφ : root.formula? = some φ) :
    φ.IsShared := by
  cases h with
  | @tree e xs d hspans hrun hrest =>
    obtain ⟨t', htext, _, hlayout⟩ := hrun.layout
    obtain rfl : t = t' := by simpa [Cursor.ofText, hrest] using htext
    refine Node.formula?_shared _ ?_ hφ
    rw [Node.preorder_eq]
    exact List.forall_mem_cons.mpr ⟨.of_rule (by simp), hspans.shared (ht.lexemes hlayout)⟩

/-- Where an expression of shared lexemes has an integer value, it has the same
number as its value on floats. -/
theorem evaluate_float_of_int32 (settings : Settings) {t : Text} {n : Int} (ht : t.IsShared)
    (h : Calculator.evaluate { settings with mode := .int32 } t = .ok (.int n)) :
    ∃ x, Calculator.evaluate { settings with mode := .float } t = .ok (.float x) ∧
      value? x = some (n : ℚ) := by
  obtain ⟨root, hroot, hint⟩ := exists_of_bind_eq_ok h
  obtain ⟨m, hm, heq⟩ := exists_of_map_eq_ok hint
  obtain rfl := Value.int.inj heq
  have hrecognized := hroot ▸ recognized settings.maxDepth t
  -- The formula of a tree does not depend on the arithmetic.
  obtain ⟨φ, hφ, _, hvalue⟩ := hrecognized.formula (integral settings.unit)
  obtain ⟨φ', hφ', _, hvalue'⟩ := hrecognized.formula (floating settings.unit)
  obtain rfl := Option.some.inj (hφ.symm.trans hφ')
  obtain ⟨x, hx, hwhole⟩ :=
    Formula.value_shared (hrecognized.formula_shared ht hφ) (hvalue.symm.trans hm)
  refine ⟨x, ?_, hwhole.value?_eq⟩
  rw [@evaluate_of_recognize { settings with mode := .float } _ _ hroot]
  exact congrArg (Value.float <$> ·) (hvalue'.trans hx)

/-- The remainder of `-7 mod 4` has the sign of the seven in both modes. -/
theorem evaluate_minus_seven_mod_four :
    Calculator.evaluate { mode := .int32 } "-7 mod 4".toList = .ok (.int (-3)) ∧
      ∃ x, Calculator.evaluate { mode := .float } "-7 mod 4".toList = .ok (.float x) ∧
        value? x = some (-3) := by
  have hblank : Text.IsGap [' '] := Text.isGap_singleton rfl
  have hseven : Text.IsNumeral ['7'] := .whole (Text.isDigits_singleton rfl)
  have hfour : Text.IsNumeral ['4'] := .whole (Text.isDigits_singleton rfl)
  have hlayout : Text.Layout [.unaryMinus, .number ['7'] hseven,
      .operator .modulo ['m', 'o', 'd'] (by decide), .number ['4'] hfour] "-7 mod 4".toList :=
    .next Text.isGap_nil (.next Text.isGap_nil (.next hblank (.next hblank (.done Text.isGap_nil))))
  have hshared : Text.IsShared "-7 mod 4".toList := by
    refine ⟨_, hlayout, ?_⟩
    have hall : ([['-'], ['7'], ['m', 'o', 'd'], ['4']].all fun s =>
        s.all fun c => Text.sharedCharacters.contains c) = true := by
      decide
    refine fun x hx => Lexeme.isShared_of_mem fun c hc => ?_
    have htext := List.all_eq_true.mp hall x.text (List.mem_map_of_mem hx)
    exact List.contains_iff_mem.mp (List.all_eq_true.mp htext c hc)
  have hnumber : Calculator.number { mode := .int32 } "-7 mod 4".toList = .ok (-3 : Int) := by
    decide +kernel
  have hint : Calculator.evaluate { mode := .int32 } "-7 mod 4".toList = .ok (.int (-3)) :=
    (Calculator.evaluate_eq_value_number { mode := .int32 } _).trans (congrArg _ hnumber)
  exact ⟨hint, by simpa using evaluate_float_of_int32 {} hshared hint⟩

end Reckon
