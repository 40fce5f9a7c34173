/-
The literals of an expression, from left to right.

A formula has its literals in the order in which they are evaluated, and a text
has its number tokens in the order in which they are written.  The two orders
are the same: climbing, groups, signs and calls never take an operand before one
that stands to its left.
-/
import Reckon.Arithmetic.Floating
import Reckon.Proofs.Culprit
import Reckon.Proofs.Meaning
import Reckon.Proofs.Placement

namespace Reckon

/-! ## The literals of a formula -/

namespace Formula

/-- The literals with their places, in the order in which they are evaluated. -/
def literals : Formula → List (Nat × Text)
  | literal start text => [(start, text)]
  | negation _ operand => operand.literals
  | operation _ _ left right => left.literals ++ right.literals
  | call _ _ argument => argument.literals

theorem literals_leftFold (first : Formula) (links : List Link) :
    (leftFold first links).literals =
      first.literals ++ links.flatMap fun link => link.operand.literals := by
  induction links generalizing first with
  | nil => exact (List.append_nil _).symm
  | cons link links ih =>
    have hfold : leftFold first (link :: links) =
      leftFold (operation link.op link.start first link.operand) links := rfl
    rw [hfold, ih, literals, List.flatMap_cons, List.append_assoc]

end Formula

/-! ## The number tokens of a text -/

namespace Cursor

/-- Where lexemes that are read one after another end. -/
def pass (c : Cursor) (xs : List Lexeme) : Cursor :=
  xs.foldl (fun c x => c.skipBlanks.advance x.text.length) c

/-- The number tokens among lexemes that are read one after another, with their
places. -/
def numerals (c : Cursor) : List Lexeme → List (Nat × Text)
  | [] => []
  | x :: xs =>
    let start := c.skipBlanks
    let more := (start.advance x.text.length).numerals xs
    if x.label = .number then (start.pos, x.text) :: more else more

variable {c d : Cursor} {x : Lexeme} {xs ys : List Lexeme}

theorem pass_append : c.pass (xs ++ ys) = (c.pass xs).pass ys :=
  List.foldl_append

theorem Takes.pass_cons (h : c.Takes x.text d) : c.pass (x :: xs) = d.pass xs := by
  rw [h.2]
  rfl

theorem Takes.numerals_cons (h : c.Takes x.text d) :
    c.numerals (x :: xs) =
      if x.label = .number then (c.skipBlanks.pos, x.text) :: d.numerals xs
      else d.numerals xs := by
  rw [h.2]
  rfl

theorem numerals_gap (pos : Nat) {gap : Text} (hgap : Text.IsGap gap) (x : Lexeme) (rest : Text)
    (xs : List Lexeme) :
    ({ pos, rest := gap ++ x.text ++ rest } : Cursor).numerals (x :: xs) =
      if x.label = .number then (pos + gap.length, x.text) ::
        ({ pos := pos + gap.length + x.text.length, rest } : Cursor).numerals xs
      else ({ pos := pos + gap.length + x.text.length, rest } : Cursor).numerals xs := by
  rw [numerals, skipBlanks_of_lexeme pos hgap x rest]
  simp [advance]

theorem numerals_append : c.numerals (xs ++ ys) = c.numerals xs ++ (c.pass xs).numerals ys := by
  induction xs generalizing c with
  | nil => rfl
  | cons x xs ih =>
    rw [List.cons_append, numerals, numerals, ih]
    split <;> rfl

theorem numerals_skipBlanks (c : Cursor) (xs : List Lexeme) :
    c.skipBlanks.numerals xs = c.numerals xs := by
  cases xs <;> simp [numerals]

theorem pass_skipBlanks (hxs : xs ≠ []) : c.skipBlanks.pass xs = c.pass xs := by
  cases xs with
  | nil => exact absurd rfl hxs
  | cons x xs => simp [pass]

theorem le_of_mem_numerals {l : Nat × Text} (h : l ∈ c.numerals xs) : c.pos ≤ l.1 := by
  induction xs generalizing c with
  | nil => cases h
  | cons x xs ih =>
    have hskip := c.pos_le_pos_skipBlanks
    have hmore : l ∈ (c.skipBlanks.advance x.text.length).numerals xs →
        c.skipBlanks.pos + x.text.length ≤ l.1 := ih
    rw [numerals] at h
    split at h
    · rcases List.mem_cons.mp h with rfl | h
      · exact hskip
      · have := hmore h
        omega
    · have := hmore h
      omega

theorem numerals_pairwise (c : Cursor) (xs : List Lexeme) :
    (c.numerals xs).Pairwise fun l l' => l.1 < l'.1 := by
  induction xs generalizing c with
  | nil => exact .nil
  | cons x xs ih =>
    rw [numerals]
    split
    · refine .cons (fun l h => ?_) (ih _)
      have hpos : 0 < x.text.length := List.length_pos_iff.mpr x.spelled.ne_nil
      have hle : c.skipBlanks.pos + x.text.length ≤ l.1 := le_of_mem_numerals h
      show c.skipBlanks.pos < l.1
      omega
    · exact ih _

end Cursor

namespace Text

/-- Among the lexemes of a layout there is a number token at an offset. -/
def NumeralAt (xs : List Lexeme) (t digits : Text) (p : Nat) : Prop :=
  ∃ (before after : List Lexeme) (x : Lexeme) (u v : Text),
    xs = before ++ x :: after ∧ Layout before u ∧ Layout after v ∧ t = u ++ x.text ++ v ∧
      u.length = p ∧ x.label = .number ∧ x.text = digits

/-- A number token of an expression begins at an offset. -/
def HasNumeralAt (t digits : Text) (p : Nat) : Prop :=
  ∃ (tree : Tree) (xs : List Lexeme), tree.IsDerivation xs ∧ NumeralAt xs t digits p

variable {xs : List Lexeme} {t digits : Text} {p : Nat}

theorem NumeralAt.cons {gap : Text} (h : NumeralAt xs t digits p) (hgap : IsGap gap)
    (x : Lexeme) :
    NumeralAt (x :: xs) (gap ++ x.text ++ t) digits (gap.length + x.text.length + p) := by
  obtain ⟨before, after, y, u, v, rfl, hbefore, hafter, rfl, rfl, hy, hdigits⟩ := h
  refine ⟨x :: before, after, y, gap ++ x.text ++ u, v, rfl, .next hgap hbefore, hafter, ?_, ?_,
    hy, hdigits⟩
  · simp only [List.append_assoc]
  · simp only [List.length_append]

theorem NumeralAt.layout (h : NumeralAt xs t digits p) : Layout xs t := by
  obtain ⟨before, after, x, u, v, rfl, hbefore, hafter, rfl, _⟩ := h
  have hlayout := hbefore.append ((Layout.single x).append hafter)
  rwa [List.singleton_append, ← List.append_assoc] at hlayout

theorem Layout.numeralAt_of_mem {pos : Nat} (h : Layout xs t)
    (hmem : (p, digits) ∈ ({ pos, rest := t } : Cursor).numerals xs) :
    ∃ q, p = pos + q ∧ NumeralAt xs t digits q := by
  induction h generalizing pos with
  | done _ => cases hmem
  | @next gap rest x xs hgap hlayout ih =>
    have hlater :
        (p, digits) ∈ ({ pos := pos + gap.length + x.text.length, rest } : Cursor).numerals xs →
          ∃ q, p = pos + q ∧ NumeralAt (x :: xs) (gap ++ x.text ++ rest) digits q := by
      intro hmem
      obtain ⟨q, rfl, hq⟩ := ih hmem
      exact ⟨gap.length + x.text.length + q, by omega, hq.cons hgap x⟩
    rw [Cursor.numerals_gap pos hgap] at hmem
    split at hmem
    · next hx =>
      rcases List.mem_cons.mp hmem with heq | hmem
      · obtain ⟨rfl, rfl⟩ := Prod.mk.inj heq
        exact ⟨_, rfl, [], xs, x, gap, rest, rfl, .done hgap, hlayout, rfl, rfl, hx, rfl⟩
      · exact hlater hmem
    · exact hlater hmem

theorem NumeralAt.mem_numerals (h : NumeralAt xs t digits p) (pos : Nat) :
    (pos + p, digits) ∈ ({ pos, rest := t } : Cursor).numerals xs := by
  obtain ⟨before, after, x, u, v, rfl, hbefore, _, rfl, rfl, hx, rfl⟩ := h
  induction hbefore generalizing pos with
  | done hgap =>
    rw [List.nil_append, Cursor.numerals_gap pos hgap, if_pos hx]
    exact List.mem_cons_self
  | @next gap rest y ys hgap _ ih =>
    have hmem := ih (pos + gap.length + y.text.length)
    have hsplit : gap ++ y.text ++ rest ++ x.text ++ v =
        gap ++ y.text ++ (rest ++ x.text ++ v) := by
      simp only [List.append_assoc]
    rw [hsplit, List.cons_append, Cursor.numerals_gap pos hgap]
    simp only [List.length_append, ← Nat.add_assoc]
    split
    · exact List.mem_cons_of_mem _ hmem
    · exact hmem

end Text

theorem Tree.IsDerivation.mem_numerals_iff {tree : Tree} {xs : List Lexeme} {t : Text}
    (hxs : tree.IsDerivation xs) (hlayout : Text.Layout xs t) (digits : Text) (p : Nat) :
    (p, digits) ∈ (Cursor.ofText t).numerals xs ↔ t.HasNumeralAt digits p := by
  refine ⟨fun h => ?_, fun h => ?_⟩
  · obtain ⟨q, rfl, hq⟩ := hlayout.numeralAt_of_mem h
    rw [Nat.zero_add]
    exact ⟨tree, xs, hxs, hq⟩
  · obtain ⟨tree', ys, hys, hp⟩ := h
    obtain ⟨_, rfl⟩ := hxs.unique_of_layout hlayout hys hp.layout
    have hmem := hp.mem_numerals 0
    rwa [Nat.zero_add] at hmem

/-! ## Where the lexemes of a span lie -/

theorem Derives.lexemes_ne_nil {p : Part} {ts : List Tree} {xs : List Lexeme}
    (h : Derives p ts xs) (hp : ∀ l, p ≠ .tail l) : xs ≠ [] := by
  induction h with
  | number _ | group _ _ | call _ _ _ | minus _ _ => exact List.cons_ne_nil _ _
  | plain _ ih => exact ih (by simp)
  | done l | @more l _ _ _ _ _ _ _ _ _ _ _ _ => exact absurd rfl (hp l)
  | @row l _ _ _ _ _ _ ihfirst _ =>
    exact List.append_ne_nil_of_left_ne_nil (ihfirst (by cases l <;> simp [Layer.operand])) _

theorem Spans.pass {room : Nat} {p : Part} {c d : Cursor} {ns : List Node} {xs : List Lexeme}
    (h : Spans room p c ns xs d) : c.pass xs = d := by
  induction h with
  | number hdigits htakes => exact htakes.pass_cons (x := .number _ hdigits)
  | group hopen _ hclose ih =>
    rw [hopen.pass_cons (x := .openParen), Cursor.pass_append, ih,
      hclose.pass_cons (x := .closeParen)]
    rfl
  | call f hname hopen _ hclose ih =>
    rw [hname.pass_cons (x := .functionName f), hopen.pass_cons (x := .openParen),
      Cursor.pass_append, ih, hclose.pass_cons (x := .closeParen)]
    rfl
  | plain _ ih => exact ih
  | minus hminus _ ih => rw [hminus.pass_cons (x := .unaryMinus), ih]
  | done => rfl
  | more _ hs hsign _ _ ihfirst ihtail =>
    rw [hsign.pass_cons (x := .operator _ _ hs), Cursor.pass_append, ihfirst, ihtail]
  | @row _ l _ _ _ _ _ _ _ hfirst _ ihfirst ihtail =>
    have hne := hfirst.derives.lexemes_ne_nil (by cases l <;> simp [Layer.operand])
    rw [Cursor.pass_append, ← Cursor.pass_skipBlanks hne, ihfirst, ihtail]

/-! ## Literals are number tokens -/

/-- The literals of the formulas that the nodes of a part are read as. -/
def Part.literals? : Part → List Node → Option (List (Nat × Text))
  | .tail l, ns => (Piece.links? l.operators (Node.pieces ns)).map fun links =>
      links.flatMap fun link => link.operand.literals
  | _, ns => (Piece.operand? (Node.pieces ns)).map fun operand => operand.1.literals

theorem Part.literals?_single {p : Part} {n : Node} {φ : Formula} (hp : ∀ l, p ≠ .tail l)
    (h : n.formula? = some φ) : p.literals? [n] = some φ.literals := by
  have hreads : Piece.operand? (Node.pieces [n]) = some (φ, []) := by
    rw [Node.pieces, Node.pieces, h]
    cases n.rule <;> rfl
  cases p with
  | tail l => exact absurd rfl (hp l)
  | primary | unary | row => simp [literals?, hreads]

section

variable {α : Type} {A : Arithmetic α} {length : Nat} {l : Layer} {ns : List Node}

theorem OperandMeans.literals? {φ : Formula} (h : OperandMeans A length ns φ) :
    l.operand.literals? ns = some φ.literals := by
  have hreads : Piece.operand? (Node.pieces ns) = some (φ, []) := by simpa using h.reads []
  cases l <;> simp [Layer.operand, Part.literals?, hreads]

theorem LinksMean.literals? {links : List Formula.Link} (h : LinksMean A length l ns links) :
    (Part.tail l).literals? ns = some (links.flatMap fun link => link.operand.literals) := by
  rw [Part.literals?, h.reads]
  rfl

end

/-- The literals of what is read are its number tokens, in their order. -/
theorem Spans.literals {room : Nat} {p : Part} {c d : Cursor} {ns : List Node} {xs : List Lexeme}
    (h : Spans room p c ns xs d) : p.literals? ns = some (c.numerals xs) := by
  -- That the nodes have formulas is known from any arithmetic.
  have A := floating .radians
  induction h with
  | @number room c d digits hdigits htakes =>
    have hformula : (c.skipBlanks.node .number d []).formula? =
        some (.literal c.skipBlanks.pos digits) := by
      simp [Cursor.node, Node.formula?, htakes.take_rest]
    rw [Part.literals?_single (by simp) hformula, htakes.numerals_cons (x := .number _ hdigits)]
    rfl
  | @group room c c₁ c₂ d body xs hopen hbody hclose ih =>
    obtain ⟨n, φ, hn, hmeans, _⟩ := hbody.means A
    obtain rfl := List.singleton_inj.mp hn
    have hformula : (c.skipBlanks.node .group d [body]).formula? = some φ := by
      simp [Cursor.node, Node.formula?, hmeans.formula]
    rw [Part.literals?_single (by simp) hmeans.formula] at ih
    rw [Part.literals?_single (by simp) hformula, ih, hopen.numerals_cons (x := .openParen),
      Cursor.numerals_append, hbody.pass, hclose.numerals_cons (x := .closeParen)]
    simp [Cursor.numerals]
  | @call room c c₁ c₂ c₃ d body xs f hname hopen hbody hclose ih =>
    obtain ⟨n, φ, hn, hmeans, _⟩ := hbody.means A
    obtain rfl := List.singleton_inj.mp hn
    have hformula : (c.skipBlanks.node .functionCall d
        [c.skipBlanks.node .functionName c₁ [], body]).formula? =
          some (.call f c.skipBlanks.pos φ) := by
      simp [Cursor.node, Node.formula?, hmeans.formula, hname.take_rest, Function.ofName?_name]
    rw [Part.literals?_single (by simp) hmeans.formula] at ih
    rw [Part.literals?_single (by simp) hformula, Formula.literals, ih,
      hname.numerals_cons (x := .functionName f), hopen.numerals_cons (x := .openParen),
      Cursor.numerals_append, hbody.pass, hclose.numerals_cons (x := .closeParen)]
    simp [Cursor.numerals]
  | plain _ ih => exact ih
  | minus hminus hprimary ih =>
    obtain ⟨n, φ, rfl, hmeans⟩ := hprimary.means A
    rw [Part.literals?_single (by simp) hmeans.formula] at ih
    rw [hminus.numerals_cons (x := .unaryMinus)]
    simpa [Part.literals?, Node.pieces, Cursor.node, hmeans.formula, Piece.operand?,
      Formula.literals] using ih
  | done l => simp [Part.literals?, Node.pieces, Piece.links?, Cursor.numerals]
  | @more room l op spelling c c₁ c₂ d ns ms xs ys hop hs hsign hfirst htail ihfirst ihtail =>
    obtain ⟨φ, hoperand⟩ := Layer.operandMeans (hfirst.means A)
    obtain ⟨links, hlinks⟩ := htail.means A
    rw [hoperand.literals?] at ihfirst
    rw [hlinks.literals?] at ihtail
    rw [hfirst.total, hsign.total] at hlinks
    rw [hsign.total] at hoperand
    have hmore := LinksMean.more (m := c.skipBlanks.node (.operator op) c₁ []) hop rfl
      (hsign.start_lt (Operation.spellings_ne_nil hs)) hoperand hlinks
    rw [hmore.literals?, hsign.numerals_cons (x := .operator _ _ hs), Cursor.numerals_append,
      hfirst.pass, ← Option.some.inj ihfirst, ← Option.some.inj ihtail]
    rfl
  | @row room l c c₁ d ns ms xs ys hfirst htail ihfirst ihtail =>
    obtain ⟨φ, hoperand⟩ := Layer.operandMeans (hfirst.means A)
    obtain ⟨links, hlinks⟩ := htail.means A
    rw [hoperand.literals?] at ihfirst
    rw [hlinks.literals?] at ihtail
    rw [hfirst.total, c.total_skipBlanks] at hlinks
    rw [c.total_skipBlanks] at hoperand
    have hrow : (c.skipBlanks.node l.rule d (ns ++ ms)).Means A c.total
        (φ.leftFold links) := .row hoperand hlinks
    rw [Part.literals?_single (by simp) hrow.formula, Formula.literals_leftFold,
      Option.some.inj ihfirst, Option.some.inj ihtail,
      ← c.numerals_skipBlanks (xs ++ ys), Cursor.numerals_append, hfirst.pass]

theorem Recognized.literals {limit : Int} {t : Text} {root : Node} {φ : Formula}
    (h : Recognized limit t (.ok root)) (hφ : root.formula? = some φ) :
    φ.literals.Pairwise (fun l l' => l.1 < l'.1) ∧
      ∀ digits p, (p, digits) ∈ φ.literals ↔ t.HasNumeralAt digits p := by
  cases h with
  | @tree e xs d hspans hrun hrest =>
    obtain ⟨u, hu, _, hlayout⟩ := hrun.layout
    rw [hrest, List.append_nil] at hu
    obtain rfl : t = u := hu
    have hxs : Tree.IsDerivation (.branch .equation [e.shape]) xs := ⟨_, rfl, hspans.derives⟩
    have hliterals := hspans.literals
    rw [Part.literals?_single (by simp) (by simpa [Node.formula?] using hφ)] at hliterals
    rw [Option.some.inj hliterals]
    exact ⟨Cursor.numerals_pairwise _ _, hxs.mem_numerals_iff hlayout⟩

end Reckon
