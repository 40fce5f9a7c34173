/-
The evaluator computes what a tree means.

By induction on a span: every node that the recognizer makes has a formula, and
reducing the node takes the steps of the formula in their order.  The operators
of a row are of one tier, so climbing the row folds it from the left.
-/
import Reckon.Proofs.Climbing
import Reckon.Proofs.Formula
import Reckon.Proofs.Recognition

namespace Reckon

open Evaluation

/-! ## Operands and links -/

section

variable {α : Type} {A : Arithmetic α} {length : Nat}

structure Node.Means (A : Arithmetic α) (length : Nat) (n : Node) (φ : Formula) : Prop where
  formula : n.formula? = some φ
  value : reduce A n = φ.value A
  within : φ.Within length
  not_minus : n.rule ≠ .unaryMinus

/-- The nodes of one operand, with the minus sign before it, have the value of a
formula, whatever follows them in the row. -/
structure OperandMeans (A : Arithmetic α) (length : Nat) (ns : List Node) (φ : Formula) : Prop where
  reads : ∀ rest, Piece.operand? (Node.pieces ns ++ rest) = some (φ, rest)
  value : ∀ rest, operand A (items A ns ++ rest) = (φ.value A).map fun x => (x, rest)
  within : φ.Within length
  alone : ∀ n, ns = [n] → reduce A n = φ.value A
  ne_nil : ns ≠ []

/-- The operators and operands after the first operand of a row fold. -/
structure LinksMean (A : Arithmetic α) (length : Nat) (l : Layer) (ns : List Node)
    (links : List Formula.Link) : Prop where
  reads : Piece.links? l.operators (Node.pieces ns) = some links
  value : ∀ x, climbOn A Operation.loosestTier x (items A ns) =
    (Formula.foldValue A x links).map fun y => (y, [])
  within : ∀ link ∈ links, link.start < length ∧ link.operand.Within length
  stops : ∀ op ∈ l.operators, Stops op.rightTier (items A ns)
  nil : ns = [] → links = []

theorem Node.Means.operand {n : Node} {φ : Formula} (h : n.Means A length φ) :
    OperandMeans A length [n] φ where
  reads rest := by
    have hrule := h.not_minus
    simp only [pieces, h.formula, List.cons_append, List.nil_append]
    unfold Piece.operand?
    split
    · next heq => exact absurd (congrArg Piece.rule (List.cons.inj heq).1) hrule
    · next heq => cases heq; rfl
    · next hno => exact (hno _ _ _ _ rfl).elim
  value rest := by
    simp only [items, List.cons_append, List.nil_append, Evaluation.operand, if_neg h.not_minus,
      h.value]
    cases φ.value A <;> rfl
  within := h.within
  alone := by
    intro m hm
    cases hm
    exact h.value
  ne_nil := List.cons_ne_nil _ _

theorem Node.Means.minus {m n : Node} {φ : Formula} (h : n.Means A length φ)
    (hm : m.rule = .unaryMinus) (hstart : m.start < length) :
    OperandMeans A length [m, n] (.negation m.start φ) where
  reads rest := by simp [pieces, h.formula, hm, Piece.operand?]
  value rest := by
    have hoperand := h.operand.value rest
    simp only [items, List.cons_append, List.nil_append] at hoperand ⊢
    rw [Evaluation.operand, if_pos hm, hoperand, Formula.value]
    cases φ.value A with
    | error fault => rfl
    | ok x => simp only [Except.map, bind, Except.bind]
  within := ⟨hstart, h.within⟩
  alone _ hnode := by cases hnode
  ne_nil := List.cons_ne_nil _ _

theorem LinksMean.done (l : Layer) : LinksMean A length l [] [] where
  reads := by simp [Node.pieces, Piece.links?]
  value x := by
    rw [items, climbOn_of_stops (stops_nil _)]
    rfl
  within _ h := by cases h
  stops op _ := by
    rw [items]
    exact stops_nil _
  nil _ := rfl

theorem Layer.tier_eq {l : Layer} {op op' : Operation} (h : op ∈ l.operators)
    (h' : op' ∈ l.operators) : op.tier = op'.tier := by
  have hall : ∀ l ∈ [Layer.term, .expression], ∀ op ∈ l.operators, ∀ op' ∈ l.operators,
      op.tier = op'.tier := by
    decide
  exact hall l (by cases l <;> decide) op h op' h'

theorem LinksMean.more {l : Layer} {m : Node} {ns ms : List Node} {op : Operation} {φ : Formula}
    {links : List Formula.Link} (hop : op ∈ l.operators) (hm : m.rule = .operator op)
    (hstart : m.start < length) (hfirst : OperandMeans A length ns φ)
    (htail : LinksMean A length l ms links) :
    LinksMean A length l (m :: (ns ++ ms)) (⟨op, m.start, φ⟩ :: links) where
  reads := by
    rw [Node.pieces, Node.pieces_append, hm, Piece.links?_operator hop (hfirst.reads _),
      htail.reads]
    rfl
  value x := by
    rw [items, items_append, climbOn_link hm op.loosestTier_le (hfirst.value _)
      (htail.stops op hop), Formula.foldValue]
    cases φ.value A with
    | error fault => rfl
    | ok y =>
      simp only [bind, Except.bind]
      cases place m.start (A.apply op x y) with
      | error fault => rfl
      | ok z => exact htail.value z
  within link h := by
    rcases List.mem_cons.mp h with rfl | h
    · exact ⟨hstart, hfirst.within⟩
    · exact htail.within link h
  stops op' hop' := by
    intro item rest heq
    rw [items] at heq
    obtain ⟨rfl, _⟩ := List.cons.inj heq
    refine ⟨op, hm, ?_⟩
    rw [Layer.tier_eq hop hop']
    exact op'.tier_lt_rightTier
  nil h := by cases h

/-! ## Rows -/

theorem formula?_row (l : Layer) (start : Cursor) (stop : Cursor) (children : List Node) :
    (start.node l.rule stop children).formula? =
      Piece.leftFold? l.operators (Node.pieces children) := by
  cases l <;> simp [Cursor.node, Layer.rule, Layer.operators, Node.formula?]

theorem Layer.isRow (l : Layer) (start stop : Cursor) (children : List Node) :
    (start.node l.rule stop children).IsRow := by
  cases l with
  | term => exact .inr rfl
  | expression => exact .inl rfl

theorem Node.Means.row {l : Layer} {start stop : Cursor} {ns ms : List Node} {φ : Formula}
    {links : List Formula.Link} (hfirst : OperandMeans A length ns φ)
    (htail : LinksMean A length l ms links) :
    (start.node l.rule stop (ns ++ ms)).Means A length (φ.leftFold links) where
  formula := by
    rw [formula?_row, Piece.leftFold?, Node.pieces_append, hfirst.reads]
    simp [htail.reads]
  value := by
    by_cases halone : ∃ n, ns ++ ms = [n]
    · obtain ⟨n, hn⟩ := halone
      obtain ⟨rfl, rfl⟩ : ns = [n] ∧ ms = [] := by
        rcases List.append_eq_singleton_iff.mp hn with ⟨hns, _⟩ | h
        · exact absurd hns hfirst.ne_nil
        · exact h
      -- A single operand is stepped through without climbing.
      rw [htail.nil rfl, hn, reduce_single (l.isRow _ _ _) rfl]
      exact hfirst.alone n rfl
    · have hrow : (start.node l.rule stop (ns ++ ms)).IsRow := l.isRow _ _ _
      rw [reduce_row hrow fun n hn => halone ⟨n, hn⟩, Evaluation.row, climb_eq, Cursor.node,
        items_append, hfirst.value, Formula.value_leftFold]
      cases φ.value A with
      | error fault => rfl
      | ok x =>
        simp only [Except.map, bind, Except.bind, htail.value]
        cases Formula.foldValue A x links <;> rfl
  within := Formula.within_leftFold hfirst.within htail.within
  not_minus := by cases l <;> simp [Cursor.node, Layer.rule]

/-! ## Spans -/

def Part.Means (A : Arithmetic α) (length : Nat) : Part → List Node → Prop
  | .primary, ns => ∃ n φ, ns = [n] ∧ n.Means A length φ
  | .unary, ns => ∃ φ, OperandMeans A length ns φ
  | .tail l, ns => ∃ links, LinksMean A length l ns links
  | .row l, ns => ∃ n φ, ns = [n] ∧ n.Means A length φ ∧ n.rule = l.rule

theorem Layer.operandMeans {l : Layer} {ns : List Node} (h : l.operand.Means A length ns) :
    ∃ φ, OperandMeans A length ns φ := by
  cases l with
  | term => exact h
  | expression =>
    obtain ⟨n, φ, rfl, hn, _⟩ := h
    exact ⟨φ, hn.operand⟩

/-- Every node that is made has a formula, and its value. -/
theorem Spans.means {room : Nat} {p : Part} {c d : Cursor} {ns : List Node} {xs : List Lexeme}
    (h : Spans room p c ns xs d) (A : Arithmetic α) : p.Means A c.total ns := by
  induction h with
  | @number room c d digits hdigits htakes =>
    have hstart := htakes.start_lt (Label.Spells.ne_nil (l := .number) hdigits)
    refine ⟨_, .literal c.skipBlanks.pos digits, rfl, ?_, ?_, ⟨hstart, hdigits⟩,
      by simp [Cursor.node]⟩
    · simp [Cursor.node, Node.formula?, htakes.take_rest]
    · simp [Cursor.node, reduce, htakes.take_rest, Formula.value]
  | @group room c c₁ c₂ d body xs hopen _ _ ih =>
    obtain ⟨n, φ, hn, hmeans, hrule⟩ := ih
    obtain rfl := List.singleton_inj.mp hn
    rw [hopen.total] at hmeans
    refine ⟨_, φ, rfl, ?_, ?_, hmeans.within, by simp [Cursor.node]⟩
    · simp [Cursor.node, Node.formula?, hmeans.formula]
    · simp [Cursor.node, reduce, hrule, Layer.rule, hmeans.value]
  | @call room c c₁ c₂ c₃ d body xs f hname hopen _ _ ih =>
    obtain ⟨n, φ, hn, hmeans, hrule⟩ := ih
    obtain rfl := List.singleton_inj.mp hn
    rw [hopen.total, hname.total] at hmeans
    have hstart := hname.start_lt (Token.name_ne_nil f)
    refine ⟨_, .call f c.skipBlanks.pos φ, rfl, ?_, ?_, ⟨hstart, hmeans.within⟩,
      by simp [Cursor.node]⟩
    · simp [Cursor.node, Node.formula?, hmeans.formula, hname.take_rest, Function.ofName?_name]
    · simp [Cursor.node, reduce, hrule, Layer.rule, hmeans.value, hname.take_rest, function,
        Function.ofName?_name, Formula.value, bind, Except.bind]
  | plain _ ih =>
    obtain ⟨n, φ, rfl, hmeans⟩ := ih
    exact ⟨φ, hmeans.operand⟩
  | minus hminus _ ih =>
    obtain ⟨n, φ, rfl, hmeans⟩ := ih
    rw [hminus.total] at hmeans
    exact ⟨_, hmeans.minus rfl (hminus.start_lt (by simp))⟩
  | done l => exact ⟨[], .done l⟩
  | @more room l op spelling c c₁ c₂ d ns ms xs ys hop hs hsign hfirst _ ihfirst ihtail =>
    obtain ⟨φ, hoperand⟩ := Layer.operandMeans ihfirst
    obtain ⟨links, hlinks⟩ := ihtail
    rw [hfirst.total, hsign.total] at hlinks
    rw [hsign.total] at hoperand
    exact ⟨_, .more hop rfl (hsign.start_lt (Operation.spellings_ne_nil hs)) hoperand hlinks⟩
  | @row room l c c₁ d ns ms xs ys hfirst _ ihfirst ihtail =>
    obtain ⟨φ, hoperand⟩ := Layer.operandMeans ihfirst
    obtain ⟨links, hlinks⟩ := ihtail
    rw [hfirst.total, c.total_skipBlanks] at hlinks
    rw [c.total_skipBlanks] at hoperand
    exact ⟨_, _, rfl, .row hoperand hlinks, rfl⟩

end

/-! ## Recognized trees -/

/-- A recognized tree has a formula, of steps within the text, and evaluating
the tree takes these steps. -/
theorem Recognized.formula {limit : Int} {t : Text} {root : Node}
    (h : Recognized limit t (.ok root)) {α : Type} (A : Arithmetic α) :
    ∃ φ, root.formula? = some φ ∧ φ.Within t.length ∧
      Evaluation.evaluate A root = φ.value A := by
  cases h with
  | @tree e xs d hspans _ _ =>
    obtain ⟨n, φ, hn, hmeans, _⟩ := hspans.means A
    obtain rfl := List.singleton_inj.mp hn
    have hwithin := hmeans.within
    simp only [Cursor.total, Cursor.ofText, Nat.zero_add] at hwithin
    exact ⟨φ, by simp [Node.formula?, hmeans.formula], hwithin, hmeans.value⟩

end Reckon
