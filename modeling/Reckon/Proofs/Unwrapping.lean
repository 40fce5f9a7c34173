/-
Stepping through wrappers.

Groups, and expressions and terms with one child, are stepped through in a loop
before anything else is done.  The same can be had by recursion alone, where a
row of one operand is climbed like any other.  Only a lone minus sign tells the
two apart, and by no more than the wording of the error.
-/
import Reckon.Calculator
import Reckon.Proofs.Alongside

namespace Reckon

open Node

/-! ## The loop -/

namespace Evaluation

variable {α : Type} (A : Arithmetic α)

/-- Step through groups and single children to the first node that is neither. -/
def unwrap : Node → Except Fault Node
  | ⟨.group, _, _, _, [child]⟩ =>
    if child.rule = .expression then unwrap child else .error (.inconsistent (.noHandler .group))
  | ⟨.group, _, _, _, _⟩ => .error (.inconsistent (.noHandler .group))
  | ⟨.expression, _, _, _, [child]⟩ => unwrap child
  | ⟨.term, _, _, _, [child]⟩ => unwrap child
  | n => .ok n

/-- What is done with the node at which the loop ends. -/
def finish (n : Node) : Except Fault α :=
  match n.rule, n.children with
  | .expression, children | .term, children => row A (items A children)
  | .number, _ => place n.start (A.literal n.text)
  | .functionCall, [name, argument] =>
    if name.rule = .functionName ∧ argument.rule = .expression then do
      let f ← function name.text
      let x ← reduce A argument
      place n.start (A.call f x)
    else noHandler n
  | _, _ => noHandler n

theorem reduce_eq_finish {n : Node} (hgroup : n.rule ≠ .group)
    (hsingle : n.IsRow → ∀ child, n.children ≠ [child]) : reduce A n = finish A n := by
  obtain ⟨rule, text, start, stop, children⟩ := n
  cases rule with
  | group => exact absurd rfl hgroup
  | expression => exact reduce_row (.inl rfl) (hsingle (.inl rfl))
  | term => exact reduce_row (.inr rfl) (hsingle (.inr rfl))
  | number => exact reduce_number rfl
  | functionCall =>
    rcases children with _ | ⟨name, _ | ⟨argument, _ | _⟩⟩
    all_goals
      simp only [reduce, finish]
      rfl
  | equation | functionName | operator op | unaryMinus | endOfInput =>
    exact reduce_of_not_hasValue rfl

/-- The value of a node is had by the loop and one step after it. -/
theorem reduce_eq_unwrap (n : Node) : reduce A n = unwrap n >>= finish A := by
  fun_induction unwrap n with
  | case1 text start stop child hrule ih =>
    rw [← ih]
    exact reduce_group rfl rfl hrule
  | case2 text start stop child hrule =>
    simp only [reduce, if_neg hrule]
    rfl
  | case3 text start stop children hchildren =>
    rcases children with _ | ⟨child, _ | _⟩
    · simp only [reduce]
      rfl
    · exact absurd rfl (hchildren child)
    · simp only [reduce]
      rfl
  | case4 text start stop child ih =>
    rw [← ih]
    exact reduce_single (.inl rfl) rfl
  | case5 text start stop child ih =>
    rw [← ih]
    exact reduce_single (.inr rfl) rfl
  | case6 n hgroupChild hgroup hexpression hterm =>
    obtain ⟨rule, text, start, stop, children⟩ := n
    refine reduce_eq_finish A ?_ ?_
    · rintro rfl
      exact hgroup text start stop children rfl
    · rintro (rfl | rfl) child rfl
      · exact hexpression text start stop child rfl
      · exact hterm text start stop child rfl

/-! ## Recursion alone -/

mutual

/-- The value of a node by recursion.  A group has the value of its expression,
and every expression or term is climbed. -/
def reducePlainly : Node → Except Fault α
  | ⟨.group, _, _, _, [child]⟩ =>
    if child.rule = .expression then reducePlainly child
    else .error (.inconsistent (.noHandler .group))
  | ⟨.expression, _, _, _, children⟩ => row A (itemsPlainly children)
  | ⟨.term, _, _, _, children⟩ => row A (itemsPlainly children)
  | ⟨.number, text, start, _, _⟩ => place start (A.literal text)
  | ⟨.functionCall, _, start, _, [name, argument]⟩ =>
    if name.rule = .functionName ∧ argument.rule = .expression then do
      let f ← function name.text
      let x ← reducePlainly argument
      place start (A.call f x)
    else .error (.inconsistent (.noHandler .functionCall))
  | ⟨rule, _, _, _, _⟩ => .error (.inconsistent (.noHandler rule))

def itemsPlainly : List Node → List (Item α)
  | [] => []
  | n :: ns => { rule := n.rule, start := n.start, value := reducePlainly n } :: itemsPlainly ns

end

def evaluatePlainly (root : Node) : Except Fault α :=
  match root.rule, root.children with
  | .equation, [child] => reducePlainly A child
  | _, _ => noHandler root

end Evaluation

def Calculator.evaluateTreePlainly (settings : Settings) (root : Node) : Except Fault Value :=
  match settings.mode with
  | .float => .float <$> Evaluation.evaluatePlainly (floating settings.unit) root
  | .int32 => .int <$> Evaluation.evaluatePlainly (integral settings.unit) root

/-! ## Lone minus signs -/

/-- An expression or a term that is nothing but a minus sign. -/
def Node.HasLoneMinus (n : Node) : Prop :=
  n.IsRow ∧ ∃ sign, n.children = [sign] ∧ sign.rule = .unaryMinus

namespace Evaluation

/-- The same fault, or two ways to say that a minus sign stands alone. -/
inductive AlikeFaults (lone : Prop) : Fault → Fault → Prop
  | same (fault : Fault) : AlikeFaults lone fault fault
  | lone : lone →
      AlikeFaults lone (.inconsistent (.noHandler .unaryMinus)) (.inconsistent .missingOperand)

section

variable {α : Type} {A : Arithmetic α} {lone : Prop} {n : Node}

/-- A row of one operand has the value of the operand, or is at fault as it is. -/
theorem row_single {item : Item α} (h : item.rule ≠ .unaryMinus) : row A [item] = item.value := by
  rw [row, climb_eq, operand, if_neg h]
  cases item.value with
  | error fault => rfl
  | ok x =>
    show (climbOn A Operation.loosestTier x [] >>= _) = _
    rw [climbOn_of_stops (stops_nil _)]
    rfl

theorem row_lone {item : Item α} (h : item.rule = .unaryMinus) :
    row A [item] = .error (.inconsistent .missingOperand) := by
  rw [row, climb_eq, operand, if_pos h, operand]
  rfl

theorem reduce_of_hasLoneMinus (h : n.HasLoneMinus) :
    reduce A n = .error (.inconsistent (.noHandler .unaryMinus)) := by
  obtain ⟨hrow, sign, hchildren, hsign⟩ := h
  rw [reduce_single hrow hchildren, reduce_of_not_hasValue (by rw [hsign]; rfl), noHandler, hsign]

theorem reducePlainly_row (h : n.IsRow) :
    reducePlainly A n = row A (itemsPlainly A n.children) := by
  obtain ⟨rule, text, start, stop, children⟩ := n
  rcases h with h | h
  · obtain rfl : rule = .expression := h
    rw [reducePlainly]
  · obtain rfl : rule = .term := h
    rw [reducePlainly]

theorem reducePlainly_of_hasLoneMinus (h : n.HasLoneMinus) :
    reducePlainly A n = .error (.inconsistent .missingOperand) := by
  obtain ⟨hrow, sign, hchildren, hsign⟩ := h
  rw [reducePlainly_row hrow, hchildren, itemsPlainly, itemsPlainly, row_lone hsign]

/-! ## Loop and recursion -/

theorem alike_self (r : Except Fault α) : Alike Eq (AlikeFaults lone) r r := by
  cases r with
  | ok x => exact .value rfl
  | error fault => exact .fault (.same fault)

theorem alike_row (hrow : n.IsRow) (hlone : n.HasLoneMinus → lone)
    (h : List.Forall₂ (ItemsAlike A A Eq (AlikeFaults lone)) (items A n.children)
      (itemsPlainly A n.children)) :
    Alike Eq (AlikeFaults lone) (reduce A n) (reducePlainly A n) := by
  by_cases hsingle : ∃ child, n.children = [child]
  · obtain ⟨child, hchild⟩ := hsingle
    by_cases hminus : child.rule = .unaryMinus
    · have hn : n.HasLoneMinus := ⟨hrow, child, hchild, hminus⟩
      rw [reduce_of_hasLoneMinus hn, reducePlainly_of_hasLoneMinus hn]
      exact .fault (.lone (hlone hn))
    · rw [hchild, items, items, itemsPlainly, itemsPlainly] at h
      rw [reduce_single hrow hchild, reducePlainly_row hrow, hchild, itemsPlainly, itemsPlainly,
        row_single hminus]
      exact (List.forall₂_cons.mp h).1.value
  · rw [reduce_row hrow fun child hchild => hsingle ⟨child, hchild⟩, reducePlainly_row hrow]
    exact row_alike h

theorem alike_plainly_of_items (hlone : n.HasLoneMinus → lone)
    (h : List.Forall₂ (ItemsAlike A A Eq (AlikeFaults lone)) (items A n.children)
      (itemsPlainly A n.children)) :
    Alike Eq (AlikeFaults lone) (reduce A n) (reducePlainly A n) := by
  by_cases hrow : n.IsRow
  · exact alike_row hrow hlone h
  · obtain ⟨rule, text, start, stop, children⟩ := n
    cases rule with
    | expression => exact absurd (.inl rfl) hrow
    | term => exact absurd (.inr rfl) hrow
    | number | equation | functionName | operator op | unaryMinus | endOfInput =>
      simp only [reduce, reducePlainly]
      exact alike_self _
    | group =>
      rcases children with _ | ⟨child, _ | _⟩
      · simp only [reduce, reducePlainly]
        exact alike_self _
      · simp only [reduce, reducePlainly]
        split
        · exact (List.forall₂_cons.mp h).1.value
        · exact alike_self _
      · simp only [reduce, reducePlainly]
        exact alike_self _
    | functionCall =>
      rcases children with _ | ⟨name, _ | ⟨argument, _ | _⟩⟩
      · simp only [reduce, reducePlainly]
        exact alike_self _
      · simp only [reduce, reducePlainly]
        exact alike_self _
      · simp only [reduce, reducePlainly]
        split
        · cases function name.text with
          | error fault => exact alike_self _
          | ok f =>
            obtain ⟨_, hrest⟩ := List.forall₂_cons.mp h
            refine (List.forall₂_cons.mp hrest).1.value.bind fun x y hxy => ?_
            rw [hxy]
            exact alike_self _
        · exact alike_self _
      · simp only [reduce, reducePlainly]
        exact alike_self _

mutual

/-- The induction is on the tree.  What `lone` says stays the same all the way
down, so it may speak of a tree around this one. -/
theorem alike_plainly (n : Node) (hlone : ∀ m ∈ n.preorder, m.HasLoneMinus → lone) :
    Alike Eq (AlikeFaults lone) (reduce A n) (reducePlainly A n) := by
  obtain ⟨rule, text, start, stop, children⟩ := n
  rw [preorder_eq, List.forall_mem_cons] at hlone
  exact alike_plainly_of_items hlone.1 (itemsAlike_plainly children hlone.2)

theorem itemsAlike_plainly (ns : List Node)
    (hlone : ∀ m ∈ preorders ns, m.HasLoneMinus → lone) :
    List.Forall₂ (ItemsAlike A A Eq (AlikeFaults lone)) (items A ns) (itemsPlainly A ns) := by
  match ns with
  | [] => exact .nil
  | n :: ns =>
    rw [preorders, List.forall_mem_append] at hlone
    have hself : NodesAlike A A Eq (AlikeFaults lone) n n :=
      nodesAlike_of_resembles A ⟨rfl, fun _ => rfl⟩ fun _ _ => .same _
    exact .cons ⟨rfl, alike_plainly n hlone.1, hself.steps⟩ (itemsAlike_plainly ns hlone.2)

end

theorem evaluate_alike_plainly (root : Node)
    (hlone : ∀ m ∈ root.preorder, m.HasLoneMinus → lone) :
    Alike Eq (AlikeFaults lone) (evaluate A root) (evaluatePlainly A root) := by
  obtain ⟨rule, text, start, stop, children⟩ := root
  cases rule with
  | equation =>
    rcases children with _ | ⟨child, _ | _⟩
    · exact alike_self _
    · refine alike_plainly child fun m hm => hlone m ?_
      rw [preorder_eq, preorders, preorders, List.append_nil]
      exact List.mem_cons_of_mem _ hm
    · exact alike_self _
  | _ => exact alike_self _

end

end Evaluation

open Evaluation

theorem Calculator.evaluateTree_alike_plainly (settings : Settings) (root : Node) :
    Alike Eq (AlikeFaults (∃ n ∈ root.preorder, n.HasLoneMinus)) (evaluateTree settings root)
      (evaluateTreePlainly settings root) := by
  have halike {α : Type} (A : Arithmetic α) :=
    evaluate_alike_plainly (A := A) root fun n hn hlone => Exists.intro n (And.intro hn hlone)
  unfold evaluateTree evaluateTreePlainly
  cases settings.mode with
  | float => exact (halike _).map fun _ _ hxy => congrArg _ hxy
  | int32 => exact (halike _).map fun _ _ hxy => congrArg _ hxy

/-- Recursion alone gives the outcome of the loop, unless a minus sign stands
alone.  Then the tree is inconsistent for both, for the sign or for the operand
that it lacks. -/
theorem evaluateTree_plainly (settings : Settings) (root : Node) :
    (∀ (α : Type) (A : Arithmetic α) (n : Node), reduce A n = unwrap n >>= finish A) ∧
    (Calculator.evaluateTreePlainly settings root = Calculator.evaluateTree settings root ∨
      (∃ n ∈ root.preorder, n.HasLoneMinus) ∧
        Calculator.evaluateTree settings root = .error (.inconsistent (.noHandler .unaryMinus)) ∧
        Calculator.evaluateTreePlainly settings root = .error (.inconsistent .missingOperand)) ∧
    (∀ (α : Type) (A : Arithmetic α) (n : Node), n.HasLoneMinus →
      reduce A n = .error (.inconsistent (.noHandler .unaryMinus)) ∧
        reducePlainly A n = .error (.inconsistent .missingOperand)) ∧
    ∀ mismatch expression, ((Fault.inconsistent mismatch).failure? expression).map Failure.kind =
      some .internal := by
  refine ⟨fun _ A n => reduce_eq_unwrap A n, ?_, fun _ A n hn => ?_, fun _ _ => rfl⟩
  · have halike := Calculator.evaluateTree_alike_plainly settings root
    generalize Calculator.evaluateTree settings root = r at halike
    generalize Calculator.evaluateTreePlainly settings root = r' at halike
    cases halike with
    | value hxy => exact .inl (congrArg _ hxy.symm)
    | mismatch => exact .inl rfl
    | fault hfault =>
      cases hfault with
      | same => exact .inl rfl
      | lone hlone => exact .inr ⟨hlone, rfl, rfl⟩
  · exact ⟨reduce_of_hasLoneMinus hn, reducePlainly_of_hasLoneMinus hn⟩

/-- Only a tree put together by hand has such an expression. -/
def Node.loneMinus : Node :=
  ⟨.expression, ['-'], 0, 1, [⟨.unaryMinus, ['-'], 0, 1, []⟩]⟩

theorem reduce_loneMinus :
    reduce (integral .radians) loneMinus = .error (.inconsistent (.noHandler .unaryMinus)) ∧
      reducePlainly (integral .radians) loneMinus = .error (.inconsistent .missingOperand) := by
  obtain ⟨_, _, hlone, _⟩ := evaluateTree_plainly {} loneMinus
  exact hlone Int (integral .radians) loneMinus ⟨.inl rfl, _, rfl, rfl⟩

end Reckon
