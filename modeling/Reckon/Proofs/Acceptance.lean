/-
The trees that the evaluator takes.

A node can be reduced if it has the shape that the grammar gives to its rule, and
the nodes that it is made of can be reduced too.  Where a tree has a value it is of
this shape throughout, and where it is, only arithmetic can keep it from having
one.  Arithmetic on floats never does, but for the literals.
-/
import Reckon.Calculator
import Reckon.Proofs.Alongside
import Reckon.Proofs.Numerals
import Reckon.Proofs.Precedence

namespace Reckon

/-! ## Shapes -/

namespace Node

inductive Reducible : Node → Prop
  | number {n : Node} : n.rule = .number → Reducible n
  | group {n body : Node} :
      n.rule = .group → n.children = [body] → body.rule = .expression → Reducible body →
      Reducible n
  | call {n name argument : Node} {f : Function} :
      n.rule = .functionCall → n.children = [name, argument] → name.rule = .functionName →
      argument.rule = .expression → f.name = name.text → Reducible argument → Reducible n
  | single {n child : Node} : n.IsRow → n.children = [child] → Reducible child → Reducible n
  | row {n : Node} :
      n.IsRow → IsFlat n.children → (∀ m ∈ n.children, m.IsOperand → Reducible m) → Reducible n

def IsWellFormed (root : Node) : Prop :=
  root.rule = .equation ∧ ∃ child, root.children = [child] ∧ child.Reducible

/-- Every literal can be read as a finite float. -/
def HasFiniteLiterals (root : Node) : Prop :=
  ∀ n ∈ root.preorder, n.rule = .number →
    Text.IsNumeral n.text ∧ ∀ x, Numeral.float? n.text = some x → x.isInf = false

end Node

open Node

namespace Evaluation

variable {α : Type} {A : Arithmetic α}

/-! ## Reducible nodes -/

/-- A node of the right shape has a value, or its arithmetic refuses to give one. -/
theorem reduce_ne_inconsistent {n : Node} (h : n.Reducible) (m : Mismatch) :
    reduce A n ≠ .error (.inconsistent m) := by
  induction h with
  | number hrule =>
    rw [reduce_number hrule]
    exact place_ne_inconsistent
  | group hrule hchildren hbody _ ih =>
    rw [reduce_group hrule hchildren hbody]
    exact ih
  | call hrule hchildren hname hargument hf _ ih =>
    rw [reduce_call hrule hchildren hname hargument hf]
    exact bind_ne_error ih fun x => place_ne_inconsistent
  | single hrow hchildren _ ih =>
    rw [reduce_single hrow hchildren]
    exact ih
  | @row n hrow hflat _ ih =>
    obtain ⟨v, hv⟩ := exists_reads (A := A) hflat fun _ _ op _ => op.loosestTier_le
    rw [reduce_of_reads hrow hv]
    exact hv.ne_inconsistent ih

theorem reducible_of_row {n : Node} {x : α} (hrow : n.IsRow)
    (ih : ∀ m ∈ n.children, ∀ y, reduce A m = .ok y → m.Reducible) (h : reduce A n = .ok x) :
    n.Reducible := by
  by_cases hsingle : ∃ child, n.children = [child]
  · obtain ⟨child, hchild⟩ := hsingle
    rw [reduce_single hrow hchild] at h
    exact .single hrow hchild (ih child (by simp [hchild]) x h)
  · rw [reduce_row hrow fun child hchild => hsingle ⟨child, hchild⟩] at h
    have hreads := reads_of_row h
    refine .row hrow hreads.isFlat fun m hm hoperand => ?_
    obtain ⟨y, hy⟩ := hreads.exists_of_mem rfl m hm hoperand
    exact ih m hm y hy

theorem exists_of_group {n : Node} {x : α} (hrule : n.rule = .group) (h : reduce A n = .ok x) :
    ∃ body, n.children = [body] ∧ body.rule = .expression ∧ reduce A body = .ok x := by
  obtain ⟨rule, text, start, stop, children⟩ := n
  obtain rfl : rule = .group := hrule
  match children with
  | [] | _ :: _ :: _ =>
    simp only [reduce] at h
    cases h
  | [body] =>
    simp only [reduce] at h
    split at h
    · next hbody => exact ⟨body, rfl, hbody, h⟩
    · cases h

theorem exists_of_call {n : Node} {x : α} (hrule : n.rule = .functionCall)
    (h : reduce A n = .ok x) :
    ∃ name argument f y, n.children = [name, argument] ∧ name.rule = .functionName ∧
      argument.rule = .expression ∧ Function.name f = name.text ∧ reduce A argument = .ok y := by
  obtain ⟨rule, text, start, stop, children⟩ := n
  obtain rfl : rule = .functionCall := hrule
  match children with
  | [] | [_] | _ :: _ :: _ :: _ =>
    simp only [reduce] at h
    cases h
  | [name, argument] =>
    simp only [reduce] at h
    split at h
    · next hrules =>
      obtain ⟨f, hf, h⟩ := exists_of_bind_eq_ok h
      obtain ⟨y, hy, _⟩ := exists_of_bind_eq_ok h
      exact ⟨name, argument, f, y, rfl, hrules.1, hrules.2, function_eq_ok.mp hf, hy⟩
    · cases h

/-- A node with a value has the right shape if its children with values have. -/
theorem reducible_of_children {n : Node} {x : α}
    (ih : ∀ m ∈ n.children, ∀ y, reduce A m = .ok y → m.Reducible) (h : reduce A n = .ok x) :
    n.Reducible := by
  cases hrule : n.rule with
  | number => exact .number hrule
  | expression => exact reducible_of_row (.inl hrule) ih h
  | term => exact reducible_of_row (.inr hrule) ih h
  | group =>
    obtain ⟨body, hchildren, hbody, hvalue⟩ := exists_of_group hrule h
    exact .group hrule hchildren hbody (ih body (by simp [hchildren]) x hvalue)
  | functionCall =>
    obtain ⟨name, argument, f, y, hchildren, hname, hargument, hf, hvalue⟩ :=
      exists_of_call hrule h
    exact .call hrule hchildren hname hargument hf (ih argument (by simp [hchildren]) y hvalue)
  | equation | functionName | operator op | unaryMinus | endOfInput =>
    have hvalue := hasValue_of_reduce h
    rw [hrule] at hvalue
    cases hvalue

mutual

theorem reducible_of_reduce {n : Node} {x : α} (h : reduce A n = .ok x) : n.Reducible := by
  obtain ⟨rule, text, start, stop, children⟩ := n
  exact reducible_of_children (forall_reducible children) h

theorem forall_reducible (ns : List Node) : ∀ m ∈ ns, ∀ y, reduce A m = .ok y → m.Reducible := by
  match ns with
  | [] => exact List.forall_mem_nil _
  | n :: ns =>
    exact List.forall_mem_cons.mpr ⟨fun y hy => reducible_of_reduce hy, forall_reducible ns⟩

end

/-! ## Whole trees -/

theorem evaluate_of_equation {root child : Node} (hroot : root.rule = .equation)
    (hchildren : root.children = [child]) : evaluate A root = reduce A child := by
  rw [evaluate, hroot, hchildren]

theorem isWellFormed_of_evaluate {root : Node} {x : α} (h : evaluate A root = .ok x) :
    root.IsWellFormed := by
  unfold evaluate at h
  split at h
  · next child hroot hchildren => exact ⟨hroot, child, hchildren, reducible_of_reduce h⟩
  · cases h

theorem evaluate_ne_inconsistent {root : Node} (h : root.IsWellFormed) (m : Mismatch) :
    evaluate A root ≠ .error (.inconsistent m) := by
  obtain ⟨hroot, child, hchildren, hchild⟩ := h
  rw [evaluate_of_equation hroot hchildren]
  exact reduce_ne_inconsistent hchild m

end Evaluation

open Evaluation

/-! ## Floats -/

theorem Floating.exists_literal {t : Text} (ht : Text.IsNumeral t)
    (hfinite : ∀ x, Numeral.float? t = some x → x.isInf = false) :
    ∃ x, Floating.literal t = .ok x := by
  obtain ⟨x, hx⟩ := Numeral.exists_float? ht
  refine ⟨x, ?_⟩
  simp [Floating.literal, hx, hfinite x hx]

/-- Arithmetic on floats has an answer to everything but a literal. -/
theorem nodesAlike_floating (unit : AngleUnit) {n : Node}
    (h : n.rule = .number → ∃ x, Floating.literal n.text = .ok x) :
    NodesAlike (floating unit) (floating unit) (fun _ _ => True) (fun _ _ => False) n n where
  rule := rfl
  name _ := rfl
  literal hrule := by
    obtain ⟨x, hx⟩ := h hrule
    have hplace : place n.start ((floating unit).literal n.text) = .ok x :=
      congrArg (place n.start) hx
    rw [hplace]
    exact .value trivial
  steps :=
    { negate := fun _ _ _ _ => .value trivial
      apply := fun _ _ _ _ _ _ _ _ => .value trivial
      call := fun _ _ _ _ _ => .value trivial }

theorem Evaluation.Alike.value_or_mismatch {r : Except Fault α}
    (h : Alike (fun _ _ => True) (fun _ _ => False) r r) :
    (∃ x, r = .ok x) ∨ ∃ m, r = .error (.inconsistent m) := by
  cases r with
  | ok x => exact .inl ⟨x, rfl⟩
  | error fault =>
    cases h with
    | fault hfault => exact hfault.elim
    | mismatch => exact .inr ⟨_, rfl⟩

/-- Where all literals are finite, only its shape can keep a tree from having a
value on floats. -/
theorem evaluate_floating (unit : AngleUnit) {root : Node} (h : root.HasFiniteLiterals) :
    (∃ x, evaluate (floating unit) root = .ok x) ∨
      ∃ m, evaluate (floating unit) root = .error (.inconsistent m) := by
  have hmatches := matches_self root fun n hn => nodesAlike_floating unit fun hrule =>
    Floating.exists_literal (h n hn hrule).1 (h n hn hrule).2
  exact (evaluate_alike hmatches).value_or_mismatch

/-! ## Acceptance -/

theorem isWellFormed_of_evaluateTree {settings : Settings} {root : Node} {v : Value}
    (h : Calculator.evaluateTree settings root = .ok v) : root.IsWellFormed := by
  unfold Calculator.evaluateTree at h
  split at h
  · obtain ⟨x, hx, _⟩ := exists_of_map_eq_ok h
    exact isWellFormed_of_evaluate hx
  · obtain ⟨x, hx, _⟩ := exists_of_map_eq_ok h
    exact isWellFormed_of_evaluate hx

theorem evaluateTree_ne_inconsistent (settings : Settings) {root : Node} (h : root.IsWellFormed)
    (m : Mismatch) : Calculator.evaluateTree settings root ≠ .error (.inconsistent m) := by
  unfold Calculator.evaluateTree
  split
  · exact fun heq => evaluate_ne_inconsistent h m (eq_error_of_map heq)
  · exact fun heq => evaluate_ne_inconsistent h m (eq_error_of_map heq)

theorem evaluateTree_float {settings : Settings} {root : Node} (hmode : settings.mode = .float)
    (h : root.HasFiniteLiterals) :
    (∃ v, Calculator.evaluateTree settings root = .ok v) ∨
      ∃ m, Calculator.evaluateTree settings root = .error (.inconsistent m) := by
  unfold Calculator.evaluateTree
  rw [hmode]
  dsimp only
  rcases evaluate_floating settings.unit h with ⟨x, hx⟩ | ⟨m, hm⟩
  · exact .inl ⟨.float x, by rw [hx]; rfl⟩
  · exact .inr ⟨m, by rw [hm]; rfl⟩

/-- A tree with a value is well-formed, and one that does not fit the evaluator is
not.  On floats every tree with finite literals is one or the other. -/
theorem evaluateTree_accepts (settings : Settings) (root : Node) :
    (∀ v, Calculator.evaluateTree settings root = .ok v → root.IsWellFormed) ∧
    (∀ m, Calculator.evaluateTree settings root = .error (.inconsistent m) →
      ¬ root.IsWellFormed) ∧
    (settings.mode = .float → root.HasFiniteLiterals →
      ((∃ v, Calculator.evaluateTree settings root = .ok v) ↔ root.IsWellFormed) ∧
      ((∃ m, Calculator.evaluateTree settings root = .error (.inconsistent m)) ↔
        ¬ root.IsWellFormed) ∧
      ∀ fault, Calculator.evaluateTree settings root = .error fault →
        ∃ m, fault = .inconsistent m) := by
  have hvalue : ∀ v, Calculator.evaluateTree settings root = .ok v → root.IsWellFormed :=
    fun _ hv => isWellFormed_of_evaluateTree hv
  have hmismatch : ∀ m, Calculator.evaluateTree settings root = .error (.inconsistent m) →
      ¬ root.IsWellFormed := fun m hm hroot => evaluateTree_ne_inconsistent settings hroot m hm
  refine ⟨hvalue, hmismatch, fun hmode hliterals => ?_⟩
  rcases evaluateTree_float hmode hliterals with ⟨v, hv⟩ | ⟨m, hm⟩
  · have hroot := hvalue v hv
    refine ⟨iff_of_true ⟨v, hv⟩ hroot, iff_of_false ?_ (not_not_intro hroot), ?_⟩
    · rintro ⟨m, hm⟩
      exact hmismatch m hm hroot
    · intro fault hfault
      cases hv.symm.trans hfault
  · have hroot := hmismatch m hm
    refine ⟨iff_of_false ?_ hroot, iff_of_true ⟨m, hm⟩ hroot, ?_⟩
    · rintro ⟨v, hv⟩
      exact hroot (hvalue v hv)
    · intro fault hfault
      exact ⟨m, Except.error.inj (hfault.symm.trans hm)⟩

/-- A minus sign and its number, which are not in a term. -/
def Node.minusTwo : Node :=
  ⟨.equation, [], 0, 2, [⟨.expression, [], 0, 2,
    [⟨.unaryMinus, ['-'], 0, 1, []⟩, ⟨.number, ['2'], 1, 2, []⟩]⟩]⟩

theorem evaluateTree_minusTwo :
    minusTwo.HasFiniteLiterals ∧ ∃ v, Calculator.evaluateTree {} minusTwo = .ok v := by
  have hdigits : Text.IsDigits ['2'] := Text.isDigits_singleton rfl
  have hliterals : minusTwo.HasFiniteLiterals := by
    intro n hn hrule
    simp only [minusTwo, preorder_eq, preorders, List.append_nil, List.mem_cons, List.not_mem_nil,
      or_false, List.cons_append, List.nil_append] at hn
    rcases hn with rfl | rfl | rfl | rfl
    all_goals cases hrule
    refine ⟨.whole hdigits, fun x hx => ?_⟩
    rw [Numeral.float?_digits hdigits] at hx
    cases hx
    decide +kernel
  have hminus : IsSigned [⟨.unaryMinus, ['-'], 0, 1, []⟩, ⟨.number, ['2'], 1, 2, []⟩] :=
    ⟨[_], _, rfl, by simp, by decide, rfl⟩
  have hroot : minusTwo.IsWellFormed := by
    refine ⟨rfl, _, rfl, .row (.inl rfl) (.operand hminus) fun m hm hoperand => ?_⟩
    rcases List.mem_cons.mp hm with rfl | hm
    · exact absurd rfl hoperand.1
    · exact .number (List.mem_singleton.mp hm ▸ rfl)
  obtain ⟨_, _, hfloat⟩ := evaluateTree_accepts {} minusTwo
  exact ⟨hliterals, (hfloat rfl hliterals).1.mpr hroot⟩

end Reckon
