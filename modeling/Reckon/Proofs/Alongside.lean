/-
Two evaluations side by side.

Two trees of one shape are evaluated, each in an arithmetic of its own.  If in
every place the two nodes take related values to related values, or else to
related faults, then the outcomes of the evaluations are related.  Which values
and faults are related is left open, so one arithmetic may be compared with
another, and a tree with the same tree elsewhere.
-/
import Reckon.Proofs.Climbing
import Reckon.Proofs.Subtrees

namespace Reckon
namespace Evaluation

/-! ## Outcomes -/

inductive Alike (R : α → β → Prop) (F : Fault → Fault → Prop) :
    Except Fault α → Except Fault β → Prop
  | value {x : α} {y : β} : R x y → Alike R F (.ok x) (.ok y)
  | fault {f g : Fault} : F f g → Alike R F (.error f) (.error g)
  /-- Neither tree fits the evaluator, and for the same reason. -/
  | mismatch {mismatch : Mismatch} :
      Alike R F (.error (.inconsistent mismatch)) (.error (.inconsistent mismatch))

section

variable {R : α → β → Prop} {F : Fault → Fault → Prop} {r : Except Fault α} {s : Except Fault β}

theorem Alike.bind {R' : γ → δ → Prop} {f : α → Except Fault γ} {g : β → Except Fault δ}
    (h : Alike R F r s) (hfg : ∀ x y, R x y → Alike R' F (f x) (g y)) :
    Alike R' F (r >>= f) (s >>= g) := by
  cases h with
  | value hxy => exact hfg _ _ hxy
  | fault hfault => exact .fault hfault
  | mismatch => exact .mismatch

theorem Alike.map {R' : γ → δ → Prop} {f : α → γ} {g : β → δ} (h : Alike R F r s)
    (hfg : ∀ x y, R x y → R' (f x) (g y)) : Alike R' F (f <$> r) (g <$> s) := by
  cases h with
  | value hxy => exact .value (hfg _ _ hxy)
  | fault hfault => exact .fault hfault
  | mismatch => exact .mismatch

theorem Alike.imp {R' : α → β → Prop} (h : Alike R F r s) (himp : ∀ x y, R x y → R' x y) :
    Alike R' F r s := by
  cases h with
  | value hxy => exact .value (himp _ _ hxy)
  | fault hfault => exact .fault hfault
  | mismatch => exact .mismatch

theorem Alike.eq {R : α → α → Prop} {r s : Except Fault α} (h : Alike R F r s)
    (hR : ∀ x y, R x y → x = y) (hF : ∀ f g, F f g → f = g) : r = s := by
  cases h with
  | value hxy => rw [hR _ _ hxy]
  | fault hfault => rw [hF _ _ hfault]
  | mismatch => rfl

end

/-! ## Nodes -/

section

variable (A : Arithmetic α) (B : Arithmetic β) (R : α → β → Prop) (F : Fault → Fault → Prop)

/-- The step that a rule asks for, taken at two places. -/
structure StepsAlike (rule : Rule) (p q : Nat) : Prop where
  negate : rule = .unaryMinus → ∀ x y, R x y →
    Alike R F (place p (A.negate x)) (place q (B.negate y))
  apply : ∀ op, rule = .operator op → ∀ x y x' y', R x y → R x' y' →
    Alike R F (place p (A.apply op x x')) (place q (B.apply op y y'))
  call : rule = .functionCall → ∀ f x y, R x y →
    Alike R F (place p (A.call f x)) (place q (B.call f y))

structure NodesAlike (n m : Node) : Prop where
  rule : n.rule = m.rule
  name : n.rule = .functionName → n.text = m.text
  literal : n.rule = .number →
    Alike R F (place n.start (A.literal n.text)) (place m.start (B.literal m.text))
  steps : StepsAlike A B R F n.rule n.start m.start

structure ItemsAlike (i : Item α) (j : Item β) : Prop where
  rule : i.rule = j.rule
  value : Alike R F i.value j.value
  steps : StepsAlike A B R F i.rule i.start j.start

end

section

variable {F : Fault → Fault → Prop}

theorem alike_place {p q : Nat} (h : ∀ refusal, F (.refused refusal p) (.refused refusal q))
    (r : Except Refusal α) : Alike Eq F (place p r) (place q r) := by
  cases r with
  | ok x => exact .value rfl
  | error refusal => exact .fault (h refusal)

/-- In one arithmetic two nodes differ in nothing but where a refusal is placed. -/
theorem nodesAlike_of_resembles (A : Arithmetic α) {n m : Node} (h : n.Resembles m)
    (hF : n.rule ≠ .equation → ∀ refusal, F (.refused refusal n.start) (.refused refusal m.start)) :
    NodesAlike A A Eq F n m where
  rule := h.rule
  name hn := h.text (.inr hn)
  literal hn := by
    rw [h.text (.inl hn)]
    exact alike_place (hF (by simp [hn])) _
  steps := {
    negate := by
      rintro hn x _ rfl
      exact alike_place (hF (by simp [hn])) _
    apply := by
      rintro op hn x _ y _ rfl rfl
      exact alike_place (hF (by simp [hn])) _
    call := by
      rintro hn f x _ rfl
      exact alike_place (hF (by simp [hn])) _ }

end

/-! ## Rows -/

section

variable {A : Arithmetic α} {B : Arithmetic β} {R : α → β → Prop} {F : Fault → Fault → Prop}

theorem operand_alike {is : List (Item α)} {js : List (Item β)}
    (h : List.Forall₂ (ItemsAlike A B R F) is js) :
    Alike (fun p q => R p.1 q.1 ∧ List.Forall₂ (ItemsAlike A B R F) p.2 q.2 ∧
      p.2.length < is.length) F (operand A is) (operand B js) := by
  induction h with
  | nil => exact .mismatch
  | @cons i j is js hij hrest ih =>
    unfold operand
    rw [← hij.rule]
    by_cases hminus : i.rule = .unaryMinus
    · rw [if_pos hminus, if_pos hminus]
      refine ih.bind fun p q hpq => ?_
      obtain ⟨hvalue, hrest', hlength⟩ := hpq
      exact (hij.steps.negate hminus _ _ hvalue).bind fun x y hxy =>
        .value ⟨hxy, hrest', Nat.lt_succ_of_lt hlength⟩
    · rw [if_neg hminus, if_neg hminus]
      exact hij.value.bind fun x y hxy => .value ⟨hxy, hrest, Nat.lt_succ_self _⟩

/-- The induction is on what is left of the row. -/
theorem climbOn_alike {least : Nat} {x : α} {y : β} {is : List (Item α)} {js : List (Item β)}
    (hxy : R x y) (h : List.Forall₂ (ItemsAlike A B R F) is js) :
    Alike (fun p q => R p.1 q.1 ∧ List.Forall₂ (ItemsAlike A B R F) p.2 q.2 ∧
      p.2.length ≤ is.length) F (climbOn A least x is) (climbOn B least y js) := by
  cases h with
  | nil =>
    rw [climbOn_of_stops (stops_nil least), climbOn_of_stops (stops_nil least)]
    exact .value ⟨hxy, .nil, Nat.le_refl _⟩
  | @cons i j is js hij hrest =>
    cases hop : i.rule.operation? with
    | none =>
      have hop' : j.rule.operation? = none := hij.rule ▸ hop
      rw [climbOn_of_not_operator hop, climbOn_of_not_operator hop', ← hij.rule]
      exact .mismatch
    | some op =>
      have hrule : i.rule = .operator op := Rule.operation?_eq_some.mp hop
      have hrule' : j.rule = .operator op := hij.rule ▸ hrule
      by_cases htier : op.tier < least
      · rw [climbOn_of_stops, climbOn_of_stops]
        · exact .value ⟨hxy, .cons hij hrest, Nat.le_refl _⟩
        · intro item rest heq
          cases heq
          exact ⟨op, hrule', htier⟩
        · intro item rest heq
          cases heq
          exact ⟨op, hrule, htier⟩
      · rw [climbOn_operator hrule (Nat.le_of_not_lt htier),
          climbOn_operator hrule' (Nat.le_of_not_lt htier)]
        refine (operand_alike hrest).bind fun p q hpq => ?_
        obtain ⟨hfirst, hrest₁, hlength₁⟩ := hpq
        refine (climbOn_alike hfirst hrest₁).bind fun p' q' hpq' => ?_
        obtain ⟨hright, hrest₂, hlength₂⟩ := hpq'
        refine (hij.steps.apply op hrule _ _ _ _ hxy hright).bind fun z w hzw => ?_
        refine (climbOn_alike hzw hrest₂).imp fun p'' q'' hpq'' => ?_
        obtain ⟨hvalue, hrest₃, hlength₃⟩ := hpq''
        exact ⟨hvalue, hrest₃, by simp only [List.length_cons]; omega⟩
termination_by is.length

theorem row_alike {is : List (Item α)} {js : List (Item β)}
    (h : List.Forall₂ (ItemsAlike A B R F) is js) : Alike R F (row A is) (row B js) := by
  unfold row
  rw [climb_eq, climb_eq]
  refine Alike.bind (R := fun p q => R p.1 q.1 ∧ List.Forall₂ (ItemsAlike A B R F) p.2 q.2)
    ((operand_alike h).bind fun p q hpq => ?_) fun p q hpq => ?_
  · exact (climbOn_alike hpq.1 hpq.2.1).imp fun p' q' h' => ⟨h'.1, h'.2.1⟩
  · obtain ⟨x, rest⟩ := p
    obtain ⟨y, rest'⟩ := q
    obtain ⟨hvalue, hrest⟩ := hpq
    cases hrest with
    | nil => exact .value hvalue
    | cons hij _ =>
      dsimp only
      rw [hij.rule]
      exact .mismatch

/-! ## Trees -/

theorem reduce_alike_group {text text' : Text} {start stop start' stop' : Nat} {ns ms : List Node}
    (hchildren : List.Forall₂ (Node.Matches (NodesAlike A B R F)) ns ms)
    (hitems : List.Forall₂ (ItemsAlike A B R F) (items A ns) (items B ms)) :
    Alike R F (reduce A ⟨.group, text, start, stop, ns⟩)
      (reduce B ⟨.group, text', start', stop', ms⟩) := by
  cases hchildren with
  | nil =>
    simp only [reduce]
    exact .mismatch
  | @cons n m _ _ hnm hrest =>
    cases hrest with
    | nil =>
      rw [items, items] at hitems
      obtain ⟨hitem, _⟩ := List.forall₂_cons.mp hitems
      simp only [reduce]
      rw [hnm.related.rule]
      by_cases hrule : m.rule = .expression
      · rw [if_pos hrule, if_pos hrule]
        exact hitem.value
      · rw [if_neg hrule, if_neg hrule]
        exact .mismatch
    | cons _ _ =>
      simp only [reduce]
      exact .mismatch

theorem reduce_alike_functionCall {text text' : Text} {start stop start' stop' : Nat}
    {ns ms : List Node} (hsteps : StepsAlike A B R F .functionCall start start')
    (hchildren : List.Forall₂ (Node.Matches (NodesAlike A B R F)) ns ms)
    (hitems : List.Forall₂ (ItemsAlike A B R F) (items A ns) (items B ms)) :
    Alike R F (reduce A ⟨.functionCall, text, start, stop, ns⟩)
      (reduce B ⟨.functionCall, text', start', stop', ms⟩) := by
  cases hchildren with
  | nil =>
    simp only [reduce]
    exact .mismatch
  | @cons n m _ _ hname hrest =>
    cases hrest with
    | nil =>
      simp only [reduce]
      exact .mismatch
    | @cons n' m' _ _ hargument hrest =>
      cases hrest with
      | cons _ _ =>
        simp only [reduce]
        exact .mismatch
      | nil =>
        simp only [items] at hitems
        obtain ⟨_, hitems⟩ := List.forall₂_cons.mp hitems
        obtain ⟨hitem, _⟩ := List.forall₂_cons.mp hitems
        simp only [reduce]
        rw [hname.related.rule, hargument.related.rule]
        by_cases hrules : m.rule = .functionName ∧ m'.rule = .expression
        · rw [if_pos hrules, if_pos hrules,
            hname.related.name (hname.related.rule.trans hrules.1)]
          unfold function
          cases Function.ofName? m.text with
          | none => exact .mismatch
          | some f => exact hitem.value.bind fun x y hxy => hsteps.call rfl f x y hxy
        · rw [if_neg hrules, if_neg hrules]
          exact .mismatch

theorem reduce_alike_wrapper {rule : Rule} (hrule : rule = .expression ∨ rule = .term)
    {text text' : Text} {start stop start' stop' : Nat} {ns ms : List Node}
    (hchildren : List.Forall₂ (Node.Matches (NodesAlike A B R F)) ns ms)
    (hitems : List.Forall₂ (ItemsAlike A B R F) (items A ns) (items B ms)) :
    Alike R F (reduce A ⟨rule, text, start, stop, ns⟩)
      (reduce B ⟨rule, text', start', stop', ms⟩) := by
  match hchildren with
  | .nil | .cons _ (.cons _ _) =>
    rcases hrule with rfl | rfl
    · simp only [reduce]
      exact row_alike hitems
    · simp only [reduce]
      exact row_alike hitems
  | .cons _ .nil =>
    rw [items, items] at hitems
    obtain ⟨hitem, _⟩ := List.forall₂_cons.mp hitems
    rcases hrule with rfl | rfl
    · simp only [reduce]
      exact hitem.value
    · simp only [reduce]
      exact hitem.value

/-- What becomes of a node, given what becomes of its children. -/
theorem reduce_alike_of_items {n m : Node} (h : n.Matches (NodesAlike A B R F) m)
    (hitems : List.Forall₂ (ItemsAlike A B R F) (items A n.children) (items B m.children)) :
    Alike R F (reduce A n) (reduce B m) := by
  have hnode := h.related
  have hchildren := h.children
  obtain ⟨rule, text, start, stop, children⟩ := n
  obtain ⟨rule', text', start', stop', children'⟩ := m
  obtain rfl : rule = rule' := hnode.rule
  dsimp only at hitems hchildren
  cases rule with
  | number =>
    simp only [reduce]
    exact hnode.literal rfl
  | group => exact reduce_alike_group hchildren hitems
  | functionCall => exact reduce_alike_functionCall hnode.steps hchildren hitems
  | expression => exact reduce_alike_wrapper (.inl rfl) hchildren hitems
  | term => exact reduce_alike_wrapper (.inr rfl) hchildren hitems
  | equation | functionName | operator op | unaryMinus | endOfInput =>
    simp only [reduce]
    exact .mismatch

mutual

theorem reduce_alike {n m : Node} (h : n.Matches (NodesAlike A B R F) m) :
    Alike R F (reduce A n) (reduce B m) := by
  obtain ⟨rule, text, start, stop, children⟩ := n
  exact reduce_alike_of_items h (items_alike h.children)

theorem items_alike {ns ms : List Node}
    (h : List.Forall₂ (Node.Matches (NodesAlike A B R F)) ns ms) :
    List.Forall₂ (ItemsAlike A B R F) (items A ns) (items B ms) := by
  match ns, h with
  | [], .nil =>
    simp only [items]
    exact .nil
  | n :: ns, .cons hnm hrest =>
    simp only [items]
    exact .cons ⟨hnm.related.rule, reduce_alike hnm, hnm.related.steps⟩ (items_alike hrest)

end

theorem evaluate_alike {n m : Node} (h : n.Matches (NodesAlike A B R F) m) :
    Alike R F (evaluate A n) (evaluate B m) := by
  have hrule := h.related.rule
  have hchildren := h.children
  unfold evaluate noHandler
  rw [← hrule]
  cases hn : n.rule with
  | equation =>
    match n.children, m.children, hchildren with
    | _, _, .nil | _, _, .cons _ (.cons _ _) => exact .mismatch
    | _, _, .cons hchild .nil => exact reduce_alike hchild
  | _ => exact .mismatch

end
end Evaluation
end Reckon
