/-
What the outcome of a tree depends on.

Two trees of one shape that have the same rules, literals and names of functions
have the same value, or none for the same reason and at the same node.  All
other texts and all offsets may differ, and so may whatever hangs below a token.
-/
import Reckon.Calculator
import Reckon.Proofs.Alongside

namespace Reckon

open Node Evaluation

theorem Calculator.evaluateTree_alike {F : Fault → Fault → Prop} {root root' : Node}
    (settings : Settings)
    (h : ∀ {α : Type} (A : Arithmetic α), root.Matches (NodesAlike A A Eq F) root') :
    Alike Eq F (evaluateTree settings root) (evaluateTree settings root') := by
  unfold evaluateTree
  split
  · exact (evaluate_alike (h _)).map fun _ _ hxy => congrArg _ hxy
  · exact (evaluate_alike (h _)).map fun _ _ hxy => congrArg _ hxy

/-! ## Below tokens -/

/-- The rules of tokens.  Evaluating never looks below a node of one. -/
def Rule.isToken : Rule → Bool
  | number | functionName | operator _ | unaryMinus => true
  | equation | expression | term | group | functionCall | endOfInput => false

namespace Node

mutual

/-- The tree without the nodes that hang below tokens. -/
def pruned : Node → Node
  | ⟨rule, text, start, stop, children⟩ =>
    ⟨rule, text, start, stop, if rule.isToken then [] else prunedAll children⟩

def prunedAll : List Node → List Node
  | [] => []
  | n :: ns => pruned n :: prunedAll ns

end

@[simp] theorem rule_pruned (n : Node) : n.pruned.rule = n.rule := by
  cases n
  rfl

@[simp] theorem text_pruned (n : Node) : n.pruned.text = n.text := by
  cases n
  rfl

@[simp] theorem start_pruned (n : Node) : n.pruned.start = n.start := by
  cases n
  rfl

end Node

namespace Evaluation

variable {α : Type} (A : Arithmetic α)

/-- A node is told from the items of its children, and a call from the name of its
function too. -/
theorem reduce_pruned_of_items {n : Node}
    (h : items A (prunedAll n.children) = items A n.children) : reduce A n.pruned = reduce A n := by
  obtain ⟨rule, text, start, stop, children⟩ := n
  cases rule with
  | number | equation | functionName | operator op | unaryMinus | endOfInput =>
    simp only [pruned, reduce]
  | group =>
    rcases children with _ | ⟨child, _ | _⟩
    · simp [pruned, prunedAll, reduce, Rule.isToken]
    · simp only [prunedAll, items, List.cons.injEq, Item.mk.injEq] at h
      simp [pruned, prunedAll, reduce, Rule.isToken, h]
    · simp [pruned, prunedAll, reduce, Rule.isToken]
  | functionCall =>
    rcases children with _ | ⟨name, _ | ⟨argument, _ | _⟩⟩
    · simp [pruned, prunedAll, reduce, Rule.isToken]
    · simp [pruned, prunedAll, reduce, Rule.isToken]
    · simp only [prunedAll, items, List.cons.injEq, Item.mk.injEq] at h
      simp [pruned, prunedAll, reduce, Rule.isToken, h]
    · simp [pruned, prunedAll, reduce, Rule.isToken]
  | expression | term =>
    rcases children with _ | ⟨child, _ | _⟩
    · simp [pruned, prunedAll, reduce, Rule.isToken]
    · simp only [prunedAll, items, List.cons.injEq, Item.mk.injEq] at h
      simp [pruned, prunedAll, reduce, Rule.isToken, h]
    · simp only [pruned, prunedAll, reduce, Rule.isToken] at h ⊢
      exact congrArg _ h

mutual

theorem reduce_pruned (n : Node) : reduce A n.pruned = reduce A n := by
  obtain ⟨rule, text, start, stop, children⟩ := n
  exact reduce_pruned_of_items A (items_prunedAll children)

theorem items_prunedAll (ns : List Node) : items A (prunedAll ns) = items A ns := by
  match ns with
  | [] => rfl
  | n :: ns =>
    rw [prunedAll, items, items, reduce_pruned n, items_prunedAll ns, rule_pruned, start_pruned]

end

theorem evaluate_pruned (root : Node) : evaluate A root.pruned = evaluate A root := by
  obtain ⟨rule, text, start, stop, children⟩ := root
  cases rule with
  | equation =>
    rcases children with _ | ⟨child, _ | _⟩
    · rfl
    · exact reduce_pruned A child
    · rfl
  | _ => rfl

end Evaluation

theorem Calculator.evaluateTree_pruned (settings : Settings) (root : Node) :
    evaluateTree settings root.pruned = evaluateTree settings root := by
  unfold evaluateTree
  simp only [evaluate_pruned]

/-! ## Trees that resemble each other -/

/-- The same refusal, where the nodes of one place begin. -/
inductive SameRefusal (root root' : Node) : Fault → Fault → Prop
  | refused {refusal : Refusal} {n m : Node} : SamePlace root root' n m →
      SameRefusal root root' (.refused refusal n.start) (.refused refusal m.start)

theorem Node.Matches.nodesAlike {root root' : Node} (h : root.Matches Resembles root')
    {α : Type} (A : Arithmetic α) :
    root.Matches (NodesAlike A A Eq (SameRefusal root root')) root' :=
  h.samePlace.imp fun _ _ hnm => nodesAlike_of_resembles A hnm.1 fun _ _ => .refused hnm.2

theorem SameRefusal.failure? {root root' : Node} {f g : Fault} (h : SameRefusal root root' f g)
    (expression : Text) :
    (f.failure? expression).map (fun e => (e.kind, e.message)) =
      (g.failure? expression).map fun e => (e.kind, e.message) := by
  cases h with
  | @refused refusal _ _ _ => cases refusal <;> rfl

/-- The outcome of a tree depends on its shape, its rules and the texts of its
numbers and names of functions.  Only the place of a refusal is that of the tree
itself.  What hangs below a token does not count at all. -/
theorem evaluateTree_depends (settings : Settings) (root root' : Node) :
    (root.Matches Resembles root' →
      Alike Eq (SameRefusal root root') (Calculator.evaluateTree settings root)
        (Calculator.evaluateTree settings root') ∧
      ∀ fault fault', Calculator.evaluateTree settings root = .error fault →
        Calculator.evaluateTree settings root' = .error fault' →
        ∀ expression,
          (fault.failure? expression).map (fun e => (e.kind, e.message)) =
            (fault'.failure? expression).map fun e => (e.kind, e.message)) ∧
    (root.pruned = root'.pruned →
      Calculator.evaluateTree settings root = Calculator.evaluateTree settings root') := by
  refine ⟨fun h => ?_, fun h => ?_⟩
  · have halike := Calculator.evaluateTree_alike settings h.nodesAlike
    refine ⟨halike, fun fault fault' hf hf' expression => ?_⟩
    rw [hf, hf'] at halike
    cases halike with
    | fault h => exact h.failure? expression
    | mismatch => rfl
  · rw [← Calculator.evaluateTree_pruned, h, Calculator.evaluateTree_pruned]

/-- The quotient of 7 and 0, whose operator is at an offset and has something
below it. -/
def Node.sevenByZero (position : Nat) (below : List Node) : Node :=
  ⟨.equation, [], 0, 0, [⟨.term, [], 0, 0, [⟨.number, ['7'], 0, 0, []⟩,
    ⟨.operator .divide, [], position, 0, below⟩, ⟨.number, ['0'], 0, 0, []⟩]⟩]⟩

theorem evaluateTree_sevenByZero :
    Alike Eq (SameRefusal (sevenByZero 1 []) (sevenByZero 4 []))
      (Calculator.evaluateTree { mode := .int32 } (sevenByZero 1 []))
      (Calculator.evaluateTree { mode := .int32 } (sevenByZero 4 [])) ∧
    Calculator.evaluateTree { mode := .int32 } (sevenByZero 1 []) =
      Calculator.evaluateTree { mode := .int32 } (sevenByZero 1 [sevenByZero 1 []]) := by
  have hmatches : (sevenByZero 1 []).Matches Resembles (sevenByZero 4 []) := by
    simp only [sevenByZero, Matches, MatchAll, and_true]
    exact ⟨⟨rfl, by decide⟩, ⟨rfl, by decide⟩, ⟨rfl, by decide⟩, ⟨rfl, by decide⟩, ⟨rfl, by decide⟩⟩
  obtain ⟨hresembling, _⟩ :=
    evaluateTree_depends { mode := .int32 } (sevenByZero 1 []) (sevenByZero 4 [])
  obtain ⟨_, hpruned⟩ := evaluateTree_depends { mode := .int32 } (sevenByZero 1 [])
    (sevenByZero 1 [sevenByZero 1 []])
  exact ⟨(hresembling hmatches).1, hpruned rfl⟩

end Reckon
