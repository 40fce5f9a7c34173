/-
One step down a tree.

What a node comes to, given what its children come to, and what can be told of
the steps from their outcome.
-/
import Reckon.Evaluation.Reduce
import Reckon.Proofs.Subtrees

namespace Reckon

/-! ## What an outcome goes back to -/

theorem exists_of_bind_eq_ok {r : Except Fault α} {f : α → Except Fault β} {y : β}
    (h : r >>= f = .ok y) : ∃ x, r = .ok x ∧ f x = .ok y := by
  cases r with
  | error _ => cases h
  | ok x => exact ⟨x, rfl, h⟩

theorem exists_of_map_eq_ok {r : Except Fault α} {f : α → β} {y : β} (h : f <$> r = .ok y) :
    ∃ x, r = .ok x ∧ f x = y := by
  cases r with
  | error _ => cases h
  | ok x => exact ⟨x, rfl, Except.ok.inj h⟩

theorem eq_error_of_map {r : Except Fault α} {f : α → β} {fault : Fault}
    (h : f <$> r = .error fault) : r = .error fault := by
  cases r with
  | error _ => exact congrArg _ (Except.error.inj h)
  | ok _ => cases h

theorem eq_ok_of_place {p : Nat} {r : Except Refusal α} {x : α}
    (h : Evaluation.place p r = .ok x) : r = .ok x := by
  cases r with
  | error _ => cases h
  | ok y => exact congrArg _ (Except.ok.inj h)

theorem eq_ok_of_mapError {r : Except Fault α} {f : Fault → Fault} {x : α}
    (h : r.mapError f = .ok x) : r = .ok x := by
  cases r with
  | error _ => cases h
  | ok y => exact congrArg _ (Except.ok.inj h)

/-! ## Nodes -/

theorem Rule.operation?_eq_some {rule : Rule} {op : Operation} :
    rule.operation? = some op ↔ rule = .operator op := by
  cases rule <;> simp [operation?]

theorem Function.ofName?_eq_some {s : Text} {f : Function} : ofName? s = some f ↔ f.name = s := by
  constructor
  · exact name_of_ofName?
  · rintro rfl
    exact ofName?_name f

/-- The constructs that have a value.  A node of any other rule counts only for
what is around it. -/
def Rule.hasValue : Rule → Bool
  | expression | term | group | functionCall | number => true
  | equation | functionName | operator _ | unaryMinus | endOfInput => false

namespace Evaluation

variable {α : Type} {A : Arithmetic α}

theorem reduce_of_not_hasValue {n : Node} (h : n.rule.hasValue = false) :
    reduce A n = noHandler n := by
  obtain ⟨rule, text, start, stop, children⟩ := n
  cases rule with
  | expression | term | group | functionCall | number => cases h
  | equation | functionName | operator op | unaryMinus | endOfInput =>
    simp only [reduce]
    rfl

theorem hasValue_of_reduce {n : Node} {x : α} (h : reduce A n = .ok x) :
    n.rule.hasValue = true := by
  refine Bool.of_not_eq_false fun hno => ?_
  rw [reduce_of_not_hasValue hno] at h
  cases h

theorem function_eq_ok {name : Text} {f : Function} : function name = .ok f ↔ f.name = name := by
  rw [← Function.ofName?_eq_some, function]
  cases Function.ofName? name <;> simp

theorem reduce_number {n : Node} (h : n.rule = .number) :
    reduce A n = place n.start (A.literal n.text) := by
  obtain ⟨rule, text, start, stop, children⟩ := n
  obtain rfl : rule = .number := h
  simp only [reduce]

theorem reduce_group {n body : Node} (h : n.rule = .group) (hchildren : n.children = [body])
    (hbody : body.rule = .expression) : reduce A n = reduce A body := by
  obtain ⟨rule, text, start, stop, children⟩ := n
  obtain rfl : rule = .group := h
  obtain rfl : children = [body] := hchildren
  simp only [reduce, if_pos hbody]

theorem reduce_call {n name argument : Node} {f : Function} (h : n.rule = .functionCall)
    (hchildren : n.children = [name, argument]) (hname : name.rule = .functionName)
    (hargument : argument.rule = .expression) (hf : f.name = name.text) :
    reduce A n = reduce A argument >>= fun x => place n.start (A.call f x) := by
  obtain ⟨rule, text, start, stop, children⟩ := n
  obtain rfl : rule = .functionCall := h
  obtain rfl : children = [name, argument] := hchildren
  simp only [reduce, if_pos (And.intro hname hargument), function_eq_ok.mpr hf]
  rfl

theorem reduce_single {n child : Node} (h : n.IsRow) (hchildren : n.children = [child]) :
    reduce A n = reduce A child := by
  obtain ⟨rule, text, start, stop, children⟩ := n
  obtain rfl : children = [child] := hchildren
  rcases h with h | h
  · obtain rfl : rule = .expression := h
    simp only [reduce]
  · obtain rfl : rule = .term := h
    simp only [reduce]

theorem reduce_row {n : Node} (h : n.IsRow) (hchildren : ∀ child, n.children ≠ [child]) :
    reduce A n = row A (items A n.children) := by
  obtain ⟨rule, text, start, stop, children⟩ := n
  match children with
  | [child] => exact absurd rfl (hchildren child)
  | [] | _ :: _ :: _ =>
    rcases h with h | h
    · obtain rfl : rule = .expression := h
      simp only [reduce]
    · obtain rfl : rule = .term := h
      simp only [reduce]

end Evaluation
end Reckon
