/-
The nodes of a tree.

A fact about a whole tree is a fact about each of its nodes.  A fact about two
trees of one shape is one about the pairs of nodes that stand in the same place.
-/
import Mathlib.Data.List.Forall2
import Reckon.Node

namespace Reckon
namespace Node

/-- An expression or a term, whose children are a row. -/
def IsRow (n : Node) : Prop :=
  n.rule = .expression ∨ n.rule = .term

/-! ## All nodes of a tree -/

mutual

/-- A node and all nodes below it, each before its children. -/
def preorder : Node → List Node
  | ⟨rule, text, start, stop, children⟩ =>
    ⟨rule, text, start, stop, children⟩ :: preorders children

def preorders : List Node → List Node
  | [] => []
  | n :: ns => preorder n ++ preorders ns

end

theorem preorder_eq (n : Node) : n.preorder = n :: preorders n.children := by
  cases n
  rfl

theorem mem_preorder_self (n : Node) : n ∈ n.preorder := by
  rw [preorder_eq]
  exact List.mem_cons_self

theorem preorders_eq_flatMap (ns : List Node) : preorders ns = ns.flatMap preorder := by
  induction ns with
  | nil => rfl
  | cons n ns ih => rw [preorders, ih, List.flatMap_cons]

theorem preorders_append (ns ms : List Node) :
    preorders (ns ++ ms) = preorders ns ++ preorders ms := by
  rw [preorders_eq_flatMap, preorders_eq_flatMap, preorders_eq_flatMap, List.flatMap_append]

/-- A fact about the nodes of several trees, taken apart at the first tree. -/
theorem forall_mem_preorders_cons {P : Node → Prop} {n : Node} {ns : List Node} :
    (∀ m ∈ preorders (n :: ns), P m) ↔
      P n ∧ (∀ m ∈ preorders n.children, P m) ∧ ∀ m ∈ preorders ns, P m := by
  rw [preorders, preorder_eq, List.forall_mem_append, List.forall_mem_cons, and_assoc]

/-! ## Two trees of one shape -/

mutual

/-- Two trees have the same shape, and the nodes in the same place are related. -/
def Matches (S : Node → Node → Prop) : Node → Node → Prop
  | ⟨rule, text, start, stop, children⟩, m =>
    S ⟨rule, text, start, stop, children⟩ m ∧ MatchAll S children m.children

def MatchAll (S : Node → Node → Prop) : List Node → List Node → Prop
  | [], [] => True
  | n :: ns, m :: ms => Matches S n m ∧ MatchAll S ns ms
  | [], _ :: _ => False
  | _ :: _, [] => False

end

variable {S : Node → Node → Prop}

theorem matchAll_iff_forall₂ {ns ms : List Node} :
    MatchAll S ns ms ↔ List.Forall₂ (Matches S) ns ms := by
  induction ns generalizing ms with
  | nil => cases ms <;> simp [MatchAll]
  | cons n ns ih => cases ms <;> simp [MatchAll, ih]

theorem Matches.related {n m : Node} (h : n.Matches S m) : S n m := by
  cases n
  exact h.1

theorem Matches.children {n m : Node} (h : n.Matches S m) :
    List.Forall₂ (Matches S) n.children m.children := by
  cases n
  exact matchAll_iff_forall₂.mp h.2

mutual

theorem matches_self (n : Node) (h : ∀ m ∈ n.preorder, S m m) : n.Matches S n := by
  obtain ⟨rule, text, start, stop, children⟩ := n
  refine ⟨h _ (mem_preorder_self _), matchAll_self children fun m hm => h m ?_⟩
  rw [preorder_eq]
  exact List.mem_cons_of_mem _ hm

theorem matchAll_self (ns : List Node) (h : ∀ m ∈ preorders ns, S m m) : MatchAll S ns ns := by
  match ns with
  | [] => trivial
  | n :: ns =>
    refine ⟨matches_self n fun m hm => h m ?_, matchAll_self ns fun m hm => h m ?_⟩
    · exact List.mem_append_left _ hm
    · exact List.mem_append_right _ hm

end

mutual

theorem Matches.imp {S' : Node → Node → Prop} (himp : ∀ n m, S n m → S' n m) {n m : Node}
    (h : n.Matches S m) : n.Matches S' m := by
  obtain ⟨rule, text, start, stop, children⟩ := n
  exact ⟨himp _ _ h.1, h.2.imp himp⟩

theorem MatchAll.imp {S' : Node → Node → Prop} (himp : ∀ n m, S n m → S' n m)
    {ns ms : List Node} (h : MatchAll S ns ms) : MatchAll S' ns ms := by
  match ns, ms, h with
  | [], [], _ => trivial
  | _ :: _, _ :: _, h => exact ⟨h.1.imp himp, h.2.imp himp⟩

end

/-- Two nodes of one rule.  A number and a name of a function are the same
text. -/
structure Resembles (n m : Node) : Prop where
  rule : n.rule = m.rule
  text : n.rule = .number ∨ n.rule = .functionName → n.text = m.text

/-- The node that a path of child numbers leads to. -/
def at? : Node → List Nat → Option Node
  | n, [] => some n
  | n, i :: path => n.children[i]?.bind fun m => m.at? path

/-- Two nodes stand in the same place of two trees. -/
def SamePlace (root root' n m : Node) : Prop :=
  ∃ path, root.at? path = some n ∧ root'.at? path = some m

theorem SamePlace.self (n m : Node) : SamePlace n m n m :=
  ⟨[], rfl, rfl⟩

theorem SamePlace.below {root root' child child' n m : Node} {i : Nat}
    (h : SamePlace child child' n m) (hchild : root.children[i]? = some child)
    (hchild' : root'.children[i]? = some child') : SamePlace root root' n m := by
  obtain ⟨path, hn, hm⟩ := h
  refine ⟨i :: path, ?_, ?_⟩
  · rw [at?, hchild, Option.bind_some, hn]
  · rw [at?, hchild', Option.bind_some, hm]

/-- The same for two rows of trees. -/
def SamePlaceIn (ns ms : List Node) (n m : Node) : Prop :=
  ∃ (i : Nat) (child child' : Node), ns[i]? = some child ∧ ms[i]? = some child' ∧
    SamePlace child child' n m

mutual

theorem Matches.samePlace {n m : Node} (h : n.Matches S m) :
    n.Matches (fun a b => S a b ∧ SamePlace n m a b) m := by
  obtain ⟨rule, text, start, stop, children⟩ := n
  refine ⟨⟨h.1, .self _ m⟩, h.2.samePlace.imp fun a b hab => ?_⟩
  obtain ⟨hS, i, child, child', hchild, hchild', hplace⟩ := hab
  exact ⟨hS, hplace.below hchild hchild'⟩

theorem MatchAll.samePlace {ns ms : List Node} (h : MatchAll S ns ms) :
    MatchAll (fun a b => S a b ∧ SamePlaceIn ns ms a b) ns ms := by
  match ns, ms, h with
  | [], [], _ => trivial
  | n :: ns, m :: ms, h =>
    refine ⟨h.1.samePlace.imp fun a b hab => ?_, h.2.samePlace.imp fun a b hab => ?_⟩
    · exact ⟨hab.1, 0, n, m, rfl, rfl, hab.2⟩
    · obtain ⟨hS, i, child, child', hchild, hchild', hplace⟩ := hab
      exact ⟨hS, i + 1, child, child', hchild, hchild', hplace⟩

end

/-! ## Other places -/

mutual

/-- The same tree at other offsets. -/
def relocate (g : Nat → Nat) : Node → Node
  | ⟨rule, text, start, stop, children⟩ =>
    ⟨rule, text, g start, g stop, relocateAll g children⟩

def relocateAll (g : Nat → Nat) : List Node → List Node
  | [] => []
  | n :: ns => relocate g n :: relocateAll g ns

end

theorem relocateAll_eq_map (g : Nat → Nat) (ns : List Node) :
    relocateAll g ns = ns.map (relocate g) := by
  induction ns with
  | nil => rfl
  | cons n ns ih => rw [relocateAll, ih, List.map_cons]

@[simp] theorem rule_relocate (g : Nat → Nat) (n : Node) : (n.relocate g).rule = n.rule := by
  cases n
  rfl

theorem children_relocate (g : Nat → Nat) (n : Node) :
    (n.relocate g).children = n.children.map (relocate g) := by
  cases n
  exact relocateAll_eq_map g _

mutual

theorem matches_relocate {g : Nat → Nat} (h : ∀ m, S m (m.relocate g)) (n : Node) :
    n.Matches S (n.relocate g) := by
  obtain ⟨rule, text, start, stop, children⟩ := n
  exact ⟨h _, matchAll_relocateAll h children⟩

theorem matchAll_relocateAll {g : Nat → Nat} (h : ∀ m, S m (m.relocate g)) (ns : List Node) :
    MatchAll S ns (relocateAll g ns) := by
  match ns with
  | [] => trivial
  | n :: ns => exact ⟨matches_relocate h n, matchAll_relocateAll h ns⟩

end

end Node
end Reckon
