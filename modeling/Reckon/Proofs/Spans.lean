/-
Derivations in a text.

A span is a derivation whose lexemes are read from a text one after another, so
its nodes have places.  Forgetting the places leaves the derivation.
-/
import Reckon.Proofs.Scan

namespace Reckon

/-- The nodes that a part adds to the construct around it when it is read from
one cursor up to another, with parentheses nested at most `room` levels deep. -/
inductive Spans : Nat → Part → Cursor → List Node → List Lexeme → Cursor → Prop
  | number {room : Nat} {c d : Cursor} {digits : Text} (h : Text.IsNumeral digits) :
      c.Takes digits d →
      Spans room .primary c [c.skipBlanks.node .number d []] [.number digits h] d
  | group {room : Nat} {c c₁ c₂ d : Cursor} {body : Node} {xs : List Lexeme} :
      c.Takes ['('] c₁ → Spans room (.row .expression) c₁ [body] xs c₂ → c₂.Takes [')'] d →
      Spans (room + 1) .primary c [c.skipBlanks.node .group d [body]]
        (.openParen :: (xs ++ [.closeParen])) d
  | call {room : Nat} {c c₁ c₂ c₃ d : Cursor} {body : Node} {xs : List Lexeme} (f : Function) :
      c.Takes f.name c₁ → c₁.Takes ['('] c₂ →
      Spans room (.row .expression) c₂ [body] xs c₃ → c₃.Takes [')'] d →
      Spans (room + 1) .primary c
        [c.skipBlanks.node .functionCall d [c.skipBlanks.node .functionName c₁ [], body]]
        (.functionName f :: .openParen :: (xs ++ [.closeParen])) d
  | plain {room : Nat} {c d : Cursor} {ns : List Node} {xs : List Lexeme} :
      Spans room .primary c ns xs d → Spans room .unary c ns xs d
  | minus {room : Nat} {c c₁ d : Cursor} {ns : List Node} {xs : List Lexeme} :
      c.Takes ['-'] c₁ → Spans room .primary c₁ ns xs d →
      Spans room .unary c (c.skipBlanks.node .unaryMinus c₁ [] :: ns) (.unaryMinus :: xs) d
  | done {room : Nat} {c : Cursor} (l : Layer) : Spans room (.tail l) c [] [] c
  | more {room : Nat} {l : Layer} {op : Operation} {spelling : Text} {c c₁ c₂ d : Cursor}
      {ns ms : List Node} {xs ys : List Lexeme} (hop : op ∈ l.operators)
      (hs : spelling ∈ op.spellings) :
      c.Takes spelling c₁ → Spans room l.operand c₁ ns xs c₂ → Spans room (.tail l) c₂ ms ys d →
      Spans room (.tail l) c (c.skipBlanks.node (.operator op) c₁ [] :: (ns ++ ms))
        (.operator op spelling hs :: (xs ++ ys)) d
  | row {room : Nat} {l : Layer} {c c₁ d : Cursor} {ns ms : List Node} {xs ys : List Lexeme} :
      Spans room l.operand c.skipBlanks ns xs c₁ → Spans room (.tail l) c₁ ms ys d →
      Spans room (.row l) c [c.skipBlanks.node l.rule d (ns ++ ms)] (xs ++ ys) d

namespace Spans

theorem of_skipBlanks {room : Nat} {p : Part} {c d : Cursor} {ns : List Node} {xs : List Lexeme}
    (h : Spans room p c.skipBlanks ns xs d) (hp : ∀ l, p ≠ .tail l) : Spans room p c ns xs d := by
  generalize hc : c.skipBlanks = c' at h
  induction h generalizing c with
  | number hdigits htakes =>
    subst hc
    simpa using number hdigits (Cursor.takes_skipBlanks.mp htakes)
  | group hopen hbody hclose _ =>
    subst hc
    simpa using group (Cursor.takes_skipBlanks.mp hopen) hbody hclose
  | call f hname hopen hbody hclose _ =>
    subst hc
    simpa using call f (Cursor.takes_skipBlanks.mp hname) hopen hbody hclose
  | plain _ ih => exact plain (ih (by simp) hc)
  | minus hminus hoperand _ =>
    subst hc
    simpa using minus (Cursor.takes_skipBlanks.mp hminus) hoperand
  | done l => exact absurd rfl (hp l)
  | more _ _ _ _ _ _ _ => exact absurd rfl (hp _)
  | row hfirst htail _ _ =>
    subst hc
    simpa using row (by simpa using hfirst) htail

end Spans

/-! ## What is left of the text -/

theorem Cursor.Takes.suffix {c d : Cursor} {s : Text} (h : c.Takes s d) : d.rest <:+ c.rest := by
  obtain ⟨gap, _, hrest, _⟩ := c.exists_gap
  exact ⟨gap ++ s, by rw [hrest, h.rest, List.append_assoc]⟩

theorem Spans.suffix {room : Nat} {p : Part} {c d : Cursor} {ns : List Node} {xs : List Lexeme}
    (h : Spans room p c ns xs d) : d.rest <:+ c.rest := by
  induction h with
  | number _ htakes => exact htakes.suffix
  | group hopen _ hclose ih => exact hclose.suffix.trans (ih.trans hopen.suffix)
  | call _ hname hopen _ hclose ih =>
    exact hclose.suffix.trans (ih.trans (hopen.suffix.trans hname.suffix))
  | plain _ ih => exact ih
  | minus hminus _ ih => exact ih.trans hminus.suffix
  | done => exact List.suffix_refl _
  | more _ _ hsign _ _ ihfirst ihtail => exact ihtail.trans (ihfirst.trans hsign.suffix)
  | @row room l c c₁ d ns ms xs ys _ _ ihfirst ihtail =>
    obtain ⟨gap, _, hrest, _⟩ := c.exists_gap
    exact ihtail.trans (ihfirst.trans ⟨gap, hrest.symm⟩)

theorem Spans.total {room : Nat} {p : Part} {c d : Cursor} {ns : List Node} {xs : List Lexeme}
    (h : Spans room p c ns xs d) : d.total = c.total := by
  induction h with
  | number _ htakes => exact htakes.total
  | group hopen _ hclose ih => rw [hclose.total, ih, hopen.total]
  | call _ hname hopen _ hclose ih => rw [hclose.total, ih, hopen.total, hname.total]
  | plain _ ih => exact ih
  | minus hminus _ ih => rw [ih, hminus.total]
  | done => rfl
  | more _ _ hsign _ _ ihfirst ihtail => rw [ihtail, ihfirst, hsign.total]
  | @row room l c c₁ d ns ms xs ys _ _ ihfirst ihtail => rw [ihtail, ihfirst, c.total_skipBlanks]

theorem Spans.rule_of_row {room : Nat} {l : Layer} {c d : Cursor} {n : Node} {xs : List Lexeme}
    (h : Spans room (.row l) c [n] xs d) : n.rule = l.rule := by
  cases h
  rfl

/-! ## Forgetting the places -/

theorem Cursor.Takes.take_rest {c d : Cursor} {s : Text} (h : c.Takes s d) :
    c.skipBlanks.rest.take (d.pos - c.skipBlanks.pos) = s := by
  rw [h.pos, Nat.add_sub_cancel_left, h.rest, List.take_left]

theorem Node.shape_leaf {c d : Cursor} {s : Text} (r : Rule) (h : c.Takes s d) :
    (c.skipBlanks.node r d []).shape = .leaf r s := by
  simp [Cursor.node, shape, h.take_rest]

theorem Node.shape_branch {start stop : Cursor} {r : Rule} {n : Node} {ns : List Node} :
    (start.node r stop (n :: ns)).shape = .branch r ((n :: ns).map shape) := by
  simp [Cursor.node, shape, shapes_eq_map]

theorem Derives.ne_nil {l : Layer} {ts : List Tree} {xs : List Lexeme}
    (h : Derives l.operand ts xs) : ts ≠ [] := by
  cases l with
  | term =>
    cases h with
    | plain h => cases h <;> simp
    | minus h => simp
  | expression => cases h; simp

namespace Spans

theorem derives {room : Nat} {p : Part} {c d : Cursor} {ns : List Node} {xs : List Lexeme}
    (h : Spans room p c ns xs d) : Derives p (ns.map Node.shape) xs := by
  induction h with
  | number hdigits htakes =>
    simpa [Node.shape_leaf _ htakes] using Derives.number _ hdigits
  | group _ _ _ ih => simpa [Node.shape_branch] using Derives.group ih
  | call f hname _ _ _ ih =>
    simpa [Node.shape_branch, Node.shape_leaf _ hname] using Derives.call f ih
  | plain _ ih => exact .plain ih
  | minus hminus _ ih => simpa [Node.shape_leaf _ hminus] using Derives.minus ih
  | done l => exact .done l
  | more hop hs hsign _ _ ihfirst ihtail =>
    simpa [Node.shape_leaf _ hsign] using Derives.more hop hs ihfirst ihtail
  | @row room l c c₁ d ns ms xs ys _ _ ihfirst ihtail =>
    have hne := ihfirst.ne_nil
    cases ns with
    | nil => exact absurd rfl hne
    | cons n ns => simpa [Node.shape_branch] using Derives.row ihfirst ihtail

theorem nestings_le {room : Nat} {p : Part} {c d : Cursor} {ns : List Node} {xs : List Lexeme}
    (h : Spans room p c ns xs d) : Tree.nestings (ns.map Node.shape) ≤ room := by
  induction h with
  | number _ htakes => simp [Node.shape_leaf _ htakes, Tree.nestings, Tree.nesting]
  | group _ _ _ ih =>
    simpa [Node.shape_branch, Tree.nestings, Tree.nesting] using ih
  | call f hname _ _ _ ih =>
    simpa [Node.shape_branch, Node.shape_leaf _ hname, Tree.nestings, Tree.nesting] using ih
  | plain _ ih => exact ih
  | minus hminus _ ih =>
    simpa [Node.shape_leaf _ hminus, Tree.nestings, Tree.nesting] using ih
  | done l => simp [Tree.nestings]
  | more _ _ hsign _ _ ihfirst ihtail =>
    simp only [List.map_cons, List.map_append, Node.shape_leaf _ hsign, Tree.nestings,
      Tree.nestings_append, Tree.nesting]
    omega
  | @row room l c c₁ d ns ms xs ys hfirst _ ihfirst ihtail =>
    have hne := hfirst.derives.ne_nil
    cases ns with
    | nil => exact absurd rfl hne
    | cons n ns =>
      have hrule : ¬ (l.rule = .group ∨ l.rule = .functionCall) := by cases l <;> decide
      simp only [List.map_cons, List.map_nil, List.cons_append, Node.shape_branch, Tree.nestings,
        Tree.nesting, if_neg hrule, List.map_append, Tree.nestings_append] at ihfirst ihtail ⊢
      omega

end Spans
end Reckon
