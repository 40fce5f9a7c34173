/-
The same expression in another place.

What stands in a part of a text is read there as it would be read alone, at
other offsets.  Evaluating does not look at offsets except to say where a fault
is, so the value is the same, and a fault is the same fault elsewhere.
-/
import Reckon.Proofs.Alongside
import Reckon.Proofs.Spans

namespace Reckon

/-! ## Values and faults -/

/-- The same fault at another offset. -/
def Fault.relocate (g : Nat → Nat) : Fault → Fault
  | unexpected position expected => .unexpected (g position) expected
  | tooDeep limit position => .tooDeep limit (g position)
  | refused refusal position => .refused refusal (g position)
  | inconsistent mismatch => .inconsistent mismatch

namespace Evaluation

variable {α : Type} {A : Arithmetic α} {g : Nat → Nat}

theorem Alike.eq_mapError {r s : Except Fault α}
    (h : Alike Eq (fun f f' => f' = f.relocate g) r s) : s = r.mapError (Fault.relocate g) := by
  cases h with
  | value hxy => exact congrArg Except.ok hxy.symm
  | fault hfault => exact congrArg Except.error hfault
  | mismatch => rfl

theorem nodesAlike_relocate (n : Node) :
    NodesAlike A A Eq (fun f f' => f' = f.relocate g) n (n.relocate g) := by
  obtain ⟨rule, text, start, stop, children⟩ := n
  exact nodesAlike_of_resembles A ⟨rfl, fun _ => rfl⟩ fun _ _ => rfl

theorem reduce_relocate (A : Arithmetic α) (g : Nat → Nat) (n : Node) :
    reduce A (n.relocate g) = (reduce A n).mapError (Fault.relocate g) :=
  (reduce_alike (Node.matches_relocate nodesAlike_relocate n)).eq_mapError

end Evaluation

/-! ## Cursors further on in a longer text -/

/-- The cursor in a text that goes on with `more`, and begins `k` characters
earlier. -/
def Cursor.within (c : Cursor) (k : Nat) (more : Text) : Cursor :=
  { pos := c.pos + k, rest := c.rest ++ more }

namespace Cursor

variable {c d : Cursor} {s : Text} {k : Nat} {more : Text}

theorem skipBlanks_within (h : c.skipBlanks.rest ≠ []) :
    (c.within k more).skipBlanks = c.skipBlanks.within k more := by
  obtain ⟨gap, hgap, hrest, hpos⟩ := c.exists_gap
  have hhead : ∀ x rest, c.skipBlanks.rest ++ more = x :: rest → Text.isBlank x = false := by
    intro x rest hx
    obtain ⟨y, ys, hy⟩ := List.exists_cons_of_ne_nil h
    rw [hy, List.cons_append] at hx
    obtain rfl : y = x := (List.cons.inj hx).1
    exact isBlank_head_skipBlanks hy
  rw [within, hrest, List.append_assoc, skipBlanks_of_gap (c.pos + k) hgap hhead, within, hpos,
    Nat.add_right_comm]

theorem Takes.rest_ne_nil (h : c.Takes s d) (hs : s ≠ []) : c.skipBlanks.rest ≠ [] := by
  rw [h.rest]
  exact List.append_ne_nil_of_left_ne_nil hs _

theorem Takes.within (h : c.Takes s d) (hs : s ≠ []) :
    (c.within k more).Takes s (d.within k more) := by
  have hskip := @skipBlanks_within c k more (h.rest_ne_nil hs)
  refine ⟨?_, ?_⟩
  · rw [hskip, Cursor.within, h.rest, List.append_assoc]
    exact List.prefix_append _ _
  · rw [hskip, advance, Cursor.within, Cursor.within, h.rest, List.append_assoc, List.drop_left,
      h.pos, Nat.add_right_comm]

end Cursor

theorem Cursor.node_within {c d : Cursor} (h : c.skipBlanks.rest ≠ [])
    (htotal : d.total = c.total) (k : Nat) (more : Text) (rule : Rule) (children : List Node) :
    (c.skipBlanks.node rule d children).relocate (· + k) =
      (c.within k more).skipBlanks.node rule (d.within k more)
        (children.map (Node.relocate (· + k))) := by
  have hle : d.pos - c.skipBlanks.pos ≤ c.skipBlanks.rest.length := by
    have := c.total_skipBlanks
    unfold Cursor.total at this htotal
    omega
  rw [Cursor.skipBlanks_within h]
  simp only [Cursor.node, Cursor.within, Node.relocate, Node.relocateAll_eq_map,
    Nat.add_sub_add_right, List.take_append_of_le_length hle]

/-! ## Spans further on in a longer text -/

namespace Spans

variable {room : Nat} {p : Part} {c d : Cursor} {ns : List Node} {xs : List Lexeme}

theorem rest_ne_nil (h : Spans room p c ns xs d) (hp : ∀ l, p ≠ .tail l) :
    c.skipBlanks.rest ≠ [] := by
  induction h with
  | number hdigits htakes => exact htakes.rest_ne_nil (Label.Spells.ne_nil (l := .number) hdigits)
  | group hopen _ _ _ => exact hopen.rest_ne_nil (List.cons_ne_nil _ _)
  | call f hname _ _ _ _ => exact hname.rest_ne_nil (Token.name_ne_nil f)
  | plain _ ih => exact ih nofun
  | minus hminus _ _ => exact hminus.rest_ne_nil (List.cons_ne_nil _ _)
  | done l => exact absurd rfl (hp l)
  | more _ _ _ _ _ _ _ => exact absurd rfl (hp _)
  | @row _ l _ _ _ _ _ _ _ _ _ ihfirst _ =>
    have hne := ihfirst (by cases l <;> exact nofun)
    rwa [Cursor.skipBlanks_skipBlanks] at hne

theorem within (h : Spans room p c ns xs d) (k : Nat) (more : Text) :
    Spans room p (c.within k more) (ns.map (Node.relocate (· + k))) xs (d.within k more) := by
  induction h with
  | number hdigits htakes =>
    have hne := Label.Spells.ne_nil (l := .number) hdigits
    rw [List.map_singleton, Cursor.node_within (htakes.rest_ne_nil hne) htakes.total k more]
    exact .number hdigits (htakes.within hne)
  | group hopen hbody hclose ih =>
    have hne := hopen.rest_ne_nil (List.cons_ne_nil _ _)
    have htotal := (Spans.group hopen hbody hclose).total
    rw [List.map_singleton, Cursor.node_within hne htotal k more]
    exact .group (hopen.within (List.cons_ne_nil _ _)) ih (hclose.within (List.cons_ne_nil _ _))
  | call f hname hopen hbody hclose ih =>
    have hne := Token.name_ne_nil f
    have htotal := (Spans.call f hname hopen hbody hclose).total
    rw [List.map_singleton, Cursor.node_within (hname.rest_ne_nil hne) htotal k more, List.map_cons,
      Cursor.node_within (hname.rest_ne_nil hne) hname.total k more]
    exact .call f (hname.within hne) (hopen.within (List.cons_ne_nil _ _)) ih
      (hclose.within (List.cons_ne_nil _ _))
  | plain _ ih => exact .plain ih
  | minus hminus _ ih =>
    have hne := List.cons_ne_nil '-' []
    rw [List.map_cons, Cursor.node_within (hminus.rest_ne_nil hne) hminus.total k more]
    exact .minus (hminus.within hne) ih
  | done l => exact .done l
  | more hop hs hsign _ _ ihfirst ihtail =>
    have hne := Operation.spellings_ne_nil hs
    rw [List.map_cons, List.map_append,
      Cursor.node_within (hsign.rest_ne_nil hne) hsign.total k more]
    exact .more hop hs (hsign.within hne) ihfirst ihtail
  | @row _ l c _ d _ _ _ _ hfirst htail ihfirst ihtail =>
    have hne := (Spans.row hfirst htail).rest_ne_nil nofun
    have htotal := (Spans.row hfirst htail).total
    rw [List.map_singleton, Cursor.node_within hne htotal k more, List.map_append]
    rw [← Cursor.skipBlanks_within hne] at ihfirst
    exact .row ihfirst ihtail

end Spans
end Reckon
