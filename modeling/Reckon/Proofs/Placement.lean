/-
One tree for a text, with its places.

A span is determined by the lexemes that it is read from, and these are
determined by the text.  So to find the tree of a text it is enough to give a
span of the text, in whatever way it was put together.
-/
import Reckon.Proofs.Limits
import Reckon.Proofs.Recognition

namespace Reckon

/-! ## The text of a span -/

/-- The characters from one cursor to another are a layout of the lexemes. -/
def Cursor.Lays (c : Cursor) (xs : List Lexeme) (d : Cursor) : Prop :=
  ∃ t, c.rest = t ++ d.rest ∧ Text.Layout xs t

namespace Cursor.Lays

variable {c d e : Cursor} {xs ys : List Lexeme}

theorem append (h : c.Lays xs d) (h' : d.Lays ys e) : c.Lays (xs ++ ys) e := by
  obtain ⟨t, ht, hlayout⟩ := h
  obtain ⟨t', ht', hlayout'⟩ := h'
  exact ⟨t ++ t', by rw [ht, ht', List.append_assoc], hlayout.append hlayout'⟩

theorem of_takes {x : Lexeme} (h : c.Takes x.text d) : c.Lays [x] d := by
  obtain ⟨gap, hgap, hrest, _⟩ := c.exists_gap
  refine ⟨gap ++ x.text ++ [], ?_, .next hgap (.done Text.isGap_nil)⟩
  rw [hrest, h.rest, List.append_nil, List.append_assoc]

theorem of_skipBlanks (h : c.skipBlanks.Lays xs d) : c.Lays xs d := by
  obtain ⟨gap, hgap, hrest, _⟩ := c.exists_gap
  obtain ⟨t, ht, hlayout⟩ := h
  exact ⟨gap ++ t, by rw [hrest, ht, List.append_assoc], hlayout.gap_append hgap⟩

end Cursor.Lays

theorem Spans.lays {room : Nat} {p : Part} {c d : Cursor} {ns : List Node} {xs : List Lexeme}
    (h : Spans room p c ns xs d) : c.Lays xs d := by
  induction h with
  | number hdigits htakes => exact .of_takes (x := .number _ hdigits) htakes
  | group hopen _ hclose ih =>
    exact (Cursor.Lays.of_takes (x := .openParen) hopen).append
      (ih.append (.of_takes (x := .closeParen) hclose))
  | call f hname hopen _ hclose ih =>
    exact (Cursor.Lays.of_takes (x := .functionName f) hname).append
      ((Cursor.Lays.of_takes (x := .openParen) hopen).append
        (ih.append (.of_takes (x := .closeParen) hclose)))
  | plain _ ih => exact ih
  | minus hminus _ ih => exact (Cursor.Lays.of_takes (x := .unaryMinus) hminus).append ih
  | done l => exact ⟨[], rfl, .done Text.isGap_nil⟩
  | more _ hs hsign _ _ ihfirst ihtail =>
    exact (Cursor.Lays.of_takes (x := .operator _ _ hs) hsign).append (ihfirst.append ihtail)
  | row _ _ ihfirst ihtail => exact (ihfirst.append ihtail).of_skipBlanks

/-! ## Spans are determined -/

theorem Cursor.Takes.unique {c d d' : Cursor} {s : Text} (h : c.Takes s d) (h' : c.Takes s d') :
    d = d' :=
  h.2.trans h'.2.symm

/-- The lexemes of a row tell where its first operand ends. -/
theorem Derives.append_inj {l : Layer} {ts us ts' us' : List Tree} {xs ys xs' ys' : List Lexeme}
    (hfirst : Derives l.operand ts xs) (htail : Derives (.tail l) us ys)
    (hfirst' : Derives l.operand ts' xs') (htail' : Derives (.tail l) us' ys')
    (h : xs ++ ys = xs' ++ ys') : xs = xs' ∧ ys = ys' := by
  have hends : (Part.tail l).EndsAt [] := Part.endsAt_nil _
  obtain ⟨_, _, hxs, hys, _⟩ := hfirst.determines.append htail.determines htail hfirst' htail'
    (congrArg (· ++ []) h) hends hends
  exact ⟨hxs, hys⟩

/-- Two spans of the same lexemes from one place are the same. -/
theorem Spans.unique {room room' : Nat} {p : Part} {c d d' : Cursor} {ns ms : List Node}
    {xs : List Lexeme} (h : Spans room p c ns xs d) (h' : Spans room' p c ms xs d') :
    ns = ms ∧ d = d' := by
  induction h generalizing room' ms d' with
  | number _ htakes =>
    cases h' with
    | number _ htakes' =>
      obtain rfl := htakes.unique htakes'
      exact ⟨rfl, rfl⟩
  | group hopen _ hclose ih =>
    generalize hxs : Lexeme.openParen :: _ = xs at h'
    cases h' with
    | group hopen' hbody' hclose' =>
      obtain rfl := hopen.unique hopen'
      obtain rfl := List.append_cancel_right (List.cons.inj hxs).2
      obtain ⟨hbody, rfl⟩ := ih hbody'
      obtain rfl := hclose.unique hclose'
      rw [hbody]
      exact ⟨rfl, rfl⟩
    | number _ _ | call _ _ _ _ _ =>
      exact absurd (congrArg Lexeme.label (List.cons.inj hxs).1) (by simp)
  | call f hname hopen _ hclose ih =>
    generalize hxs : Lexeme.functionName f :: _ = xs at h'
    cases h' with
    | call f' hname' hopen' hbody' hclose' =>
      obtain ⟨hf, hmore⟩ := List.cons.inj hxs
      obtain rfl := Function.name_injective (congrArg Lexeme.text hf)
      obtain rfl := hname.unique hname'
      obtain rfl := hopen.unique hopen'
      obtain rfl := List.append_cancel_right (List.cons.inj hmore).2
      obtain ⟨hbody, rfl⟩ := ih hbody'
      obtain rfl := hclose.unique hclose'
      obtain rfl := List.singleton_inj.mp hbody
      exact ⟨rfl, rfl⟩
    | number _ _ | group _ _ _ =>
      exact absurd (congrArg Lexeme.label (List.cons.inj hxs).1) (by simp)
  | plain hprimary ih =>
    cases h' with
    | plain hprimary' => exact ih hprimary'
    | minus _ _ =>
      obtain ⟨x, more, hx, hlabel⟩ := hprimary.derives.primary_head
      exact absurd (congrArg Lexeme.label (List.cons.inj hx).1).symm hlabel
  | minus hminus _ ih =>
    generalize hxs : Lexeme.unaryMinus :: _ = xs at h'
    cases h' with
    | plain hprimary' =>
      obtain ⟨x, more, hx, hlabel⟩ := hprimary'.derives.primary_head
      exact absurd (congrArg Lexeme.label (List.cons.inj (hxs.trans hx)).1).symm hlabel
    | minus hminus' hprimary' =>
      obtain rfl := hminus.unique hminus'
      obtain rfl := (List.cons.inj hxs).2
      obtain ⟨rfl, rfl⟩ := ih hprimary'
      exact ⟨rfl, rfl⟩
  | done l =>
    cases h' with
    | done => exact ⟨rfl, rfl⟩
  | @more _ _ op spelling _ _ _ _ _ _ xs ys _ hs hsign hfirst htail ihfirst ihtail =>
    generalize hxs : Lexeme.operator op spelling hs :: (xs ++ ys) = zs at h'
    cases h' with
    | done => cases hxs
    | more _ _ hsign' hfirst' htail' =>
      obtain ⟨hop, hmore⟩ := List.cons.inj hxs
      obtain rfl := Label.operator.inj (congrArg Lexeme.label hop)
      obtain rfl : spelling = _ := congrArg Lexeme.text hop
      obtain ⟨rfl, rfl⟩ := hfirst.derives.append_inj htail.derives hfirst'.derives
        htail'.derives hmore
      obtain rfl := hsign.unique hsign'
      obtain ⟨rfl, rfl⟩ := ihfirst hfirst'
      obtain ⟨rfl, rfl⟩ := ihtail htail'
      exact ⟨rfl, rfl⟩
  | @row _ _ _ _ _ _ _ xs ys hfirst htail ihfirst ihtail =>
    generalize hxs : xs ++ ys = zs at h'
    cases h' with
    | row hfirst' htail' =>
      obtain ⟨rfl, rfl⟩ := hfirst.derives.append_inj htail.derives hfirst'.derives
        htail'.derives hxs
      obtain ⟨rfl, rfl⟩ := ihfirst hfirst'
      obtain ⟨rfl, rfl⟩ := ihtail htail'
      exact ⟨rfl, rfl⟩

/-! ## The tree of a text -/

/-- A text in which the lexemes of an expression are laid out is recognized, by a
span of these lexemes. -/
theorem exists_spans_of_layout {limit : Int} {t : Text} {xs : List Lexeme}
    (hpath : Stage.Path limit.toNat .start xs .finish) (hlayout : Text.Layout xs t) :
    ∃ e d, recognize limit t =
        .ok { rule := .equation, text := t, start := 0, stop := t.length, children := [e] } ∧
      Spans limit.toNat (.row .expression) (.ofText t) [e] xs d := by
  have hrecognized := recognized limit t
  obtain ⟨root, hroot⟩ := hrecognized.exists_ok hpath hlayout
  rw [hroot] at hrecognized
  cases hrecognized with
  | @tree e xs' d hspans hrun hrest =>
    obtain ⟨u, hu, _, hlayout'⟩ := hrun.layout
    rw [hrest, List.append_nil] at hu
    obtain rfl : t = u := hu
    obtain ⟨rfl, _⟩ := hlayout.unique hpath hlayout' hrun.path
    exact ⟨e, d, hroot, hspans⟩

theorem Spans.path {room limit : Nat} {c d : Cursor} {ns : List Node} {xs : List Lexeme}
    (h : Spans room (.row .expression) c ns xs d) (hroom : room ≤ limit) :
    Stage.Path limit .start xs .finish :=
  h.derives.path rfl (by rw [Nat.zero_add]; exact Nat.le_trans h.nestings_le hroom)

/-- A text with a span from end to end is recognized, as the tree of the span. -/
theorem recognize_of_spans {limit : Int} {t : Text} {e : Node} {xs : List Lexeme} {d : Cursor}
    (h : Spans limit.toNat (.row .expression) (.ofText t) [e] xs d)
    (hd : d.skipBlanks.rest = []) :
    recognize limit t =
      .ok { rule := .equation, text := t, start := 0, stop := t.length, children := [e] } := by
  have hlayout : Text.Layout xs t := by
    obtain ⟨u, hu, hlayout⟩ := h.lays
    obtain ⟨gap, hgap, hgaprest, _⟩ := d.exists_gap
    rw [hd, List.append_nil] at hgaprest
    have := hlayout.append (.done hgap)
    rwa [List.append_nil, ← hgaprest, ← hu] at this
  obtain ⟨e', _, he', hspans⟩ := exists_spans_of_layout (h.path (Nat.le_refl _)) hlayout
  rw [he', (h.unique hspans).1]

/-- Whatever limit leaves room for a tree recognizes the same tree. -/
theorem recognize_of_nesting_le {limit limit' : Int} {t : Text} {root : Node}
    (h : recognize limit t = .ok root) (hle : (root.shape.nesting : Int) ≤ limit') :
    recognize limit' t = .ok root := by
  have htree := (h ▸ recognized limit t : Recognized limit t (.ok root)).isTreeOf.1
  obtain ⟨root', hroot'⟩ := (recognize_decides_grammar limit' t).1.mpr
    ⟨root.shape, htree, by omega⟩
  rcases Int.le_total limit limit' with hlimits | hlimits
  · rcases recognize_eq_or_tooDeep hlimits t with heq | ⟨p, hp⟩
    · exact heq.symm.trans h
    · cases h.symm.trans hp
  · rcases recognize_eq_or_tooDeep hlimits t with heq | ⟨p, hp⟩
    · exact heq.trans h
    · cases hroot'.symm.trans hp

theorem exists_recognized {limit : Int} {t : Text} {f : Node → β} {y : β}
    (h : (recognize limit t).toOption.map f = some y) :
    ∃ root, recognize limit t = .ok root ∧ f root = y := by
  cases hroot : recognize limit t with
  | error _ =>
    rw [hroot] at h
    cases h
  | ok root =>
    rw [hroot] at h
    exact ⟨root, rfl, Option.some.inj h⟩

end Reckon
