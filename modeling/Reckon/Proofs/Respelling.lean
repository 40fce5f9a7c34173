/-
One expression in other spellings.

Two texts that spell the same tokens in the same order are read alike, whatever
blanks they have in between and whichever signs or words they use for powers and
remainders.  The two readings go along together, token by token, so that in both
trees a node begins at the token of the same number.
-/
import Reckon.Proofs.Calculation
import Reckon.Proofs.Dependence
import Reckon.Proofs.Placement
import Reckon.Proofs.Relocation
import Reckon.Proofs.Reporting

namespace Reckon

/-! ## The same tokens -/

/-- The same token, or the same operator in its other spelling. -/
structure Lexeme.Alias (x y : Lexeme) : Prop where
  label : x.label = y.label
  text : x.label ≠ .operator .exponent → x.label ≠ .operator .modulo → x.text = y.text

/-- The token with the number `i` begins at the offset `p`. -/
structure Text.TokenAt (xs : List Lexeme) (t : Text) (i p : Nat) : Prop where
  before : Layout (xs.take i) (t.take p)
  after : Layout (xs.drop i) (t.drop p)
  spelled : ∃ x, xs[i]? = some x ∧ x.text <+: t.drop p

namespace Text.Layout

/-- Where a layout goes on with a lexeme, the lexeme can be taken. -/
theorem takes_cons {c : Cursor} {x : Lexeme} {xs : List Lexeme}
    (h : Text.Layout (x :: xs) c.rest) : ∃ d, c.Takes x.text d ∧ Text.Layout xs d.rest := by
  obtain ⟨pos, t⟩ := c
  generalize hys : x :: xs = ys at h
  cases h with
  | done _ => cases hys
  | @next gap rest _ _ hgap h =>
    obtain ⟨rfl, rfl⟩ := List.cons.inj hys
    have hskip := Cursor.skipBlanks_of_lexeme pos hgap x rest
    refine ⟨{ pos := pos + gap.length + x.text.length, rest }, ⟨?_, ?_⟩, h⟩
    · exact hskip ▸ List.prefix_append _ _
    · exact (congrArg (·.advance x.text.length) hskip).symm ▸ by simp [Cursor.advance]

theorem isGap_of_nil {t : Text} (h : Text.Layout [] t) : Text.IsGap t := by
  generalize hxs : ([] : List Lexeme) = xs at h
  cases h with
  | done hgap => exact hgap
  | next _ _ => cases hxs

theorem skipBlanks_nil {c : Cursor} (h : Text.Layout [] c.rest) : c.skipBlanks.rest = [] := by
  obtain ⟨gap, _, hrest, _⟩ := c.exists_gap
  cases hskip : c.skipBlanks.rest with
  | nil => rfl
  | cons a more =>
    have hblank := h.isGap_of_nil a (by rw [hrest, hskip]; simp)
    rw [Cursor.isBlank_head_skipBlanks hskip] at hblank
    cases hblank

theorem skipBlanks {c : Cursor} {xs : List Lexeme} (h : Text.Layout xs c.rest) :
    Text.Layout xs c.skipBlanks.rest := by
  cases xs with
  | nil =>
    rw [h.skipBlanks_nil]
    exact .done Text.isGap_nil
  | cons x xs =>
    obtain ⟨d, htakes, hlayout⟩ := h.takes_cons
    rw [htakes.rest]
    exact .next Text.isGap_nil hlayout

end Text.Layout

/-! ## Between two tokens -/

/-- The cursor stands in the text after the first `i` tokens. -/
structure Cursor.Splits (c : Cursor) (xs : List Lexeme) (t : Text) (i : Nat) : Prop where
  layout : ∃ u, t = u ++ c.rest ∧ c.pos = u.length ∧ Text.Layout (xs.take i) u
  after : Text.Layout (xs.drop i) c.rest

namespace Cursor.Splits

variable {c d : Cursor} {x : Lexeme} {xs : List Lexeme} {t : Text} {i : Nat}

theorem ofText (h : Text.Layout xs t) : (Cursor.ofText t).Splits xs t 0 :=
  ⟨⟨[], rfl, rfl, .done Text.isGap_nil⟩, h⟩

theorem skipBlanks (h : c.Splits xs t i) : c.skipBlanks.Splits xs t i := by
  obtain ⟨⟨u, ht, hpos, hlayout⟩, hafter⟩ := h
  obtain ⟨gap, hgap, hrest, hskip⟩ := c.exists_gap
  refine ⟨⟨u ++ gap, ?_, ?_, ?_⟩, hafter.skipBlanks⟩
  · rw [ht, List.append_assoc, ← hrest]
  · rw [hskip, hpos, List.length_append]
  · have happend := hlayout.append (.done hgap)
    rwa [List.append_nil] at happend

theorem exists_takes (h : c.Splits xs t i) (hx : xs[i]? = some x) :
    ∃ d, c.Takes x.text d ∧ d.Splits xs t (i + 1) := by
  obtain ⟨hi, hget⟩ := List.getElem?_eq_some_iff.mp hx
  have hdrop : xs.drop i = x :: xs.drop (i + 1) := by rw [List.drop_eq_getElem_cons hi, hget]
  obtain ⟨⟨u, ht, hpos, hlayout⟩, hafter⟩ := h.skipBlanks
  rw [hdrop] at hafter
  obtain ⟨d, htakes, hafter'⟩ := hafter.takes_cons
  rw [takes_skipBlanks] at htakes
  refine ⟨d, htakes, ⟨⟨u ++ x.text, ?_, ?_, ?_⟩, hafter'⟩⟩
  · rw [ht, htakes.rest, List.append_assoc]
  · rw [htakes.pos, hpos, List.length_append]
  · rw [List.take_add_one, hx]
    have htoken := hlayout.append (.next Text.isGap_nil (.done Text.isGap_nil) :
      Text.Layout [x] ([] ++ x.text ++ []))
    simpa using htoken

theorem takes (h : c.Splits xs t i) (hx : xs[i]? = some x) (htakes : c.Takes x.text d) :
    d.Splits xs t (i + 1) := by
  obtain ⟨d', htakes', hd'⟩ := h.exists_takes hx
  exact htakes.unique htakes' ▸ hd'

theorem tokenAt (h : c.Splits xs t i) (hx : xs[i]? = some x) :
    Text.TokenAt xs t i c.skipBlanks.pos := by
  obtain ⟨d, htakes, _⟩ := h.exists_takes hx
  obtain ⟨⟨u, ht, hpos, hlayout⟩, hafter⟩ := h.skipBlanks
  rw [ht, hpos]
  refine ⟨?_, ?_, x, hx, ?_⟩
  · rwa [List.take_left]
  · rwa [List.drop_left]
  · rw [List.drop_left]
    exact htakes.1

end Cursor.Splits

/-! ## Trees of the same tokens -/

section

variable (xs ys : List Lexeme) (t t' : Text)

/-- The same token, each in its own text. -/
def Corresponds (p q : Nat) : Prop :=
  ∃ i, Text.TokenAt xs t i p ∧ Text.TokenAt ys t' i q

/-- Two nodes of one rule, which begin at the same token.  A number and a name
of a function are the same text, and only an equation is the whole text. -/
structure Respelled (n m : Node) : Prop where
  rule : n.rule = m.rule
  text : n.rule = .number ∨ n.rule = .functionName → n.text = m.text
  start : n.rule ≠ .equation → Corresponds xs ys t t' n.start m.start

end

section

variable {xs ys : List Lexeme} {t t' : Text} {i : Nat} {c c' d : Cursor} {x : Lexeme}

theorem exists_alias (halias : List.Forall₂ Lexeme.Alias xs ys) (hx : xs[i]? = some x) :
    ∃ y, ys[i]? = some y ∧ x.Alias y := by
  obtain ⟨hi, rfl⟩ := List.getElem?_eq_some_iff.mp hx
  have hi' : i < ys.length := halias.length_eq ▸ hi
  exact ⟨ys[i], List.getElem?_eq_getElem hi', halias.get hi hi'⟩

/-- The next token is the same in both texts. -/
theorem Cursor.Splits.corresponds (halias : List.Forall₂ Lexeme.Alias xs ys)
    (h : c.Splits xs t i) (h' : c'.Splits ys t' i) (hne : c.skipBlanks.rest ≠ []) :
    Corresponds xs ys t t' c.skipBlanks.pos c'.skipBlanks.pos := by
  cases hx : xs[i]? with
  | none =>
    have hafter := h.after
    rw [List.drop_eq_nil_of_le (List.getElem?_eq_none_iff.mp hx)] at hafter
    exact absurd hafter.skipBlanks_nil hne
  | some x =>
    obtain ⟨y, hy, _⟩ := exists_alias halias hx
    exact ⟨i, h.tokenAt hx, h'.tokenAt hy⟩

/-- A token and its alias, taken in two texts. -/
theorem Cursor.Splits.alias (halias : List.Forall₂ Lexeme.Alias xs ys) (h : c.Splits xs t i)
    (h' : c'.Splits ys t' i) (hx : xs[i]? = some x) (htakes : c.Takes x.text d) :
    ∃ y d', x.Alias y ∧ c'.Takes y.text d' ∧ d.Splits xs t (i + 1) ∧ d'.Splits ys t' (i + 1) ∧
      Corresponds xs ys t t' c.skipBlanks.pos c'.skipBlanks.pos := by
  obtain ⟨y, hy, hxy⟩ := exists_alias halias hx
  obtain ⟨d', htakes', hd'⟩ := h'.exists_takes hy
  exact ⟨y, d', hxy, htakes', h.takes hx htakes, hd', i, h.tokenAt hx, h'.tokenAt hy⟩

/-- Most tokens have no other spelling. -/
theorem Cursor.Splits.same (halias : List.Forall₂ Lexeme.Alias xs ys) (h : c.Splits xs t i)
    (h' : c'.Splits ys t' i) (hx : xs[i]? = some x) (htakes : c.Takes x.text d)
    (hexponent : x.label ≠ .operator .exponent) (hmodulo : x.label ≠ .operator .modulo) :
    ∃ d', c'.Takes x.text d' ∧ d.Splits xs t (i + 1) ∧ d'.Splits ys t' (i + 1) ∧
      Corresponds xs ys t t' c.skipBlanks.pos c'.skipBlanks.pos := by
  obtain ⟨y, d', hxy, htakes', hd, hd', hstart⟩ := h.alias halias h' hx htakes
  exact ⟨d', hxy.text hexponent hmodulo ▸ htakes', hd, hd', hstart⟩

end

section

variable {xs ys zs ws : List Lexeme} {x : Lexeme} {t t' : Text} {i : Nat}

theorem getElem?_of_cons_prefix_drop (h : x :: zs <+: xs.drop i) :
    xs[i]? = some x ∧ zs <+: xs.drop (i + 1) := by
  obtain ⟨more, hmore⟩ := h
  refine ⟨?_, more, ?_⟩
  · rw [← List.head?_drop, ← hmore]
    rfl
  · rw [← List.tail_drop, ← hmore]
    rfl

theorem prefix_drop_of_append (h : zs ++ ws <+: xs.drop i) :
    zs <+: xs.drop i ∧ ws <+: xs.drop (i + zs.length) := by
  obtain ⟨more, hmore⟩ := h
  refine ⟨⟨ws ++ more, by rw [← hmore, List.append_assoc]⟩, more, ?_⟩
  rw [← List.drop_drop, ← hmore, List.append_assoc, List.drop_left]

theorem length_enclosed (x y : Lexeme) (k : Nat) :
    k + (x :: (zs ++ [y])).length = k + 1 + zs.length + 1 := by
  simp only [List.length_cons, List.length_append, List.length_nil]
  omega

theorem respelled_leaf {c c' d d' : Cursor} {s : Text} {r : Rule} (htakes : c.Takes s d)
    (htakes' : c'.Takes s d')
    (hstart : Corresponds xs ys t t' c.skipBlanks.pos c'.skipBlanks.pos) :
    (c.skipBlanks.node r d []).Matches (Respelled xs ys t t') (c'.skipBlanks.node r d' []) :=
  ⟨⟨rfl, fun _ => htakes.take_rest.trans htakes'.take_rest.symm, fun _ => hstart⟩, trivial⟩

theorem respelled_node {c c' d d' : Cursor} {r : Rule} {ns ms : List Node} (hnumber : r ≠ .number)
    (hname : r ≠ .functionName)
    (hstart : Corresponds xs ys t t' c.pos c'.pos)
    (hchildren : List.Forall₂ (Node.Matches (Respelled xs ys t t')) ns ms) :
    (c.node r d ns).Matches (Respelled xs ys t t') (c'.node r d' ms) :=
  ⟨⟨rfl, fun hr => (hr.elim hnumber hname).elim, fun _ => hstart⟩,
    Node.matchAll_iff_forall₂.mpr hchildren⟩

/-- The induction is on the span.  Both cursors have come past the same number
of tokens. -/
theorem Spans.respell (halias : List.Forall₂ Lexeme.Alias xs ys) {room : Nat} {p : Part}
    {c d : Cursor} {ns : List Node} (h : Spans room p c ns zs d) :
    ∀ {i : Nat} {c' : Cursor}, zs <+: xs.drop i → c.Splits xs t i → c'.Splits ys t' i →
      ∃ ws ms d', Spans room p c' ms ws d' ∧ d.Splits xs t (i + zs.length) ∧
        d'.Splits ys t' (i + zs.length) ∧
        List.Forall₂ (Node.Matches (Respelled xs ys t t')) ns ms := by
  induction h with
  | number hdigits htakes =>
    intro i c' hzs hc hc'
    obtain ⟨hx, _⟩ := getElem?_of_cons_prefix_drop hzs
    obtain ⟨d', htakes', hd, hd', hstart⟩ := hc.same halias hc' hx htakes nofun nofun
    exact ⟨_, _, d', .number hdigits htakes', hd, hd',
      .cons (respelled_leaf htakes htakes' hstart) .nil⟩
  | group hopen _ hclose ih =>
    intro i c' hzs hc hc'
    obtain ⟨hx, hzs⟩ := getElem?_of_cons_prefix_drop hzs
    obtain ⟨hbody, hzs⟩ := prefix_drop_of_append hzs
    obtain ⟨hx', _⟩ := getElem?_of_cons_prefix_drop hzs
    obtain ⟨e₁, hopen', hc₁, he₁, hstart⟩ := hc.same halias hc' hx hopen nofun nofun
    obtain ⟨ws, ms, e₂, hbody', hc₂, he₂, hmatches⟩ := ih hbody hc₁ he₁
    obtain ⟨d', hclose', hd, hd', _⟩ := hc₂.same halias he₂ hx' hclose nofun nofun
    obtain ⟨m, _, hm, hnil, rfl⟩ := List.forall₂_cons_left_iff.mp hmatches
    cases hnil
    rw [length_enclosed]
    exact ⟨_, _, d', .group hopen' hbody' hclose', hd, hd',
      .cons (respelled_node nofun nofun hstart hmatches) .nil⟩
  | call f hname hopen _ hclose ih =>
    intro i c' hzs hc hc'
    obtain ⟨hx, hzs⟩ := getElem?_of_cons_prefix_drop hzs
    obtain ⟨hx', hzs⟩ := getElem?_of_cons_prefix_drop hzs
    obtain ⟨hbody, hzs⟩ := prefix_drop_of_append hzs
    obtain ⟨hx'', _⟩ := getElem?_of_cons_prefix_drop hzs
    obtain ⟨e₁, hname', hc₁, he₁, hstart⟩ := hc.same halias hc' hx hname nofun nofun
    obtain ⟨e₂, hopen', hc₂, he₂, _⟩ := hc₁.same halias he₁ hx' hopen nofun nofun
    obtain ⟨ws, ms, e₃, hbody', hc₃, he₃, hmatches⟩ := ih hbody hc₂ he₂
    obtain ⟨d', hclose', hd, hd', _⟩ := hc₃.same halias he₃ hx'' hclose nofun nofun
    obtain ⟨m, _, hm, hnil, rfl⟩ := List.forall₂_cons_left_iff.mp hmatches
    cases hnil
    have hleaf := respelled_leaf (r := .functionName) hname hname' hstart
    rw [List.length_cons, ← Nat.add_assoc, Nat.add_right_comm, length_enclosed]
    exact ⟨_, _, d', .call f hname' hopen' hbody' hclose', hd, hd',
      .cons (respelled_node nofun nofun hstart (.cons hleaf hmatches)) .nil⟩
  | plain _ ih =>
    intro i c' hzs hc hc'
    obtain ⟨ws, ms, d', hspans, hd, hd', hmatches⟩ := ih hzs hc hc'
    exact ⟨ws, ms, d', .plain hspans, hd, hd', hmatches⟩
  | minus hminus _ ih =>
    intro i c' hzs hc hc'
    obtain ⟨hx, hzs⟩ := getElem?_of_cons_prefix_drop hzs
    obtain ⟨e₁, hminus', hc₁, he₁, hstart⟩ := hc.same halias hc' hx hminus nofun nofun
    obtain ⟨ws, ms, d', hspans, hd, hd', hmatches⟩ := ih hzs hc₁ he₁
    rw [List.length_cons, ← Nat.add_assoc, Nat.add_right_comm]
    exact ⟨_, _, d', .minus hminus' hspans, hd, hd',
      .cons (respelled_leaf hminus hminus' hstart) hmatches⟩
  | done l =>
    intro i c' _ hc hc'
    exact ⟨[], [], c', .done l, hc, hc', .nil⟩
  | @more room l op spelling c c₁ c₂ d ns ms xs' ys' hop hs hsign _ _ ihfirst ihtail =>
    intro i c' hzs hc hc'
    obtain ⟨hx, hzs⟩ := getElem?_of_cons_prefix_drop hzs
    obtain ⟨hfirst, htail⟩ := prefix_drop_of_append hzs
    obtain ⟨y, e₁, hxy, hsign', hc₁, he₁, hstart⟩ := hc.alias halias hc' hx hsign
    have hy : y.text ∈ op.spellings := by
      have hspelled := y.spelled
      rwa [← hxy.label] at hspelled
    obtain ⟨ws, ms', e₂, hfirst', hc₂, he₂, hmatches⟩ := ihfirst hfirst hc₁ he₁
    obtain ⟨ws', ms'', d', htail', hd, hd', hmatches'⟩ := ihtail htail hc₂ he₂
    rw [List.length_cons, List.length_append, show i + (xs'.length + ys'.length + 1) =
      i + 1 + xs'.length + ys'.length by omega]
    exact ⟨_, _, d', .more hop hy hsign' hfirst' htail', hd, hd',
      .cons (respelled_node nofun nofun hstart .nil) (List.rel_append hmatches hmatches')⟩
  | @row room l c c₁ d ns ms xs' ys' hfirst htail ihfirst ihtail =>
    intro i c' hzs hc hc'
    have hstart := hc.corresponds halias hc' ((Spans.row hfirst htail).rest_ne_nil nofun)
    obtain ⟨hzs, hzs'⟩ := prefix_drop_of_append hzs
    obtain ⟨ws, ms', e₁, hfirst', hc₁, he₁, hmatches⟩ := ihfirst hzs hc.skipBlanks hc'.skipBlanks
    obtain ⟨ws', ms'', d', htail', hd, hd', hmatches'⟩ := ihtail hzs' hc₁ he₁
    rw [List.length_append, ← Nat.add_assoc]
    refine ⟨_, _, d', .row hfirst' htail', hd, hd', .cons ?_ .nil⟩
    refine respelled_node ?_ ?_ hstart (List.rel_append hmatches hmatches')
    · cases l <;> exact nofun
    · cases l <;> exact nofun

end

/-! ## Values of the same tokens -/

section

variable {xs ys : List Lexeme} {t t' : Text} {n m : Node}

/-- The same refusal, at the same token. -/
def SameFault (xs ys : List Lexeme) (t t' : Text) (f g : Fault) : Prop :=
  ∃ refusal p q, Corresponds xs ys t t' p q ∧ f = .refused refusal p ∧ g = .refused refusal q

theorem Respelled.nodesAlike (A : Arithmetic α) (h : Respelled xs ys t t' n m) :
    Evaluation.NodesAlike A A Eq (SameFault xs ys t t') n m :=
  Evaluation.nodesAlike_of_resembles A ⟨h.rule, h.text⟩ fun hn refusal =>
    ⟨refusal, n.start, m.start, h.start hn, rfl, rfl⟩

end

/-! ## Depth -/

mutual

theorem Node.Matches.nesting_eq {S : Node → Node → Prop} (hS : ∀ n m, S n m → n.rule = m.rule)
    {n m : Node} (h : n.Matches S m) : n.shape.nesting = m.shape.nesting := by
  obtain ⟨rule, text, start, stop, children⟩ := n
  obtain ⟨rule', text', start', stop', children'⟩ := m
  obtain rfl : rule = rule' := hS _ _ h.1
  have hchildren := h.2.nestings_eq hS
  match children, children', h.2 with
  | [], [], _ => rfl
  | _ :: _, _ :: _, _ =>
    rw [shapes, shapes] at hchildren
    rw [shape, shape, Tree.nesting, Tree.nesting, hchildren]

theorem Node.MatchAll.nestings_eq {S : Node → Node → Prop}
    (hS : ∀ n m, S n m → n.rule = m.rule) {ns ms : List Node} (h : MatchAll S ns ms) :
    Tree.nestings (shapes ns) = Tree.nestings (shapes ms) := by
  match ns, ms, h with
  | [], [], _ => rfl
  | n :: ns, m :: ms, h =>
    rw [shapes, shapes, Tree.nestings, Tree.nestings, h.1.nesting_eq hS, h.2.nestings_eq hS]

end

/-! ## The same expression -/

/-- The same value, or the same refusal at the same token. -/
inductive SameOutcome (xs ys : List Lexeme) (t t' : Text) :
    Except Fault Value → Except Fault Value → Prop
  | value (v : Value) : SameOutcome xs ys t t' (.ok v) (.ok v)
  | refused {cause : Cause} {p q : Nat} : Corresponds xs ys t t' p q →
      SameOutcome xs ys t t' (.error (.refused (.unrepresentable cause) p))
        (.error (.refused (.unrepresentable cause) q))

section

variable {limit : Int} {xs ys : List Lexeme} {t t' : Text} {root root' : Node}

theorem alike_evaluateTree (settings : Settings)
    (h : root.Matches (Respelled xs ys t t') root') :
    Evaluation.Alike Eq (SameFault xs ys t t') (Calculator.evaluateTree settings root)
      (Calculator.evaluateTree settings root') :=
  Calculator.evaluateTree_alike settings fun A => h.imp fun _ _ => Respelled.nodesAlike A

theorem sameOutcome_evaluate {settings : Settings}
    (hroot : recognize settings.maxDepth t = .ok root)
    (hroot' : recognize settings.maxDepth t' = .ok root')
    (h : root.Matches (Respelled xs ys t t') root') :
    SameOutcome xs ys t t' (Calculator.evaluate settings t) (Calculator.evaluate settings t') := by
  have hrecognized := hroot ▸ recognized settings.maxDepth t
  obtain ⟨φ, _, hwithin, hvalue⟩ := @evaluateTree_eq settings _ _ _ hrecognized
  have halike := alike_evaluateTree settings h
  rw [evaluate_of_recognize hroot, evaluate_of_recognize hroot']
  rw [hvalue] at halike ⊢
  generalize Calculator.evaluateTree settings root' = r' at halike
  rcases settings.placed_value hwithin with ⟨v, hv, _⟩ | ⟨cause, p, hv, _⟩
  · rw [hv] at halike ⊢
    cases halike with
    | value hxy => exact hxy ▸ .value v
  · rw [hv] at halike ⊢
    cases halike with
    | fault hfault =>
      obtain ⟨_, _, q, hstart, hf, rfl⟩ := hfault
      obtain ⟨rfl, rfl⟩ := Fault.refused.inj hf
      exact .refused hstart

/-- A text whose tokens are those of a recognized one is recognized as well. -/
theorem exists_recognize_respelled (hroot : recognize limit t = .ok root)
    (hxs : root.shape.IsDerivation xs) (hlayout : Text.Layout xs t)
    (halias : List.Forall₂ Lexeme.Alias xs ys) (hlayout' : Text.Layout ys t') :
    ∃ root', recognize limit t' = .ok root' ∧ root.Matches (Respelled xs ys t t') root' := by
  have hrecognized := hroot ▸ recognized limit t
  cases hrecognized with
  | @tree e zs d hspans hrun hrest =>
    obtain rfl : zs = xs := by
      obtain ⟨u, hu, _, hlayoutu⟩ := hrun.layout
      rw [hrest, List.append_nil] at hu
      obtain rfl : t = u := hu
      exact (hlayoutu.unique hrun.path hlayout hxs.path).1
    have hwhole : zs <+: zs.drop 0 := List.prefix_refl zs
    obtain ⟨ws, ms, d', hspans', _, hd', hmatches⟩ :=
      hspans.respell halias hwhole (.ofText hlayout) (.ofText hlayout')
    obtain ⟨e', _, he, hnil, rfl⟩ := List.forall₂_cons_left_iff.mp hmatches
    cases hnil
    have hend : d'.skipBlanks.rest = [] := by
      have hafter := hd'.after
      rw [Nat.zero_add, halias.length_eq, List.drop_length] at hafter
      exact hafter.skipBlanks_nil
    refine ⟨_, recognize_of_spans hspans' hend, ⟨rfl, ?_, ?_⟩, he, trivial⟩
    · exact fun h => h.elim nofun nofun
    · exact fun h => absurd rfl h

/-- A limit below the depth of the tree is exceeded. -/
theorem exists_tooDeep_of_lt {limit' : Int} (hroot : recognize limit t = .ok root)
    (hlimit : 0 ≤ limit') (hlt : limit' < root.shape.nesting) :
    ∃ p, recognize limit' t = .error (.tooDeep limit' p) := by
  have hnone : ∀ r, recognize limit' t ≠ .ok r := by
    intro r hr
    obtain ⟨htree, hnesting⟩ := (hr ▸ recognized limit' t).isTreeOf
    rw [← (recognize_decides_grammar limit t).2.1 root hroot _ htree] at hnesting
    omega
  rcases Int.le_total limit' limit with hle | hle
  · exact (recognize_eq_or_tooDeep hle t).resolve_left fun heq => hnone root (heq.trans hroot)
  · rcases recognize_eq_or_tooDeep hle t with heq | ⟨p, hp⟩
    · exact absurd (heq.symm.trans hroot) (hnone root)
    · cases hp.symm.trans hroot

/-- With a limit that is too low for one of the texts the other one is refused
as well. -/
theorem exists_tooDeep_respelled {settings : Settings} (hroot : recognize limit t = .ok root)
    (hroot' : recognize limit t' = .ok root')
    (h : root.Matches (Respelled xs ys t t') root')
    (hnone : ∀ r, recognize settings.maxDepth t ≠ .ok r) :
    ∃ p q, Calculator.evaluate settings t = .error (.tooDeep settings.maxDepth p) ∧
      Calculator.evaluate settings t' = .error (.tooDeep settings.maxDepth q) := by
  have hlimit : 0 ≤ settings.maxDepth := by
    have := settings.one_le_maxDepth
    omega
  have hlt : settings.maxDepth < root.shape.nesting :=
    Int.not_le.mp fun hle => hnone root (recognize_of_nesting_le hroot hle)
  have hlt' : settings.maxDepth < root'.shape.nesting := by
    rwa [← h.nesting_eq fun _ _ => Respelled.rule]
  obtain ⟨p, hp⟩ := exists_tooDeep_of_lt hroot hlimit hlt
  obtain ⟨q, hq⟩ := exists_tooDeep_of_lt hroot' hlimit hlt'
  exact ⟨p, q, evaluate_of_recognize_error hp, evaluate_of_recognize_error hq⟩

/-- The tokens of a recognized text, laid out in any other way and with other
spellings of the operators that have two, are recognized as the same tree, and
that tree has the same value or is refused for the same cause at the same token. -/
theorem recognize_respelled (hroot : recognize limit t = .ok root) :
    ∃ xs, root.shape.IsDerivation xs ∧ Text.Layout xs t ∧
      ∀ ys t', List.Forall₂ Lexeme.Alias xs ys → Text.Layout ys t' →
        (∃ root', recognize limit t' = .ok root' ∧ root.Matches (Respelled xs ys t t') root') ∧
        (∀ settings : Settings, (∃ r, recognize settings.maxDepth t = .ok r) →
          SameOutcome xs ys t t' (Calculator.evaluate settings t)
            (Calculator.evaluate settings t')) ∧
        ∀ settings : Settings, (∀ r, recognize settings.maxDepth t ≠ .ok r) →
          ∃ p q, Calculator.evaluate settings t = .error (.tooDeep settings.maxDepth p) ∧
            Calculator.evaluate settings t' = .error (.tooDeep settings.maxDepth q) := by
  obtain ⟨xs, hxs, hlayout⟩ := (hroot ▸ recognized limit t).isTreeOf.1
  refine ⟨xs, hxs, hlayout, fun ys t' halias hlayout' => ?_⟩
  obtain ⟨root', hroot', hmatches⟩ :=
    exists_recognize_respelled hroot hxs hlayout halias hlayout'
  refine ⟨⟨root', hroot', hmatches⟩, fun settings haccepted => ?_, fun settings hnone =>
    exists_tooDeep_respelled hroot hroot' hmatches hnone⟩
  obtain ⟨r, hr⟩ := haccepted
  have hshape : r.shape = root.shape :=
    (recognize_decides_grammar settings.maxDepth t).2.1 r hr _ ⟨xs, hxs, hlayout⟩
  obtain ⟨r', hr', hmatches'⟩ :=
    exists_recognize_respelled hr (hshape ▸ hxs) hlayout halias hlayout'
  exact sameOutcome_evaluate hr hr' hmatches'

/-- The remainder of seven by zero fails at the word in `7 mod 0` and at the sign
in `7%0`. -/
theorem evaluate_seven_mod_zero :
    ∃ xs ys q, Corresponds xs ys "7 mod 0".toList "7%0".toList 2 q ∧
      Calculator.evaluate { mode := .int32 } "7%0".toList =
        .error (.refused (.unrepresentable (.zeroDivisor .modulo)) q) := by
  obtain ⟨root, hroot, hvalue⟩ := exists_recognized
    (by decide +kernel : (recognize 64 "7 mod 0".toList).toOption.map
      (fun root => Evaluation.evaluate (integral .radians) root) =
        some (.error (.refused (.unrepresentable (.zeroDivisor .modulo)) 2)))
  have heval : Calculator.evaluate { mode := .int32 } "7 mod 0".toList =
      .error (.refused (.unrepresentable (.zeroDivisor .modulo)) 2) := by
    have hsettled := @evaluate_of_recognize { mode := .int32 } _ _ hroot
    rw [hsettled, Calculator.evaluateTree, hvalue]
    rfl
  have hseven : Text.IsNumeral ['7'] := .whole (Text.isDigits_singleton rfl)
  have hzero : Text.IsNumeral ['0'] := .whole (Text.isDigits_singleton rfl)
  have hblank : Text.IsGap [' '] := Text.isGap_singleton rfl
  let word := Lexeme.operator .modulo ['m', 'o', 'd'] (by decide)
  let sign := Lexeme.operator .modulo ['%'] (by decide)
  obtain ⟨xs, hxs, hlayout, hrespelled⟩ := recognize_respelled hroot
  have hword : Text.Layout [.number ['7'] hseven, word, .number ['0'] hzero]
      "7 mod 0".toList :=
    .next Text.isGap_nil (.next hblank (.next hblank (.done Text.isGap_nil)))
  have hpath : Stage.Path 0 .start [.number ['7'] hseven, word, .number ['0'] hzero] .finish :=
    .next rfl (by decide) (.next rfl (by decide) (.next rfl (by decide) .done))
  obtain ⟨rfl, _⟩ := hlayout.unique hxs.path hword hpath
  have hsign : Text.Layout [.number ['7'] hseven, sign, .number ['0'] hzero] "7%0".toList :=
    .next Text.isGap_nil (.next Text.isGap_nil (.next Text.isGap_nil (.done Text.isGap_nil)))
  have halias : List.Forall₂ Lexeme.Alias [.number ['7'] hseven, word, .number ['0'] hzero]
      [.number ['7'] hseven, sign, .number ['0'] hzero] :=
    .cons ⟨rfl, fun _ _ => rfl⟩ (.cons ⟨rfl, fun _ h => absurd rfl h⟩
      (.cons ⟨rfl, fun _ _ => rfl⟩ .nil))
  have houtcome := (hrespelled _ _ halias hsign).2.1 { mode := .int32 } ⟨root, hroot⟩
  rw [heval] at houtcome
  generalize Calculator.evaluate { mode := .int32 } "7%0".toList = r at houtcome ⊢
  cases houtcome with
  | refused hstart => exact ⟨_, _, _, hstart, rfl⟩

end

end Reckon
