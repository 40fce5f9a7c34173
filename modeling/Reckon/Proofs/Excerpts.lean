/-
Parts of an expression read alone.

The text of an expression, a term or an operand can be read by itself, and gives
the same node at other offsets, with nothing around it but expressions and terms
with one child.  So it has by itself the value that it has in the whole.
-/
import Reckon.Proofs.Acceptance
import Reckon.Proofs.Composition

namespace Reckon

open Node Evaluation

/-! ## Nodes with values -/

namespace Node

/-- There is nothing but expressions and terms with one child around a node. -/
inductive Wraps : Node → Node → Prop
  | self {n : Node} : Wraps n n
  | child {w m n : Node} : w.IsRow → w.children = [m] → Wraps m n → Wraps w n

theorem Wraps.reduce_eq {α : Type} {A : Arithmetic α} {w n : Node} (h : w.Wraps n) :
    reduce A w = reduce A n := by
  induction h with
  | self => rfl
  | child hrow hchildren _ ih => rw [reduce_single hrow hchildren, ih]

/-- What stands around a node stands around it elsewhere too. -/
theorem Wraps.of_relocate {g : Nat → Nat} {w n : Node} (h : (w.relocate g).Wraps n) :
    ∃ m, w.Wraps m ∧ n = m.relocate g := by
  generalize hw : w.relocate g = w' at h
  induction h generalizing w with
  | self => exact ⟨w, .self, hw.symm⟩
  | child hrow hchildren _ ih =>
    subst hw
    rw [children_relocate] at hchildren
    obtain ⟨m', hm', hm⟩ := List.map_eq_singleton_iff.mp hchildren
    obtain ⟨m, hwraps, hn⟩ := ih hm
    refine ⟨m, .child ?_ hm' hwraps, hn⟩
    simpa [IsRow] using hrow

end Node

/-- A value needs the values of all nodes below that have one. -/
theorem Evaluation.exists_reduce_of_child {α : Type} {A : Arithmetic α} {n m : Node}
    (hn : n.rule ≠ .number) (h : ∃ x, reduce A n = .ok x) (hm : m ∈ n.children)
    (hvalued : m.rule.hasValue = true) : ∃ y, reduce A m = .ok y := by
  obtain ⟨x, hx⟩ := h
  have hrow (hrow : n.IsRow) : ∃ y, reduce A m = .ok y := by
    by_cases hsingle : ∃ child, n.children = [child]
    · obtain ⟨child, hchild⟩ := hsingle
      rw [hchild, List.mem_singleton] at hm
      rw [reduce_single hrow hchild, ← hm] at hx
      exact ⟨x, hx⟩
    · rw [reduce_row hrow fun child hchild => hsingle ⟨child, hchild⟩] at hx
      exact (reads_of_row hx).exists_of_mem rfl m hm (isOperand_of_hasValue hvalued)
  cases hrule : n.rule with
  | number => exact absurd hrule hn
  | expression => exact hrow (.inl hrule)
  | term => exact hrow (.inr hrule)
  | group =>
    obtain ⟨body, hchildren, _, hbody⟩ := exists_of_group hrule hx
    rw [hchildren, List.mem_singleton] at hm
    exact ⟨x, hm ▸ hbody⟩
  | functionCall =>
    obtain ⟨name, argument, _, y, hchildren, hname, _, _, hargument⟩ := exists_of_call hrule hx
    rw [hchildren, List.mem_pair] at hm
    rcases hm with rfl | rfl
    · rw [hname] at hvalued
      cases hvalued
    · exact ⟨y, hargument⟩
  | equation | functionName | operator op | unaryMinus | endOfInput =>
    have hvalue := hasValue_of_reduce hx
    rw [hrule] at hvalue
    cases hvalue

/-! ## Parts of a text -/

@[simp] theorem Cursor.rule_node (c d : Cursor) (rule : Rule) (children : List Node) :
    (c.node rule d children).rule = rule := rfl

/-- The parts of the grammar that are one node. -/
def Part.IsWhole : Part → Prop
  | primary | row _ => True
  | unary | tail _ => False

/-- The node is read from some place of a text as a part of its own. -/
def Node.IsPart (room : Nat) (n : Node) : Prop :=
  ∃ room' p c xs d, room' ≤ room ∧ p.IsWhole ∧ Spans room' p c [n] xs d

theorem Spans.isPart {room : Nat} {p : Part} {c d : Cursor} {n : Node} {xs : List Lexeme}
    (h : Spans room p c [n] xs d) (hp : p.IsWhole) : n.IsPart room :=
  ⟨room, p, c, xs, d, Nat.le_refl room, hp, h⟩

theorem Node.IsPart.mono {room room' : Nat} (hle : room ≤ room') {n : Node} (h : n.IsPart room) :
    n.IsPart room' := by
  obtain ⟨room₀, p, c, xs, d, hroom, hp, h⟩ := h
  exact ⟨room₀, p, c, xs, d, Nat.le_trans hroom hle, hp, h⟩

namespace Spans

variable {room : Nat} {p : Part} {c d : Cursor} {n : Node} {ns : List Node} {xs : List Lexeme}

theorem to_skipBlanks (h : Spans room p c ns xs d) (hp : p.IsWhole) :
    Spans room p c.skipBlanks ns xs d := by
  cases h with
  | number hdigits htakes =>
    simpa using number hdigits (Cursor.takes_skipBlanks.mpr htakes)
  | group hopen hbody hclose =>
    simpa using group (Cursor.takes_skipBlanks.mpr hopen) hbody hclose
  | call f hname hopen hbody hclose =>
    simpa using call f (Cursor.takes_skipBlanks.mpr hname) hopen hbody hclose
  | row hfirst htail => simpa using row (c := c.skipBlanks) (by simpa using hfirst) htail
  | plain | minus | done | more => exact hp.elim

theorem exists_node (h : Spans room p c ns xs d) (hp : p.IsWhole) :
    ∃ rule children, ns = [c.skipBlanks.node rule d children] := by
  cases h with
  | number | group | call | row => exact ⟨_, _, rfl⟩
  | plain | minus | done | more => exact hp.elim

/-- The nodes with values below a part are parts themselves.  What such a node
passes on to those among its children, all of them have if the topmost do. -/
theorem forall_valued {Q : Node → Prop}
    (hQ : ∀ n m, n.rule ≠ .number → Q n → m ∈ n.children → m.rule.hasValue = true → Q m)
    (h : Spans room p c ns xs d) (hns : ∀ n ∈ ns, n.rule.hasValue = true → Q n) :
    ∀ m ∈ preorders ns, m.rule.hasValue = true → m.IsPart room ∧ Q m := by
  induction h with
  | @number room c d _ hdigits htakes =>
    have hpart := (@number room _ _ _ hdigits htakes).isPart trivial
    exact forall_mem_preorders_cons.mpr
      ⟨fun hvalued => ⟨hpart, hns _ List.mem_cons_self hvalued⟩, nofun, nofun⟩
  | @group room c _ _ d body _ hopen hbody hclose ih =>
    have hpart := (group hopen hbody hclose).isPart trivial
    have hgroup := hns _ List.mem_cons_self rfl
    refine forall_mem_preorders_cons.mpr ⟨fun _ => ⟨hpart, hgroup⟩, fun m hm hvalued => ?_, nofun⟩
    have hbelow := ih (fun n hn => hQ _ n (by simp) hgroup hn) m hm hvalued
    exact ⟨hbelow.1.mono (Nat.le_succ room), hbelow.2⟩
  | @call room c c₁ _ _ d body _ f hname hopen hbody hclose ih =>
    have hpart := (call f hname hopen hbody hclose).isPart trivial
    have hcall := hns _ List.mem_cons_self rfl
    refine forall_mem_preorders_cons.mpr ⟨fun _ => ⟨hpart, hcall⟩, ?_, nofun⟩
    refine forall_mem_preorders_cons.mpr ⟨fun hvalued => ?_, nofun, fun m hm hvalued => ?_⟩
    · exact absurd hvalued Bool.false_ne_true
    · have hargument := ih fun n hn => hQ _ n (by simp) hcall (List.mem_cons_of_mem _ hn)
      have hbelow := hargument m hm hvalued
      exact ⟨hbelow.1.mono (Nat.le_succ room), hbelow.2⟩
  | plain _ ih => exact ih hns
  | minus _ _ ih =>
    refine forall_mem_preorders_cons.mpr ⟨fun hvalued => ?_, nofun, ?_⟩
    · exact absurd hvalued Bool.false_ne_true
    · exact ih fun n hn => hns n (List.mem_cons_of_mem _ hn)
  | done => exact nofun
  | more _ _ _ _ _ ihfirst ihtail =>
    refine forall_mem_preorders_cons.mpr ⟨fun hvalued => ?_, nofun, ?_⟩
    · exact absurd hvalued Bool.false_ne_true
    · rw [preorders_append, List.forall_mem_append]
      exact ⟨ihfirst fun n hn => hns n (by simp [hn]), ihtail fun n hn => hns n (by simp [hn])⟩
  | @row room l c _ d ns ms _ _ hfirst htail ihfirst ihtail =>
    have hpart := (row hfirst htail).isPart trivial
    have hvalue := hns _ List.mem_cons_self (by cases l <;> rfl)
    refine forall_mem_preorders_cons.mpr ⟨fun _ => ⟨hpart, hvalue⟩, ?_, nofun⟩
    have hchild (n : Node) (hn : n ∈ ns ++ ms) : n.rule.hasValue = true → Q n :=
      hQ _ n (by cases l <;> simp [Layer.rule]) hvalue hn
    show ∀ m ∈ preorders (ns ++ ms), m.rule.hasValue = true → m.IsPart room ∧ Q m
    rw [preorders_append, List.forall_mem_append]
    exact ⟨ihfirst fun n hn => hchild n (List.mem_append_left _ hn),
      ihtail fun n hn => hchild n (List.mem_append_right _ hn)⟩

end Spans

/-! ## Reading a part alone -/

namespace Spans

variable {room : Nat} {p : Part} {c d : Cursor} {n : Node} {xs : List Lexeme}

/-- Where a part begins there are the characters that it covers, in which its
lexemes are laid out, and then the rest of the text. -/
theorem skipBlanks_eq_within (h : Spans room p c [n] xs d) (hp : p.IsWhole) :
    c.skipBlanks = (Cursor.ofText n.text).within n.start d.rest ∧ Text.Layout xs n.text := by
  obtain ⟨rule, children, hn⟩ := h.exists_node hp
  obtain rfl := List.singleton_inj.mp hn
  obtain ⟨t, ht, hlayout⟩ := (h.to_skipBlanks hp).lays
  have htotal := h.total
  have hskip := c.total_skipBlanks
  have hlength := congrArg List.length ht
  rw [List.length_append] at hlength
  have htext : (c.skipBlanks.node rule d children).text = t := by
    have hpos : d.pos - c.skipBlanks.pos = t.length := by
      unfold Cursor.total at htotal hskip
      omega
    rw [Cursor.node, hpos, ht, List.take_left]
  rw [htext]
  refine ⟨?_, hlayout⟩
  rw [Cursor.within, Cursor.ofText, ← ht, Nat.zero_add]
  rfl

/-- An expression inside a text is a text that is recognized as this expression. -/
theorem exists_excerpt {limit : Int} (h : Spans room (.row .expression) c [n] xs d)
    (hroom : room ≤ limit.toNat) :
    ∃ e, recognize limit n.text =
        .ok { rule := .equation, text := n.text, start := 0, stop := n.text.length,
              children := [e] } ∧
      n = e.relocate (· + n.start) := by
  obtain ⟨hskip, hlayout⟩ := h.skipBlanks_eq_within trivial
  obtain ⟨e, _, he, hspans⟩ := exists_spans_of_layout (h.path hroom) hlayout
  refine ⟨e, he, ?_⟩
  -- Put back into its place the expression is read from the same lexemes.
  have hplaced := hspans.within n.start d.rest
  rw [← hskip] at hplaced
  exact List.singleton_inj.mp ((h.to_skipBlanks trivial).unique hplaced).1

theorem rule_ne_expression_of_primary (h : Spans room .primary c [n] xs d) :
    n.rule ≠ .expression := by
  cases h <;> simp

theorem lift {l : Layer} (h : Spans room l.operand c.skipBlanks [n] xs d) :
    Spans room (.row l) c [c.skipBlanks.node l.rule d [n]] xs d := by
  have hrow := row h (done l)
  rwa [List.append_nil, List.append_nil] at hrow

/-- Every part is an expression, once the grammar has its terms around it. -/
theorem exists_wraps (h : Spans room p c [n] xs d) (hp : p.IsWhole) :
    ∃ w, Spans room (.row .expression) c [w] xs d ∧ w.Wraps n ∧ w.start = n.start ∧
      w.text = n.text ∧ (n.rule = .expression → w = n) := by
  obtain ⟨rule, children, hn⟩ := h.exists_node hp
  obtain rfl := List.singleton_inj.mp hn
  have hwhole := h.to_skipBlanks hp
  cases p with
  | primary =>
    have hterm := lift (l := .term) (.plain hwhole)
    have hexpression := lift (l := .expression) (hterm.to_skipBlanks trivial)
    refine ⟨_, hexpression, .child (.inl rfl) rfl (.child (.inr rfl) rfl .self), rfl, rfl, ?_⟩
    exact fun hrule => absurd hrule h.rule_ne_expression_of_primary
  | row l =>
    cases l with
    | term =>
      refine ⟨_, lift (l := .expression) hwhole, .child (.inl rfl) rfl .self, rfl, rfl, ?_⟩
      intro hrule
      rw [h.rule_of_row] at hrule
      cases hrule
    | expression => exact ⟨_, h, .self, rfl, rfl, fun _ => rfl⟩
  | unary | tail => exact hp.elim

end Spans

/-! ## Excerpts -/

theorem Node.IsPart.exists_excerpt {limit : Int} {n : Node} (h : n.IsPart limit.toNat) :
    ∃ e m, recognize limit n.text =
        .ok { rule := .equation, text := n.text, start := 0, stop := n.text.length,
              children := [e] } ∧
      e.Wraps m ∧ n = m.relocate (· + n.start) ∧ (n.rule = .expression → m = e) := by
  obtain ⟨room, p, c, xs, d, hroom, hp, h⟩ := h
  obtain ⟨w, hw, hwraps, hstart, htext, hsame⟩ := h.exists_wraps hp
  obtain ⟨e, he, hplaced⟩ := hw.exists_excerpt hroom
  rw [htext] at he
  rw [hstart] at hplaced
  by_cases hrule : n.rule = .expression
  · obtain rfl := hsame hrule
    exact ⟨e, e, he, .self, hplaced, fun _ => rfl⟩
  · obtain ⟨m, hm, hn⟩ := Wraps.of_relocate (hplaced ▸ hwraps)
    exact ⟨e, m, he, hm, hn, fun h => absurd h hrule⟩

theorem Recognized.forall_valued {limit : Int} {t : Text} {root : Node} {Q : Node → Prop}
    (hQ : ∀ n m, n.rule ≠ .number → Q n → m ∈ n.children → m.rule.hasValue = true → Q m)
    (h : Recognized limit t (.ok root)) (hroot : ∀ e, root.children = [e] → Q e) :
    ∀ n ∈ root.preorder, n.rule.hasValue = true → n.IsPart limit.toNat ∧ Q n := by
  cases h with
  | @tree e _ _ hspans _ _ =>
    rw [preorder_eq, List.forall_mem_cons]
    refine ⟨fun hvalued => ?_, hspans.forall_valued hQ ?_⟩
    · exact absurd hvalued Bool.false_ne_true
    · exact fun n hn _ => List.mem_singleton.mp hn ▸ hroot e rfl

/-- The text of a node with a value is an expression that holds the same node at
its beginning, and has the value that the node has in the whole. -/
theorem recognize_excerpt {limit : Int} {t : Text} {root n : Node}
    (h : recognize limit t = .ok root) (hn : n ∈ root.preorder) (hvalued : n.rule.hasValue = true) :
    (∃ e m, recognize limit n.text =
        .ok { rule := .equation, text := n.text, start := 0, stop := n.text.length,
              children := [e] } ∧
      e.Wraps m ∧ n = m.relocate (· + n.start) ∧ (n.rule = .expression → m = e)) ∧
    ∀ settings : Settings, settings.maxDepth = limit →
      ∀ v, Calculator.evaluate settings t = .ok v →
        ∃ x, reduce settings.arithmetic n = .ok x ∧
          Calculator.evaluate settings n.text = .ok (settings.mode.value x) := by
  have hrecognized : Recognized limit t (.ok root) := h ▸ recognized limit t
  have hpart := (hrecognized.forall_valued (Q := fun _ => True) (fun _ _ _ _ _ _ => trivial)
    (fun _ _ => trivial) n hn hvalued).1
  obtain ⟨e, m, he, hwraps, hplaced, hsame⟩ := hpart.exists_excerpt
  refine ⟨⟨e, m, he, hwraps, hplaced, hsame⟩, fun settings hlimit v hv => ?_⟩
  subst hlimit
  rw [Calculator.evaluate_eq_value_number, Calculator.number_of_recognize h] at hv
  obtain ⟨y, hy, _⟩ := exists_of_map_eq_ok hv
  obtain ⟨x, hx⟩ : ∃ x, reduce settings.arithmetic n = .ok x := by
    refine (hrecognized.forall_valued (fun _ _ hrule hx hm hvalued =>
      exists_reduce_of_child hrule hx hm hvalued) (fun e he => ⟨y, ?_⟩) n hn hvalued).2
    cases hrecognized with
    | tree _ _ _ => rwa [evaluate_of_equation rfl he] at hy
  have hsame : reduce settings.arithmetic m = .ok x := by
    rw [hplaced, reduce_relocate] at hx
    exact eq_ok_of_mapError hx
  refine ⟨x, hx, ?_⟩
  rw [Calculator.evaluate_eq_value_number, Calculator.number_of_recognize he,
    evaluate_of_equation rfl rfl, hwraps.reduce_eq, hsame]
  rfl

/-- In `7*(1+ 2)` the group is worth 3, and so it is alone. -/
theorem evaluate_excerpt_group :
    ∃ root n, recognize 64 "7*(1+ 2)".toList = .ok root ∧ n ∈ root.preorder ∧
      n.text = "(1+ 2)".toList ∧ ∃ x, reduce (integral .radians) n = .ok x ∧
        Calculator.evaluate { mode := .int32 } n.text = .ok (.int x) := by
  obtain ⟨root, hroot, hany⟩ := exists_recognized (by decide +kernel :
    (recognize 64 "7*(1+ 2)".toList).toOption.map
      (fun root => root.preorder.any fun n => n.rule = .group ∧ n.text = "(1+ 2)".toList) =
        some true)
  obtain ⟨n, hn, hgroup⟩ := List.any_eq_true.mp hany
  obtain ⟨hrule, htext⟩ := of_decide_eq_true hgroup
  have hnumber : Calculator.number { mode := .int32 } "7*(1+ 2)".toList = .ok (21 : Int) := by
    decide +kernel
  have hwhole := Calculator.evaluate_eq_value_number { mode := .int32 } "7*(1+ 2)".toList
  rw [hnumber] at hwhole
  exact ⟨root, n, hroot, hn, htext,
    (recognize_excerpt hroot hn (by rw [hrule]; rfl)).2 { mode := .int32 } rfl _ hwhole⟩

end Reckon
