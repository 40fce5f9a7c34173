/-
The characters that a tree covers.

Every node of a recognized tree lies in the text as its offsets say, and the
nodes below it lie in it one after another.  Between them are blanks, and in a
group or a call the two parentheses.  So no character that counts is lost, and
none is in two places.
-/
import Reckon.Proofs.Recognition
import Reckon.Proofs.Subtrees

namespace Reckon

/-! ## Characters and nodes -/

/-- There is a character at the offset, and it is no blank. -/
def Text.SolidAt (t : Text) (i : Nat) : Prop :=
  ∃ c, t[i]? = some c ∧ isBlank c = false

instance (t : Text) (i : Nat) : Decidable (t.SolidAt i) :=
  match h : t[i]? with
  | some c => decidable_of_iff (Text.isBlank c = false) (by simp [Text.SolidAt, h])
  | none => isFalse (by simp [Text.SolidAt, h])

namespace Node

def Covers (n : Node) (i : Nat) : Prop :=
  n.start ≤ i ∧ i < n.stop

instance (n : Node) (i : Nat) : Decidable (n.Covers i) :=
  inferInstanceAs (Decidable (_ ∧ _))

/-- A character that a node covers and none of its children does. -/
def Owns (n : Node) (t : Text) (i : Nat) : Prop :=
  n.Covers i ∧ t.SolidAt i ∧ ∀ m ∈ n.children, ¬ m.Covers i

instance (n : Node) (t : Text) (i : Nat) : Decidable (n.Owns t i) :=
  inferInstanceAs (Decidable (_ ∧ _ ∧ _))

def IsEnclosed (n : Node) : Prop :=
  n.rule = .group ∨ n.rule = .functionCall

instance (n : Node) : Decidable n.IsEnclosed :=
  inferInstanceAs (Decidable (_ ∨ _))

theorem IsRow.not_isEnclosed {n : Node} (h : n.IsRow) : ¬ n.IsEnclosed := by
  unfold IsRow at h
  unfold IsEnclosed
  rcases h with h | h <;> simp [h]

/-- A node begins and ends with a character that is no blank. -/
structure Trimmed (n : Node) (t : Text) : Prop where
  first : t.SolidAt n.start
  last : t.SolidAt (n.stop - 1)

/-- A node and its children lie in the text as their offsets say. -/
structure Faithful (n : Node) (t : Text) : Prop where
  start_lt_stop : n.start < n.stop
  stop_le : n.stop ≤ t.length
  text_eq : n.text = (t.drop n.start).take (n.stop - n.start)
  inside : ∀ m ∈ n.children, n.start ≤ m.start ∧ m.stop ≤ n.stop
  ordered : n.children.Pairwise fun m m' => m.stop ≤ m'.start
  flush : n.IsRow → n.children.head?.map Node.start = some n.start ∧
    n.children.getLast?.map Node.stop = some n.stop
  leaf : n.children = [] → ∀ c ∈ n.text, Text.isBlank c = false
  branch : n.children ≠ [] → ¬ n.IsEnclosed → ∀ i, ¬ n.Owns t i
  /-- Two parentheses stand around the last child, which is an expression. -/
  enclosed : n.IsEnclosed → ∃ body opening closing,
    n.children.getLast? = some body ∧ body.rule = .expression ∧
    opening < body.start ∧ body.stop ≤ closing ∧
    t[opening]? = some '(' ∧ t[closing]? = some ')' ∧
    ∀ i, n.Owns t i ↔ i = opening ∨ i = closing

/-- A character stands in a leaf, or it is a parenthesis of a group or a call. -/
def Holds (n : Node) (t : Text) (i : Nat) : Prop :=
  (n.children = [] ∧ n.Covers i) ∨
    (n.IsEnclosed ∧ n.Owns t i ∧ (t[i]? = some '(' ∨ t[i]? = some ')'))

instance (n : Node) (t : Text) (i : Nat) : Decidable (n.Holds t i) :=
  haveI : Decidable (n.children = []) := decidable_of_iff _ List.isEmpty_iff
  inferInstanceAs (Decidable (_ ∨ _))

end Node

/-! ## One place for every character -/

namespace Node

variable {t : Text} {i : Nat}

theorem Faithful.covers_of_child {n m : Node} (h : n.Faithful t) (hm : m ∈ n.children)
    (hi : m.Covers i) : n.Covers i := by
  obtain ⟨hstart, hstop⟩ := h.inside m hm
  exact ⟨Nat.le_trans hstart hi.1, Nat.lt_of_lt_of_le hi.2 hstop⟩

/-- A node holds the characters that it covers and no child does. -/
theorem Faithful.holds_iff {n : Node} (h : n.Faithful t) (hi : t.SolidAt i) :
    n.Holds t i ↔ n.Covers i ∧ ∀ m ∈ n.children, ¬ m.Covers i := by
  have howns : n.Owns t i ↔ n.Covers i ∧ ∀ m ∈ n.children, ¬ m.Covers i := by
    simp [Owns, hi]
  rw [← howns]
  constructor
  · intro hholds
    rcases hholds with ⟨hleaf, hcovers⟩ | ⟨_, hown, _⟩
    · exact howns.mpr ⟨hcovers, by simp [hleaf]⟩
    · exact hown
  · intro hown
    by_cases hleaf : n.children = []
    · exact .inl ⟨hleaf, hown.1⟩
    · by_cases henclosed : n.IsEnclosed
      · obtain ⟨_, _, _, _, _, _, _, hopen, hclose, hiff⟩ := h.enclosed henclosed
        refine .inr ⟨henclosed, hown, ?_⟩
        rcases (hiff i).mp hown with rfl | rfl
        · exact .inl hopen
        · exact .inr hclose
      · exact absurd hown (h.branch hleaf henclosed i)

mutual

theorem countP_holds (n : Node) (h : ∀ m ∈ n.preorder, m.Faithful t) (hi : t.SolidAt i) :
    n.preorder.countP (fun m => m.Holds t i) = if n.Covers i then 1 else 0 := by
  obtain ⟨rule, text, start, stop, children⟩ := n
  have hn := h _ (mem_preorder_self _)
  have hbelow := countP_holds_all children
    (fun m hm => h m (by rw [preorder_eq]; exact List.mem_cons_of_mem _ hm)) hn.ordered hi
  rw [preorder_eq, List.countP_cons, hbelow]
  simp only [decide_eq_true_eq, hn.holds_iff hi]
  by_cases hchild : ∃ m ∈ children, m.Covers i
  · obtain ⟨m, hm, hcovers⟩ := hchild
    rw [if_pos ⟨m, hm, hcovers⟩, if_neg fun hnone => hnone.2 m hm hcovers,
      if_pos (hn.covers_of_child hm hcovers)]
  · rw [if_neg hchild, Nat.zero_add]
    refine if_congr ?_ rfl rfl
    exact and_iff_left fun m hm hcovers => hchild ⟨m, hm, hcovers⟩

theorem countP_holds_all (ns : List Node) (h : ∀ m ∈ preorders ns, m.Faithful t)
    (hordered : ns.Pairwise fun m m' => m.stop ≤ m'.start) (hi : t.SolidAt i) :
    (preorders ns).countP (fun m => m.Holds t i) = if ∃ m ∈ ns, m.Covers i then 1 else 0 := by
  match ns with
  | [] => simp [preorders]
  | n :: ns =>
    obtain ⟨hlater, hordered⟩ := List.pairwise_cons.mp hordered
    rw [preorders, List.countP_append,
      countP_holds n (fun m hm => h m (List.mem_append_left _ hm)) hi,
      countP_holds_all ns (fun m hm => h m (List.mem_append_right _ hm)) hordered hi]
    by_cases hcovers : n.Covers i
    · -- What comes later begins after the character.
      have hnone : ¬ ∃ m ∈ ns, m.Covers i := by
        intro hsome
        obtain ⟨m, hm, hstart, _⟩ := hsome
        have := hlater m hm
        have := hcovers.2
        omega
      rw [if_pos hcovers, if_neg hnone, if_pos ⟨n, List.mem_cons_self, hcovers⟩]
    · rw [if_neg hcovers, Nat.zero_add]
      simp [hcovers]

end

end Node

/-! ## Cursors in a text -/

/-- The cursor stands in the text. -/
structure Cursor.In (c : Cursor) (t : Text) : Prop where
  rest_eq : c.rest = t.drop c.pos
  pos_le : c.pos ≤ t.length

namespace Cursor

variable {c d : Cursor} {s t : Text} {i : Nat}

theorem in_ofText (t : Text) : (ofText t).In t :=
  ⟨rfl, Nat.zero_le _⟩

theorem In.getElem? (h : c.In t) (k : Nat) : t[c.pos + k]? = c.rest[k]? := by
  rw [h.rest_eq, List.getElem?_drop]

theorem In.skipBlanks (h : c.In t) : c.skipBlanks.In t := by
  obtain ⟨gap, _, hrest, hpos⟩ := c.exists_gap
  refine ⟨?_, ?_⟩
  · rw [hpos, ← List.drop_drop, ← h.rest_eq, hrest, List.drop_left]
  · have hlength := congrArg List.length (h.rest_eq.symm.trans hrest)
    rw [List.length_drop, List.length_append] at hlength
    have := h.pos_le
    omega

theorem In.takes (h : c.In t) (htakes : c.Takes s d) : d.In t := by
  have hrest := htakes.rest
  rw [h.skipBlanks.rest_eq] at hrest
  refine ⟨?_, ?_⟩
  · rw [htakes.pos, ← List.drop_drop, hrest, List.drop_left]
  · have hlength := congrArg List.length hrest
    rw [List.length_drop, List.length_append] at hlength
    have := htakes.pos
    have := h.skipBlanks.pos_le
    omega

theorem In.pos_lt (hc : c.In t) (hd : d.In t) (h : d.rest.length < c.rest.length) :
    c.pos < d.pos := by
  rw [hc.rest_eq, hd.rest_eq, List.length_drop, List.length_drop] at h
  omega

theorem In.length_rest_le (h : c.In t) : c.rest.length ≤ t.length := by
  rw [h.rest_eq, List.length_drop]
  exact Nat.sub_le _ _

theorem In.not_solidAt_gap (h : c.In t) (hle : c.pos ≤ i) (hlt : i < c.skipBlanks.pos) :
    ¬ t.SolidAt i := by
  obtain ⟨gap, hgap, hrest, hpos⟩ := c.exists_gap
  obtain ⟨k, rfl⟩ := Nat.exists_eq_add_of_le hle
  rintro ⟨a, ha, hblank⟩
  rw [h.getElem?, hrest, List.getElem?_append_left (by omega)] at ha
  have := hgap a (List.mem_of_getElem? ha)
  simp [hblank] at this

theorem In.solidAt_skipBlanks (h : c.In t) (hlt : c.skipBlanks.pos < t.length) :
    t.SolidAt c.skipBlanks.pos := by
  have hget := h.skipBlanks.getElem? 0
  rw [Nat.add_zero] at hget
  cases hrest : c.skipBlanks.rest with
  | nil =>
    rw [hrest, List.getElem?_nil] at hget
    have := List.getElem?_eq_none_iff.mp hget
    omega
  | cons a rest =>
    rw [hrest, List.getElem?_cons_zero] at hget
    exact ⟨a, hget, isBlank_head_skipBlanks hrest⟩

theorem In.getElem?_taken (h : c.In t) (htakes : c.Takes s d) {k : Nat} (hk : k < s.length) :
    t[c.skipBlanks.pos + k]? = s[k]? := by
  rw [h.skipBlanks.getElem?, htakes.rest, List.getElem?_append_left hk]

theorem In.solidAt_taken {l : Label} (h : c.In t) (htakes : c.Takes s d) (hs : l.Spells s)
    (hle : c.skipBlanks.pos ≤ i) (hlt : i < d.pos) : t.SolidAt i := by
  obtain ⟨k, rfl⟩ := Nat.exists_eq_add_of_le hle
  have hk : k < s.length := by
    have := htakes.pos
    omega
  refine ⟨s[k], ?_, hs.isBlank_eq_false (List.getElem_mem hk)⟩
  rw [h.getElem?_taken htakes hk]
  exact List.getElem?_eq_getElem hk

end Cursor

/-! ## Nodes one after another -/

/-- Nodes from one offset to another, with nothing but blanks before each of
them. -/
inductive Chain (t : Text) : Nat → List Node → Nat → Prop
  | done {a : Nat} : Chain t a [] a
  | next {a b : Nat} {n : Node} {ns : List Node} :
      a ≤ n.start → (∀ i, a ≤ i → i < n.start → ¬ t.SolidAt i) → n.start < n.stop →
      n.Trimmed t → Chain t n.stop ns b → Chain t a (n :: ns) b

namespace Chain

variable {t : Text} {a b c i : Nat} {ns ms : List Node}

theorem append (h : Chain t a ns b) (h' : Chain t b ms c) : Chain t a (ns ++ ms) c := by
  induction h with
  | done => exact h'
  | next hle hgap hlt htrimmed _ ih => exact .next hle hgap hlt htrimmed (ih h')

theorem le (h : Chain t a ns b) : a ≤ b := by
  induction h with
  | done => exact Nat.le_refl _
  | next hle _ hlt _ _ ih => omega

theorem bounds (h : Chain t a ns b) : ∀ m ∈ ns, a ≤ m.start ∧ m.stop ≤ b := by
  induction h with
  | done => simp
  | next hle _ hlt _ h ih =>
    intro m hm
    rcases List.mem_cons.mp hm with rfl | hm
    · exact ⟨hle, h.le⟩
    · have := ih m hm
      exact ⟨by omega, this.2⟩

theorem ordered (h : Chain t a ns b) : ns.Pairwise fun m m' => m.stop ≤ m'.start := by
  induction h with
  | done => exact .nil
  | next _ _ _ _ h ih => exact .cons (fun m hm => (h.bounds m hm).1) ih

theorem not_solidAt (h : Chain t a ns b) (hle : a ≤ i) (hlt : i < b)
    (hns : ∀ m ∈ ns, ¬ m.Covers i) : ¬ t.SolidAt i := by
  induction h with
  | done => omega
  | @next a b n ns _ hgap _ _ _ ih =>
    by_cases hbefore : i < n.start
    · exact hgap i hle hbefore
    · have hn := hns n List.mem_cons_self
      have hafter : n.stop ≤ i := by
        unfold Node.Covers at hn
        omega
      exact ih hafter hlt fun m hm => hns m (List.mem_cons_of_mem _ hm)

theorem getLast?_stop (h : Chain t a ns b) (hne : ns ≠ []) :
    ∃ m, ns.getLast? = some m ∧ m.stop = b ∧ m.Trimmed t := by
  induction h with
  | done => exact absurd rfl hne
  | @next a b n ns _ _ _ htrimmed h ih =>
    cases ns with
    | nil =>
      cases h
      exact ⟨n, rfl, rfl, htrimmed⟩
    | cons m ms =>
      obtain ⟨last, hlast, hstop⟩ := ih (List.cons_ne_nil m ms)
      exact ⟨last, by rw [List.getLast?_cons_cons, hlast], hstop⟩

/-- Where the text goes on with something else than a blank, there the first
node begins. -/
theorem head?_start (h : Chain t a ns b) (hne : ns ≠ []) (ha : t.SolidAt a) :
    ns.head?.map Node.start = some a := by
  cases h with
  | done => exact absurd rfl hne
  | @next _ _ n ns hle hgap _ _ _ =>
    have hstart : n.start = a :=
      Nat.le_antisymm (Nat.le_of_not_lt fun hlt => hgap a (Nat.le_refl a) hlt ha) hle
    rw [List.head?_cons, Option.map_some, hstart]

theorem lt_of_ne_nil (h : Chain t a ns b) (hne : ns ≠ []) : a < b := by
  cases h with
  | done => exact absurd rfl hne
  | next hle _ hlt _ h =>
    have := h.le
    omega

theorem single {cur : Cursor} {n : Node} (hcur : cur.In t) (hstart : n.start = cur.skipBlanks.pos)
    (hlt : n.start < n.stop) (htrimmed : n.Trimmed t) : Chain t cur.pos [n] n.stop := by
  refine .next ?_ (fun i hle hi => hcur.not_solidAt_gap hle (hstart ▸ hi)) hlt htrimmed .done
  rw [hstart]
  exact cur.pos_le_pos_skipBlanks

end Chain

/-! ## Each construct -/

/-- What is read lies in the text, and so do all nodes that are made of it. -/
structure Laid (t : Text) (a : Nat) (ns : List Node) (b : Nat) : Prop where
  chain : Chain t a ns b
  below : ∀ m ∈ Node.preorders ns, m.Faithful t ∧ m.Trimmed t

namespace Laid

variable {t : Text} {a b : Nat} {ns ms : List Node}

theorem nil : Laid t a [] a :=
  ⟨.done, by simp [Node.preorders]⟩

theorem append {c : Nat} (h : Laid t a ns b) (h' : Laid t b ms c) : Laid t a (ns ++ ms) c := by
  refine ⟨h.chain.append h'.chain, fun m hm => ?_⟩
  rw [Node.preorders_append] at hm
  exact (List.mem_append.mp hm).elim (h.below m) (h'.below m)

/-- A node is laid where it begins, once its children are. -/
theorem single {c : Cursor} {n : Node} (hc : c.In t) (hstart : n.start = c.skipBlanks.pos)
    (hn : n.Faithful t) (htrimmed : n.Trimmed t)
    (hbelow : ∀ m ∈ Node.preorders n.children, m.Faithful t ∧ m.Trimmed t) :
    Laid t c.pos [n] n.stop := by
  refine ⟨.single hc hstart hn.start_lt_stop htrimmed, fun m hm => ?_⟩
  rw [Node.preorders, Node.preorders, List.append_nil, Node.preorder_eq] at hm
  rcases List.mem_cons.mp hm with rfl | hm
  · exact ⟨hn, htrimmed⟩
  · exact hbelow m hm

theorem leaf {c d : Cursor} {s : Text} {l : Label} {r : Rule} (hc : c.In t) (htakes : c.Takes s d)
    (hs : l.Spells s) (hr : r ∉ [.expression, .term, .group, .functionCall]) :
    Laid t c.pos [c.skipBlanks.node r d []] d.pos := by
  have hlt : c.skipBlanks.pos < d.pos := by
    have := List.length_pos_iff.mpr hs.ne_nil
    rw [htakes.pos]
    omega
  simp only [List.mem_cons, List.not_mem_nil, or_false, not_or] at hr
  obtain ⟨hexpression, hterm, hgroup, hcall⟩ := hr
  refine .single hc rfl ?_ ?_ (by simp [Cursor.node, Node.preorders])
  · exact {
      start_lt_stop := hlt
      stop_le := (hc.takes htakes).pos_le
      text_eq := by simp only [Cursor.node, hc.skipBlanks.rest_eq]
      inside := by simp [Cursor.node]
      ordered := .nil
      flush := fun hrow => (hrow.elim hexpression hterm).elim
      leaf := by
        intro _ x hx
        rw [Cursor.node, htakes.take_rest] at hx
        exact hs.isBlank_eq_false hx
      branch := fun hne => absurd rfl hne
      enclosed := fun henclosed => (henclosed.elim hgroup hcall).elim }
  · refine ⟨hc.solidAt_taken htakes hs (Nat.le_refl _) hlt, ?_⟩
    exact hc.solidAt_taken htakes hs (Nat.le_sub_one_of_lt hlt) (by simp only [Cursor.node]; omega)

theorem row {c d : Cursor} {r : Rule} (hc : c.In t) (hd : d.In t)
    (h : Laid t c.skipBlanks.pos ns d.pos) (hne : ns ≠ []) (hr : r = .expression ∨ r = .term) :
    Laid t c.pos [c.skipBlanks.node r d ns] d.pos := by
  have hlt := h.chain.lt_of_ne_nil hne
  have hfirst := hc.solidAt_skipBlanks (Nat.lt_of_lt_of_le hlt hd.pos_le)
  obtain ⟨last, hlast, hstop, htrimmed⟩ := h.chain.getLast?_stop hne
  have hend : t.SolidAt (d.pos - 1) := hstop ▸ htrimmed.last
  refine .single hc rfl ?_ ⟨hfirst, hend⟩ h.below
  exact {
    start_lt_stop := hlt
    stop_le := hd.pos_le
    text_eq := by simp only [Cursor.node, hc.skipBlanks.rest_eq]
    inside := h.chain.bounds
    ordered := h.chain.ordered
    flush := by
      intro _
      refine ⟨h.chain.head?_start hne hfirst, ?_⟩
      simp only [Cursor.node, hlast, Option.map_some, hstop]
    leaf := fun hnil => absurd hnil hne
    branch := fun _ _ i hown => h.chain.not_solidAt hown.1.1 hown.1.2 hown.2.2 hown.2.1
    enclosed := fun henclosed => absurd henclosed (Node.IsRow.not_isEnclosed hr) }

end Laid

/-! ## Parentheses -/

/-- Parentheses around an expression, with the node of a name or none before
them. -/
structure Enclosing (t : Text) (c c₁ c₂ c₃ d : Cursor) (before : List Node) (body : Node) :
    Prop where
  start_in : c.In t
  opening_in : c₁.In t
  closing_in : c₃.In t
  name_laid : Laid t c.skipBlanks.pos before c₁.pos
  opening : c₁.Takes ['('] c₂
  body_laid : Laid t c₂.pos [body] c₃.pos
  rule : body.rule = .expression
  closing : c₃.Takes [')'] d

namespace Enclosing

variable {t : Text} {c c₁ c₂ c₃ d : Cursor} {before : List Node} {body : Node} {r : Rule}
  (h : Enclosing t c c₁ c₂ c₃ d before body)

include h

theorem opens : t[c₁.skipBlanks.pos]? = some '(' :=
  h.opening_in.getElem?_taken h.opening Nat.one_pos

theorem closes : t[c₃.skipBlanks.pos]? = some ')' :=
  h.closing_in.getElem?_taken h.closing Nat.one_pos

/-- The places in their order, from left to right. -/
theorem places :
    c.skipBlanks.pos ≤ c₁.pos ∧ c₁.pos ≤ c₁.skipBlanks.pos ∧ c₂.pos = c₁.skipBlanks.pos + 1 ∧
      c₂.pos ≤ body.start ∧ body.stop ≤ c₃.pos ∧ c₂.pos ≤ c₃.pos ∧ c₃.pos ≤ c₃.skipBlanks.pos ∧
      d.pos = c₃.skipBlanks.pos + 1 ∧ d.pos ≤ t.length := by
  obtain ⟨hstart, hstop⟩ := h.body_laid.chain.bounds body List.mem_cons_self
  exact ⟨h.name_laid.chain.le, c₁.pos_le_pos_skipBlanks, h.opening.pos, hstart, hstop,
    h.body_laid.chain.le, c₃.pos_le_pos_skipBlanks, h.closing.pos,
    (h.closing_in.takes h.closing).pos_le⟩

theorem inside : ∀ m ∈ before ++ [body], c.skipBlanks.pos ≤ m.start ∧ m.stop ≤ d.pos := by
  have hplaces := h.places
  intro m hm
  rcases List.mem_append.mp hm with hm | hm
  · have := h.name_laid.chain.bounds m hm
    omega
  · rw [List.mem_singleton.mp hm]
    omega

theorem ordered : (before ++ [body]).Pairwise fun m m' => m.stop ≤ m'.start := by
  have hplaces := h.places
  refine List.pairwise_append.mpr ⟨h.name_laid.chain.ordered, h.body_laid.chain.ordered, ?_⟩
  intro m hm m' hm'
  have := h.name_laid.chain.bounds m hm
  rw [List.mem_singleton.mp hm']
  omega

/-- Between the nodes there are blanks, and the two parentheses. -/
theorem eq_of_solidAt {i : Nat} (hsolid : t.SolidAt i) (hle : c.skipBlanks.pos ≤ i)
    (hlt : i < d.pos) (hnone : ∀ m ∈ before ++ [body], ¬ m.Covers i) :
    i = c₁.skipBlanks.pos ∨ i = c₃.skipBlanks.pos := by
  have hplaces := h.places
  -- From left to right: the name, a gap, the parenthesis, the body, a gap.
  by_cases h₁ : i < c₁.pos
  · refine absurd hsolid (h.name_laid.chain.not_solidAt hle h₁ fun m hm => ?_)
    exact hnone m (List.mem_append_left _ hm)
  by_cases h₂ : i < c₁.skipBlanks.pos
  · exact absurd hsolid (h.opening_in.not_solidAt_gap (Nat.le_of_not_lt h₁) h₂)
  by_cases h₃ : i < c₂.pos
  · exact .inl (by omega)
  by_cases h₄ : i < c₃.pos
  · refine absurd hsolid (h.body_laid.chain.not_solidAt (Nat.le_of_not_lt h₃) h₄ fun m hm => ?_)
    exact hnone m (List.mem_append_right _ hm)
  by_cases h₅ : i < c₃.skipBlanks.pos
  · exact absurd hsolid (h.closing_in.not_solidAt_gap (Nat.le_of_not_lt h₄) h₅)
  · exact .inr (by omega)

theorem owns_iff (i : Nat) :
    (c.skipBlanks.node r d (before ++ [body])).Owns t i ↔
      i = c₁.skipBlanks.pos ∨ i = c₃.skipBlanks.pos := by
  have hplaces := h.places
  constructor
  · rintro ⟨⟨hle, hlt⟩, hsolid, hnone⟩
    exact h.eq_of_solidAt hsolid hle hlt hnone
  · intro hi
    refine ⟨?_, ?_, fun m hm hcovers => ?_⟩
    · simp only [Node.Covers, Cursor.node]
      omega
    · rcases hi with rfl | rfl
      · exact ⟨'(', h.opens, by decide⟩
      · exact ⟨')', h.closes, by decide⟩
    · obtain ⟨hle, hlt⟩ := hcovers
      rcases List.mem_append.mp hm with hm | hm
      · have := h.name_laid.chain.bounds m hm
        omega
      · rw [List.mem_singleton.mp hm] at hle hlt
        omega

theorem laid (hr : r = .group ∨ r = .functionCall) :
    Laid t c.pos [c.skipBlanks.node r d (before ++ [body])] d.pos := by
  have hplaces := h.places
  have hlast : t.SolidAt (d.pos - 1) := by
    refine ⟨')', ?_, by decide⟩
    rw [h.closing.pos]
    exact h.closes
  refine .single h.start_in rfl ?_ ⟨h.start_in.solidAt_skipBlanks (by omega), hlast⟩ ?_
  · exact {
      start_lt_stop := by simp only [Cursor.node]; omega
      stop_le := (h.closing_in.takes h.closing).pos_le
      text_eq := by simp only [Cursor.node, h.start_in.skipBlanks.rest_eq]
      inside := h.inside
      ordered := h.ordered
      flush := fun hrow => absurd hr hrow.not_isEnclosed
      leaf := by simp [Cursor.node]
      branch := fun _ hnot => absurd hr hnot
      enclosed := fun _ => ⟨body, _, _, List.getLast?_concat, h.rule, by omega, by omega, h.opens,
        h.closes, h.owns_iff⟩ }
  · intro m hm
    rw [Cursor.node, Node.preorders_append] at hm
    exact (List.mem_append.mp hm).elim (h.name_laid.below m) (h.body_laid.below m)

end Enclosing

/-! ## Whole derivations -/

theorem Spans.laid {room : Nat} {p : Part} {c d : Cursor} {ns : List Node} {xs : List Lexeme}
    {t : Text} (h : Spans room p c ns xs d) (hc : c.In t) : Laid t c.pos ns d.pos ∧ d.In t := by
  induction h with
  | number hdigits htakes =>
    exact ⟨.leaf (l := .number) hc htakes hdigits (by decide), hc.takes htakes⟩
  | @group room c c₁ c₂ d body xs hopen hbody hclose ih =>
    obtain ⟨hlaid, hc₂⟩ := ih (hc.takes hopen)
    have hgroup : Enclosing t c c.skipBlanks c₁ c₂ d [] body :=
      ⟨hc, hc.skipBlanks, hc₂, .nil, Cursor.takes_skipBlanks.mpr hopen, hlaid, hbody.rule_of_row,
        hclose⟩
    exact ⟨hgroup.laid (.inl rfl), hc₂.takes hclose⟩
  | @call room c c₁ c₂ c₃ d body xs f hname hopen hbody hclose ih =>
    have hc₁ := hc.takes hname
    obtain ⟨hlaid, hc₃⟩ := ih (hc₁.takes hopen)
    have hfirst : Laid t c.skipBlanks.pos [c.skipBlanks.node .functionName c₁ []] c₁.pos := by
      have := Laid.leaf (l := .functionName) (r := .functionName) hc.skipBlanks
        (Cursor.takes_skipBlanks.mpr hname) ⟨f, rfl⟩ (by decide)
      rwa [Cursor.skipBlanks_skipBlanks] at this
    have hcall : Enclosing t c c₁ c₂ c₃ d [c.skipBlanks.node .functionName c₁ []] body :=
      ⟨hc, hc₁, hc₃, hfirst, hopen, hlaid, hbody.rule_of_row, hclose⟩
    exact ⟨hcall.laid (.inr rfl), hc₃.takes hclose⟩
  | plain _ ih => exact ih hc
  | minus hminus _ ih =>
    have hc₁ := hc.takes hminus
    obtain ⟨hlaid, hd⟩ := ih hc₁
    have hsign := Laid.leaf (l := .unaryMinus) (r := .unaryMinus) hc hminus rfl (by decide)
    exact ⟨hsign.append hlaid, hd⟩
  | done l => exact ⟨.nil, hc⟩
  | @more _ _ op _ _ _ _ _ _ _ _ _ _ hs hsign _ _ ihfirst ihtail =>
    have hc₁ := hc.takes hsign
    obtain ⟨hfirst, hc₂⟩ := ihfirst hc₁
    obtain ⟨htail, hd⟩ := ihtail hc₂
    have hleaf := Laid.leaf (l := .operator op) (r := .operator op) hc hsign hs (by simp)
    exact ⟨hleaf.append (hfirst.append htail), hd⟩
  | @row _ l _ _ _ ns ms _ _ hfirst _ ihfirst ihtail =>
    obtain ⟨hlaid, hc₁⟩ := ihfirst hc.skipBlanks
    obtain ⟨hlaid', hd⟩ := ihtail hc₁
    have hne : ns ≠ [] := fun hnil => hfirst.derives.ne_nil (by rw [hnil, List.map_nil])
    have hne' : ns ++ ms ≠ [] := fun hnil => hne (List.append_eq_nil_iff.mp hnil).1
    exact ⟨.row hc hd (hlaid.append hlaid') hne' (by cases l <;> simp [Layer.rule]), hd⟩

/-- The root covers the blanks around its expression too. -/
theorem Laid.faithful_root {t : Text} {e : Node} {d : Cursor} (h : Laid t 0 [e] d.pos)
    (hd : d.In t) (hrest : d.skipBlanks.rest = []) :
    Node.Faithful
      { rule := .equation, text := t, start := 0, stop := t.length, children := [e] } t := by
  have hend : d.skipBlanks.pos = t.length := by
    have hlength := congrArg List.length hd.skipBlanks.rest_eq
    rw [hrest, List.length_nil, List.length_drop] at hlength
    have := hd.skipBlanks.pos_le
    omega
  exact {
    start_lt_stop := Nat.lt_of_lt_of_le (h.chain.lt_of_ne_nil (List.cons_ne_nil e [])) hd.pos_le
    stop_le := Nat.le_refl _
    text_eq := by rw [List.drop_zero, Nat.sub_zero, List.take_length]
    inside := fun m hm => ⟨Nat.zero_le _, Nat.le_trans (h.chain.bounds m hm).2 hd.pos_le⟩
    ordered := h.chain.ordered
    flush := fun hrow => by rcases hrow with hrule | hrule <;> cases hrule
    leaf := fun hnil => absurd hnil (List.cons_ne_nil e [])
    branch := by
      rintro _ _ i ⟨⟨_, hi⟩, hsolid, hnone⟩
      by_cases hbefore : i < d.pos
      · exact h.chain.not_solidAt (Nat.zero_le _) hbefore hnone hsolid
      · exact hd.not_solidAt_gap (Nat.le_of_not_lt hbefore) (hend ▸ hi) hsolid
    enclosed := fun henclosed => by rcases henclosed with hrule | hrule <;> cases hrule }

/-- The tree of a text is a map of it.  Its nodes lie in the text one after
another and one in another, and every character that is no blank is in exactly
one leaf or is a parenthesis of exactly one group or call. -/
theorem recognize_faithful {limit : Int} {t : Text} {root : Node}
    (h : recognize limit t = .ok root) :
    root.start = 0 ∧ root.stop = t.length ∧ (∀ n ∈ root.preorder, n.Faithful t) ∧
      (∀ n ∈ Node.preorders root.children, n.Trimmed t) ∧
      ∀ i, t.SolidAt i → root.preorder.countP (fun n => n.Holds t i) = 1 := by
  have hrecognized := recognized limit t
  rw [h] at hrecognized
  cases hrecognized with
  | @tree e xs d hspans hrun hrest =>
    obtain ⟨hlaid, hd⟩ := hspans.laid (Cursor.in_ofText t)
    have hall : ∀ n ∈ Node.preorder
        { rule := .equation, text := t, start := 0, stop := t.length, children := [e] },
        n.Faithful t := by
      intro n hn
      rw [Node.preorder_eq] at hn
      rcases List.mem_cons.mp hn with rfl | hn
      · exact hlaid.faithful_root hd hrest
      · exact (hlaid.below n hn).1
    refine ⟨rfl, rfl, hall, fun n hn => (hlaid.below n hn).2, fun i hi => ?_⟩
    rw [Node.countP_holds _ hall hi, if_pos]
    obtain ⟨_, hget, _⟩ := hi
    exact ⟨Nat.zero_le _, (List.getElem?_eq_some_iff.mp hget).1⟩

/-- In `sin( 7)` the blank is in no leaf, and the parentheses belong to the call. -/
theorem recognize_sin_seven : ∃ root, recognize 1 "sin( 7)".toList = .ok root ∧
    root.stop = 7 ∧ (∀ n ∈ root.preorder, n.Faithful "sin( 7)".toList) ∧
    ∀ i ∈ [0, 1, 2, 3, 5, 6],
      root.preorder.countP (fun n => n.Holds "sin( 7)".toList i) = 1 := by
  have hok : (recognize 1 "sin( 7)".toList).isOk = true := by decide +kernel
  cases hroot : recognize 1 "sin( 7)".toList with
  | error _ =>
    rw [hroot] at hok
    cases hok
  | ok root =>
    obtain ⟨_, hstop, hall, _, hholds⟩ := recognize_faithful hroot
    refine ⟨root, rfl, hstop, hall, fun i hi => hholds i ?_⟩
    exact (by decide : ∀ i ∈ [0, 1, 2, 3, 5, 6], Text.SolidAt "sin( 7)".toList i) i hi

end Reckon
