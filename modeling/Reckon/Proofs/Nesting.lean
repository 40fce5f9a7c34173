/-
The nesting limit.

Recognizing a text with a limit differs from recognizing it without one only if
some parenthesis is opened, in the part of the text that is read at all, while
as many others are open as the limit allows.  The first such parenthesis is
then reported, and nothing else.  How many are open is counted in the text.
-/
import Reckon.Proofs.Limits
import Reckon.Proofs.Parentheses

namespace Reckon

/-! ## What is reported -/

/-- A parenthesis is opened at an offset while at least `limit` others are
open. -/
def Text.DeepAt (t : Text) (limit : Int) (i : Nat) : Prop :=
  t[i]? = some '(' ∧ limit ≤ unclosed (t.take i)

instance (t : Text) (limit : Int) (i : Nat) : Decidable (t.DeepAt limit i) :=
  inferInstanceAs (Decidable (_ ∧ _))

/-- How far a text is read: to its end, or up to the place of a syntax error. -/
inductive Text.ReadUpTo (t : Text) : Except Fault Node → Nat → Prop
  | tree {root : Node} : ReadUpTo t (.ok root) t.length
  | unexpected {p : Nat} {expected : List Label} :
      ReadUpTo t (.error (.unexpected p expected)) p

/-- A parenthesis that is one too many, and the construct that it opens.  No
parenthesis before it is one. -/
structure Text.FirstBeyond (t : Text) (limit i start : Nat) : Prop where
  paren : t[i]? = some '('
  unclosed : Text.unclosed (t.take i) = limit
  within : Text.OpensWithin limit 0 (t.take i)
  start : Text.constructStart (t.take i) = start

theorem Text.FirstBeyond.of_append {limit : Nat} {u rest : Text} {xs : List Lexeme} {q : Stage}
    {start : Nat} (hlayout : Text.Layout xs u) (hpath : Stage.Path limit .start xs q)
    (hq : q.opened = limit) (hstart : Text.constructStart u = start) :
    Text.FirstBeyond (u ++ '(' :: rest) limit u.length start := by
  obtain ⟨hwithin, hcount⟩ := hlayout.opensWithin hpath
  refine ⟨by simp, ?_, ?_, ?_⟩
  · rw [List.take_left]
    exact hcount.trans hq
  · rw [List.take_left]
    exact hwithin
  · rw [List.take_left]
    exact hstart

theorem Overrun.exists_firstBeyond {limit : Nat} {t : Text} {start : Nat} {next : Cursor}
    (h : Overrun limit .start (.ofText t) start next) :
    ∃ i, t.FirstBeyond limit i start ∧ next.pos = i + 1 := by
  cases h with
  | @group xs q q' e _ hrun hmode _ hlimit hopen =>
    obtain ⟨u, ht, hpos, hlayout⟩ := hrun.layout
    have hrest := hopen.rest
    have hnext := hopen.pos
    simp only [Cursor.ofText, Nat.zero_add] at ht hpos
    rw [hrest] at ht
    rw [ht, hpos]
    refine ⟨u.length, .of_append hlayout hrun.path hlimit ?_, ?_⟩
    · exact hlayout.constructStart_group hrun.path hmode
    · rw [hnext, hpos]
      rfl
  | @call xs q q' e e' _ f hrun hname hlimit hopen =>
    obtain ⟨w, htw, hposw, hlayoutw⟩ := hrun.layout
    have hrun' := hrun.append (.single hname)
    obtain ⟨u, ht, hpos, hlayout⟩ := hrun'.layout
    obtain ⟨gap, hgap, hgaprest, _⟩ := e'.exists_gap
    simp only [Cursor.ofText, Nat.zero_add] at ht hpos htw hposw
    have hu : u = w ++ f.name ++ gap := by
      rw [hname.takes.rest, hgaprest] at htw
      refine List.append_cancel_right (ht.symm.trans (htw.trans ?_))
      simp [Lexeme.functionName]
    have hopened : q'.opened = limit := by
      rw [Stage.opened_after hname.after (by simp) (by simp), hlimit]
    rw [hopen.rest] at ht
    rw [ht, hposw]
    refine ⟨u.length, .of_append hlayout hrun'.path hopened ?_, ?_⟩
    · rw [hu]
      exact hlayoutw.constructStart_call f hgap
    · rw [hopen.pos, hpos]
      rfl

/-! ## How far a text is read -/

section

variable {limit limit' : Int} {t : Text} {r : Except Fault Node} {q i start : Nat}

theorem Text.not_deepAt_of_opensWithin (h : Text.OpensWithin limit.toNat 0 (t.take q)) :
    ∀ j < q, ¬ t.DeepAt limit j := by
  intro j hj hdeep
  obtain ⟨hparen, hunclosed⟩ := hdeep
  have hlt := Text.opensWithin_iff.mp h j (by rw [List.getElem?_take_of_lt hj, hparen])
  rw [List.take_take, Nat.min_eq_left (Nat.le_of_lt hj)] at hlt
  unfold Text.unclosed at hunclosed
  omega

theorem Text.FirstBeyond.deepAt (h : t.FirstBeyond limit.toNat i start) : t.DeepAt limit i := by
  refine ⟨h.paren, ?_⟩
  rw [h.unclosed]
  exact Int.self_le_toNat limit

theorem Text.FirstBeyond.lt_length (h : t.FirstBeyond limit.toNat i start) : i < t.length :=
  (List.getElem?_eq_some_iff.mp h.paren).1

/-- As far as a text is read its parentheses stay within the limit. -/
theorem Recognized.opensWithin (h : Recognized limit t r) (hq : t.ReadUpTo r q) :
    Text.OpensWithin limit.toNat 0 (t.take q) := by
  cases hq with
  | tree =>
    cases h with
    | tree _ hrun hrest =>
      obtain ⟨u, ht, _, hlayout⟩ := hrun.layout
      rw [hrest, List.append_nil] at ht
      rw [List.take_length, show t = u from ht]
      exact (hlayout.opensWithin hrun.path).1
  | unexpected =>
    obtain ⟨u, xs, _, e, ht, rfl, hlayout, hhalt, _⟩ := h.exists_halt
    rw [ht, List.take_left]
    exact (hlayout.opensWithin hhalt.run.path).1

/-- A parenthesis that is one too many for some limit lies in the part of the
text that is read with any other. -/
theorem Recognized.lt_of_overrun (h : Recognized limit t r) (hq : t.ReadUpTo r q) {n : Nat}
    {next : Cursor} (hover : Overrun n .start (.ofText t) start next)
    (hi : t.FirstBeyond n i start) (hnext : next.pos = i + 1) : i < q := by
  cases hq with
  | tree => exact (List.getElem?_eq_some_iff.mp hi.paren).1
  | unexpected =>
    obtain ⟨u, _, _, e, ht, rfl, _, hhalt, _⟩ := h.exists_halt
    obtain ⟨xs, q, c, q', hrun, hstep, _⟩ := hover.step
    have hrun' := (hrun.mono (Nat.le_succ n)).append (.single hstep)
    obtain ⟨_, _, hrest⟩ := hhalt.exceeds hrun'
    have hpos := hhalt.run.pos_eq_length ht
    have hle := next.pos_le_pos_skipBlanks
    have hle' := hrest.pos_le
    omega

theorem Recognized.exists_firstBeyond {p : Nat}
    (h : Recognized limit t (.error (.tooDeep limit p))) :
    ∃ i next, t.FirstBeyond limit.toNat i p ∧ next.pos = i + 1 ∧
      Overrun limit.toNat .start (.ofText t) p next := by
  cases h with
  | tooDeep hover =>
    obtain ⟨i, hi, hnext⟩ := hover.exists_firstBeyond
    exact ⟨i, _, hi, hnext, hover⟩

/-- A limit of the length of the text is out of reach. -/
theorem Recognized.exists_readUpTo (h : Recognized limit t r) (hlimit : t.length ≤ limit) :
    ∃ q, t.ReadUpTo r q := by
  cases h with
  | tree _ _ _ => exact ⟨_, .tree⟩
  | unexpected _ _ _ => exact ⟨_, .unexpected⟩
  | tooDeep hover =>
    obtain ⟨i, hi, _⟩ := hover.exists_firstBeyond
    have hle := Text.unclosed_le_length (t.take i)
    have hlt := hi.lt_length
    rw [hi.unclosed, List.length_take] at hle
    omega

end

/-! ## The limit is exact -/

/-- Against a limit that the text cannot reach, a limit makes a difference only
if some parenthesis is one too many in the part that is read.  The first such
parenthesis is reported, at the beginning of its group or call; otherwise the
tree or the syntax error is the same. -/
theorem recognize_limit_exact (d : Int) (t : Text) {limit : Int} (hlimit : t.length ≤ limit) :
    ∃ q, t.ReadUpTo (recognize limit t) q ∧
      (∀ i < q, t.DeepAt d i → (∀ j < i, ¬ t.DeepAt d j) →
        recognize d t = .error (.tooDeep d (Text.constructStart (t.take i)))) ∧
      ((∀ i < q, ¬ t.DeepAt d i) → recognize d t = recognize limit t) ∧
      (∀ p, (Fault.tooDeep d p).failure? t =
        some (.limit s!"Nesting deeper than {d} levels" t p d)) ∧
      ∀ d', d ≤ d' → (∀ p, recognize d t ≠ .error (.tooDeep d p)) →
        recognize d' t = recognize d t := by
  have hrecognized := recognized limit t
  obtain ⟨q, hq⟩ := hrecognized.exists_readUpTo hlimit
  have hcut : recognize d t = recognize limit t ∨
      ∃ p, recognize d t = .error (.tooDeep d p) := by
    rcases Int.le_total d limit with hle | hle
    · exact recognize_eq_or_tooDeep hle t
    · rcases recognize_eq_or_tooDeep hle t with heq | ⟨p, hp⟩
      · exact .inl heq.symm
      · rw [hp] at hq
        cases hq
  refine ⟨q, hq, ?_, ?_, fun _ => rfl, ?_⟩
  · intro i hi hdeep hfirst
    rcases hcut with heq | ⟨p, hp⟩
    · have hwithin := (heq ▸ recognized d t).opensWithin hq
      exact absurd hdeep (Text.not_deepAt_of_opensWithin hwithin i hi)
    · obtain ⟨i', _, hi', _, _⟩ := (hp ▸ recognized d t).exists_firstBeyond
      have hbefore : ∀ j < i', ¬ t.DeepAt d j := Text.not_deepAt_of_opensWithin hi'.within
      obtain rfl : i = i' := by
        rcases Nat.lt_trichotomy i i' with hlt | heq | hlt
        · exact absurd hdeep (hbefore i hlt)
        · exact heq
        · exact absurd hi'.deepAt (hfirst i' hlt)
      rw [hp, hi'.start]
  · intro hnone
    refine hcut.resolve_right fun h => ?_
    obtain ⟨p, hp⟩ := h
    obtain ⟨i, next, hi, hnext, hover⟩ := (hp ▸ recognized d t).exists_firstBeyond
    exact hnone i (hrecognized.lt_of_overrun hq hover hi hnext) hi.deepAt
  · intro d' hd' hne
    exact ((recognize_eq_or_tooDeep hd' t).resolve_right fun h => hne _ h.choose_spec).symm

/-- In `(1+asin (2` the second parenthesis belongs to a call, which begins at its
name. -/
theorem recognize_group_asin : recognize 1 "(1+asin (2".toList = .error (.tooDeep 1 3) := by
  have hfar : recognize 10 "(1+asin (2".toList = .error (.unexpected 10
      [.closeParen, .operator .add, .operator .divide, .operator .exponent, .operator .modulo,
        .operator .multiply, .operator .subtract]) := by
    decide +kernel
  obtain ⟨q, hq, hdeep, _⟩ :=
    recognize_limit_exact 1 "(1+asin (2".toList (by decide : (_ : Int) ≤ 10)
  rw [hfar] at hq
  cases hq
  exact hdeep 8 (by decide) (by decide) (by decide)

end Reckon
