/-
The recognizer and the grammar.

A text is recognized by a run that goes as far as the text allows.  Where it
ends, everything that may come next is missing, so every other run through the
text is a beginning of it.  A derivation of the text is such a run as well, and
this makes soundness, completeness and uniqueness one comparison of two runs.
-/
import Reckon.Proofs.Frontiers
import Reckon.Proofs.Verdict
import Reckon.Reading.Session

namespace Reckon

/-! ## Where a run cannot go on -/

theorem Stage.exists_expects (s : Stage) : ∃ l, s.Expects l := by
  obtain ⟨mode, n⟩ := s
  cases mode with
  | operand | unsigned => exact ⟨.number, rfl⟩
  | argument => exact ⟨.openParen, rfl⟩
  | complete => exact ⟨.operator .add, rfl⟩

/-- A run that leads to a place where all that may come next is missing. -/
structure Halt (limit : Nat) (s : Stage) (c : Cursor) (xs : List Lexeme) (q : Stage) (e : Cursor) :
    Prop where
  run : Run limit s c xs q e
  lacks : ∀ l, q.Expects l → e.Lacks l

section

variable {limit limit' : Nat} {s s' q q' : Stage} {c d e : Cursor} {xs ys : List Lexeme}
  {ms : List Miss}

theorem Step.not_lacks {x : Lexeme} (h : Step limit s c x s' d) : ¬ c.Lacks x.label :=
  fun hlacks => hlacks.1 x.text x.spelled h.takes.1

/-- Every other run is a beginning of one that halts. -/
theorem Halt.exceeds (h : Halt limit s c xs q e) (h' : Run limit' s c ys q' d) :
    ∃ zs, xs = ys ++ zs ∧ Run limit q' d zs q e := by
  rcases h.run.comparable h' with ⟨zs, rfl, hzs⟩ | ⟨zs, rfl, hzs⟩
  · cases hzs with
    | done hed => exact ⟨[], by simp, .done hed.symm⟩
    | next hstep _ =>
      exact absurd (h.lacks _ (Stage.expects_of_after? hstep.after)) hstep.not_lacks
  · exact ⟨zs, rfl, hzs⟩

theorem Tried.expects_lacks (hrun : Run limit s c xs q e) {l : Label}
    (h : Tried limit s c (e.miss l)) :
    q.Expects l ∧ e.Lacks l := by
  obtain ⟨ys, q', e', hrun', hmiss, hexpects, hlacks⟩ := h
  obtain ⟨_, rfl, hskip⟩ := hrun.eq_of_pos_eq hrun' (congrArg Miss.pos hmiss)
  exact ⟨hexpects, hlacks.congr hskip.symm⟩

theorem Stalled.halt (htried : ∀ m ∈ ms, Tried limit s c m) (h : Stalled limit s c ms) :
    ∃ xs q e, Halt limit s c xs q e ∧ ∀ l, q.Expects l → e.miss l ∈ ms := by
  obtain ⟨xs, q, e, hrun, hall⟩ := h
  exact ⟨xs, q, e, ⟨hrun, fun l hl => ((htried _ (hall l hl)).expects_lacks hrun).2⟩, hall⟩

/-- A frontier shows where a run halts and what may come next there. -/
theorem Halt.frontier (h : Halt limit s c xs q e) (htried : ∀ m ∈ ms, Tried limit s c m)
    (hall : ∀ l, q.Expects l → e.miss l ∈ ms) :
    (Frontier.empty.recordAll ms).furthest = e.skipBlanks.pos ∧
      ∀ l, l ∈ (Frontier.empty.recordAll ms).labels ↔ q.Expects l := by
  have hfurthest : (Frontier.empty.recordAll ms).furthest = e.skipBlanks.pos := by
    refine Nat.le_antisymm ?_ ?_
    · rcases Frontier.furthest_recordAll_eq .empty ms with heq | ⟨m, hm, heq⟩
      · rw [heq]
        exact Nat.zero_le _
      · -- A miss further on would need a run that goes past the halt.
        obtain ⟨ys, q', e', hrun, hmiss, _⟩ := htried m hm
        obtain ⟨zs, _, hzs⟩ := h.exceeds hrun
        rw [heq, hmiss]
        exact hzs.pos_le
    · obtain ⟨l, hl⟩ := q.exists_expects
      exact Frontier.pos_le_recordAll (hall l hl)
  refine ⟨hfurthest, fun l => ?_⟩
  rw [Frontier.mem_labels, Frontier.mem_expected_recordAll, hfurthest]
  constructor
  · intro h'
    rcases h' with ⟨_, hl⟩ | hmem
    · exact absurd hl List.not_mem_nil
    · exact ((htried _ hmem).expects_lacks h.run).1
  · exact fun hl => .inr (hall l hl)

/-- A run that comes to the end of the text halts there only as a whole
expression. -/
theorem Halt.ne_finish (h : Halt limit s c xs q e) (hd : d.rest = [])
    (h' : Run limit' s c ys .finish d) : False := by
  obtain ⟨zs, _, hzs⟩ := h.exceeds h'
  have hrest : d.skipBlanks.rest = [] := by simp [Cursor.rest_skipBlanks, hd]
  cases hzs with
  | done hde => exact (h.lacks .endOfInput rfl).2 rfl (hde ▸ hrest)
  | @next _ _ _ _ _ _ x _ hstep _ =>
    have htakes := hstep.takes.1
    rw [hrest] at htakes
    exact x.spelled.ne_nil (List.prefix_nil.mp htakes)

theorem Overrun.step {start : Nat} (h : Overrun limit s c start d) :
    ∃ xs q e q', Run limit s c xs q e ∧ Step (limit + 1) q e .openParen q' d ∧
      q'.opened = limit + 1 := by
  have hopens {q q' : Stage} (h : q.after? .openParen = some q') : q'.opened = q.opened + 1 := by
    obtain ⟨mode, n⟩ := q
    cases mode <;> cases h <;> rfl
  cases h with
  | @group xs q q' e _ hrun _ hafter hlimit hopen =>
    have hopened : q'.opened = limit + 1 := by rw [hopens hafter, hlimit]
    exact ⟨_, q, e, q', hrun, .of_fixed trivial hafter (Nat.le_of_eq hopened) hopen, hopened⟩
  | @call xs q q' e e' _ f hrun hname hlimit hopen =>
    obtain ⟨mode, n⟩ := q
    obtain rfl : n = limit := hlimit
    obtain rfl : q' = ⟨.argument, n⟩ := by
      have hafter := hname.after
      cases mode <;> cases hafter <;> rfl
    exact ⟨_, _, e', ⟨.operand, n + 1⟩, hrun.append (.single hname),
      .of_fixed trivial rfl (Nat.le_refl _) hopen, rfl⟩

theorem Overrun.ne_finish {start : Nat} (h : Overrun limit s c start d) (he : e.rest = [])
    (h' : Run limit s c ys .finish e) : False := by
  obtain ⟨xs, q, e', q', hrun, hstep, hopened⟩ := h.step
  have hrest : e.skipBlanks.rest = [] := by simp [Cursor.rest_skipBlanks, he]
  rcases hrun.comparable h' with ⟨zs, _, hzs⟩ | ⟨zs, _, hzs⟩
  · cases hzs with
    | done _ => cases hstep.after
    | next hstep' _ =>
      obtain ⟨_, rfl, _⟩ := hstep.unique hstep'
      have := hstep'.room
      omega
  · cases hzs with
    | done _ => cases hstep.after
    | @next _ _ _ _ _ _ x _ hstep' _ =>
      have htakes := hstep'.takes.1
      rw [hrest] at htakes
      exact x.spelled.ne_nil (List.prefix_nil.mp htakes)

end

/-! ## What recognizing a text comes to -/

instance decidableEqError (r : Except Fault Node) (fault : Fault) :
    Decidable (r = .error fault) :=
  match r with
  | .ok _ => isFalse nofun
  | .error fault' => decidable_of_iff (fault' = fault) (by rw [Except.error.injEq])

inductive Recognized (limit : Int) (t : Text) : Except Fault Node → Prop
  | tree {e : Node} {xs : List Lexeme} {d : Cursor} :
      Spans limit.toNat (.row .expression) (.ofText t) [e] xs d →
      Run limit.toNat .start (.ofText t) xs .finish d → d.skipBlanks.rest = [] →
      Recognized limit t
        (.ok { rule := .equation, text := t, start := 0, stop := t.length, children := [e] })
  | unexpected {q : Stage} {e : Cursor} {xs : List Lexeme} {f : Frontier} :
      Halt limit.toNat .start (.ofText t) xs q e → f.furthest = e.skipBlanks.pos →
      (∀ l, l ∈ f.labels ↔ q.Expects l) → Recognized limit t (.error (Session.unexpected f))
  | tooDeep {start : Nat} {next : Cursor} :
      Overrun limit.toNat .start (.ofText t) start next →
      Recognized limit t (.error (.tooDeep limit start))

theorem Recognized.of_stalled {limit : Int} {t : Text} {ms : List Miss}
    (htried : ∀ m ∈ ms, Tried limit.toNat .start (.ofText t) m)
    (h : Stalled limit.toNat .start (.ofText t) ms) :
    Recognized limit t (.error (Session.unexpected (Frontier.empty.recordAll ms))) := by
  obtain ⟨xs, q, e, hhalt, hall⟩ := h.halt htried
  obtain ⟨hfurthest, hlabels⟩ := hhalt.frontier htried hall
  exact .unexpected hhalt hfurthest hlabels

theorem stalled_finish {limit : Nat} {s : Stage} {c d : Cursor} {xs : List Lexeme} {ms : List Miss}
    (hrun : Run limit s c xs .finish d)
    (hstatus : Settled (Part.row .expression).operators ms d ∨ Stalled limit s c ms) :
    Stalled limit s c (ms ++ [d.miss .endOfInput]) := by
  rcases hstatus with hsettled | hstalled
  · refine ⟨xs, _, d, hrun, fun l hl => ?_⟩
    rcases Stage.of_expects_complete hl with ⟨op, rfl⟩ | ⟨_, hpos⟩ | ⟨rfl, _⟩
    · exact List.mem_append_left _ (hsettled op (Part.mem_operators_expression op))
    · exact absurd hpos (Nat.lt_irrefl 0)
    · exact List.mem_append_right _ List.mem_cons_self
  · exact hstalled.mono (List.subset_append_left _ _)

theorem recognized (limit : Int) (t : Text) : Recognized limit t (recognize limit t) := by
  have hverdict := readsExpressions_expression limit.toNat limit.toNat 0 (.ofText t)
    (Nat.zero_add _)
  obtain ⟨htried, hending⟩ := hverdict
  unfold recognize Session.recognize
  dsimp only [Session.ofText]
  generalize (Reader.expression limit.toNat).read (.ofText t) = reading at htried hending
  obtain ⟨misses, outcome⟩ := reading
  cases hending with
  | @found e xs d hspans hrun hstatus =>
    cases hrest : d.skipBlanks.rest with
    | nil => simpa [hrest] using Recognized.tree hspans hrun hrest
    | cons a more =>
      -- What was found does not reach the end, and the end was expected too.
      have hlacks : d.Lacks .endOfInput := by simp [Cursor.Lacks, Label.Spells, hrest]
      have hstalled := stalled_finish hrun (hstatus.imp id And.left)
      have := Recognized.of_stalled
        (tried_append htried (tried_miss hrun (l := .endOfInput) rfl hlacks)) hstalled
      simpa [hrest, Frontier.recordAll_append, Cursor.miss] using this
  | missing hstalled => exact Recognized.of_stalled htried hstalled
  | tooDeep hoverrun => exact .tooDeep hoverrun

/-- Where a text turns out to be no expression: the text before the offset is
laid out by a run that halts there. -/
theorem Recognized.exists_halt {limit : Int} {t : Text} {p : Nat} {expected : List Label}
    (h : Recognized limit t (.error (.unexpected p expected))) :
    ∃ u xs q e, t = u ++ e.skipBlanks.rest ∧ p = u.length ∧ Text.Layout xs u ∧
      Halt limit.toNat .start (.ofText t) xs q e ∧ (∀ l, l ∈ expected ↔ q.Expects l) ∧
      ∃ f : Frontier, expected = f.labels := by
  generalize hr : Except.error (Fault.unexpected p expected) = r at h
  cases h with
  | tree _ _ _ => cases hr
  | tooDeep _ => cases hr
  | @unexpected q e xs f hhalt hfurthest hlabels =>
    obtain ⟨rfl, rfl⟩ := Fault.unexpected.inj (Except.error.inj hr)
    obtain ⟨u, ht, hpos, hlayout⟩ := hhalt.run.layout
    rw [Cursor.ofText, Nat.zero_add] at hpos
    exact ⟨u, xs, q, e, ht, hfurthest.trans hpos, hlayout, hhalt, hlabels, f, rfl⟩

/-! ## Derivations as paths -/

def Part.Enters : Part → Mode → Prop
  | primary, m => m.IsOperand
  | unary, m | row _, m => m = .operand
  | tail _, m => m = .complete

theorem Layer.enters_operand (l : Layer) : l.operand.Enters .operand := by
  cases l <;> rfl

open Stage in
/-- The lexemes of a derivation may follow one another, as long as there is room
for its parentheses. -/
theorem Derives.path {limit : Nat} {p : Part} {ts : List Tree} {xs : List Lexeme}
    (h : Derives p ts xs) :
    ∀ {n : Nat} {m : Mode}, p.Enters m → n + Tree.nestings ts ≤ limit →
      Path limit ⟨m, n⟩ xs ⟨.complete, n⟩ := by
  induction h with
  | number digits hdigits =>
    intro n m hm hn
    exact .single (after?_number hm n) (by simp only; omega)
  | group _ ih =>
    intro n m hm hn
    simp only [Tree.nestings, Tree.nesting, true_or, if_true] at hn
    have hbody := ih (n := n + 1) rfl (by simp only [Tree.nestings]; omega)
    exact .next (after?_openParen hm n) (by simp only; omega)
      (hbody.append (.single rfl (by simp only; omega)))
  | call f _ ih =>
    intro n m hm hn
    simp only [Tree.nestings, Tree.nesting, or_true, if_true] at hn
    have hbody := ih (n := n + 1) rfl (by simp only [Tree.nestings]; omega)
    have hopen : Path limit ⟨.argument, n⟩ [.openParen] ⟨.operand, n + 1⟩ :=
      .single rfl (by simp only; omega)
    exact .next (after?_functionName hm n) (by simp only; omega)
      (hopen.append (hbody.append (.single rfl (by simp only; omega))))
  | plain _ ih =>
    intro n m hm hn
    cases hm
    exact ih (.inl rfl) hn
  | minus _ ih =>
    intro n m hm hn
    cases hm
    simp only [Tree.nestings, Tree.nesting] at hn
    exact .next rfl (by simp only; omega) (ih (.inr rfl) (by omega))
  | done l =>
    intro n m hm _
    cases hm
    exact .done
  | @more l op spelling ts us xs ys hop hs _ _ ihfirst ihtail =>
    intro n m hm hn
    cases hm
    simp only [Tree.nestings, Tree.nesting, Tree.nestings_append] at hn
    exact .next rfl (by simp only; omega)
      ((ihfirst l.enters_operand (by omega)).append (ihtail rfl (by omega)))
  | @row l ts us xs ys _ _ ihfirst ihtail =>
    intro n m hm hn
    cases hm
    have hrule : ¬ (l.rule = .group ∨ l.rule = .functionCall) := by cases l <;> decide
    simp only [Tree.nestings, Tree.nesting, if_neg hrule, Tree.nestings_append] at hn
    exact (ihfirst l.enters_operand (by omega)).append (ihtail rfl (by omega))

/-- The tree can be read from the text: the lexemes of a derivation are laid out
in it with any gaps. -/
def Tree.IsTreeOf (tree : Tree) (t : Text) : Prop :=
  ∃ xs, tree.IsDerivation xs ∧ Text.Layout xs t

theorem Tree.IsDerivation.path {tree : Tree} {xs : List Lexeme} (h : tree.IsDerivation xs) :
    Stage.Path tree.nesting .start xs .finish := by
  obtain ⟨e, rfl, he⟩ := h
  exact he.path rfl (by simp [nesting, nestings])

theorem Tree.IsDerivation.unique_of_layout {tree tree' : Tree} {xs xs' : List Lexeme} {t : Text}
    (h : tree.IsDerivation xs) (hlayout : Text.Layout xs t) (h' : tree'.IsDerivation xs')
    (hlayout' : Text.Layout xs' t) : tree = tree' ∧ xs = xs' := by
  obtain ⟨rfl, _⟩ := hlayout.unique h.path hlayout' h'.path
  exact ⟨h.unique h', rfl⟩

/-! ## The recognizer decides the grammar -/

theorem Recognized.isTreeOf {limit : Int} {t : Text} {root : Node}
    (h : Recognized limit t (.ok root)) :
    root.shape.IsTreeOf t ∧ root.shape.nesting ≤ limit.toNat := by
  cases h with
  | @tree e xs d hspans hrun hrest =>
    obtain ⟨t', ht, _, hlayout⟩ := hrun.layout
    obtain rfl : t = t' := by simpa [Cursor.ofText, hrest] using ht
    refine ⟨⟨xs, ⟨e.shape, rfl, hspans.derives⟩, hlayout⟩, ?_⟩
    simpa [Node.shape, Node.shapes, Tree.nesting, Tree.nestings] using hspans.nestings_le

/-- A text is recognized if its lexemes lead to the end within the limit: the
recognizer neither halts before the end nor exceeds the limit. -/
theorem Recognized.exists_ok {limit : Int} {t : Text} {xs : List Lexeme} {r : Except Fault Node}
    (h : Recognized limit t r) (hpath : Stage.Path limit.toNat .start xs .finish)
    (hlayout : Text.Layout xs t) : ∃ root, r = .ok root := by
  have hrun : Run limit.toNat .start (.ofText t) xs .finish { pos := t.length, rest := [] } := by
    simpa [Cursor.ofText] using hlayout.run hpath 0
  cases h with
  | tree _ _ _ => exact ⟨_, rfl⟩
  | unexpected hhalt _ _ => exact (hhalt.ne_finish rfl hrun).elim
  | tooDeep hoverrun => exact (hoverrun.ne_finish rfl hrun).elim

/-- The recognizer returns a tree exactly for the texts that have a derivation
with parentheses within the limit.  The tree that it returns is that of the
derivation, and no text has two. -/
theorem recognize_decides_grammar (limit : Int) (t : Text) :
    ((∃ root, recognize limit t = .ok root) ↔
      ∃ tree : Tree, tree.IsTreeOf t ∧ (tree.nesting : Int) ≤ max limit 0) ∧
    (∀ root, recognize limit t = .ok root →
      ∀ tree : Tree, tree.IsTreeOf t → root.shape = tree) ∧
    ∀ tree tree' : Tree, tree.IsTreeOf t → tree'.IsTreeOf t → tree = tree' := by
  have hunique : ∀ tree tree' : Tree, tree.IsTreeOf t → tree'.IsTreeOf t → tree = tree' := by
    intro tree tree' htree htree'
    obtain ⟨xs, hderivation, hlayout⟩ := htree
    obtain ⟨xs', hderivation', hlayout'⟩ := htree'
    exact (hderivation.unique_of_layout hlayout hderivation' hlayout').1
  have hrecognized := recognized limit t
  refine ⟨⟨?_, ?_⟩, ?_, hunique⟩
  · intro h
    obtain ⟨root, hroot⟩ := h
    obtain ⟨htree, hnesting⟩ := (hroot ▸ hrecognized).isTreeOf
    exact ⟨root.shape, htree, by omega⟩
  · intro h
    obtain ⟨tree, ⟨xs, hderivation, hlayout⟩, hnesting⟩ := h
    exact hrecognized.exists_ok (hderivation.path.mono (by omega)) hlayout
  · intro root hroot tree htree
    exact hunique _ _ (hroot ▸ hrecognized).isTreeOf.1 htree

/-- In `2expsinh(1)` neither the word operator nor the name needs blanks around
it. -/
theorem isTreeOf_two_exp_sinh :
    (Tree.branch .equation [.branch .expression [.branch .term
      [.leaf .number ['2'], .leaf (.operator .exponent) ['e', 'x', 'p'],
        .branch .functionCall [.leaf .functionName ['s', 'i', 'n', 'h'],
          .branch .expression [.branch .term [.leaf .number ['1']]]]]]]).IsTreeOf
      "2expsinh(1)".toList := by
  have hshape : (recognize 1 "2expsinh(1)".toList).toOption.map Node.shape =
      some (.branch .equation [.branch .expression [.branch .term
        [.leaf .number ['2'], .leaf (.operator .exponent) ['e', 'x', 'p'],
          .branch .functionCall [.leaf .functionName ['s', 'i', 'n', 'h'],
            .branch .expression [.branch .term [.leaf .number ['1']]]]]]]) := by
    decide +kernel
  obtain ⟨hiff, hshapes, _⟩ := recognize_decides_grammar 1 "2expsinh(1)".toList
  cases hroot : recognize 1 "2expsinh(1)".toList with
  | error _ =>
    rw [hroot] at hshape
    cases hshape
  | ok root =>
    obtain ⟨tree, htree, _⟩ := hiff.mp ⟨root, hroot⟩
    rw [hroot] at hshape
    rw [← Option.some.inj hshape, hshapes root hroot tree htree]
    exact htree

end Reckon
