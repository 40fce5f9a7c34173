/-
Terms make no difference.

The terms of a flat row are its runs between one additive operator and the next.
The tiers of the operators already say what the terms say, so a row has the same
outcome whether its runs are put together in term nodes or not.
-/
import Mathlib.Logic.Function.Iterate
import Reckon.Calculator
import Reckon.Proofs.Precedence

namespace Reckon

/-! ## Rows in groups -/

namespace Node

def IsAdditive (n : Node) : Prop :=
  ∃ op ∈ Operation.additive, n.rule = .operator op

/-- A term over a row without additive operators. -/
structure IsTermOver (t : Node) (run : List Node) : Prop where
  rule : t.rule = .term
  children : t.children = run
  flat : IsFlat run
  not_additive : ∀ n ∈ run, ¬ n.IsAdditive

/-- The same row with each of its runs in a term.  Additive operators stand
between the terms, so no run could be longer. -/
inductive Grouped : List Node → List Node → Prop
  | term {run : List Node} {t : Node} : t.IsTermOver run → Grouped run [t]
  | operation {row groups run : List Node} {m t : Node} :
      Grouped row groups → m.IsAdditive → t.IsTermOver run →
      Grouped (row ++ m :: run) (groups ++ [m, t])

/-- An equation whose one child has the given rule and children. -/
def IsEquationOver (root : Node) (rule : Rule) (children : List Node) : Prop :=
  root.rule = .equation ∧
    ∃ body, root.children = [body] ∧ body.rule = rule ∧ body.children = children

theorem IsSigned.not_additive {ns : List Node} (h : IsSigned ns) : ∀ n ∈ ns, ¬ n.IsAdditive := by
  obtain ⟨signs, n, rfl, hsigns, hn⟩ := h
  rintro m hm ⟨op, _, hrule⟩
  rcases List.mem_append.mp hm with hsign | hlast
  · rw [hsigns m hsign] at hrule
    cases hrule
  · rw [List.mem_singleton.mp hlast] at hrule
    rw [IsOperand, hrule] at hn
    cases hn.2

/-- A node over others, at no place in particular. -/
def unplaced (rule : Rule) (children : List Node) : Node :=
  { rule, text := [], start := 0, stop := 0, children }

theorem IsSigned.isTermOver {ns : List Node} (h : IsSigned ns) :
    (unplaced .term ns).IsTermOver ns :=
  ⟨rfl, rfl, .operand h, h.not_additive⟩

theorem IsTermOver.extend {t m : Node} {run ns : List Node} {op : Operation}
    (h : t.IsTermOver run) (hm : m.rule = .operator op) (hop : op ∉ Operation.additive)
    (hns : IsSigned ns) : (unplaced .term (run ++ m :: ns)).IsTermOver (run ++ m :: ns) := by
  refine ⟨rfl, rfl, .operation h.flat hm hns, fun n hn => ?_⟩
  rcases List.mem_append.mp hn with hrun | hrest
  · exact h.not_additive n hrun
  · rcases List.mem_cons.mp hrest with rfl | hrest
    · rintro ⟨op', hop', hrule⟩
      obtain rfl := Rule.operator.inj (hm.symm.trans hrule)
      exact hop hop'
    · exact hns.not_additive n hrest

theorem IsFlat.exists_grouped {row : List Node} (h : IsFlat row) :
    ∃ groups, Grouped row groups := by
  induction h with
  | operand hsigned => exact ⟨_, .term hsigned.isTermOver⟩
  | @operation ns ms m op _ hm hsigned ih =>
    obtain ⟨groups, hgroups⟩ := ih
    by_cases hop : op ∈ Operation.additive
    · exact ⟨_, .operation hgroups ⟨op, hop, hm⟩ hsigned.isTermOver⟩
    · -- The last run goes on.
      cases hgroups with
      | term hrun => exact ⟨_, .term (hrun.extend hm hop hsigned)⟩
      | operation hbefore hm' hrun =>
        have hlonger := Grouped.operation hbefore hm' (hrun.extend hm hop hsigned)
        rw [← List.cons_append, ← List.append_assoc] at hlonger
        exact ⟨_, hlonger⟩

end Node

open Node Evaluation

/-! ## Outcomes -/

section

variable {α : Type} {A : Arithmetic α}

theorem Operation.multiplicative_tier {op : Operation} (h : op ∉ additive) : op.tier = 2 := by
  revert h
  cases op <;> decide

theorem Operation.additive_tier {op : Operation} (h : op ∈ additive) : op.tier = 1 := by
  revert h
  cases op <;> decide

/-- A term has the value that its run is read as. -/
theorem Node.IsTermOver.reads {t : Node} {run : List Node} (h : t.IsTermOver run) :
    Reads A 2 run (reduce A t) := by
  have htiers : ∀ n ∈ run, ∀ op, n.rule = .operator op → 2 ≤ op.tier := by
    intro n hn op hrule
    exact Nat.le_of_eq (Operation.multiplicative_tier fun hop =>
      h.not_additive n hn ⟨op, hop, hrule⟩).symm
  obtain ⟨v, hv⟩ := exists_reads h.flat htiers
  have hterm : Reads A Operation.loosestTier t.children v := by
    rw [h.children]
    exact hv.mono (by decide)
  rw [reduce_of_reads (.inr h.rule) hterm]
  exact hv

theorem Node.IsTermOver.isOperand {t : Node} {run : List Node} (h : t.IsTermOver run) :
    t.IsOperand := by
  rw [IsOperand, h.rule]
  exact ⟨by decide, rfl⟩

/-- A row and its runs in terms are read as the same. -/
theorem Node.Grouped.reads {row groups : List Node} (h : Grouped row groups) :
    ∃ v, Reads A Operation.loosestTier row v ∧ Reads A Operation.loosestTier groups v := by
  induction h with
  | @term run t hrun =>
    exact ⟨reduce A t, hrun.reads.mono (by decide), reads_operand hrun.isOperand _⟩
  | @operation row groups run m t _ hm hrun ih =>
    obtain ⟨v, hrow, hgroups⟩ := ih
    obtain ⟨op, hop, hrule⟩ := hm
    have htier : op.tier = Operation.loosestTier := Operation.additive_tier hop
    -- To the right of an additive operator is a run, which has the next tier only.
    have hright : op.rightTier = 2 := by rw [op.rightTier_eq, htier]; rfl
    refine ⟨_, .operation hrule op.loosestTier_le (htier ▸ hrow) (hright ▸ hrun.reads), ?_⟩
    exact .operation hrule op.loosestTier_le (htier ▸ hgroups) (reads_operand hrun.isOperand _)

/-- An equation over a row that is read has the outcome of the reading. -/
theorem Node.IsEquationOver.evaluate_eq {root : Node} {rule : Rule} {ns : List Node}
    {v : Except Fault α} (h : root.IsEquationOver rule ns)
    (hrule : rule = .expression ∨ rule = .term) (hns : Reads A Operation.loosestTier ns v) :
    evaluate A root = v := by
  obtain ⟨hroot, body, hchildren, rfl, rfl⟩ := h
  have hbody := reduce_of_reads hrule hns
  rw [evaluate, hroot, hchildren]
  exact hbody

end

/-! ## Minus signs -/

theorem negated_floating (unit : AngleUnit) (signs : List Node) (x : Float) :
    negated (floating unit) signs (.ok x) = .ok ((fun y => -y)^[signs.length] x) := by
  induction signs with
  | nil => rfl
  | cons sign signs ih =>
    rw [negated_cons, ih, List.length_cons, Function.iterate_succ_apply']
    rfl

namespace Integral

theorem inRange_neg {x : Int} (h : InRange x) (hx : x ≠ least) : InRange (-x) ∧ -x ≠ least := by
  simp only [InRange, least, greatest] at *
  omega

theorem neg_least_not_inRange : ¬ InRange (-least) := by
  decide

/-- The least integer is the only one that has no negation.  After the first sign
it cannot come up again. -/
theorem negated_of_ne_least (unit : AngleUnit) (signs : List Node) {x : Int} (h : InRange x)
    (hx : x ≠ least) :
    ∃ y, negated (integral unit) signs (.ok x) = .ok y ∧ y = (fun z => -z)^[signs.length] x ∧
      InRange y ∧ y ≠ least := by
  induction signs with
  | nil => exact ⟨x, rfl, rfl, h, hx⟩
  | cons sign signs ih =>
    obtain ⟨y, hnegated, hy, hrange, hleast⟩ := ih
    obtain ⟨hrange', hleast'⟩ := inRange_neg hrange hleast
    refine ⟨-y, ?_, ?_, hrange', hleast'⟩
    · rw [negated_cons, hnegated]
      show place sign.start (checked (-y)) = .ok (-y)
      rw [checked, if_pos hrange', place]
    · rw [List.length_cons, Function.iterate_succ_apply', ← hy]

end Integral

/-- Of several minus signs before an integer only the last one can be refused. -/
theorem negated_integral (unit : AngleUnit) (signs : List Node) (sign : Node) {x : Int}
    (h : Integral.InRange x) :
    negated (integral unit) (signs ++ [sign]) (.ok x) =
      if x = Integral.least then
        .error (.refused (.unrepresentable (.outOfRange (-x))) sign.start)
      else .ok ((fun y => -y)^[signs.length + 1] x) := by
  split
  · next hx =>
    have hlast : negated (integral unit) [sign] (.ok x) =
        .error (.refused (.unrepresentable (.outOfRange (-x))) sign.start) := by
      show place sign.start (Integral.checked (-x)) = _
      rw [Integral.checked, if_neg (hx ▸ Integral.neg_least_not_inRange), place]
    rw [negated_append, hlast, negated_error]
  · next hx =>
    obtain ⟨y, hy, rfl, _⟩ := Integral.negated_of_ne_least unit (signs ++ [sign]) h hx
    rw [hy, List.length_append, List.length_singleton]

/-! ## Equations over flat rows -/

/-- A flat row can be put in terms, and this makes no difference to its outcome: with
and without them it is what the row is read as by tier.  Minus signs apply from the
last one on, and each of them negates once. -/
theorem evaluateTree_grouped {row : List Node} (hrow : IsFlat row) :
    (∃ groups, Grouped row groups) ∧
    (∀ {groups : List Node} {flat grouped : Node}, Grouped row groups →
      flat.IsEquationOver .expression row ∨ flat.IsEquationOver .term row →
      grouped.IsEquationOver .expression groups →
      (∀ settings,
        Calculator.evaluateTree settings flat = Calculator.evaluateTree settings grouped) ∧
      ∀ {α : Type} (A : Arithmetic α), ∃ v, Reads A Operation.loosestTier row v ∧
        evaluate A flat = v ∧ evaluate A grouped = v) ∧
    (∀ unit signs x,
      negated (floating unit) signs (.ok x) = .ok ((fun y => -y)^[signs.length] x)) ∧
    ∀ unit signs sign x, Integral.InRange x →
      negated (integral unit) (signs ++ [sign]) (.ok x) =
        if x = Integral.least then
          .error (.refused (.unrepresentable (.outOfRange (-x))) sign.start)
        else .ok ((fun y => -y)^[signs.length + 1] x) := by
  refine ⟨hrow.exists_grouped, ?_, negated_floating,
    fun unit signs sign x hx => negated_integral unit signs sign hx⟩
  intro groups flat grouped hgroups hflat hgrouped
  have houtcome : ∀ {α : Type} (A : Arithmetic α), ∃ v, Reads A Operation.loosestTier row v ∧
      evaluate A flat = v ∧ evaluate A grouped = v := by
    intro α A
    obtain ⟨v, hv, hv'⟩ := hgroups.reads (A := A)
    refine ⟨v, hv, ?_, hgrouped.evaluate_eq (.inl rfl) hv'⟩
    rcases hflat with h | h
    · exact h.evaluate_eq (.inl rfl) hv
    · exact h.evaluate_eq (.inr rfl) hv
  refine ⟨fun settings => ?_, houtcome⟩
  unfold Calculator.evaluateTree
  cases settings.mode with
  | float =>
    obtain ⟨v, _, hflat', hgrouped'⟩ := houtcome (floating settings.unit)
    dsimp only
    rw [hflat', hgrouped']
  | int32 =>
    obtain ⟨v, _, hflat', hgrouped'⟩ := houtcome (integral settings.unit)
    dsimp only
    rw [hflat', hgrouped']

theorem evaluateTree_minus_one_plus_twice_three :
    IsFlat [⟨.unaryMinus, ['-'], 0, 1, []⟩, ⟨.number, ['1'], 1, 2, []⟩,
      ⟨.operator .add, ['+'], 2, 3, []⟩, ⟨.number, ['2'], 3, 4, []⟩,
      ⟨.operator .multiply, ['*'], 4, 5, []⟩, ⟨.number, ['3'], 5, 6, []⟩] ∧
    Calculator.evaluateTree { mode := .int32 } (.unplaced .equation [.unplaced .expression
        [⟨.unaryMinus, ['-'], 0, 1, []⟩, ⟨.number, ['1'], 1, 2, []⟩,
          ⟨.operator .add, ['+'], 2, 3, []⟩, ⟨.number, ['2'], 3, 4, []⟩,
          ⟨.operator .multiply, ['*'], 4, 5, []⟩, ⟨.number, ['3'], 5, 6, []⟩]]) =
      Calculator.evaluateTree { mode := .int32 } (.unplaced .equation [.unplaced .expression
        [.unplaced .term [⟨.unaryMinus, ['-'], 0, 1, []⟩, ⟨.number, ['1'], 1, 2, []⟩],
          ⟨.operator .add, ['+'], 2, 3, []⟩,
          .unplaced .term [⟨.number, ['2'], 3, 4, []⟩, ⟨.operator .multiply, ['*'], 4, 5, []⟩,
            ⟨.number, ['3'], 5, 6, []⟩]]]) := by
  have hone : IsSigned [⟨.unaryMinus, ['-'], 0, 1, []⟩, ⟨.number, ['1'], 1, 2, []⟩] :=
    ⟨[_], _, rfl, by simp, by decide, rfl⟩
  have htwo : IsSigned [⟨.number, ['2'], 3, 4, []⟩] := ⟨[], _, rfl, nofun, by decide, rfl⟩
  have hthree : IsSigned [⟨.number, ['3'], 5, 6, []⟩] := ⟨[], _, rfl, nofun, by decide, rfl⟩
  have hproduct := htwo.isTermOver.extend (m := ⟨.operator .multiply, ['*'], 4, 5, []⟩) rfl
    (by decide) hthree
  have hgroups := (Grouped.term hone.isTermOver).operation
    (m := ⟨.operator .add, ['+'], 2, 3, []⟩) ⟨.add, by decide, rfl⟩ hproduct
  have hrow := (IsFlat.operand hone).append (m := ⟨.operator .add, ['+'], 2, 3, []⟩) rfl
    hproduct.flat
  obtain ⟨_, hequal, _⟩ := evaluateTree_grouped hrow
  exact ⟨hrow, (hequal hgroups (.inl ⟨rfl, _, rfl, rfl, rfl⟩) ⟨rfl, _, rfl, rfl, rfl⟩).1 _⟩

end Reckon
