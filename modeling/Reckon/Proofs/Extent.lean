/-
How far climbing goes.

Climbing can also be told by indexes into a row, with a bound on how many calls
are inside one another.  As many calls as nodes follow are always enough.  What
climbing takes is a flat row of all operators down to the given tier, up to an
operator below it or the end, and it comes to what that part is read as.  So
from the loosest tier on there is nothing left over.
-/
import Reckon.Arithmetic.Integral
import Reckon.Proofs.Precedence

namespace Reckon
namespace Evaluation

variable {α : Type} {A : Arithmetic α}

/-! ## Climbing by index -/

/-- The value of an operand under its minus signs, and the index after it. -/
def operandAt (A : Arithmetic α) (ns : List Node) (i : Nat) : Except Fault (α × Nat) :=
  let signs := (ns.drop i).takeWhile fun n => n.rule = .unaryMinus
  match ns[i + signs.length]? with
  | none => .error (.inconsistent .missingOperand)
  | some n => (negated A signs (reduce A n)).map fun x => (x, i + signs.length + 1)

mutual

/-- Climb from an index on.  There is no answer if it takes more than `calls`
calls inside one another. -/
def climbAt (A : Arithmetic α) (ns : List Node) :
    (calls least i : Nat) → Option (Except Fault (α × Nat))
  | 0, _, _ => none
  | calls + 1, least, i =>
    match operandAt A ns i with
    | .error fault => some (.error fault)
    | .ok (first, j) => climbOnAt A ns calls least first j

/-- Combine a value with what follows it from an index on. -/
def climbOnAt (A : Arithmetic α) (ns : List Node) :
    (calls least : Nat) → α → Nat → Option (Except Fault (α × Nat))
  | 0, _, _, _ => none
  | calls + 1, least, lhs, i =>
    match ns[i]? with
    | none => some (.ok (lhs, i))
    | some m =>
      match m.rule.operation? with
      | none => some (noHandler m)
      | some op =>
        if op.tier < least then some (.ok (lhs, i))
        else
          match climbAt A ns calls op.rightTier (i + 1) with
          | none => none
          | some (.error fault) => some (.error fault)
          | some (.ok (rhs, j)) =>
            match place m.start (A.apply op lhs rhs) with
            | .error fault => some (.error fault)
            | .ok value => climbOnAt A ns calls least value j

end

/-- A value and the rest of a row, as a value and the index of the rest. -/
def indexed (ns : List Node) (p : α × List (Item α)) : α × Nat :=
  (p.1, ns.length - p.2.length)

theorem length_items (A : Arithmetic α) (ns : List Node) : (items A ns).length = ns.length := by
  induction ns with
  | nil => simp [items]
  | cons n ns ih => simp [items, ih]

theorem indexed_drop {ns : List Node} {i : Nat} (x : α) (h : i ≤ ns.length) :
    indexed ns (x, items A (ns.drop i)) = (x, i) := by
  simp only [indexed, length_items, List.length_drop]
  rw [Nat.sub_sub_self h]

theorem operand_signs {signs : List Node} (h : ∀ sign ∈ signs, sign.rule = .unaryMinus) :
    operand A (items A signs) = .error (.inconsistent .missingOperand) := by
  induction signs with
  | nil => rw [items, operand]
  | cons sign signs ih =>
    rw [items, operand, if_pos (h sign List.mem_cons_self),
      ih fun s hs => h s (List.mem_cons_of_mem _ hs)]
    rfl

theorem operandAt_eq (A : Arithmetic α) (ns : List Node) (i : Nat) :
    operandAt A ns i = (operand A (items A (ns.drop i))).map (indexed ns) := by
  unfold operandAt
  dsimp only
  generalize hsigns : (ns.drop i).takeWhile (fun n => decide (n.rule = .unaryMinus)) = signs
  have hminus : ∀ sign ∈ signs, sign.rule = .unaryMinus := by
    intro sign hsign
    rw [← hsigns] at hsign
    simpa using List.all_eq_true.mp List.all_takeWhile sign hsign
  have hsplit : ns.drop i = signs ++ ns.drop (i + signs.length) := by
    have htake : signs = (ns.drop i).take signs.length :=
      List.prefix_iff_eq_take.mp (hsigns ▸ List.takeWhile_prefix _)
    rw [← List.drop_drop]
    conv_lhs => rw [← List.take_append_drop signs.length (ns.drop i), ← htake]
  rcases Nat.lt_or_ge (i + signs.length) ns.length with hlt | hge
  · have hdrop := List.drop_eq_getElem_cons hlt
    have hn : ns[i + signs.length].rule ≠ .unaryMinus := by
      intro hrule
      rw [hsplit, hdrop, List.takeWhile_append_of_pos (by simpa using hminus),
        List.takeWhile_cons_of_pos (by simpa using hrule)] at hsigns
      simp at hsigns
    rw [List.getElem?_eq_getElem hlt, hsplit, hdrop, operand_signed hminus hn]
    dsimp only
    cases negated A signs (reduce A ns[i + signs.length]) with
    | error fault => rfl
    | ok x => exact congrArg Except.ok (indexed_drop x hlt).symm
  · rw [List.getElem?_eq_none hge, hsplit, List.drop_eq_nil_of_le hge, List.append_nil,
      operand_signs hminus]
    rfl

/-! ## Calls inside one another -/

theorem drop_of_append {ns front tail : List Node} {i : Nat} (h : ns.drop i = front ++ tail) :
    ns.drop (ns.length - tail.length) = tail := by
  have hsuffix : tail <:+ ns := (List.suffix_append front tail).trans (h ▸ List.drop_suffix i ns)
  exact (List.suffix_iff_eq_drop.mp hsuffix).symm

theorem slice_of_append {ns front tail : List Node} {i : Nat} (h : ns.drop i = front ++ tail) :
    (ns.take (ns.length - tail.length)).drop i = front := by
  have hlength := congrArg List.length h
  simp only [List.length_drop, List.length_append] at hlength
  rw [List.drop_take, h, show ns.length - tail.length - i = front.length by omega, List.take_left]

mutual

/-- With as many calls as nodes follow, climbing by index is climbing. -/
theorem climbAt_eq (ns : List Node) {calls least i : Nat} (h : ns.length - i < calls) :
    climbAt A ns calls least i = some ((climb A least (items A (ns.drop i))).map (indexed ns)) := by
  obtain ⟨calls, rfl⟩ := Nat.exists_eq_succ_of_ne_zero (Nat.ne_zero_of_lt h)
  rw [climbAt, operandAt_eq, climb_eq]
  cases hoperand : operand A (items A (ns.drop i)) with
  | error fault => rfl
  | ok p =>
    obtain ⟨first, rest⟩ := p
    obtain ⟨signs, n, tail, hsplit, rfl, _, _⟩ := exists_of_operand hoperand
    have hlength := congrArg List.length hsplit
    simp only [List.length_drop, List.length_append, List.length_singleton] at hlength
    show climbOnAt A ns calls least first (ns.length - (items A tail).length) = _
    rw [length_items, climbOnAt_eq ns first (Nat.sub_le _ _) (by omega), drop_of_append hsplit]
    rfl
termination_by calls

theorem climbOnAt_eq (ns : List Node) {calls least i : Nat} (x : α) (hi : i ≤ ns.length)
    (h : ns.length - i < calls) :
    climbOnAt A ns calls least x i =
      some ((climbOn A least x (items A (ns.drop i))).map (indexed ns)) := by
  obtain ⟨calls, rfl⟩ := Nat.exists_eq_succ_of_ne_zero (Nat.ne_zero_of_lt h)
  have hstay : Stops least (items A (ns.drop i)) →
      (climbOn A least x (items A (ns.drop i))).map (indexed ns) = .ok (x, i) := by
    intro hstops
    rw [climbOn_of_stops hstops]
    exact congrArg Except.ok (indexed_drop x hi)
  rw [climbOnAt]
  rcases Nat.lt_or_ge i ns.length with hlt | hge
  · have hdrop := List.drop_eq_getElem_cons hlt
    rw [List.getElem?_eq_getElem hlt]
    dsimp only
    cases hop : ns[i].rule.operation? with
    | none =>
      rw [hdrop, items, climbOn_of_not_operator hop]
      rfl
    | some op =>
      have hm : ns[i].rule = .operator op := Rule.operation?_eq_some.mp hop
      dsimp only
      split
      · next hbelow => rw [hstay (hdrop ▸ stops_operator hm hbelow)]
      · next hleast =>
        have hless : ns.length - (i + 1) < calls := by omega
        rw [hdrop, climbOn_climb hm (Nat.le_of_not_lt hleast), climbAt_eq ns hless]
        cases hclimb : climb A op.rightTier (items A (ns.drop (i + 1))) with
        | error fault => rfl
        | ok p =>
          obtain ⟨y, rest⟩ := p
          obtain ⟨front, tail, hsplit, rfl, _, _⟩ := exists_of_climb hclimb
          have hlength := congrArg List.length hsplit
          simp only [List.length_drop, List.length_append] at hlength
          simp only [Except.map, indexed, length_items, bind, Except.bind]
          cases place ns[i].start (A.apply op x y) with
          | error fault => rfl
          | ok value =>
            dsimp only
            rw [climbOnAt_eq ns value (Nat.sub_le _ _) (by omega), drop_of_append hsplit]
            rfl
  · rw [List.getElem?_eq_none hge, hstay]
    rw [List.drop_eq_nil_of_le hge, items]
    exact stops_nil _
termination_by calls

end

/-! ## Readings of a part -/

theorem Reads.loosest {least : Nat} {ns : List Node} {v : Except Fault α} (h : Reads A least ns v) :
    Reads A Operation.loosestTier ns v := by
  cases h with
  | operand hsigns hn => exact .operand hsigns hn
  | operation hm _ hleft hright => exact .operation hm (Operation.loosestTier_le _) hleft hright

/-- The tiers leave one reading. -/
theorem Reads.unique {least least' : Nat} {ns : List Node} {v w : Except Fault α}
    (h : Reads A least ns v) (h' : Reads A least' ns w) : v = w :=
  h.loosest.row.symm.trans h'.loosest.row

theorem Reads.le_tier {least : Nat} {ns : List Node} {v : Except Fault α} (h : Reads A least ns v) :
    ∀ m ∈ ns, ∀ op, m.rule = .operator op → least ≤ op.tier := by
  induction h with
  | @operand least signs n hsigns hn =>
    intro m hm op hop
    rcases List.mem_append.mp hm with hsign | hlast
    · cases (hsigns m hsign).symm.trans hop
    · rw [List.mem_singleton.mp hlast] at hop
      cases hn.2.symm.trans (Rule.operation?_eq_some.mpr hop)
  | @operation least ns ms m op _ _ hm hleast _ _ ihleft ihright =>
    intro m' hm' op' hop'
    rcases List.mem_append.mp hm' with hleft | hright
    · exact Nat.le_trans hleast (ihleft m' hleft op' hop')
    · rcases List.mem_cons.mp hright with rfl | hright
      · obtain rfl := Rule.operator.inj (hm.symm.trans hop')
        exact hleast
      · have htier := op.tier_lt_rightTier
        have hle := ihright m' hright op' hop'
        omega

/-! ## The part that is climbed -/

/-- Climbing from `i` with the tier `least` takes what is before `j`, and comes to `x`. -/
structure Climbed (A : Arithmetic α) (ns : List Node) (least i j : Nat) (x : α) : Prop where
  lt : i < j
  le_length : j ≤ ns.length
  stops : j = ns.length ∨ ∃ m op, ns[j]? = some m ∧ m.rule = .operator op ∧ op.tier < least
  flat : Node.IsFlat ((ns.take j).drop i)
  le_tier : ∀ m ∈ (ns.take j).drop i, ∀ op, m.rule = .operator op → least ≤ op.tier
  reads : Reads A least ((ns.take j).drop i) (.ok x)
  unique : ∀ v, Reads A least ((ns.take j).drop i) v → v = .ok x

theorem climbed_of_climb {ns : List Node} {least i : Nat} {x : α} {rest : List (Item α)}
    (h : climb A least (items A (ns.drop i)) = .ok (x, rest)) :
    Climbed A ns least i (ns.length - rest.length) x := by
  obtain ⟨front, tail, hsplit, rfl, hreads, hstops⟩ := exists_of_climb h
  have hlength := congrArg List.length hsplit
  have hpos := List.length_pos_iff.mpr hreads.ne_nil
  simp only [List.length_drop, List.length_append] at hlength
  rw [length_items]
  have hlt : i < ns.length - tail.length := by omega
  have hstop : ns.length - tail.length = ns.length ∨ ∃ m op,
      ns[ns.length - tail.length]? = some m ∧ m.rule = .operator op ∧ op.tier < least := by
    cases tail with
    | nil => exact .inl rfl
    | cons m tail =>
      obtain ⟨op, hm, htier⟩ := hstops _ _ (by rw [items])
      have hget : ns[ns.length - (m :: tail).length]? = some m := by
        rw [← List.head?_drop, drop_of_append hsplit, List.head?_cons]
      exact .inr ⟨m, op, hget, hm, htier⟩
  rw [← slice_of_append hsplit] at hreads
  exact ⟨hlt, Nat.sub_le _ _, hstop, hreads.isFlat, hreads.le_tier, hreads,
    fun _ hv => hv.unique hreads⟩

theorem Climbed.climb_eq {ns : List Node} {least i j : Nat} {x : α} (h : Climbed A ns least i j x) :
    climb A least (items A (ns.drop i)) = .ok (x, items A (ns.drop j)) := by
  have hsplit : ns.drop i = (ns.take j).drop i ++ ns.drop j := by
    conv_lhs => rw [← List.take_append_drop j ns]
    rw [List.drop_append_of_le_length]
    rw [List.length_take, Nat.min_eq_left h.le_length]
    exact Nat.le_of_lt h.lt
  have hstops : Stops least (items A (ns.drop j)) := by
    rcases h.stops with hend | ⟨m, op, hget, hm, htier⟩
    · rw [hend, List.drop_length, items]
      exact stops_nil _
    · obtain ⟨hlt, rfl⟩ := List.getElem?_eq_some_iff.mp hget
      rw [List.drop_eq_getElem_cons hlt]
      exact stops_operator hm htier
  rw [hsplit, h.reads.climb (Nat.le_refl _) (hstops.mono (Nat.le_succ _))]
  exact climbOn_of_stops hstops

/-- From the loosest tier on, climbing goes to the end. -/
theorem Climbed.eq_length {ns : List Node} {i j : Nat} {x : α}
    (h : Climbed A ns Operation.loosestTier i j x) : j = ns.length := by
  rcases h.stops with hend | ⟨_, op, _, _, htier⟩
  · exact hend
  · exact absurd op.loosestTier_le (Nat.not_le_of_lt htier)

/-- Nothing is left over of a row that is climbed, so nothing left over is refused. -/
theorem row_eq_climb (A : Arithmetic α) (ns : List Node) :
    row A (items A ns) = (climb A Operation.loosestTier (items A ns)).map Prod.fst := by
  unfold row
  cases hclimb : climb A Operation.loosestTier (items A ns) with
  | error fault => rfl
  | ok p =>
    obtain ⟨x, rest⟩ := p
    obtain ⟨_, tail, _, rfl, _, hstops⟩ := exists_of_climb hclimb
    obtain rfl := hstops.eq_nil
    rw [items]
    rfl

/-- Climbing from an index comes to an end with every row and every tier.  It comes
to a value just where a part from there on is climbed, which is the longest that has
no operator below the tier and has that value when it is read by tier.  From the
loosest tier on that is the whole row. -/
theorem climb_takes (A : Arithmetic α) (ns : List Node) :
    (∀ least i, ∃ r,
      (∀ calls, ns.length - i < calls → climbAt A ns calls least i = some r) ∧
      r = (climb A least (items A (ns.drop i))).map (indexed ns) ∧
      ∀ x j, r = .ok (x, j) ↔ Climbed A ns least i j x) ∧
    (∀ i x j, Climbed A ns Operation.loosestTier i j x → j = ns.length) ∧
    ∀ calls, ns.length < calls → ∃ r,
      climbAt A ns calls Operation.loosestTier 0 = some r ∧
      (∀ x j, r = .ok (x, j) → j = ns.length) ∧ row A (items A ns) = r.map Prod.fst := by
  have hiff : ∀ least i x j, (climb A least (items A (ns.drop i))).map (indexed ns) = .ok (x, j) ↔
      Climbed A ns least i j x := by
    intro least i x j
    constructor
    · intro h
      cases hclimb : climb A least (items A (ns.drop i)) with
      | error fault =>
        rw [hclimb] at h
        cases h
      | ok p =>
        rw [hclimb] at h
        cases h
        exact climbed_of_climb hclimb
    · intro h
      rw [h.climb_eq]
      exact congrArg Except.ok (indexed_drop x h.le_length)
  refine ⟨fun least i => ⟨_, fun calls h => climbAt_eq ns h, rfl, hiff least i⟩,
    fun i x j h => h.eq_length, fun calls h => ⟨_, climbAt_eq ns h, fun x j hr => ?_, ?_⟩⟩
  · exact ((hiff _ _ x j).mp hr).eq_length
  · rw [List.drop_zero, row_eq_climb]
    cases climb A Operation.loosestTier (items A ns) <;> rfl

/-- `8 - 2 * 3 + 1` as one row. -/
def flatRow : List Node :=
  [⟨.number, ['8'], 0, 1, []⟩, ⟨.operator .subtract, ['-'], 2, 3, []⟩,
    ⟨.number, ['2'], 4, 5, []⟩, ⟨.operator .multiply, ['*'], 6, 7, []⟩,
    ⟨.number, ['3'], 8, 9, []⟩, ⟨.operator .add, ['+'], 10, 11, []⟩,
    ⟨.number, ['1'], 12, 13, []⟩]

/-- From the `2` on the product is climbed, and from the `8` on the whole row. -/
theorem climb_takes_flatRow :
    Climbed (integral .radians) flatRow 2 2 5 6 ∧
      Climbed (integral .radians) flatRow 1 0 7 3 ∧
      row (integral .radians) (items (integral .radians) flatRow) = .ok 3 := by
  have hproduct : climbAt (integral .radians) flatRow 6 2 2 = some (.ok (6, 5)) := by rfl
  have hwhole : climbAt (integral .radians) flatRow 8 1 0 = some (.ok (3, 7)) := by rfl
  obtain ⟨hclimb, _, hrow⟩ := climb_takes (integral .radians) flatRow
  obtain ⟨r, hr, _, hiff⟩ := hclimb 2 2
  obtain ⟨r', hr', _, hiff'⟩ := hclimb 1 0
  obtain ⟨r'', hr'', _, hvalue⟩ := hrow 8 (by decide)
  refine ⟨(hiff 6 5).mp ?_, (hiff' 3 7).mp ?_, ?_⟩
  · exact Option.some.inj ((hr 6 (by decide)).symm.trans hproduct)
  · exact Option.some.inj ((hr' 8 (by decide)).symm.trans hwhole)
  · rw [hvalue, Option.some.inj (hr''.symm.trans hwhole)]
    rfl

end Evaluation
end Reckon
