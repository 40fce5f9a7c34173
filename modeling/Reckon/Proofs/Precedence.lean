/-
Rows read by tier.

A row is an operand with minus signs before it, or two rows with an operator
between them.  Of the ways to take a row apart the tiers leave one: nothing to
the left of an operator binds less tightly than the operator, and whatever is to
the right of it binds more tightly.  Climbing a row comes to what this reading
comes to, and where climbing comes to a value there is such a reading.
-/
import Reckon.Proofs.Climbing

namespace Reckon

theorem Operation.rightTier_eq (op : Operation) : op.rightTier = op.tier + 1 := by
  cases op <;> rfl

/-! ## Rows -/

namespace Node

/-- Neither a minus sign nor an operator. -/
def IsOperand (n : Node) : Prop :=
  n.rule ≠ .unaryMinus ∧ n.rule.operation? = none

theorem isOperand_of_hasValue {n : Node} (h : n.rule.hasValue = true) : n.IsOperand := by
  unfold IsOperand
  cases hrule : n.rule with
  | unaryMinus | operator op => simp [hrule, Rule.hasValue] at h
  | _ => simp [Rule.operation?]

/-- Any number of minus signs and the operand that they belong to. -/
def IsSigned (ns : List Node) : Prop :=
  ∃ signs n, ns = signs ++ [n] ∧ (∀ sign ∈ signs, sign.rule = .unaryMinus) ∧ n.IsOperand

/-- Operands under minus signs, with operators of any tier between them. -/
inductive IsFlat : List Node → Prop
  | operand {ns : List Node} : IsSigned ns → IsFlat ns
  | operation {ns ms : List Node} {m : Node} {op : Operation} :
      IsFlat ns → m.rule = .operator op → IsSigned ms → IsFlat (ns ++ m :: ms)

theorem IsFlat.append {ns ms : List Node} {m : Node} {op : Operation} (h : IsFlat ns)
    (hm : m.rule = .operator op) (h' : IsFlat ms) : IsFlat (ns ++ m :: ms) := by
  induction h' with
  | operand hsigned => exact .operation h hm hsigned
  | operation _ hm' hsigned ih =>
    rw [← List.cons_append, ← List.append_assoc]
    exact .operation ih hm' hsigned

end Node

namespace Evaluation

variable {α : Type} {A : Arithmetic α}

/-- A value under minus signs, of which the last one applies first. -/
def negated (A : Arithmetic α) (signs : List Node) (v : Except Fault α) : Except Fault α :=
  signs.foldr (fun sign v => v >>= fun x => place sign.start (A.negate x)) v

theorem negated_cons (sign : Node) (signs : List Node) (v : Except Fault α) :
    negated A (sign :: signs) v =
      (negated A signs v >>= fun x => place sign.start (A.negate x)) :=
  rfl

theorem negated_append (signs signs' : List Node) (v : Except Fault α) :
    negated A (signs ++ signs') v = negated A signs (negated A signs' v) :=
  List.foldr_append

theorem negated_error (signs : List Node) (fault : Fault) :
    negated A signs (.error fault) = .error fault := by
  induction signs with
  | nil => rfl
  | cons sign signs ih =>
    rw [negated_cons, ih]
    rfl

/-- What a row comes to if it is read by tier, where all its operators are of tier
`least` or above. -/
inductive Reads (A : Arithmetic α) : Nat → List Node → Except Fault α → Prop
  | operand {least : Nat} {signs : List Node} {n : Node} :
      (∀ sign ∈ signs, sign.rule = .unaryMinus) → n.IsOperand →
      Reads A least (signs ++ [n]) (negated A signs (reduce A n))
  | operation {least : Nat} {ns ms : List Node} {m : Node} {op : Operation}
      {u v : Except Fault α} :
      m.rule = .operator op → least ≤ op.tier →
      Reads A op.tier ns u → Reads A op.rightTier ms v →
      Reads A least (ns ++ m :: ms) (do
        let x ← u
        let y ← v
        place m.start (A.apply op x y))

theorem Reads.mono {least least' : Nat} {ns : List Node} {v : Except Fault α}
    (h : Reads A least ns v) (hle : least' ≤ least) : Reads A least' ns v := by
  cases h with
  | operand hsigns hn => exact .operand hsigns hn
  | operation hm hleast hleft hright => exact .operation hm (Nat.le_trans hle hleast) hleft hright

theorem reads_operand {n : Node} (h : n.IsOperand) (least : Nat) :
    Reads A least [n] (reduce A n) :=
  @Reads.operand _ A least [] n nofun h

/-! ## Climbing what is read -/

theorem operand_signed {signs rest : List Node} {n : Node}
    (hsigns : ∀ sign ∈ signs, sign.rule = .unaryMinus) (hn : n.rule ≠ .unaryMinus) :
    operand A (items A (signs ++ n :: rest)) =
      (negated A signs (reduce A n)).map fun x => (x, items A rest) := by
  induction signs with
  | nil =>
    rw [List.nil_append, items, operand, if_neg hn]
    rfl
  | cons sign signs ih =>
    have ih := ih fun s hs => hsigns s (List.mem_cons_of_mem _ hs)
    rw [List.cons_append, items, operand, if_pos (hsigns sign List.mem_cons_self), ih,
      negated_cons]
    cases negated A signs (reduce A n) with
    | error fault => rfl
    | ok x => simp only [Except.map, bind, Except.bind]

theorem Stops.mono {least least' : Nat} {is : List (Item α)} (h : Stops least is)
    (hle : least ≤ least') : Stops least' is := by
  intro item rest heq
  obtain ⟨op, hrule, htier⟩ := h item rest heq
  exact ⟨op, hrule, Nat.lt_of_lt_of_le htier hle⟩

theorem stops_operator {least : Nat} {m : Node} {ns : List Node} {op : Operation}
    (hm : m.rule = .operator op) (htier : op.tier < least) : Stops least (items A (m :: ns)) := by
  intro item rest heq
  rw [items] at heq
  obtain ⟨rfl, _⟩ := List.cons.inj heq
  exact ⟨op, hm, htier⟩

theorem Stops.tier_lt {least : Nat} {m : Node} {ns : List Node} {op : Operation}
    (h : Stops least (items A (m :: ns))) (hm : m.rule = .operator op) : op.tier < least := by
  obtain ⟨op', hrule, htier⟩ := h _ _ (by rw [items])
  obtain rfl := Rule.operator.inj (hrule.symm.trans hm)
  exact htier

/-- After an operator its right operand is climbed, and then climbing goes on. -/
theorem climbOn_climb {least : Nat} {x : α} {m : Node} {ns : List Node} {op : Operation}
    (hm : m.rule = .operator op) (hleast : least ≤ op.tier) :
    climbOn A least x (items A (m :: ns)) = (do
      let (y, rest) ← climb A op.rightTier (items A ns)
      let value ← place m.start (A.apply op x y)
      climbOn A least value rest) := by
  rw [items, climbOn_operator hm hleast, climb_eq]
  cases operand A (items A ns) <;> rfl

/-- What is read is climbed before the rest of the row, if the rest does not bind
more tightly.  The induction is on the reading. -/
theorem Reads.climb {tier least : Nat} {ns rest : List Node} {v : Except Fault α}
    (h : Reads A tier ns v) (hleast : least ≤ tier) (hstops : Stops (tier + 1) (items A rest)) :
    climb A least (items A (ns ++ rest)) = (v >>= fun x => climbOn A least x (items A rest)) := by
  induction h generalizing least rest with
  | @operand tier signs n hsigns hn =>
    rw [climb_eq, List.append_assoc, List.singleton_append, operand_signed hsigns hn.1]
    cases negated A signs (reduce A n) <;> rfl
  | @operation tier ns ms m op u v hm htier _ _ ihleft ihright =>
    have hstops' : Stops op.rightTier (items A rest) :=
      hstops.mono (by rw [op.rightTier_eq]; omega)
    have hright := ihright (Nat.le_refl _) (hstops'.mono (Nat.le_succ _))
    rw [List.append_assoc, List.cons_append,
      ihleft (Nat.le_trans hleast htier) (stops_operator hm (Nat.lt_succ_self _))]
    cases u with
    | error fault => rfl
    | ok x =>
      show climbOn A least x (items A (m :: (ms ++ rest))) = _
      rw [climbOn_climb hm (Nat.le_trans hleast htier), hright]
      cases v with
      | error fault => rfl
      | ok y =>
        show (climbOn A op.rightTier y (items A rest) >>= _) = _
        rw [climbOn_of_stops hstops']
        rfl

/-- A row of any tiers comes to what it is read as. -/
theorem Reads.row {ns : List Node} {v : Except Fault α}
    (h : Reads A Operation.loosestTier ns v) : row A (items A ns) = v := by
  have hclimb : Evaluation.climb A _ (items A (ns ++ [])) = _ :=
    h.climb (Nat.le_refl _) (stops_nil _)
  rw [List.append_nil] at hclimb
  rw [Evaluation.row, hclimb]
  cases v with
  | error fault => rfl
  | ok x =>
    show (climbOn A _ x (items A []) >>= _) = _
    rw [items, climbOn_of_stops (stops_nil _)]
    rfl

/-! ## Reading flat rows -/

/-- An operator and its operand go to the end of a row that is read, or to the end
of the right side of its last operator if they bind more tightly. -/
theorem Reads.extend {least : Nat} {ns ms : List Node} {m : Node} {op : Operation}
    {u v : Except Fault α} (h : Reads A least ns u) (hm : m.rule = .operator op)
    (hleast : least ≤ op.tier) (hms : ∀ tier, Reads A tier ms v) :
    ∃ w, Reads A least (ns ++ m :: ms) w := by
  induction h with
  | operand hsigns hn => exact ⟨_, .operation hm hleast (.operand hsigns hn) (hms _)⟩
  | @operation least ns ns' m' op' u u' hm' hleast' hleft hright _ ihright =>
    rcases Nat.lt_or_ge op'.tier op.tier with htighter | hlooser
    · obtain ⟨w, hw⟩ := ihright (by rw [op'.rightTier_eq]; exact htighter)
      have hwhole := Reads.operation hm' hleast' hleft hw
      rw [← List.cons_append, ← List.append_assoc] at hwhole
      exact ⟨_, hwhole⟩
    · exact ⟨_, .operation hm hleast (.operation hm' hlooser hleft hright) (hms _)⟩

theorem exists_reads_signed {ns : List Node} (h : Node.IsSigned ns) :
    ∃ v, ∀ least, Reads A least ns v := by
  obtain ⟨signs, n, rfl, hsigns, hn⟩ := h
  exact ⟨_, fun _ => .operand hsigns hn⟩

/-- A flat row without an operator below a tier can be read from that tier on. -/
theorem exists_reads {least : Nat} {ns : List Node} (h : Node.IsFlat ns)
    (hleast : ∀ n ∈ ns, ∀ op, n.rule = .operator op → least ≤ op.tier) :
    ∃ v, Reads A least ns v := by
  induction h with
  | operand hsigned =>
    obtain ⟨v, hv⟩ := exists_reads_signed hsigned
    exact ⟨v, hv least⟩
  | @operation ns ms m op _ hm hsigned ih =>
    obtain ⟨u, hu⟩ := ih fun n hn => hleast n (List.mem_append_left _ hn)
    obtain ⟨v, hv⟩ := exists_reads_signed hsigned
    exact hu.extend hm (hleast m (by simp) op hm) hv

/-! ## Reading what has been climbed -/

/-- Where an operand has a value, it is one under minus signs. -/
theorem exists_of_operand {ns : List Node} {x : α} {rest : List (Item α)}
    (h : operand A (items A ns) = .ok (x, rest)) :
    ∃ signs n tail, ns = signs ++ [n] ++ tail ∧ rest = items A tail ∧
      (∀ sign ∈ signs, sign.rule = .unaryMinus) ∧ n.IsOperand ∧
      negated A signs (reduce A n) = .ok x := by
  induction ns generalizing x rest with
  | nil =>
    rw [items] at h
    cases h
  | cons m ns ih =>
    rw [items, operand] at h
    split at h
    · next hm =>
      obtain ⟨⟨y, rest'⟩, hoperand, h⟩ := exists_of_bind_eq_ok h
      obtain ⟨z, hz, h⟩ := exists_of_bind_eq_ok h
      cases h
      obtain ⟨signs, n, tail, rfl, rfl, hsigns, hn, hy⟩ := ih hoperand
      refine ⟨m :: signs, n, tail, rfl, rfl, List.forall_mem_cons.mpr ⟨hm, hsigns⟩, hn, ?_⟩
      rw [negated_cons, hy]
      exact hz
    · obtain ⟨y, hy, h⟩ := exists_of_bind_eq_ok h
      cases h
      exact ⟨[], m, ns, rfl, rfl, nofun, Node.isOperand_of_hasValue (hasValue_of_reduce hy), hy⟩

/-- Climbing goes on from an operator that binds tightly enough, if it has a value. -/
theorem exists_of_not_stops {least : Nat} {ns : List Node} {x y : α} {rest : List (Item α)}
    (hstops : ¬ Stops least (items A ns)) (h : climbOn A least x (items A ns) = .ok (y, rest)) :
    ∃ m ms op, ns = m :: ms ∧ m.rule = .operator op ∧ least ≤ op.tier := by
  cases ns with
  | nil =>
    rw [items] at hstops
    exact absurd (stops_nil _) hstops
  | cons m ms =>
    cases hop : m.rule.operation? with
    | none =>
      rw [items, climbOn_of_not_operator hop] at h
      cases h
    | some op =>
      have hm : m.rule = .operator op := Rule.operation?_eq_some.mp hop
      exact ⟨m, ms, op, rfl, hm, Nat.le_of_not_lt fun hlt => hstops (stops_operator hm hlt)⟩

mutual

theorem exists_of_climb {least : Nat} {ns : List Node} {y : α} {rest : List (Item α)}
    (h : climb A least (items A ns) = .ok (y, rest)) :
    ∃ front tail, ns = front ++ tail ∧ rest = items A tail ∧ Reads A least front (.ok y) ∧
      Stops least (items A tail) := by
  rw [climb_eq] at h
  obtain ⟨⟨first, rest'⟩, hoperand, h⟩ := exists_of_bind_eq_ok h
  obtain ⟨signs, n, more, hns, rfl, hsigns, hn, hfirst⟩ := exists_of_operand hoperand
  have hmore : more.length < ns.length := by
    rw [hns, List.append_assoc, List.length_append]
    simp only [List.length_append, List.length_singleton]
    omega
  -- An operand can be read from any tier on, and no operator is above that of the minus sign.
  have hsigned : Reads A (max least Operation.minusTier) (signs ++ [n]) (.ok first) :=
    hfirst ▸ .operand hsigns hn
  obtain ⟨front, tail, hfront, hrest, hreads, hstops⟩ := hsigned.of_climbOn
    (Nat.le_max_left _ _)
    (fun _ _ op _ _ => Nat.le_trans (Nat.le_of_lt op.tier_lt_minusTier) (Nat.le_max_right _ _)) h
  exact ⟨signs ++ [n] ++ front, tail, by rw [hns, hfront, List.append_assoc _ front], hrest,
    hreads, hstops⟩
termination_by ns.length

/-- Climbing on from a row that has been read reads more of it.  Nothing may follow
that binds more tightly than what has been read. -/
theorem Reads.of_climbOn {tier least : Nat} {before ns : List Node} {x y : α}
    {rest : List (Item α)} (hbefore : Reads A tier before (.ok x)) (hleast : least ≤ tier)
    (hnext : ∀ m tail op, ns = m :: tail → m.rule = .operator op → op.tier ≤ tier)
    (h : climbOn A least x (items A ns) = .ok (y, rest)) :
    ∃ front tail, ns = front ++ tail ∧ rest = items A tail ∧
      Reads A least (before ++ front) (.ok y) ∧ Stops least (items A tail) := by
  by_cases hstops : Stops least (items A ns)
  · rw [climbOn_of_stops hstops] at h
    cases h
    refine ⟨[], ns, rfl, rfl, ?_, hstops⟩
    rw [List.append_nil]
    exact hbefore.mono hleast
  · obtain ⟨m, ms, op, rfl, hm, htier⟩ := exists_of_not_stops hstops h
    rw [climbOn_climb hm htier] at h
    obtain ⟨⟨z, rest'⟩, hclimb, h⟩ := exists_of_bind_eq_ok h
    obtain ⟨value, hvalue, h⟩ := exists_of_bind_eq_ok h
    obtain ⟨right, more, hright, rfl, hreads, hstops'⟩ := exists_of_climb hclimb
    have hmore : more.length < (m :: ms).length := by
      rw [hright, List.length_cons, List.length_append]
      omega
    have hwhole : Reads A op.tier (before ++ m :: right) (.ok value) :=
      hvalue ▸ .operation hm (Nat.le_refl _) (hbefore.mono (hnext m ms op rfl hm)) hreads
    have hnext' : ∀ m' ns' op', more = m' :: ns' → m'.rule = .operator op' →
        op'.tier ≤ op.tier := by
      intro m' ns' op' heq hm'
      have hlt := (heq ▸ hstops').tier_lt hm'
      rw [op.rightTier_eq] at hlt
      exact Nat.le_of_lt_succ hlt
    obtain ⟨front, tail, hfront, hrest, hreads', hlast⟩ := hwhole.of_climbOn htier hnext' h
    refine ⟨m :: right ++ front, tail, by rw [hright, hfront]; simp, hrest, ?_, hlast⟩
    rw [← List.append_assoc]
    exact hreads'
termination_by ns.length

end

/-- No operator is below the loosest tier. -/
theorem Stops.eq_nil {ns : List Node} (h : Stops Operation.loosestTier (items A ns)) : ns = [] := by
  cases ns with
  | nil => rfl
  | cons m ns =>
    obtain ⟨op, _, htier⟩ := h _ _ (by rw [items])
    exact absurd op.loosestTier_le (Nat.not_le_of_lt htier)

/-- Nothing is left over of a row that has a value. -/
theorem reads_of_row {ns : List Node} {y : α} (h : row A (items A ns) = .ok y) :
    Reads A Operation.loosestTier ns (.ok y) := by
  obtain ⟨⟨value, rest⟩, hclimb, h⟩ := exists_of_bind_eq_ok h
  obtain ⟨front, tail, rfl, rfl, hreads, hstops⟩ := exists_of_climb hclimb
  obtain rfl := hstops.eq_nil
  rw [items] at h
  cases h
  rw [List.append_nil]
  exact hreads

/-! ## What is in a row that is read -/

theorem Reads.isFlat {least : Nat} {ns : List Node} {v : Except Fault α} (h : Reads A least ns v) :
    Node.IsFlat ns := by
  induction h with
  | operand hsigns hn => exact .operand ⟨_, _, rfl, hsigns, hn⟩
  | operation hm _ _ _ ihleft ihright => exact ihleft.append hm ihright

theorem exists_of_negated {signs : List Node} {v : Except Fault α} {x : α}
    (h : negated A signs v = .ok x) : ∃ y, v = .ok y := by
  induction signs generalizing x with
  | nil => exact ⟨x, h⟩
  | cons sign signs ih =>
    obtain ⟨y, hy, _⟩ := exists_of_bind_eq_ok h
    exact ih hy

/-- Where a row has a value, its operands have. -/
theorem Reads.exists_of_mem {least : Nat} {ns : List Node} {v : Except Fault α} {x : α}
    (h : Reads A least ns v) (hv : v = .ok x) :
    ∀ n ∈ ns, n.IsOperand → ∃ y, reduce A n = .ok y := by
  induction h generalizing x with
  | @operand least signs n hsigns hn =>
    intro n' hn' hoperand
    rcases List.mem_append.mp hn' with hsign | hlast
    · exact absurd (hsigns n' hsign) hoperand.1
    · rw [List.mem_singleton.mp hlast]
      exact exists_of_negated hv
  | @operation least ns ms m op u w hm _ _ _ ihleft ihright =>
    intro n' hn' hoperand
    obtain ⟨y, hu, hv⟩ := exists_of_bind_eq_ok hv
    obtain ⟨z, hw, _⟩ := exists_of_bind_eq_ok hv
    rcases List.mem_append.mp hn' with hleft | hright
    · exact ihleft hu n' hleft hoperand
    · rcases List.mem_cons.mp hright with rfl | hright
      · rw [Node.IsOperand, hm] at hoperand
        cases hoperand.2
      · exact ihright hw n' hright hoperand

theorem place_ne_inconsistent {p : Nat} {r : Except Refusal α} {m : Mismatch} :
    place p r ≠ .error (.inconsistent m) := by
  cases r <;> simp [place]

theorem bind_ne_error {r : Except Fault α} {f : α → Except Fault β} {fault : Fault}
    (h : r ≠ .error fault) (hf : ∀ x, f x ≠ .error fault) : r >>= f ≠ .error fault := by
  cases r with
  | error fault' => exact fun heq => h (congrArg _ (Except.error.inj heq))
  | ok x => exact hf x

theorem negated_ne_inconsistent {signs : List Node} {v : Except Fault α} {m : Mismatch}
    (h : v ≠ .error (.inconsistent m)) : negated A signs v ≠ .error (.inconsistent m) := by
  induction signs with
  | nil => exact h
  | cons sign signs ih => exact bind_ne_error ih fun x => place_ne_inconsistent

/-- A row fits the evaluator if its operands do, since its own steps are taken or
refused. -/
theorem Reads.ne_inconsistent {least : Nat} {ns : List Node} {v : Except Fault α} {m : Mismatch}
    (h : Reads A least ns v)
    (hns : ∀ n ∈ ns, n.IsOperand → reduce A n ≠ .error (.inconsistent m)) :
    v ≠ .error (.inconsistent m) := by
  induction h with
  | @operand least signs n hsigns hn =>
    exact negated_ne_inconsistent (hns n (by simp) hn)
  | @operation least ns ms m' op u w hm _ _ _ ihleft ihright =>
    refine bind_ne_error (ihleft fun n hn => hns n (List.mem_append_left _ hn)) fun x => ?_
    refine bind_ne_error (ihright fun n hn => hns n ?_) fun y => place_ne_inconsistent
    exact List.mem_append_right _ (List.mem_cons_of_mem _ hn)

/-! ## Nodes over rows -/

theorem Reads.ne_nil {least : Nat} {ns : List Node} {v : Except Fault α} (h : Reads A least ns v) :
    ns ≠ [] := by
  cases h <;> simp

theorem Reads.eq_of_singleton {least : Nat} {n : Node} {v : Except Fault α}
    (h : Reads A least [n] v) : v = reduce A n := by
  generalize hns : [n] = ns at h
  cases h with
  | operand _ _ =>
    obtain ⟨rfl, hn'⟩ := (List.append_eq_singleton_iff.mp hns.symm).resolve_right (by simp)
    rw [List.singleton_inj.mp hn']
    rfl
  | operation _ _ hleft _ =>
    have hpos := List.length_pos_iff.mpr hleft.ne_nil
    have hlength := congrArg List.length hns
    simp only [List.length_append, List.length_cons, List.length_nil] at hlength
    omega

/-- An expression or a term has the value of its row, with one child or with
several. -/
theorem reduce_of_reads {n : Node} (hrow : n.IsRow) {v : Except Fault α}
    (h : Reads A Operation.loosestTier n.children v) : reduce A n = v := by
  by_cases hsingle : ∃ child, n.children = [child]
  · obtain ⟨child, hchild⟩ := hsingle
    rw [hchild] at h
    rw [h.eq_of_singleton, reduce_single hrow hchild]
  · rw [reduce_row hrow fun child hchild => hsingle ⟨child, hchild⟩, h.row]

end Evaluation
end Reckon
