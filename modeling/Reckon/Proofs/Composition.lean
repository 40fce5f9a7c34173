/-
Expressions made of expressions.

Two expressions in parentheses with an operator between them, one after a minus
sign, and one after the name of a function are expressions too.  Their values
are those of the parts, put together by one step of the arithmetic.
-/
import Reckon.Proofs.Calculation
import Reckon.Proofs.Placement
import Reckon.Proofs.Relocation

namespace Reckon

open Evaluation

/-! ## The numbers of a mode -/

namespace NumericMode

abbrev Number : NumericMode → Type
  | float => Float
  | int32 => Int

def value : (mode : NumericMode) → mode.Number → Value
  | float => Value.float
  | int32 => Value.int

def arithmetic : (mode : NumericMode) → AngleUnit → Arithmetic mode.Number
  | float, unit => floating unit
  | int32, unit => integral unit

end NumericMode

def Settings.arithmetic (settings : Settings) : Arithmetic settings.mode.Number :=
  settings.mode.arithmetic settings.unit

/-- The value of an expression as a number of the mode. -/
def Calculator.number (settings : Settings) (t : Text) : Except Fault settings.mode.Number := do
  Evaluation.evaluate settings.arithmetic (← recognize settings.maxDepth t)

theorem Calculator.evaluate_eq_value_number (settings : Settings) (t : Text) :
    Calculator.evaluate settings t = settings.mode.value <$> number settings t := by
  obtain ⟨mode, unit, maxDepth, _, _⟩ := settings
  unfold Calculator.evaluate number
  cases recognize maxDepth t with
  | error fault => rfl
  | ok root => cases mode <;> rfl

theorem Calculator.number_of_recognize {settings : Settings} {t : Text} {root : Node}
    (h : recognize settings.maxDepth t = .ok root) :
    number settings t = Evaluation.evaluate settings.arithmetic root := by
  rw [number, h]
  rfl

/-! ## Tokens at the front of a text -/

namespace Cursor

variable {l : Label} {s : Text}

theorem skipBlanks_of_spells (hs : l.Spells s) (k : Nat) (rest : Text) :
    ({ pos := k, rest := s ++ rest } : Cursor).skipBlanks = { pos := k, rest := s ++ rest } := by
  refine skipBlanks_of_gap k Text.isGap_nil fun x more hx => ?_
  obtain ⟨c, cs, rfl, _⟩ := hs.exists_cons
  obtain rfl : c = x := (List.cons.inj hx).1
  exact hs.isBlank_eq_false List.mem_cons_self

theorem takes_of_spells (hs : l.Spells s) (k : Nat) (rest : Text) :
    ({ pos := k, rest := s ++ rest } : Cursor).Takes s { pos := k + s.length, rest } := by
  refine ⟨?_, ?_⟩
  · rw [skipBlanks_of_spells hs]
    exact List.prefix_append _ _
  · rw [skipBlanks_of_spells hs, advance, List.drop_left]

end Cursor

/-! ## Parts and what they come to -/

/-- What is read from one cursor to another comes to a value or a fault. -/
def YieldsPrimary (A : Arithmetic α) (room : Nat) (c : Cursor) (r : Except Fault α) (d : Cursor) :
    Prop :=
  ∃ n xs φ, Spans room .primary c [n] xs d ∧ n.Means A c.total φ ∧ φ.value A = r

/-- One operand of a row, with the minus sign before it. -/
def YieldsOperand (A : Arithmetic α) (room : Nat) (l : Layer) (c : Cursor) (r : Except Fault α)
    (d : Cursor) : Prop :=
  ∃ ns xs φ, Spans room l.operand c ns xs d ∧ OperandMeans A c.total ns φ ∧ φ.value A = r

def YieldsRow (A : Arithmetic α) (room : Nat) (l : Layer) (c : Cursor) (r : Except Fault α)
    (d : Cursor) : Prop :=
  ∃ n xs φ, Spans room (.row l) c [n] xs d ∧ n.Means A c.total φ ∧ φ.value A = r

section

variable {α : Type} {A : Arithmetic α} {room : Nat} {l : Layer} {c c₁ c₂ d : Cursor}
  {r r' : Except Fault α}

theorem YieldsPrimary.of_spans {n : Node} {xs : List Lexeme} (h : Spans room .primary c [n] xs d)
    (hvalue : reduce A n = r) : YieldsPrimary A room c r d := by
  obtain ⟨m, φ, hm, hmeans⟩ := h.means A
  obtain rfl := List.singleton_inj.mp hm
  exact ⟨n, xs, φ, h, hmeans, hmeans.value.symm.trans hvalue⟩

theorem YieldsPrimary.operand (h : YieldsPrimary A room c r d) :
    YieldsOperand A room .term c r d := by
  obtain ⟨n, xs, φ, hspans, hmeans, hvalue⟩ := h
  exact ⟨[n], xs, φ, .plain hspans, hmeans.operand, hvalue⟩

theorem YieldsPrimary.minus (h : YieldsPrimary A room c₁ r d) (hsign : c.Takes ['-'] c₁) :
    YieldsOperand A room .term c (do
      let x ← r
      place c.skipBlanks.pos (A.negate x)) d := by
  obtain ⟨n, xs, φ, hspans, hmeans, rfl⟩ := h
  have hstart := hsign.start_lt (List.cons_ne_nil _ _)
  rw [hsign.total] at hmeans
  exact ⟨_, _, .negation c.skipBlanks.pos φ, .minus hsign hspans, hmeans.minus rfl hstart, rfl⟩

theorem YieldsRow.operand (h : YieldsRow A room .term c r d) :
    YieldsOperand A room .expression c r d := by
  obtain ⟨n, xs, φ, hspans, hmeans, hvalue⟩ := h
  exact ⟨[n], xs, φ, hspans, hmeans.operand, hvalue⟩

theorem YieldsOperand.alone (h : YieldsOperand A room l c r d) (hc : c.skipBlanks = c) :
    YieldsRow A room l c r d := by
  obtain ⟨ns, xs, φ, hspans, hmeans, hvalue⟩ := h
  exact ⟨_, _, φ.leftFold [], .row (hc.symm ▸ hspans) (.done l), .row hmeans (.done l), hvalue⟩

theorem YieldsOperand.pair {op : Operation} {s : Text} (h : YieldsOperand A room l c r c₁)
    (hc : c.skipBlanks = c) (hop : op ∈ l.operators) (hs : s ∈ op.spellings)
    (hsign : c₁.Takes s c₂) (h' : YieldsOperand A room l c₂ r' d) :
    YieldsRow A room l c (do
      let x ← r
      let y ← r'
      place c₁.skipBlanks.pos (A.apply op x y)) d := by
  obtain ⟨ns, xs, φ, hspans, hmeans, rfl⟩ := h
  obtain ⟨ms, ys, ψ, hspans', hmeans', rfl⟩ := h'
  have hstart := hsign.start_lt (Operation.spellings_ne_nil hs)
  rw [hspans.total] at hstart
  rw [hsign.total, hspans.total] at hmeans'
  exact ⟨_, _, φ.leftFold [⟨op, c₁.skipBlanks.pos, ψ⟩],
    .row (hc.symm ▸ hspans) (.more hop hs hsign hspans' (.done l)),
    .row hmeans (.more hop rfl hstart hmeans' (.done l)), rfl⟩

/-- An operand of a term is one of an expression, as a term of its own. -/
theorem YieldsOperand.lift (h : YieldsOperand A room .term c r d) (hc : c.skipBlanks = c)
    (l : Layer) : YieldsOperand A room l c r d := by
  cases l with
  | term => exact h
  | expression => exact (h.alone hc).operand

theorem YieldsRow.expression (h : YieldsRow A room l c r d) (hc : c.skipBlanks = c) :
    YieldsRow A room .expression c r d := by
  cases l with
  | term => exact h.operand.alone hc
  | expression => exact h

theorem YieldsRow.number {settings : Settings} {t : Text} {r : Except Fault settings.mode.Number}
    (h : YieldsRow settings.arithmetic settings.maxDepth.toNat .expression (.ofText t) r d)
    (hd : d.rest = []) : Calculator.number settings t = r := by
  obtain ⟨n, xs, φ, hspans, hmeans, hvalue⟩ := h
  have hend : d.skipBlanks.rest = [] := by
    rw [Cursor.rest_skipBlanks, hd]
    rfl
  rw [Calculator.number_of_recognize (recognize_of_spans hspans hend), ← hvalue, ← hmeans.value]
  rfl

end

/-! ## Expressions in parentheses -/

def Text.parenthesized (t : Text) : Text :=
  '(' :: (t ++ [')'])

section

variable {limit : Int} {t : Text} {root : Node} {α : Type}

/-- Before a closing parenthesis an expression is read as it is alone. -/
theorem exists_spans_of_recognize (h : recognize limit t = .ok root) (A : Arithmetic α) (k : Nat)
    (more : Text) :
    ∃ e xs d, Spans limit.toNat (.row .expression) { pos := k, rest := t ++ ')' :: more } [e] xs d ∧
      d.Takes [')'] { pos := k + t.length + 1, rest := more } ∧
      reduce A e = (Evaluation.evaluate A root).mapError (Fault.relocate (· + k)) := by
  have hrecognized := recognized limit t
  rw [h] at hrecognized
  cases hrecognized with
  | @tree e xs d hspans _ hrest =>
    obtain ⟨gap, hgap, hgaprest, _⟩ := d.exists_gap
    rw [hrest, List.append_nil] at hgaprest
    have hpos : d.pos + gap.length = t.length := by
      have htotal := hspans.total
      rwa [Cursor.total, Cursor.total, hgaprest, Cursor.ofText, Nat.zero_add] at htotal
    have hskip : (d.within k (')' :: more)).skipBlanks =
        { pos := k + t.length, rest := ')' :: more } := by
      rw [Cursor.within, hgaprest, Cursor.skipBlanks_of_gap _ hgap, ← hpos]
      · congr 1
        omega
      · intro x rest hx
        obtain rfl : ')' = x := (List.cons.inj hx).1
        decide
    have hbody := hspans.within k (')' :: more)
    rw [Cursor.within, Cursor.ofText, Nat.zero_add] at hbody
    refine ⟨_, xs, _, hbody, ⟨?_, ?_⟩, ?_⟩
    · rw [hskip]
      exact ⟨more, rfl⟩
    · rw [hskip]
      rfl
    · rw [reduce_relocate]
      rfl

theorem yieldsPrimary_group (h : recognize limit t = .ok root) (A : Arithmetic α) (k : Nat)
    (more : Text) :
    YieldsPrimary A (limit.toNat + 1) { pos := k, rest := t.parenthesized ++ more }
      ((Evaluation.evaluate A root).mapError (Fault.relocate (· + (k + 1))))
      { pos := k + (t.length + 2), rest := more } := by
  obtain ⟨e, xs, d, hbody, hclose, hvalue⟩ := exists_spans_of_recognize h A (k + 1) more
  have hopen := Cursor.takes_of_spells (l := .openParen) rfl k (t ++ ')' :: more)
  have hspans := Spans.group hopen hbody hclose
  have hrest : t.parenthesized ++ more = ['('] ++ (t ++ ')' :: more) := by
    simp [Text.parenthesized]
  have hpos : k + (t.length + 2) = k + 1 + t.length + 1 := by omega
  rw [hrest, hpos]
  exact .of_spans hspans ((reduce_group rfl rfl hbody.rule_of_row).trans hvalue)

theorem yieldsPrimary_call (h : recognize limit t = .ok root) (A : Arithmetic α) (f : Function)
    (k : Nat) (more : Text) :
    YieldsPrimary A (limit.toNat + 1) { pos := k, rest := f.name ++ (t.parenthesized ++ more) }
      (do
        let x ← (Evaluation.evaluate A root).mapError
          (Fault.relocate (· + (k + f.name.length + 1)))
        place k (A.call f x))
      { pos := k + f.name.length + (t.length + 2), rest := more } := by
  obtain ⟨e, xs, d, hbody, hclose, hvalue⟩ :=
    exists_spans_of_recognize h A (k + f.name.length + 1) more
  have hrest : t.parenthesized ++ more = ['('] ++ (t ++ ')' :: more) := by
    simp [Text.parenthesized]
  have hname := Cursor.takes_of_spells (l := .functionName) ⟨f, rfl⟩ k
    (['('] ++ (t ++ ')' :: more))
  have hopen := Cursor.takes_of_spells (l := .openParen) rfl (k + f.name.length)
    (t ++ ')' :: more)
  have hspans := Spans.call f hname hopen hbody hclose
  have hpos : k + f.name.length + (t.length + 2) = k + f.name.length + 1 + t.length + 1 := by omega
  rw [hrest, hpos]
  refine .of_spans hspans ?_
  rw [reduce_call rfl rfl rfl hbody.rule_of_row hname.take_rest.symm, hvalue, Cursor.node,
    Cursor.skipBlanks_of_spells (l := .functionName) ⟨f, rfl⟩]

end

/-! ## Composition -/

theorem Operation.exists_layer (op : Operation) : ∃ l : Layer, op ∈ l.operators := by
  cases op with
  | add | subtract => exact ⟨.expression, by decide⟩
  | multiply | divide | exponent | modulo => exact ⟨.term, by decide⟩

namespace Calculator

section

variable {settings : Settings} {a b : Text} {ra rb : Node}

/-- Inside parentheses one level less is left. -/
theorem toNat_maxDepth (settings : Settings) :
    (settings.maxDepth - 1).toNat + 1 = settings.maxDepth.toNat := by
  have := settings.one_le_maxDepth
  omega

theorem number_of_inner (ha : recognize (settings.maxDepth - 1) a = .ok ra) :
    number settings a = Evaluation.evaluate settings.arithmetic ra := by
  have hnesting := (ha ▸ recognized _ a : Recognized _ a (.ok ra)).isTreeOf.2
  have := toNat_maxDepth settings
  exact number_of_recognize (recognize_of_nesting_le ha (by omega))

theorem number_pair (ha : recognize (settings.maxDepth - 1) a = .ok ra)
    (hb : recognize (settings.maxDepth - 1) b = .ok rb) {op : Operation} {s : Text}
    (hs : s ∈ op.spellings) :
    number settings (a.parenthesized ++ s ++ b.parenthesized) = (do
      let x ← (number settings a).mapError (Fault.relocate (· + 1))
      let y ← (number settings b).mapError (Fault.relocate (· + (a.length + s.length + 3)))
      place (a.length + 2) (settings.arithmetic.apply op x y)) := by
  obtain ⟨l, hop⟩ := op.exists_layer
  have hspells : Label.Spells (.operator op) s := hs
  have hfirst := yieldsPrimary_group ha settings.arithmetic 0 (s ++ b.parenthesized)
  have hsecond := yieldsPrimary_group hb settings.arithmetic (a.length + 2 + s.length) []
  have hsign := Cursor.takes_of_spells hspells (a.length + 2) b.parenthesized
  rw [toNat_maxDepth, Nat.zero_add, Nat.zero_add] at hfirst
  rw [toNat_maxDepth, List.append_nil] at hsecond
  have hpair := (hfirst.operand.lift rfl l).pair rfl hop hs hsign (hsecond.operand.lift rfl l)
  have hshift : a.length + 2 + s.length + 1 = a.length + s.length + 3 := by omega
  rw [Cursor.skipBlanks_of_spells hspells, hshift] at hpair
  rw [number_of_inner ha, number_of_inner hb, List.append_assoc]
  exact (hpair.expression rfl).number rfl

theorem number_minus (ha : recognize (settings.maxDepth - 1) a = .ok ra) :
    number settings ('-' :: a.parenthesized) = (do
      let x ← (number settings a).mapError (Fault.relocate (· + 2))
      place 0 (settings.arithmetic.negate x)) := by
  have hbody := yieldsPrimary_group ha settings.arithmetic 1 []
  have hsign := Cursor.takes_of_spells (l := .unaryMinus) rfl 0 a.parenthesized
  rw [toNat_maxDepth, List.append_nil] at hbody
  rw [number_of_inner ha]
  exact (((hbody.minus hsign).alone rfl).expression rfl).number rfl

theorem number_call (ha : recognize (settings.maxDepth - 1) a = .ok ra) (f : Function) :
    number settings (f.name ++ a.parenthesized) = (do
      let x ← (number settings a).mapError (Fault.relocate (· + (f.name.length + 1)))
      place 0 (settings.arithmetic.call f x)) := by
  have hcall := yieldsPrimary_call ha settings.arithmetic f 0 []
  have hskip := Cursor.skipBlanks_of_spells (l := .functionName) ⟨f, rfl⟩ 0 a.parenthesized
  rw [toNat_maxDepth, List.append_nil, Nat.zero_add] at hcall
  rw [number_of_inner ha]
  exact ((hcall.operand.alone hskip).expression hskip).number rfl

end

end Calculator

open Calculator in
/-- The value of an expression that is made of expressions is one step of the
arithmetic on their values.  A fault of a part stops it first, at the place
where the part now has it, and a fault of the step is placed where the step is
written. -/
theorem evaluate_compositional {settings : Settings} {la lb : Int} {a b : Text} {ra rb : Node}
    (ha : recognize la a = .ok ra) (hb : recognize lb b = .ok rb)
    (hna : ra.shape.nesting + 1 ≤ settings.maxDepth)
    (hnb : rb.shape.nesting + 1 ≤ settings.maxDepth) :
    (∀ t, evaluate settings t = settings.mode.value <$> number settings t) ∧
      (∀ op, ∀ s ∈ op.spellings,
        number settings (a.parenthesized ++ s ++ b.parenthesized) = do
          let x ← (number settings a).mapError (Fault.relocate (· + 1))
          let y ← (number settings b).mapError (Fault.relocate (· + (a.length + s.length + 3)))
          place (a.length + 2) (settings.arithmetic.apply op x y)) ∧
      (number settings ('-' :: a.parenthesized) = do
        let x ← (number settings a).mapError (Fault.relocate (· + 2))
        place 0 (settings.arithmetic.negate x)) ∧
      (∀ f : Function, number settings (f.name ++ a.parenthesized) = do
        let x ← (number settings a).mapError (Fault.relocate (· + (f.name.length + 1)))
        place 0 (settings.arithmetic.call f x)) ∧
      ∀ cause p k t, (Fault.relocate (· + k) (.refused (.unrepresentable cause) p)).failure? t =
        some (.evaluation cause.message t (some ((p + k : Nat) : Int))) := by
  have hinner : recognize (settings.maxDepth - 1) a = .ok ra :=
    recognize_of_nesting_le ha (by omega)
  have hinner' : recognize (settings.maxDepth - 1) b = .ok rb :=
    recognize_of_nesting_le hb (by omega)
  exact ⟨evaluate_eq_value_number settings, fun op s hs => number_pair hinner hinner' hs,
    number_minus hinner, number_call hinner, fun _ _ _ _ => rfl⟩

/-- In `(7)-( 1/0)` the division fails as it does in ` 1/0`, five characters
further on. -/
theorem evaluate_seven_minus_quotient :
    Calculator.evaluate { mode := .int32 } "(7)-( 1/0)".toList =
      .error (.refused (.unrepresentable (.zeroDivisor .divide)) 7) := by
  obtain ⟨ra, ha, hna⟩ := exists_recognized
    (by decide +kernel : (recognize 1 ['7']).toOption.map (·.shape.nesting) = some 0)
  obtain ⟨rb, hb, hnb⟩ := exists_recognized
    (by decide +kernel : (recognize 1 " 1/0".toList).toOption.map (·.shape.nesting) = some 0)
  obtain ⟨hvalue, hpair, _⟩ := @evaluate_compositional { mode := .int32 } _ _ _ _ _ _ ha hb
    (by rw [hna]; decide) (by rw [hnb]; decide)
  have hleft : Calculator.number { mode := .int32 } ['7'] = .ok (7 : Int) := by
    decide +kernel
  have hright : Calculator.number { mode := .int32 } " 1/0".toList =
      .error (.refused (.unrepresentable (.zeroDivisor .divide)) 2) := by
    decide +kernel
  have hboth := hpair .subtract ['-'] (by decide)
  rw [hleft, hright] at hboth
  exact (hvalue _).trans (congrArg _ hboth)

end Reckon
