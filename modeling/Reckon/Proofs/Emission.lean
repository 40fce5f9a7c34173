/-
What an evaluation puts on record.

An evaluation on record follows the evaluation of the same tree step by step.  It
records a mismatch where it meets one, and nothing comes after a mismatch, so at
most one is recorded, and one only if it is what the evaluation comes to.  The
items of a row that are not reached may hold any mismatch.
-/
import Reckon.Console
import Reckon.Proofs.Alongside
import Reckon.Proofs.Reporting

namespace Reckon
namespace Recorded

/-! ## Computations -/

section

variable {t : Text} {R : β → α → Prop} {x : Recorded β} {r : Except Fault α}

/-- The computation comes to the outcome, up to how values are related, and leaves
a record of the mismatch if it is one. -/
inductive Follows (t : Text) (R : β → α → Prop) : Recorded β → Except Fault α → Prop
  | value {y : β} {v : α} : R y v → Follows t R (pure y) (.ok v)
  | mismatch (m : Mismatch) : Follows t R (unhandled t m) (.error (.inconsistent m))
  | fault {fault : Fault} :
      (∀ m, fault ≠ .inconsistent m) → Follows t R (throw fault) (.error fault)

/-- What would come after a mismatch or a fault is never come to. -/
theorem Follows.bind {S : δ → γ → Prop} {f : β → Recorded δ} {g : α → Except Fault γ}
    (h : Follows t R x r) (hfg : ∀ y v, R y v → Follows t S (f y) (g v)) :
    Follows t S (x >>= f) (r >>= g) := by
  cases h with
  | @value y v hyv =>
    rw [pure_bind]
    exact hfg y v hyv
  | mismatch m => exact .mismatch m
  | fault hfault => exact .fault hfault

theorem Follows.map {S : δ → γ → Prop} {f : β → δ} {g : α → γ} (h : Follows t R x r)
    (hfg : ∀ y v, R y v → S (f y) (g v)) : Follows t S (f <$> x) (g <$> r) := by
  cases h with
  | value hyv => exact .value (hfg _ _ hyv)
  | mismatch m => exact .mismatch m
  | fault hfault => exact .fault hfault

theorem follows_place (t : Text) (position : Nat) (r : Except Refusal α) :
    Follows t Eq (liftM (Evaluation.place position r)) (Evaluation.place position r) := by
  cases r with
  | ok v => exact .value rfl
  | error refusal => exact .fault nofun

end

/-! ## Rows -/

/-- An item on record is not evaluated yet, and what it will record is related to the
value that the other item has. -/
structure Item.Follows (t : Text) (i : Item α) (j : Reckon.Item α) : Prop where
  rule : i.rule = j.rule
  start : i.start = j.start
  value : Recorded.Follows t Eq i.value j.value

/-- A value and the rest of a row, with the value and the rest on record. -/
def Rests (t : Text) {P : List (Item α) → Prop} (p : α × { rest : List (Item α) // P rest })
    (q : α × List (Reckon.Item α)) : Prop :=
  p.1 = q.1 ∧ List.Forall₂ (Item.Follows t) p.2.val q.2

section

variable {t : Text} {A : Arithmetic α} {is : List (Item α)} {js : List (Reckon.Item α)}

theorem operand_follows (h : List.Forall₂ (Item.Follows t) is js) :
    Follows t (Rests t) (operand t A is) (Evaluation.operand A js) := by
  induction h with
  | nil => exact .mismatch _
  | @cons i j is js hij hrest ih =>
    unfold operand Evaluation.operand
    rw [hij.rule, hij.start]
    by_cases hminus : j.rule = .unaryMinus
    · rw [if_pos hminus, if_pos hminus]
      refine ih.bind fun p q hpq => ?_
      obtain ⟨value, rest, _⟩ := p
      obtain ⟨rfl, hrest'⟩ := hpq
      exact (follows_place t _ _).bind fun y _ hy => .value ⟨hy, hrest'⟩
    · rw [if_neg hminus, if_neg hminus]
      exact hij.value.bind fun y _ hy => .value ⟨hy, hrest⟩

/-- The induction is on what is left of the row. -/
theorem climbFrom_follows {least : Nat} {lhs lhs' : α} {is : List (Item α)}
    {js : List (Reckon.Item α)} (hlhs : lhs = lhs') (h : List.Forall₂ (Item.Follows t) is js) :
    Follows t (Rests t) (climbFrom t A least lhs is) (Evaluation.climbOn A least lhs' js) := by
  rw [climbFrom.eq_def]
  cases h with
  | nil =>
    rw [Evaluation.climbOn_of_stops (Evaluation.stops_nil least)]
    exact .value ⟨hlhs, .nil⟩
  | @cons i j is js hij hrest =>
    dsimp only
    rw [hij.rule, hij.start]
    cases hop : j.rule.operation? with
    | none =>
      rw [Evaluation.climbOn_of_not_operator hop]
      exact .mismatch _
    | some op =>
      have hrule : j.rule = .operator op := Rule.operation?_eq_some.mp hop
      dsimp only
      by_cases hleast : op.tier < least
      · rw [if_pos hleast, Evaluation.climbOn_of_stops]
        · exact .value ⟨hlhs, .cons hij hrest⟩
        · rintro _ _ ⟨⟩
          exact ⟨op, hrule, hleast⟩
      · rw [if_neg hleast, Evaluation.climbOn_operator hrule (Nat.le_of_not_lt hleast)]
        refine (operand_follows hrest).bind fun p q hfirst => ?_
        obtain ⟨first, rest, hlt⟩ := p
        refine (climbFrom_follows hfirst.1 hfirst.2).bind fun p' q' hright => ?_
        obtain ⟨rhs, rest', hle⟩ := p'
        -- So what is left now is shorter than the row, and climbing on may be told of it.
        have hle' : rest'.length ≤ rest.length := hle
        rw [hlhs, show rhs = q'.1 from hright.1]
        refine (follows_place t _ _).bind fun value _ hvalue => ?_
        rw [← bind_pure (Evaluation.climbOn A least _ _)]
        exact (climbFrom_follows hvalue hright.2).bind fun _ _ hlast => .value hlast
termination_by is.length

theorem climb_follows {least : Nat} (h : List.Forall₂ (Item.Follows t) is js) :
    Follows t (fun p q => p.1 = q.1 ∧ List.Forall₂ (Item.Follows t) p.2 q.2)
      (climb t A least is) (Evaluation.climb A least js) := by
  rw [Evaluation.climb_eq, climb]
  refine (operand_follows h).bind fun p q hfirst => ?_
  rw [← bind_pure (Evaluation.climbOn A least q.1 q.2)]
  exact (climbFrom_follows hfirst.1 hfirst.2).bind fun _ _ hlast => .value hlast

theorem row_follows (h : List.Forall₂ (Item.Follows t) is js) :
    Follows t Eq (row t A is) (Evaluation.row A js) := by
  refine (climb_follows h).bind fun p q hpq => ?_
  obtain ⟨value, rest⟩ := p
  obtain ⟨value', rest'⟩ := q
  obtain ⟨rfl, hrest⟩ := hpq
  cases hrest with
  | nil => exact .value rfl
  | cons hij _ =>
    dsimp only
    rw [hij.rule]
    exact .mismatch _

end

/-! ## Trees -/

section

variable {t : Text} {A : Arithmetic α}

theorem function_follows (t name : Text) :
    Follows t Eq (function t name) (Evaluation.function name) := by
  unfold function Evaluation.function
  cases Function.ofName? name with
  | none => exact .mismatch _
  | some f => exact .value rfl

/-- What a node records, given what its children do. -/
theorem reduce_follows_of_items {n : Node}
    (h : List.Forall₂ (Item.Follows t) (items t A n.children) (Evaluation.items A n.children)) :
    Follows t Eq (reduce t A n) (Evaluation.reduce A n) := by
  obtain ⟨rule, text, start, stop, children⟩ := n
  cases rule with
  | number =>
    simp only [reduce, Evaluation.reduce]
    exact follows_place t _ _
  | equation | functionName | operator op | unaryMinus | endOfInput =>
    simp only [reduce, Evaluation.reduce]
    exact .mismatch _
  | expression | term =>
    rcases children with _ | ⟨child, _ | _⟩
    · simp only [reduce, Evaluation.reduce]
      exact row_follows h
    · simp only [items, Evaluation.items] at h
      simp only [reduce, Evaluation.reduce]
      exact (List.forall₂_cons.mp h).1.value
    · simp only [reduce, Evaluation.reduce]
      exact row_follows h
  | group =>
    rcases children with _ | ⟨child, _ | _⟩
    · simp only [reduce, Evaluation.reduce]
      exact .mismatch _
    · simp only [items, Evaluation.items] at h
      simp only [reduce, Evaluation.reduce]
      split
      · exact (List.forall₂_cons.mp h).1.value
      · exact .mismatch _
    · simp only [reduce, Evaluation.reduce]
      exact .mismatch _
  | functionCall =>
    rcases children with _ | ⟨name, _ | ⟨argument, _ | _⟩⟩
    · simp only [reduce, Evaluation.reduce]
      exact .mismatch _
    · simp only [reduce, Evaluation.reduce]
      exact .mismatch _
    · simp only [items, Evaluation.items] at h
      obtain ⟨hargument, _⟩ := List.forall₂_cons.mp (List.forall₂_cons.mp h).2
      simp only [reduce, Evaluation.reduce]
      split
      · refine (function_follows t _).bind fun f _ hf => ?_
        subst hf
        refine hargument.value.bind fun x _ hx => ?_
        subst hx
        exact follows_place t _ _
      · exact .mismatch _
    · simp only [reduce, Evaluation.reduce]
      exact .mismatch _

mutual

theorem reduce_follows (n : Node) : Follows t Eq (reduce t A n) (Evaluation.reduce A n) := by
  obtain ⟨rule, text, start, stop, children⟩ := n
  exact reduce_follows_of_items (items_follow children)

theorem items_follow (ns : List Node) :
    List.Forall₂ (Item.Follows t) (items t A ns) (Evaluation.items A ns) := by
  match ns with
  | [] =>
    simp only [items, Evaluation.items]
    exact .nil
  | n :: ns =>
    simp only [items, Evaluation.items]
    exact .cons ⟨rfl, rfl, reduce_follows n⟩ (items_follow ns)

end

theorem evaluate_follows (root : Node) :
    Follows t Eq (evaluate t A root) (Evaluation.evaluate A root) := by
  obtain ⟨rule, text, start, stop, children⟩ := root
  cases rule with
  | equation =>
    rcases children with _ | ⟨child, _ | _⟩
    · exact .mismatch _
    · exact reduce_follows child
    · exact .mismatch _
  | _ => exact .mismatch _

end

end Recorded

/-! ## Records -/

namespace Console

open Recorded (Follows mismatchRecord)

/-- The records of the evaluation of a tree. -/
inductive EmitsOfTree (t : Text) : Except Fault Value → List Record → Prop
  | mismatch (m : Mismatch) : EmitsOfTree t (.error (.inconsistent m)) [mismatchRecord t m]
  | other {outcome : Except Fault Value} :
      (∀ m, outcome ≠ .error (.inconsistent m)) → EmitsOfTree t outcome []

theorem EmitsOfTree.eq_nil {t : Text} {outcome : Except Fault Value} {rs : List Record}
    (h : EmitsOfTree t outcome rs) (hnone : ∀ m, outcome ≠ .error (.inconsistent m)) : rs = [] := by
  cases h with
  | mismatch m => exact absurd rfl (hnone m)
  | other _ => rfl

/-- The records of the evaluation of a text and those of a report on it. -/
inductive Emits (t : Text) : Except Fault Value → List Record → List Record → Prop
  | value (v : Value) : Emits t (.ok v) [valueRecord t v] [valueRecord t v]
  | failure {fault : Fault} {f : Failure} :
      fault.failure? t = some f → Emits t (.error fault) [] [failureRecord t f]

theorem evaluateTree_follows (settings : Settings) (t : Text) (root : Node) :
    Follows t Eq (evaluateTree settings t root) (Calculator.evaluateTree settings root) := by
  unfold evaluateTree Calculator.evaluateTree
  cases settings.mode with
  | float => exact (Recorded.evaluate_follows root).map fun _ _ h => congrArg Value.float h
  | int32 => exact (Recorded.evaluate_follows root).map fun _ _ h => congrArg Value.int h

/-- A tree leaves one record if it is inconsistent and none if it is not. -/
theorem evaluateTree_emits (settings : Settings) (t : Text) (root : Node) :
    (evaluateTree settings t root).outcome = Calculator.evaluateTree settings root ∧
      EmitsOfTree t (Calculator.evaluateTree settings root)
        (evaluateTree settings t root).records := by
  have h := evaluateTree_follows settings t root
  generalize evaluateTree settings t root = x at h
  generalize Calculator.evaluateTree settings root = r at h
  cases h with
  | @value y v hyv =>
    subst hyv
    exact ⟨rfl, .other nofun⟩
  | mismatch m => exact ⟨rfl, .mismatch m⟩
  | fault hfault => exact ⟨rfl, .other fun m hm => hfault m (Except.error.inj hm)⟩

/-- A mismatch is recorded where it is reached, and behind a division by zero it is
not. -/
example :
    let root (divisor : Text) : Node := ⟨.equation, [], 0, 0, [⟨.expression, [], 0, 0,
      [⟨.number, ['1'], 0, 0, []⟩, ⟨.operator .divide, [], 0, 0, []⟩,
        ⟨.number, divisor, 0, 0, []⟩, ⟨.operator .add, [], 0, 0, []⟩,
        ⟨.endOfInput, [], 0, 0, []⟩]⟩]⟩
    (evaluateTree { mode := .int32 } [] (root ['2'])).records =
        [mismatchRecord [] (.noHandler .endOfInput)] ∧
      (evaluateTree { mode := .int32 } [] (root ['0'])).records = [] := by
  decide +kernel

/-! ## Texts -/

/-- An evaluation comes to a value or to a failure of the expression, and never to a
mismatch. -/
theorem evaluate_cases (settings : Settings) (t : Text) :
    (∃ v, Calculator.evaluate settings t = .ok v) ∨
      ∃ fault f, Calculator.evaluate settings t = .error fault ∧ fault.failure? t = some f ∧
        ∀ m, fault ≠ .inconsistent m := by
  obtain ⟨r, _, hreported⟩ := exists_reported settings t
  generalize Calculator.evaluate settings t = outcome at hreported
  cases hreported with
  | value _ => exact .inl ⟨_, rfl⟩
  | @failure fault f p hf hfits _ =>
    refine .inr ⟨fault, f, rfl, hf, fun m hm => hfits.not_internal ?_⟩
    subst hm
    cases hf
    rfl

/-- No tree of a text is inconsistent, whatever the settings it is evaluated with. -/
theorem evaluateTree_emits_of_recognize {limit : Int} {t : Text} {root : Node}
    (h : recognize limit t = .ok root) (settings : Settings) :
    (evaluateTree settings t root).records = [] := by
  have hrecognized : Recognized limit t (.ok root) := h ▸ recognized limit t
  obtain ⟨φ, _, hwithin, hvalue⟩ := @evaluateTree_eq settings _ _ _ hrecognized
  refine (evaluateTree_emits settings t root).2.eq_nil fun m hm => ?_
  rw [hvalue] at hm
  rcases settings.placed_value hwithin with ⟨v, hv, _⟩ | ⟨cause, p, hv, _⟩
  · cases hv.symm.trans hm
  · cases hv.symm.trans hm

theorem recognize_follows (limit : Int) (t : Text) :
    Follows t Eq (liftM (recognize limit t)) (recognize limit t) := by
  have h := recognized limit t
  generalize recognize limit t = r at h
  cases h with
  | tree _ _ _ => exact .value rfl
  | unexpected _ _ _ => exact .fault nofun
  | tooDeep _ => exact .fault nofun

/-- The value is recorded after the evaluation of the tree. -/
theorem exists_follows (settings : Settings) (t : Text) :
    ∃ x : Recorded Value, Follows t Eq x (Calculator.evaluate settings t) ∧
      evaluate settings t = (do
        let value ← x
        Recorded.record (valueRecord t value)
        return value) := by
  refine ⟨do evaluateTree settings t (← recognize settings.maxDepth t), ?_, ?_⟩
  · exact (recognize_follows _ t).bind fun root _ h => h ▸ evaluateTree_follows settings t root
  · rw [evaluate, bind_assoc]

theorem evaluate_of_ok {settings : Settings} {t : Text} {v : Value}
    (h : Calculator.evaluate settings t = .ok v) :
    (evaluate settings t).outcome = .ok v ∧ (evaluate settings t).records = [valueRecord t v] := by
  obtain ⟨x, hfollows, hevaluate⟩ := exists_follows settings t
  rw [hevaluate]
  rw [h] at hfollows
  cases hfollows with
  | value hyv =>
    subst hyv
    exact ⟨rfl, rfl⟩

theorem evaluate_of_error {settings : Settings} {t : Text} {fault : Fault}
    (h : Calculator.evaluate settings t = .error fault) (hfault : ∀ m, fault ≠ .inconsistent m) :
    (evaluate settings t).outcome = .error fault ∧ (evaluate settings t).records = [] := by
  obtain ⟨x, hfollows, hevaluate⟩ := exists_follows settings t
  rw [hevaluate]
  rw [h] at hfollows
  cases hfollows with
  | mismatch m => exact absurd rfl (hfault m)
  | fault _ => exact ⟨rfl, rfl⟩

theorem run_evaluateResult (settings : Settings) (t : Text) :
    (evaluateResult settings t).run [] =
      StateT.run (do
        if let .error fault := (evaluate settings t).outcome then
          if let some failure := fault.failure? t then
            Recorded.record (failureRecord t failure)
        return Calculator.report t (evaluate settings t).outcome)
      (evaluate settings t).records :=
  rfl

/-- A text leaves a record of its value and none of a failure, which only a report
on it records. -/
theorem evaluate_emits (settings : Settings) (t : Text) :
    (evaluate settings t).outcome = Calculator.evaluate settings t ∧
      ((evaluateResult settings t).run []).1 = Calculator.evaluateResult settings t ∧
      Emits t (Calculator.evaluate settings t) (evaluate settings t).records
        ((evaluateResult settings t).run []).2 := by
  rw [run_evaluateResult, Calculator.evaluateResult]
  rcases evaluate_cases settings t with ⟨v, hv⟩ | ⟨fault, f, hfault, hf, hmismatch⟩
  · obtain ⟨houtcome, hrecords⟩ := evaluate_of_ok hv
    rw [houtcome, hrecords, hv]
    exact ⟨rfl, rfl, .value v⟩
  · obtain ⟨houtcome, hrecords⟩ := evaluate_of_error hfault hmismatch
    rw [houtcome, hrecords, hfault]
    dsimp only
    rw [hf]
    exact ⟨rfl, rfl, .failure hf⟩

end Console
end Reckon
