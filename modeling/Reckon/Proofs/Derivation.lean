/-
The grammar as derivations.

    equation   := expression
    expression := term ((add | subtract) term)*
    term       := unary ((multiply | divide | exponent | modulo) unary)*
    unary      := minus? primary
    primary    := number | "(" expression ")" | name "(" expression ")"

A derivation says which trees a row of lexemes is read as, without any place.
What a minus, an operand or an operator adds to its term are children of the
term itself.  No row of lexemes has two derivations: the first lexeme of a part
tells how the part goes on, and a part ends where no operator of it follows.
-/
import Reckon.Proofs.Lexeme

namespace Reckon

/-! ## Trees -/

/-- A tree without places.  A leaf has the characters that it stands for. -/
inductive Tree where
  | leaf (rule : Rule) (text : Text)
  | branch (rule : Rule) (children : List Tree)
  deriving Repr

namespace Tree

mutual

def decEq : (t u : Tree) → Decidable (t = u)
  | leaf rule text, leaf rule' text' =>
    decidable_of_iff (rule = rule' ∧ text = text') (by rw [leaf.injEq])
  | branch rule ts, branch rule' us =>
    have := decEqs ts us
    decidable_of_iff (rule = rule' ∧ ts = us) (by rw [branch.injEq])
  | leaf _ _, branch _ _ => isFalse nofun
  | branch _ _, leaf _ _ => isFalse nofun

def decEqs : (ts us : List Tree) → Decidable (ts = us)
  | [], [] => isTrue rfl
  | t :: ts, u :: us =>
    have := decEq t u
    have := decEqs ts us
    decidable_of_iff (t = u ∧ ts = us) (by rw [List.cons.injEq])
  | [], _ :: _ => isFalse nofun
  | _ :: _, [] => isFalse nofun

end

instance : DecidableEq Tree := decEq

mutual

def nesting : Tree → Nat
  | leaf _ _ => 0
  | branch rule children =>
    if rule = .group ∨ rule = .functionCall then nestings children + 1 else nestings children

def nestings : List Tree → Nat
  | [] => 0
  | t :: ts => max (nesting t) (nestings ts)

end

theorem nestings_append (ts us : List Tree) :
    nestings (ts ++ us) = max (nestings ts) (nestings us) := by
  induction ts with
  | nil => simp [nestings]
  | cons t ts ih => simp [nestings, ih, Nat.max_assoc]

end Tree

namespace Node

mutual

/-- The tree of a node: its rules, the order of its children and the texts of
its leaves. -/
def shape : Node → Tree
  | ⟨rule, text, _, _, []⟩ => .leaf rule text
  | ⟨rule, _, _, _, child :: children⟩ => .branch rule (shape child :: shapes children)

def shapes : List Node → List Tree
  | [] => []
  | n :: ns => shape n :: shapes ns

end

theorem shapes_eq_map (ns : List Node) : shapes ns = ns.map shape := by
  induction ns with
  | nil => rfl
  | cons n ns ih => simp [shapes, ih]

end Node

/-! ## Parts of an expression -/

inductive Layer where
  | term | expression
  deriving DecidableEq, Repr

namespace Layer

def rule : Layer → Rule
  | term => .term
  | expression => .expression

def operators : Layer → List Operation
  | term => Operation.multiplicative
  | expression => Operation.additive

end Layer

inductive Part where
  | primary
  | unary
  | tail (l : Layer)
  | row (l : Layer)
  deriving DecidableEq, Repr

def Layer.operand : Layer → Part
  | term => .unary
  | expression => .row .term

/-- The operators that would carry a part on. -/
def Part.operators : Part → List Operation
  | primary | unary => []
  | tail .term | row .term => Operation.multiplicative
  | tail .expression | row .expression => Operation.multiplicative ++ Operation.additive

theorem Part.operators_tail (l : Layer) :
    (Part.tail l).operators = l.operand.operators ++ l.operators := by
  cases l <;> rfl

theorem Part.operators_row (l : Layer) : (Part.row l).operators = (Part.tail l).operators := by
  cases l <;> rfl

/-! ## Derivations -/

/-- The trees that a part adds to the construct around it, and the lexemes that
they are read from. -/
inductive Derives : Part → List Tree → List Lexeme → Prop
  | number (digits : Text) (h : Text.IsNumeral digits) :
      Derives .primary [.leaf .number digits] [.number digits h]
  | group {e : Tree} {xs : List Lexeme} :
      Derives (.row .expression) [e] xs →
      Derives .primary [.branch .group [e]] (.openParen :: (xs ++ [.closeParen]))
  | call (f : Function) {e : Tree} {xs : List Lexeme} :
      Derives (.row .expression) [e] xs →
      Derives .primary [.branch .functionCall [.leaf .functionName f.name, e]]
        (.functionName f :: .openParen :: (xs ++ [.closeParen]))
  | plain {ts : List Tree} {xs : List Lexeme} :
      Derives .primary ts xs → Derives .unary ts xs
  | minus {ts : List Tree} {xs : List Lexeme} :
      Derives .primary ts xs →
      Derives .unary (.leaf .unaryMinus ['-'] :: ts) (.unaryMinus :: xs)
  | done (l : Layer) : Derives (.tail l) [] []
  | more {l : Layer} {op : Operation} {spelling : Text} {ts us : List Tree} {xs ys : List Lexeme}
      (hop : op ∈ l.operators) (hs : spelling ∈ op.spellings) :
      Derives l.operand ts xs → Derives (.tail l) us ys →
      Derives (.tail l) (.leaf (.operator op) spelling :: (ts ++ us))
        (.operator op spelling hs :: (xs ++ ys))
  | row {l : Layer} {ts us : List Tree} {xs ys : List Lexeme} :
      Derives l.operand ts xs → Derives (.tail l) us ys →
      Derives (.row l) [.branch l.rule (ts ++ us)] (xs ++ ys)

/-- A whole tree with the lexemes that it is read from. -/
def Tree.IsDerivation (t : Tree) (xs : List Lexeme) : Prop :=
  ∃ e, t = .branch .equation [e] ∧ Derives (.row .expression) [e] xs

/-! ## No two derivations -/

def Part.EndsAt (p : Part) (xs : List Lexeme) : Prop :=
  ∀ x rest, xs = x :: rest → ∀ op ∈ p.operators, x.label ≠ .operator op

theorem Part.endsAt_nil (p : Part) : p.EndsAt [] := by
  intro x rest h
  cases h

theorem Part.endsAt_cons {p : Part} {x : Lexeme} {xs : List Lexeme}
    (h : ∀ op ∈ p.operators, x.label ≠ .operator op) : p.EndsAt (x :: xs) := by
  intro y rest heq
  cases heq
  exact h

theorem Part.endsAt_closeParen (p : Part) (xs : List Lexeme) :
    p.EndsAt (.closeParen :: xs) :=
  endsAt_cons fun _ _ => by simp

theorem Derives.endsAt_operand {l : Layer} {ts : List Tree} {xs rest : List Lexeme}
    (h : Derives (.tail l) ts xs) (hrest : (Part.tail l).EndsAt rest) :
    l.operand.EndsAt (xs ++ rest) := by
  cases l with
  | term => exact fun _ _ _ op hop => absurd hop List.not_mem_nil
  | expression =>
    cases h with
    | done =>
      intro x more hxs op hop
      exact hrest x more hxs op (List.mem_append_left _ hop)
    | more hadd _ _ _ =>
      refine Part.endsAt_cons fun op' hmul heq => ?_
      obtain rfl := Label.operator.inj heq
      revert hadd hmul
      exact (by decide : ∀ op ∈ Operation.all, op ∈ Layer.expression.operators →
        op ∈ Layer.expression.operand.operators → False) _ (Operation.mem_all _)

theorem Derives.primary_head {ts : List Tree} {xs : List Lexeme} (h : Derives .primary ts xs) :
    ∃ x rest, xs = x :: rest ∧ x.label ≠ .unaryMinus := by
  cases h <;> exact ⟨_, _, rfl, by simp⟩

theorem Function.name_injective {f g : Function} (h : f.name = g.name) : f = g :=
  Option.some.inj ((Function.ofName?_name f).symm.trans (h ▸ Function.ofName?_name g))

/-- Whatever else can be read as the part from the beginning of the same row is
the same, provided that the part ends there. -/
def Part.Determines (p : Part) (ts : List Tree) (xs : List Lexeme) : Prop :=
  ∀ (us : List Tree) (ys rest rest' : List Lexeme), Derives p us ys → xs ++ rest = ys ++ rest' →
    p.EndsAt rest → p.EndsAt rest' → ts = us ∧ xs = ys ∧ rest = rest'

namespace Part

theorem determines_number {digits : Text} (h : Text.IsNumeral digits) :
    primary.Determines [.leaf .number digits] [.number digits h] := by
  intro us ys rest rest' h' heq _ _
  cases h' with
  | number digits' hdigits' =>
    obtain ⟨hx, hrest⟩ := List.cons.inj heq
    obtain rfl : digits = digits' := congrArg Lexeme.text hx
    exact ⟨rfl, rfl, hrest⟩
  | group _ | call _ _ => exact absurd (congrArg Lexeme.label (List.cons.inj heq).1) (by simp)

/-- What stands in parentheses is determined together with the closing one. -/
theorem Determines.closed {e e' : Tree} {xs ys rest rest' : List Lexeme}
    (h : (row .expression).Determines [e] xs) (h' : Derives (.row .expression) [e'] ys)
    (heq : xs ++ [.closeParen] ++ rest = ys ++ [.closeParen] ++ rest') :
    e = e' ∧ xs = ys ∧ rest = rest' := by
  rw [List.append_assoc, List.append_assoc] at heq
  obtain ⟨he, hxs, hrest⟩ := h _ _ _ _ h' heq (endsAt_closeParen _ _) (endsAt_closeParen _ _)
  exact ⟨(List.cons.inj he).1, hxs, (List.cons.inj hrest).2⟩

theorem determines_group {e : Tree} {xs : List Lexeme} (h : (row .expression).Determines [e] xs) :
    primary.Determines [.branch .group [e]] (.openParen :: (xs ++ [.closeParen])) := by
  intro us ys rest rest' h' heq _ _
  cases h' with
  | number _ _ | call _ _ => exact absurd (congrArg Lexeme.label (List.cons.inj heq).1) (by simp)
  | group hbody =>
    obtain ⟨rfl, rfl, hrest⟩ := h.closed hbody (List.cons.inj heq).2
    exact ⟨rfl, rfl, hrest⟩

theorem determines_call (f : Function) {e : Tree} {xs : List Lexeme}
    (h : (row .expression).Determines [e] xs) :
    primary.Determines [.branch .functionCall [.leaf .functionName f.name, e]]
      (.functionName f :: .openParen :: (xs ++ [.closeParen])) := by
  intro us ys rest rest' h' heq _ _
  cases h' with
  | number _ _ | group _ => exact absurd (congrArg Lexeme.label (List.cons.inj heq).1) (by simp)
  | call g hbody =>
    obtain ⟨hname, hmore⟩ := List.cons.inj heq
    obtain rfl := Function.name_injective (congrArg Lexeme.text hname)
    obtain ⟨rfl, rfl, hrest⟩ := h.closed hbody (List.cons.inj hmore).2
    exact ⟨rfl, rfl, hrest⟩

theorem determines_plain {ts : List Tree} {xs : List Lexeme} (hfirst : Derives .primary ts xs)
    (h : primary.Determines ts xs) : unary.Determines ts xs := by
  intro us ys rest rest' h' heq hends hends'
  cases h' with
  | plain hsecond => exact h _ _ _ _ hsecond heq hends hends'
  | minus _ =>
    obtain ⟨x, more, rfl, hx⟩ := hfirst.primary_head
    exact absurd (congrArg Lexeme.label (List.cons.inj heq).1) hx

theorem determines_minus {ts : List Tree} {xs : List Lexeme} (h : primary.Determines ts xs) :
    unary.Determines (.leaf .unaryMinus ['-'] :: ts) (.unaryMinus :: xs) := by
  intro us ys rest rest' h' heq hends hends'
  cases h' with
  | plain hsecond =>
    obtain ⟨x, more, rfl, hx⟩ := hsecond.primary_head
    exact absurd (congrArg Lexeme.label (List.cons.inj heq).1).symm hx
  | minus hsecond =>
    obtain ⟨rfl, rfl, hrest⟩ := h _ _ _ _ hsecond (List.cons.inj heq).2 hends hends'
    exact ⟨rfl, rfl, hrest⟩

/-- An operator of a layer carries a tail of that layer on. -/
theorem EndsAt.false_of_operator {l : Layer} {op : Operation} {spelling : Text}
    {xs : List Lexeme} (hop : op ∈ l.operators) (hs : spelling ∈ op.spellings)
    (h : (tail l).EndsAt (.operator op spelling hs :: xs)) : False := by
  refine h _ _ rfl op ?_ rfl
  rw [operators_tail]
  exact List.mem_append_right _ hop

theorem determines_done (l : Layer) : (tail l).Determines [] [] := by
  intro us ys rest rest' h' heq hends _
  cases h' with
  | done => exact ⟨rfl, rfl, heq⟩
  | more hop hs _ _ =>
    rw [List.nil_append] at heq
    exact (EndsAt.false_of_operator hop hs (heq ▸ hends)).elim

/-- An operand and the tail after it. -/
theorem Determines.append {l : Layer} {ts us ts' us' : List Tree}
    {xs ys xs' ys' rest rest' : List Lexeme} (hfirst : l.operand.Determines ts xs)
    (htail : (tail l).Determines us ys) (h : Derives (.tail l) us ys)
    (hfirst' : Derives l.operand ts' xs') (htail' : Derives (.tail l) us' ys')
    (heq : xs ++ ys ++ rest = xs' ++ ys' ++ rest') (hends : (tail l).EndsAt rest)
    (hends' : (tail l).EndsAt rest') :
    ts = ts' ∧ us = us' ∧ xs = xs' ∧ ys = ys' ∧ rest = rest' := by
  rw [List.append_assoc, List.append_assoc] at heq
  obtain ⟨hts, hxs, htails⟩ := hfirst _ _ _ _ hfirst' heq (h.endsAt_operand hends)
    (htail'.endsAt_operand hends')
  obtain ⟨hus, hys, hrest⟩ := htail _ _ _ _ htail' htails hends hends'
  exact ⟨hts, hus, hxs, hys, hrest⟩

theorem determines_more {l : Layer} {op : Operation} {spelling : Text} {ts us : List Tree}
    {xs ys : List Lexeme} (hop : op ∈ l.operators) (hs : spelling ∈ op.spellings)
    (hfirst : l.operand.Determines ts xs) (htail : (tail l).Determines us ys)
    (h : Derives (.tail l) us ys) :
    (tail l).Determines (.leaf (.operator op) spelling :: (ts ++ us))
      (.operator op spelling hs :: (xs ++ ys)) := by
  intro us' ys' rest rest' h' heq hends hends'
  cases h' with
  | done =>
    rw [List.nil_append] at heq
    exact (EndsAt.false_of_operator hop hs (heq.symm ▸ hends')).elim
  | more hop' hs' hfirst' htail' =>
    obtain ⟨hsign, hmore⟩ := List.cons.inj heq
    obtain rfl := Label.operator.inj (congrArg Lexeme.label hsign)
    obtain rfl : spelling = _ := congrArg Lexeme.text hsign
    obtain ⟨rfl, rfl, rfl, rfl, hrest⟩ :=
      hfirst.append htail h hfirst' htail' hmore hends hends'
    exact ⟨rfl, rfl, hrest⟩

theorem determines_row {l : Layer} {ts us : List Tree} {xs ys : List Lexeme}
    (hfirst : l.operand.Determines ts xs) (htail : (tail l).Determines us ys)
    (h : Derives (.tail l) us ys) :
    (row l).Determines [.branch l.rule (ts ++ us)] (xs ++ ys) := by
  intro us' ys' rest rest' h' heq hends hends'
  cases h' with
  | row hfirst' htail' =>
    have htails : (row l).EndsAt = (tail l).EndsAt := by
      unfold EndsAt
      rw [operators_row]
    rw [htails] at hends hends'
    obtain ⟨rfl, rfl, rfl, rfl, hrest⟩ := hfirst.append htail h hfirst' htail' heq hends hends'
    exact ⟨rfl, rfl, hrest⟩

end Part

/-- A part is read from the beginning of a row of lexemes in one way only. -/
theorem Derives.determines {p : Part} {ts : List Tree} {xs : List Lexeme} (h : Derives p ts xs) :
    p.Determines ts xs := by
  induction h with
  | number digits hdigits => exact Part.determines_number hdigits
  | group _ ih => exact Part.determines_group ih
  | call f _ ih => exact Part.determines_call f ih
  | plain h ih => exact Part.determines_plain h ih
  | minus _ ih => exact Part.determines_minus ih
  | done l => exact Part.determines_done l
  | more hop hs _ h ihfirst ihtail => exact Part.determines_more hop hs ihfirst ihtail h
  | row _ h ihfirst ihtail => exact Part.determines_row ihfirst ihtail h

theorem Tree.IsDerivation.unique {t u : Tree} {xs : List Lexeme} (ht : t.IsDerivation xs)
    (hu : u.IsDerivation xs) : t = u := by
  obtain ⟨e, rfl, he⟩ := ht
  obtain ⟨e', rfl, he'⟩ := hu
  obtain ⟨hes, _, _⟩ := he.determines _ _ [] [] he' rfl (Part.endsAt_nil _) (Part.endsAt_nil _)
  rw [hes]

end Reckon
