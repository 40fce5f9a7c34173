/-
Reading an expression.

Each construct of the grammar is a reader.  Only a parenthesis leads from an
operand back to a whole expression, so the readers take the reader for what
stands in parentheses as an argument, and `expression` is that reader for a
given number of further levels.  With no level left there is no such reader and
an opening parenthesis ends the reading.

An alternative that has begun is never retried in another way.  Where one does
not lead to the end, the cursor goes back to where it began and the misses are
kept.
-/
import Reckon.Reading.Token

namespace Reckon
namespace Reading

def enclosed (inner : Option (Reader Node)) (rule : Rule) (start : Cursor) (before : List Node)
    (c : Cursor) : Reading Node :=
  match inner with
  | none => tooDeep start.pos c
  | some inner =>
    (inner.read c).andThen
      (fun body next =>
        (Token.fixed [')'] .closeParen next).andThen
          (fun _ stop => found (start.node rule stop (before ++ [body])) stop)
          (fun _ => missing start))
      (fun _ => missing start)

def functionCall (inner : Option (Reader Node)) (c : Cursor) : Reading Node :=
  let start := c.skipBlanks
  (Token.functionName start).andThen
    (fun name next =>
      (Token.fixed ['('] .openParen next).andThen
        (fun _ next => enclosed inner .functionCall start [name] next)
        (fun _ => missing start))
    missing

def primary (inner : Option (Reader Node)) (c : Cursor) : Reading Node :=
  let start := c.skipBlanks
  (Token.number start).andThen found fun _ =>
    (Token.fixed ['('] .openParen start).andThen
      (fun _ next => enclosed inner .group start [] next)
      (fun _ => functionCall inner start)

/-- One operand with the minus sign before it, if there is one, as the nodes
that it adds to its term. -/
def unary (inner : Option (Reader Node)) (c : Cursor) : Reading (List Node) :=
  (Token.fixed ['-'] .unaryMinus c).andThen
    (fun start next =>
      (primary inner next).andThen
        (fun operand stop => found [start.node .unaryMinus next [], operand] stop)
        (fun _ => missing c))
    (fun next =>
      (primary inner next).andThen
        (fun operand stop => found [operand] stop)
        (fun _ => missing c))

/-! ## Progress -/

theorem leaves_enclosed (inner : Option (Reader Node)) (rule : Rule) (start : Cursor)
    (before : List Node) (c : Cursor) :
    (enclosed inner rule start before c).Leaves c.rest.length := by
  unfold enclosed
  split
  · exact leaves_tooDeep _ _ _
  · next inner =>
    refine leaves_andThen (fun body next h => ?_) (fun _ => leaves_missing _ _)
    have hbody := inner.progress c body next h
    refine leaves_andThen (fun _ stop hstop => leaves_found ?_) (fun _ => leaves_missing _ _)
    exact Nat.lt_trans (Token.leaves_fixed (by decide) _ _ _ _ hstop) hbody

theorem leaves_functionCall (inner : Option (Reader Node)) (c : Cursor) :
    (functionCall inner c).Leaves c.rest.length := by
  refine leaves_andThen (fun name next h => ?_) (fun _ => leaves_missing _ _)
  have hname := Nat.lt_of_lt_of_le (Token.leaves_functionName _ _ _ h) c.length_rest_skipBlanks_le
  refine leaves_andThen (fun _ stop hstop => ?_) (fun _ => leaves_missing _ _)
  have hopen := Token.leaves_fixed (by decide) _ _ _ _ hstop
  exact (leaves_enclosed _ _ _ _ _).mono (by omega)

theorem leaves_primary (inner : Option (Reader Node)) (c : Cursor) :
    (primary inner c).Leaves c.rest.length := by
  have hskip := c.length_rest_skipBlanks_le
  refine leaves_andThen (fun operand stop h => leaves_found ?_) (fun _ => ?_)
  · exact Nat.lt_of_lt_of_le (Token.leaves_number _ _ _ h) hskip
  · refine leaves_andThen (fun _ stop hstop => ?_) (fun _ => ?_)
    · have hopen := Token.leaves_fixed (by decide) _ _ _ _ hstop
      exact (leaves_enclosed _ _ _ _ _).mono (by omega)
    · exact (leaves_functionCall _ _).mono hskip

theorem length_le_of_missing_fixed {spelling : Text} {label : Label} {c next : Cursor}
    (h : (Token.fixed spelling label c).outcome = .missing next) :
    next.rest.length ≤ c.rest.length := by
  unfold Token.fixed at h
  dsimp only at h
  split at h
  · cases h
  · cases h
    exact c.length_rest_skipBlanks_le

theorem leaves_unary (inner : Option (Reader Node)) (c : Cursor) :
    (unary inner c).Leaves c.rest.length := by
  unfold unary andThen
  split
  · next start next h =>
    refine Leaves.after (leaves_andThen (fun operand stop hstop => leaves_found ?_)
      (fun _ => leaves_missing _ _)) _
    have hminus := Token.leaves_fixed (by decide) _ _ _ _ h
    exact Nat.lt_trans (leaves_primary _ _ _ _ hstop) hminus
  · next next h =>
    refine Leaves.after (leaves_andThen (fun operand stop hstop => leaves_found ?_)
      (fun _ => leaves_missing _ _)) _
    exact Nat.lt_of_lt_of_le (leaves_primary _ _ _ _ hstop) (length_le_of_missing_fixed h)
  · exact (leaves_tooDeep _ _ _).after _

/-! ## Sequences of operands -/

/-- The operators and operands that follow an operand.  An operator without an
operand after it is left where it is. -/
def tail (operand : Reader (List Node)) (ops : List Operation) (c : Cursor) :
    Reading (List Node) :=
  let sign := Token.operator ops c
  match hsign : sign.outcome with
  | .found op next =>
    have := Token.leaves_operator ops c op next hsign
    let right := operand.read next
    match hright : right.outcome with
    | .found nodes stop =>
      have := operand.progress next nodes stop hright
      ((tail operand ops stop).map fun more => op :: nodes ++ more).after
        (sign.misses ++ right.misses)
    | .missing _ => (found [] c).after (sign.misses ++ right.misses)
    | .tooDeep start next => (tooDeep start next).after (sign.misses ++ right.misses)
  | .missing _ => (found [] c).after sign.misses
  | .tooDeep start next => (tooDeep start next).after sign.misses
termination_by c.rest.length

theorem tail_eq (operand : Reader (List Node)) (ops : List Operation) (c : Cursor) :
    tail operand ops c =
      (Token.operator ops c).andThen
        (fun op next =>
          (operand.read next).andThen
            (fun nodes stop => (tail operand ops stop).map fun more => op :: nodes ++ more)
            (fun _ => found [] c))
        (fun _ => found [] c) := by
  rw [tail]
  dsimp only
  split
  · next op next hsign =>
    split
    · next nodes stop hright => simp [andThen, after, hsign, hright]
    · next hright => simp [andThen, after, hsign, hright]
    · next hright => simp [andThen, after, hsign, hright]
  · next hsign => simp [andThen, hsign]
  · next hsign => simp [andThen, hsign]

def sequence (rule : Rule) (operand : Reader (List Node)) (ops : List Operation) (c : Cursor) :
    Reading Node :=
  let start := c.skipBlanks
  (operand.read start).andThen
    (fun nodes next =>
      (tail operand ops next).andThen
        (fun more stop => found (start.node rule stop (nodes ++ more)) stop)
        missing)
    missing

theorem leaves_tail (operand : Reader (List Node)) (ops : List Operation) (c : Cursor) :
    (tail operand ops c).Leaves (c.rest.length + 1) := by
  rw [tail_eq]
  refine leaves_andThen (fun op next hop => ?_) (fun _ => leaves_found (by omega))
  refine leaves_andThen (fun nodes stop hnodes => ?_) (fun _ => leaves_found (by omega))
  have hsign := Token.leaves_operator ops c _ _ hop
  have hright := operand.progress _ _ _ hnodes
  exact ((leaves_tail operand ops stop).map _).mono (by omega)
termination_by c.rest.length

theorem leaves_sequence (rule : Rule) (operand : Reader (List Node)) (ops : List Operation)
    (c : Cursor) : (sequence rule operand ops c).Leaves c.rest.length := by
  have hskip := c.length_rest_skipBlanks_le
  refine leaves_andThen (fun nodes next hnodes => ?_) (fun _ => leaves_missing _ _)
  have hfirst := operand.progress _ _ _ hnodes
  refine leaves_andThen (fun more stop hmore => leaves_found ?_) (fun _ => leaves_missing _ _)
  have := leaves_tail operand ops next _ _ hmore
  omega

end Reading

namespace Reader

open Reading

def unary (inner : Option (Reader Node)) : Reader (List Node) where
  read := Reading.unary inner
  progress := leaves_unary inner

def term (inner : Option (Reader Node)) : Reader Node where
  read := sequence .term (unary inner) Operation.multiplicative
  progress := leaves_sequence _ _ _

def termAlone (inner : Option (Reader Node)) : Reader (List Node) where
  read c := ((term inner).read c).map fun node => [node]
  progress c := ((term inner).progress c).map _

def expressionOver (inner : Option (Reader Node)) : Reader Node where
  read := sequence .expression (termAlone inner) Operation.additive
  progress := leaves_sequence _ _ _

/-- An expression with parentheses nested at most `room` levels deep. -/
def expression : Nat → Reader Node
  | 0 => expressionOver none
  | room + 1 =>
    { read := fun c => (expressionOver (some (expression room))).read c
      progress := fun c => (expressionOver (some (expression room))).progress c }

@[simp] theorem expression_zero : expression 0 = expressionOver none := rfl

@[simp] theorem expression_succ (room : Nat) :
    expression (room + 1) = expressionOver (some (expression room)) := rfl

end Reader
end Reckon
