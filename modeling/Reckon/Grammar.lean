/-
The vocabulary of the expression language: its operations, its functions, the
constructs that a tree is made of and the kinds of token.

    equation   := expression end
    expression := term ((add | subtract) term)*
    term       := unary ((multiply | divide | exponent | modulo) unary)*
    unary      := minus? primary
    primary    := number | "(" expression ")" | name "(" expression ")"

Spellings and names are lists of characters, because they are matched against
the text of an expression.
-/
import Reckon.Text.Basic

namespace Reckon

/-! ## Operations -/

inductive Operation where
  | add | subtract | multiply | divide | exponent | modulo
  deriving DecidableEq, Repr

inductive Associativity where
  | left | right
  deriving DecidableEq, Repr

namespace Operation

def all : List Operation := [add, subtract, multiply, divide, exponent, modulo]

def name : Operation → String
  | add => "add"
  | subtract => "subtract"
  | multiply => "multiply"
  | divide => "divide"
  | exponent => "exponent"
  | modulo => "modulo"

def ofName? (s : String) : Option Operation :=
  all.find? fun op => op.name == s

def spellings : Operation → List Text
  | add => [['+']]
  | subtract => [['-']]
  | multiply => [['*']]
  | divide => [['/']]
  | exponent => [['^'], ['e', 'x', 'p']]
  | modulo => [['%'], ['m', 'o', 'd']]

/-- The operators of an expression, in the order in which they are tried. -/
def additive : List Operation := [add, subtract]

/-- The operators of a term, in the order in which they are tried. -/
def multiplicative : List Operation := [multiply, divide, exponent, modulo]

/-- How tightly an operator binds; a higher tier binds tighter.  The exponent
shares the tier of the multiplication. -/
def tier : Operation → Nat
  | add | subtract => 1
  | multiply | divide | exponent | modulo => 2

/-- All operators group to the left, the exponent too: `2 ^ 3 ^ 2` is
`(2 ^ 3) ^ 2`. -/
def associativity : Operation → Associativity
  | add | subtract | multiply | divide | exponent | modulo => .left

/-- The least tier that an operator may have inside the right operand of this
one. -/
def rightTier (op : Operation) : Nat :=
  match op.associativity with
  | .left => op.tier + 1
  | .right => op.tier

def loosestTier : Nat := 1

def minusTier : Nat := 3

theorem mem_all (op : Operation) : op ∈ all := by
  cases op <;> decide

theorem loosestTier_le (op : Operation) : loosestTier ≤ op.tier := by
  cases op <;> decide

theorem tier_lt_minusTier (op : Operation) : op.tier < minusTier := by
  cases op <;> decide

theorem tier_lt_rightTier (op : Operation) : op.tier < op.rightTier := by
  cases op <;> decide

theorem spellings_ne_nil {op : Operation} {s : Text} (h : s ∈ op.spellings) : s ≠ [] := by
  rintro rfl
  revert h
  cases op <;> decide

end Operation

/-! ## Functions -/

inductive Function where
  | sin | cos | tan | asin | acos | atan
  | sinh | cosh | tanh | asinh | acosh | atanh
  deriving DecidableEq, Repr

namespace Function

def name : Function → Text
  | sin => ['s', 'i', 'n']
  | cos => ['c', 'o', 's']
  | tan => ['t', 'a', 'n']
  | asin => ['a', 's', 'i', 'n']
  | acos => ['a', 'c', 'o', 's']
  | atan => ['a', 't', 'a', 'n']
  | sinh => ['s', 'i', 'n', 'h']
  | cosh => ['c', 'o', 's', 'h']
  | tanh => ['t', 'a', 'n', 'h']
  | asinh => ['a', 's', 'i', 'n', 'h']
  | acosh => ['a', 'c', 'o', 's', 'h']
  | atanh => ['a', 't', 'a', 'n', 'h']

/-- The functions in the order in which their names are tried.  A longer name
comes before a shorter one, so that `sinh` is never read as `sin` followed by a
stray letter. -/
def all : List Function :=
  [asinh, acosh, atanh, asin, acos, atan, sinh, cosh, tanh, sin, cos, tan]

def ofName? (s : Text) : Option Function :=
  all.find? fun f => f.name == s

theorem mem_all (f : Function) : f ∈ all := by
  cases f <;> decide

theorem all_pairwise_length : all.Pairwise fun f g => g.name.length ≤ f.name.length := by
  decide

theorem ofName?_name (f : Function) : ofName? f.name = some f := by
  cases f <;> rfl

theorem name_of_ofName? {s : Text} {f : Function} (h : ofName? s = some f) : f.name = s := by
  simpa using List.find?_some h

end Function

/-! ## Rules -/

inductive Rule where
  | equation | expression | term | number | group | functionCall | functionName
  | operator (op : Operation)
  | unaryMinus
  | endOfInput
  deriving DecidableEq, Repr

namespace Rule

def all : List Rule :=
  [equation, expression, term, number, group, functionCall, functionName] ++
    Operation.all.map operator ++ [unaryMinus, endOfInput]

def name : Rule → String
  | equation => "equation"
  | expression => "expression"
  | term => "term"
  | number => "number"
  | group => "group"
  | functionCall => "function_call"
  | functionName => "function_name"
  | operator op => op.name
  | unaryMinus => "unary_minus"
  | endOfInput => "EOI"

def ofName? (s : String) : Option Rule :=
  all.find? fun r => r.name == s

def operation? : Rule → Option Operation
  | operator op => some op
  | _ => none

theorem mem_all (r : Rule) : r ∈ all := by
  cases r with
  | operator op => cases op <;> decide
  | _ => decide

end Rule

/-! ## Kinds of token -/

/-- What may stand at some place of a text: a kind of token, or the end. -/
inductive Label where
  | number | functionName | unaryMinus | openParen | closeParen
  | operator (op : Operation)
  | endOfInput
  deriving DecidableEq, Repr

namespace Label

/-- Parentheses are quoted, because all other labels are words. -/
def text : Label → String
  | number => Rule.number.name
  | functionName => Rule.functionName.name
  | unaryMinus => Rule.unaryMinus.name
  | openParen => "\"(\""
  | closeParen => "\")\""
  | operator op => op.name
  | endOfInput => Rule.endOfInput.name

/-- All labels in the order of their texts. -/
def all : List Label :=
  [openParen, closeParen, endOfInput, operator .add, operator .divide, operator .exponent,
    functionName, operator .modulo, operator .multiply, number, operator .subtract, unaryMinus]

theorem mem_all (l : Label) : l ∈ all := by
  cases l with
  | operator op => cases op <;> decide
  | _ => decide

end Label
end Reckon
