/-
What was looked for and not found.

A reader that fails somewhere has usually failed at many places before, because
it tries one alternative after another and starts again further back.  The
place worth reporting is the furthest one, with all that was looked for there.
A frontier keeps just that, and recording a miss is a join: neither the order
nor the repetition of misses changes what a frontier holds.
-/
import Reckon.Grammar

namespace Reckon

structure Miss where
  pos : Nat
  label : Label
  deriving DecidableEq, Repr

structure Frontier where
  furthest : Nat
  /-- What was looked for there, each label once. -/
  expected : List Label
  deriving DecidableEq, Repr

namespace Frontier

def empty : Frontier := { furthest := 0, expected := [] }

def record (f : Frontier) (m : Miss) : Frontier :=
  if f.furthest < m.pos then { furthest := m.pos, expected := [m.label] }
  else if m.pos = f.furthest then { f with expected := f.expected.insert m.label }
  else f

def recordAll (f : Frontier) (ms : List Miss) : Frontier :=
  ms.foldl record f

/-- The labels looked for, in the order of their texts. -/
def labels (f : Frontier) : List Label :=
  Label.all.filter fun l => decide (l ∈ f.expected)

@[simp] theorem recordAll_nil (f : Frontier) : f.recordAll [] = f := rfl

@[simp] theorem recordAll_cons (f : Frontier) (m : Miss) (ms : List Miss) :
    f.recordAll (m :: ms) = (f.record m).recordAll ms := rfl

theorem recordAll_append (f : Frontier) (ms ns : List Miss) :
    f.recordAll (ms ++ ns) = (f.recordAll ms).recordAll ns :=
  List.foldl_append

theorem mem_labels {f : Frontier} {l : Label} : l ∈ f.labels ↔ l ∈ f.expected := by
  simp [labels, Label.mem_all]

end Frontier
end Reckon
