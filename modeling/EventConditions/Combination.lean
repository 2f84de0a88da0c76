import EventConditions.Error
import EventConditions.Operator

/-!
# Combinations

A combination joins the states of its children. How a child is addressed is left open: inside a
graph children are valid indices, and the states can simply be looked up; outside one an index may
point nowhere, and then only a child that is really read is missed.
-/

namespace EventConditions

/-- A combination of children addressed by `ι`. -/
structure Combination (ι : Type) where
  operator : Operator
  children : List ι

namespace Combination

variable {ι : Type}

/-- The state of the combination, given the state of every child. -/
def evaluate (c : Combination ι) (state : ι → State) : State :=
  combine c.operator (c.children.map state)

/-- Reads states in order, and no further than the first unknown one. -/
def readUntilUnknown (read : ι → Except Fault State) : List ι → Except Fault (List State)
  | [] => .ok []
  | child :: rest => do
    let state ← read child
    if state = .unknown then
      return [state]
    let states ← readUntilUnknown read rest
    return state :: states

/-- The state of the combination, where reading a child's state may be a fault. -/
def evaluateReading (c : Combination ι) (read : ι → Except Fault State) : Except Fault State := do
  let states ← readUntilUnknown read c.children
  return combine c.operator states

end Combination

end EventConditions
