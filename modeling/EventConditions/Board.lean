import EventConditions.State

/-!
# Boards

A board shows the state of every condition of a graph, and which of them the latest pass changed. It
is kept apart from the graph; states stay on it from one pass to the next, flags do not.
-/

namespace EventConditions

/-- What a board shows of one condition. -/
structure Cell where
  state : State := .unknown
  /-- The latest pass changed the state. -/
  changed : Bool := false
  /-- The latest pass changed the state or moved a slice, and slice reports are wanted. -/
  sliceChanged : Bool := false
  deriving DecidableEq

/-- One cell per condition, in index order. -/
structure Board where
  cells : Array Cell := #[]
  deriving DecidableEq

namespace Board

/-- A board of unknown states. -/
def blank (size : Nat) : Board :=
  ⟨Array.replicate size {}⟩

/-- The number of cells. -/
def size (b : Board) : Nat :=
  b.cells.size

/-- The latest pass changed some state. -/
def anyChanged (b : Board) : Bool :=
  b.cells.toList.any Cell.changed

/-- The conditions whose state the latest pass changed, in index order. -/
def changedIndices (b : Board) : List Nat :=
  (List.range b.size).filter fun i => (b.cells[i]?.getD {}).changed

end Board

end EventConditions
