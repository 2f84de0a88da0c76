import EventConditions.Combination
import EventConditions.IndexSet
import EventConditions.Simple
import EventConditions.Table

/-!
# Nodes

A node is one condition of a graph of `n` conditions. Until it is resolved it has a name and an
index and nothing else; once resolved it has a rule, the matchers that can influence it, and a
state. That a node without a rule is unknown and uses no matcher is built into the type.
-/

namespace EventConditions

/-- How a resolved condition gets its state. -/
inductive Rule (n : Nat) where
  /-- From the verdicts of matchers. -/
  | simple (s : Simple)
  /-- From the states of other conditions. -/
  | combination (c : Combination (Fin n))

/-- The conditions a rule reads. -/
def Rule.children {n : Nat} : Rule n → List (Fin n)
  | .simple _ => []
  | .combination c => c.children

/-- What resolving a condition gives. -/
structure Resolved (n : Nat) where
  rule : Rule n
  /-- The matchers that the condition, or any condition it depends on, reads. -/
  used : IndexSet
  /-- The state as of the last event. -/
  aggregate : State

/-- One condition of a graph. -/
structure Node (n : Nat) where
  name : String
  /-- The position the node was made for. -/
  index : Nat
  /-- Changes of its slices are to be reported. -/
  sliced : Bool := false
  resolved? : Option (Resolved n) := none

namespace Node

variable {n : Nat}

/-- The node is resolved. -/
def isResolved (node : Node n) : Bool :=
  node.resolved?.isSome

/-- The state as of the last event; unknown before the node is resolved. -/
def aggregate (node : Node n) : State :=
  match node.resolved? with
  | some r => r.aggregate
  | none => .unknown

/-- The matchers that can influence the node; none before it is resolved. -/
def used (node : Node n) : IndexSet :=
  match node.resolved? with
  | some r => r.used
  | none => {}

/-- The conditions the node reads; none before it is resolved. -/
def children (node : Node n) : List (Fin n) :=
  match node.resolved? with
  | some r => r.rule.children
  | none => []

/-- Asks for slice reports. Asking for none takes nothing back. -/
def setSliced (node : Node n) (on : Bool) : Node n :=
  { node with sliced := node.sliced || on }

/-- Drops what resolving gave. -/
def reset (node : Node n) : Node n :=
  { node with resolved? := none }

end Node

end EventConditions
