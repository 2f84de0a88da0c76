import EventConditions.Operator
import EventConditions.Value

/-!
# Conditions as they are configured

A condition has a name and says how it is driven: by matchers, or by other conditions. Matchers and
other conditions are given by name here; resolving a configuration turns the names into indices.
-/

namespace EventConditions

/-- The state a simple condition starts in. It never starts out holding. -/
inductive Initial where
  /-- Nothing is known until the first event that starts or stops the condition. -/
  | unknown
  | fails
  deriving DecidableEq

/-- The state before any event. -/
def Initial.state : Initial → State
  | .unknown => .unknown
  | .fails => .fails

/-- A condition that matchers start and stop. -/
structure SimpleSpec where
  /-- The matcher that starts it for the event's slice. -/
  start : Option String := none
  /-- The matcher that stops it for the event's slice. -/
  stop : Option String := none
  /-- The matcher that stops it for all slices. -/
  stopAll : Option String := none
  /-- Whether a slice started several times takes as many stops. -/
  countNesting : Bool := true
  /-- The event fields whose values make up the slice. -/
  dimensions : List FieldId := []
  initial : Initial := .unknown
  deriving DecidableEq

/-- How a condition is driven. -/
inductive Spec where
  | simple (spec : SimpleSpec)
  | combination (operator : Operator) (children : List String)
  deriving DecidableEq

/-- A named condition. -/
structure Condition where
  name : String
  spec : Spec
  deriving DecidableEq

/-- What is wrong with a condition on its own, whatever the others are. -/
inductive Defect where
  /-- A simple condition that nothing can decide. -/
  | neverDecided
  /-- A combination of nothing. -/
  | childless (operator : Operator)
  /-- The opposite of several conditions at once. -/
  | notUnary (children : Nat)

/-- The defect in words. -/
def Defect.message : Defect → String
  | .neverDecided => "needs a start or stop_all matcher"
  | .childless operator => s!"{operator.text} needs at least one child"
  | .notUnary children => s!"NOT takes exactly one child, got {children}"

/-- A simple condition needs a matcher that can decide it, a combination needs children, and `not`
takes exactly one. -/
def Spec.defect? : Spec → Option Defect
  | .simple spec => if spec.start.isNone && spec.stopAll.isNone then some .neverDecided else none
  | .combination operator children =>
    if children.isEmpty then some (.childless operator)
    else if operator = .not ∧ children.length ≠ 1 then some (.notUnary children.length)
    else none

end EventConditions
