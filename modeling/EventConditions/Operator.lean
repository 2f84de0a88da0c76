import EventConditions.State

/-!
# Operators on states

An operator joins the states of child conditions into one. A single scan over the children serves
all five operators: it stops at the first unknown child, which makes the result unknown, and
otherwise remembers which decided states it met and what came first. `combine` reads the operator's
answer off that tally.
-/

namespace EventConditions

/-- The operator of a combined condition. -/
inductive Operator where
  /-- All children hold. -/
  | and
  /-- Some child holds. -/
  | or
  /-- The only child fails. -/
  | not
  /-- Some child fails. -/
  | nand
  /-- No child holds. -/
  | nor
  deriving DecidableEq

namespace Operator

/-- The operator's name in messages. -/
def text : Operator → String
  | .and => "AND"
  | .or => "OR"
  | .not => "NOT"
  | .nand => "NAND"
  | .nor => "NOR"

end Operator

/-- What a scan over decided children has met so far. -/
structure Tally where
  /-- Some child holds. -/
  anyHolds : Bool := false
  /-- Some child fails. -/
  anyFails : Bool := false
  /-- The first child, once there is one. -/
  first : Option State := none

namespace Tally

/-- Takes one more decided child into account. -/
def add (t : Tally) (s : State) : Tally where
  anyHolds := t.anyHolds || s == .holds
  anyFails := t.anyFails || s == .fails
  first := t.first <|> some s

/-- Scans the children in order; nothing is left to tally once a child is unknown. -/
def scan (t : Tally) : List State → Option Tally
  | [] => some t
  | s :: rest => if s = .unknown then none else (t.add s).scan rest

/-- The operator's answer over the scanned children. -/
def answer (t : Tally) : Operator → Bool
  | .and => !t.anyFails
  | .or => t.anyHolds
  | .not => t.first == some .fails
  | .nand => t.anyFails
  | .nor => !t.anyHolds

end Tally

/-- Applies an operator to the states of the children. An unknown child makes the result unknown;
`not` looks at the first child only. -/
def combine (op : Operator) (children : List State) : State :=
  match Tally.scan {} children with
  | none => .unknown
  | some tally => State.ofBool (tally.answer op)

end EventConditions
