/-!
# States and verdicts

A condition is in one of three states, a matcher gives one of three verdicts. In both the first
value means that nothing is known yet: for a condition "not enough history to decide", for a verdict
"not computed for this event". The two types stay apart, because an unknown state spreads through
combinations while a verdict that is not `matched` is simply not a match.
-/

namespace EventConditions

/-- The state of a condition as of the last event it saw. `unknown` differs from `fails`: the
history does not decide yet. -/
inductive State where
  | unknown
  | fails
  | holds
  deriving DecidableEq, Inhabited

namespace State

/-- A decided state. -/
def ofBool (b : Bool) : State :=
  if b then .holds else .fails

/-- What the state decides, if it decides anything. -/
def toBool? : State → Option Bool
  | .unknown => none
  | .fails => some false
  | .holds => some true

/-- The condition is known to hold. -/
def isHolds (s : State) : Bool :=
  s == .holds

/-- The history does not decide the condition. -/
def isUnknown (s : State) : Bool :=
  s == .unknown

/-- The opposite state: `holds` and `fails` change places, `unknown` stays. -/
def negate : State → State
  | .unknown => .unknown
  | .fails => .holds
  | .holds => .fails

/-- The state in words. -/
def text : State → String
  | .unknown => "unknown"
  | .fails => "false"
  | .holds => "true"

@[simp] theorem toBool?_ofBool (b : Bool) : (ofBool b).toBool? = some b := by
  cases b <;> rfl

@[simp] theorem ofBool_ne_unknown (b : Bool) : ofBool b ≠ .unknown := by
  cases b <;> decide

@[simp] theorem ofBool_eq_holds {b : Bool} : ofBool b = .holds ↔ b = true := by
  cases b <;> decide

@[simp] theorem ofBool_eq_fails {b : Bool} : ofBool b = .fails ↔ b = false := by
  cases b <;> decide

end State

/-- What one matcher says about one event. -/
inductive Verdict where
  /-- Not computed for this event. -/
  | unknown
  | notMatched
  | matched
  deriving DecidableEq, Inhabited

namespace Verdict

/-- A computed verdict. -/
def ofBool (b : Bool) : Verdict :=
  if b then .matched else .notMatched

/-- Only `matched` counts as a match. -/
def isMatched (v : Verdict) : Bool :=
  v == .matched

/-- The verdict in words. -/
def text : Verdict → String
  | .unknown => "unknown"
  | .notMatched => "not-matched"
  | .matched => "matched"

@[simp] theorem isMatched_ofBool (b : Bool) : (ofBool b).isMatched = b := by
  cases b <;> rfl

end Verdict

end EventConditions
