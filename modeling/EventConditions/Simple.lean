import EventConditions.Condition
import EventConditions.Error
import EventConditions.Event
import EventConditions.Log
import EventConditions.Slices
import EventConditions.State

/-!
# Simple conditions

A simple condition reads the verdicts of up to three matchers. What an event asks of it is a
`Request`; serving a request may change the slices it holds. The matcher that stops all slices is
asked first, and a stop goes before a start on the same event. The condition holds while it holds
any slice.
-/

namespace EventConditions

/-- A simple condition with its matchers given by index, and the slices it holds. -/
structure Simple where
  start : Option Nat := none
  stop : Option Nat := none
  stopAll : Option Nat := none
  countNesting : Bool := true
  dimensions : List FieldId := []
  initial : Initial := .unknown
  /-- How many slices may be held at once. -/
  maxSlices : Nat := 800
  slices : Slices := {}

/-- What an event asks of a simple condition. -/
inductive Request where
  /-- None of its matchers matched. -/
  | nothing
  /-- A start or stop, but the event does not say of which slice. -/
  | sliceless
  | start (key : Key)
  | stop (key : Key)
  | stopAll
  deriving DecidableEq

/-- What an event did to a simple condition. -/
structure Outcome where
  /-- The state it is in now, if the event had any effect on it. -/
  state : Option State := none
  /-- Some slice came to be held or stopped being held. -/
  slicesMoved : Bool := false
  deriving DecidableEq

/-- Whether the matcher at an index matched; without a matcher nothing does. -/
def matchedAt (verdicts : Array Verdict) : Option Nat → Except Fault Bool
  | none => .ok false
  | some i => do
    let verdict ← readAt verdicts i
    return verdict.isMatched

namespace Simple

/-- The indices of its matchers: start, stop, and stop of all slices. -/
def matchers (s : Simple) : List Nat :=
  [s.start, s.stop, s.stopAll].filterMap id

theorem mem_matchers {s : Simple} {m : Nat} :
    m ∈ s.matchers ↔ s.start = some m ∨ s.stop = some m ∨ s.stopAll = some m := by
  simp [matchers, eq_comm]

/-- The state that the held slices stand for. -/
def aggregate (s : Simple) : State :=
  .ofBool !s.slices.isEmpty

/-- What an event asks, given the verdicts on it. -/
def request (s : Simple) (e : Event) (verdicts : Array Verdict) : Except Fault Request := do
  let stopAll ← matchedAt verdicts s.stopAll
  if stopAll then
    return .stopAll
  let start ← matchedAt verdicts s.start
  let stop ← matchedAt verdicts s.stop
  if !start && !stop then
    return .nothing
  match e.key? s.dimensions with
  | none => return .sliceless
  | some key => return if stop then .stop key else .start key

/-- Does what is asked. -/
def serve (s : Simple) : Request → Simple × Outcome
  | .nothing => (s, {})
  | .sliceless => (s, {})
  | .start key =>
    let (slices, moved) := s.slices.start s.countNesting s.maxSlices key
    let s := { s with slices }
    (s, { state := some s.aggregate, slicesMoved := moved })
  | .stop key =>
    let (slices, moved) := s.slices.stop s.countNesting key
    let s := { s with slices }
    (s, { state := some s.aggregate, slicesMoved := moved })
  | .stopAll =>
    ({ s with slices := {} }, { state := some .fails, slicesMoved := !s.slices.isEmpty })

/-- What is logged about a request before it is served, for a condition of the given name. -/
def remarks (s : Simple) (name : String) (e : Event) : Request → List Record
  | .nothing => []
  | .sliceless =>
    let fields := "[" ++ String.intercalate ", " (s.dimensions.map fun f => toString f.toNat) ++ "]"
    [⟨.debug, s!"condition {name}: event tag {e.tag} lacks dimension fields {fields}"⟩]
  | .start key =>
    if s.slices.drops s.maxSlices key then
      [⟨.warn, s!"condition {name}: slice limit {s.maxSlices} reached, dropping {key.text}"⟩]
    else []
  | .stop _ => []
  | .stopAll => [⟨.trace, s!"condition {name}: stop-all"⟩]

/-- The state for one slice. Without dimensions, or with a key that does not name a slice, it is the
given aggregate; a slice that is not held fails once the aggregate is known. -/
def query (s : Simple) (key : Option Key) (aggregate : State) : State :=
  if s.dimensions.isEmpty then aggregate
  else
    match key.bind (·.project s.dimensions) with
    | none => aggregate
    | some slice =>
      if 0 < s.slices.count slice then .holds
      else if aggregate.isUnknown then .unknown
      else .fails

end Simple

end EventConditions
