/-!
# Errors and faults

An `Error` is what is wrong with a configuration or its file: a cause, and where in the
configuration it was met. A `Fault` is a broken contract between a caller and the library, such as a
board that was made for another graph; no configuration leads to one by itself.
-/

namespace EventConditions

/-- What is wrong. -/
inductive Cause where
  /-- A condition is named that does not exist. -/
  | unknownCondition (name : String)
  /-- A matcher is named that does not exist. -/
  | unknownMatcher (name : String)
  /-- A condition depends on itself. -/
  | dependencyCycle (condition : String)
  /-- Two conditions share a name, or a condition's name and index do not belong together. -/
  | duplicateCondition (name : String)
  /-- Two matchers share a name. -/
  | duplicateMatcher (name : String)
  /-- A condition is malformed. -/
  | invalidCondition (condition reason : String)
  /-- A list does not have one entry per condition. -/
  | sizeMismatch (expected actual : Nat)
  /-- There are more matchers than the limit allows. -/
  | tooManyMatchers (limit actual : Nat)
  /-- There are more conditions than the limit allows. -/
  | tooManyConditions (limit actual : Nat)
  /-- Stored bytes do not hold a configuration. -/
  | undecodable (detail : String)
  /-- A file cannot be written or read. -/
  | storage (detail : String)
  /-- Parts that are built together do not fit together. -/
  | inconsistent (detail : String)
  deriving DecidableEq

/-- The cause in words. -/
def Cause.message : Cause → String
  | .unknownCondition name => s!"unknown condition: {name}"
  | .unknownMatcher name => s!"unknown matcher: {name}"
  | .dependencyCycle condition => s!"dependency cycle detected at condition {condition}"
  | .duplicateCondition name => s!"duplicate condition: {name}"
  | .duplicateMatcher name => s!"duplicate matcher: {name}"
  | .invalidCondition condition reason => s!"invalid condition {condition}: {reason}"
  | .sizeMismatch expected actual =>
    s!"descriptor mismatch: expected {expected} entries, got {actual}"
  | .tooManyMatchers limit actual => s!"limit exceeded: max matchers ({limit}) exceeded: {actual}"
  | .tooManyConditions limit actual =>
    s!"limit exceeded: max conditions ({limit}) exceeded: {actual}"
  | .undecodable detail => s!"serialization error: {detail}"
  | .storage detail => s!"I/O error: {detail}"
  | .inconsistent detail => s!"internal error: {detail}"

/-- Where an error was met. -/
structure Origin where
  /-- The configuration or file. -/
  source : Option String := none
  /-- The conditions through which the error was reached, innermost first. -/
  frames : List String := []
  deriving DecidableEq

/-- The source, if known, and one line per frame. -/
def Origin.text (o : Origin) : String :=
  let head := match o.source with
    | some source => s!"in {source}"
    | none => ""
  let lines := o.frames.map fun frame => s!"  via {frame}\n"
  if o.frames.isEmpty then head else head ++ "\n" ++ String.join lines

/-- A cause and, if anything is known about it, where it was met. -/
structure Error where
  cause : Cause
  origin : Option Origin := none
  deriving DecidableEq

namespace Error

/-- Adds the next frame on the way out. -/
def via (e : Error) (frame : String) : Error :=
  let o := e.origin.getD {}
  { e with origin := some { o with frames := o.frames ++ [frame] } }

/-- Replaces what is known about where the error was met. -/
def placedAt (e : Error) (origin : Origin) : Error :=
  { e with origin := some origin }

/-- The cause in words; the origin is told apart. -/
def message (e : Error) : String :=
  e.cause.message

/-- The error reports a dependency cycle. -/
def isCycle (e : Error) : Bool :=
  match e.cause with
  | .dependencyCycle _ => true
  | _ => false

/-- The frames of the error, innermost first. -/
def frames (e : Error) : List String :=
  (e.origin.getD {}).frames

@[simp] theorem frames_via (e : Error) (frame : String) :
    (e.via frame).frames = e.frames ++ [frame] := rfl

@[simp] theorem cause_via (e : Error) (frame : String) : (e.via frame).cause = e.cause := rfl

end Error

/-- A broken contract between a caller and the library. -/
inductive Fault where
  /-- An index points outside the list it belongs to. -/
  | outOfBounds
  /-- A relevance mask was not made for this graph. -/
  | maskSize
  /-- A board was not made for this graph. -/
  | boardSize
  /-- A pass over a graph with unresolved conditions. -/
  | unresolvedPass
  /-- A query on an unresolved condition. -/
  | unresolvedQuery (condition : String)
  /-- A query that would come back to where it is, on a condition that depends on itself. -/
  | endlessQuery (condition : String)
  deriving DecidableEq

/-- The fault in words. -/
def Fault.message : Fault → String
  | .outOfBounds => "index out of bounds"
  | .maskSize => "relevance mask size mismatch"
  | .boardSize => "evaluation context size mismatch"
  | .unresolvedPass => "evaluation pass over an uninitialized arena"
  | .unresolvedQuery condition => s!"query on uninitialized condition {condition}"
  | .endlessQuery condition => s!"query on condition {condition} does not end"

/-- Reads one element of an array; an index outside it is a fault. -/
def readAt {α : Type} (xs : Array α) (i : Nat) : Except Fault α :=
  match xs[i]? with
  | some x => .ok x
  | none => .error .outOfBounds

end EventConditions
