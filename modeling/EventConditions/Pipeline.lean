import EventConditions.Config.Basic
import EventConditions.Graph.Pass
import EventConditions.Graph.Query
import EventConditions.Graph.Slicing

/-!
# Pipelines

A pipeline runs one configuration event by event: first all matchers, then a pruned pass over the
conditions that a matched matcher can influence. A configuration is accepted as a whole or not at
all.
-/

namespace EventConditions

/-- The matchers and the `n` conditions of a configuration, and what the events so far made of
them. -/
structure Pipeline (n : Nat) where
  matchers : MatcherSet
  graph : Graph n
  board : Board
  /-- How many events were fed so far. The counter that this stands for has 64 bits: fewer than
  `2 ^ 64` events are assumed, so that it never overflows. -/
  eventsSeen : Nat := 0

/-- What one event did. -/
structure Summary where
  /-- How many conditions took part in the pass. -/
  evaluated : Nat
  /-- How many conditions changed their state. -/
  changed : Nat
  deriving DecidableEq

namespace Pipeline

variable {n : Nat}

/-- Builds the pipeline of a configuration. -/
def load (config : Config) :
    Logged Fault (Except Error (Pipeline config.conditions.length)) := do
  match config.validate with
  | .error e => return .error e
  | .ok () =>
    match ← (MatcherSet.ofList config.matchers).attempt with
    | .error e => return .error e
    | .ok matchers =>
      match ← Graph.build config.conditions matchers.names config.limits.maxSlices.toNat with
      | .error e => return .error e
      | .ok graph => do
        let conditions := config.conditions.length
        Logged.log .info s!"pipeline loaded: {matchers.size} matchers, {conditions} conditions"
        return .ok { matchers, graph, board := graph.newBoard }

/-- The verdicts on an event. One whose tag no matcher asks for matches nothing. -/
def judge (p : Pipeline n) (e : Event) : Logged Fault (Array Verdict) :=
  if p.matchers.listensTo e.tag then p.matchers.judge e
  else pure (Array.replicate p.matchers.size .notMatched)

/-- Feeds one event. -/
def onEvent (p : Pipeline n) (e : Event) : Logged Fault (Pipeline n × Summary) := do
  let seen := p.eventsSeen + 1
  let verdicts ← p.judge e
  let mask ← Logged.ofExcept (p.graph.relevance verdicts)
  let (graph, board) ← p.graph.evaluateRelevant e verdicts p.board mask
  let evaluated := mask.toList.countP id
  let changed := board.changedIndices.length
  if 0 < changed then
    Logged.log .debug
      s!"event {seen} (tag {e.tag}): {changed} of {evaluated} evaluated conditions changed"
  return ({ p with graph, board, eventsSeen := seen }, { evaluated, changed })

/-- The state that the board shows of the condition of the given name; no state for an unknown
name. -/
def state? (p : Pipeline n) (name : String) : Except Fault (Option State) :=
  match p.graph.indexOf? name with
  | some i => do
    let cell ← readAt p.board.cells i
    return some cell.state
  | none => .ok none

/-- The state of the condition of the given name for the given keys; no state for an unknown
name. -/
def query (p : Pipeline n) (name : String) (q : Query) : Except Fault (Option State) :=
  match p.graph.indexOf? name with
  | some i => do
    let state ← p.graph.query i q
    return some state
  | none => .ok none

/-- Asks for slice reports of the condition of the given name and of all it depends on. -/
def setSliced (p : Pipeline n) (name : String) : Except Error (Pipeline n) :=
  match p.graph.indexOf? name with
  | some i => .ok { p with graph := p.graph.slice i }
  | none => .error { cause := .unknownCondition name }

/-- The names of the conditions that the latest event changed, in index order. -/
def changedNames (p : Pipeline n) : List String :=
  p.board.changedIndices.filterMap fun i => p.graph.nodes[i]?.map Node.name

end Pipeline

end EventConditions
