import EventConditions.Board
import EventConditions.Graph.Basic

/-!
# Passes

A pass feeds one event to the conditions of a graph, each behind those it depends on, and leaves the
new states and the change flags on a board. A full pass takes every condition; a pruned one skips
the conditions that no matched matcher can influence, which keep the state they show.

A condition is compared with its own previous state and not with what the board showed of it, so a
pass reports the same changes on any board.
-/

namespace EventConditions

/-- The nodes of a graph and the cells of its board, in the middle of a pass. -/
structure Sweep (n : Nat) where
  nodes : Table n (Node n)
  cells : Table n Cell

namespace Sweep

variable {n : Nat}

/-- Stores a condition's new state, and shows it with its change flags. -/
def settle (s : Sweep n) (i : Fin n) (rule : Rule n) (state : State) (slicesMoved : Bool) : Sweep n :=
  let node := s.nodes.entry i
  let changed := state != node.aggregate
  { nodes := s.nodes.put i
      { node with resolved? := some { rule, used := node.used, aggregate := state } }
    cells := s.cells.put i
      { state, changed, sliceChanged := node.sliced && (changed || slicesMoved) } }

/-- One condition's turn. -/
def turn (s : Sweep n) (e : Event) (verdicts : Array Verdict) (i : Fin n) :
    Logged Fault (Sweep n) :=
  match (s.nodes.entry i).resolved? with
  | none => Logged.fail .unresolvedPass
  | some resolved =>
    match resolved.rule with
    | .simple simple => do
      let request ← Logged.ofExcept (simple.request e verdicts)
      Logged.logAll (simple.remarks (s.nodes.entry i).name e request)
      let (simple, outcome) := simple.serve request
      return s.settle i (.simple simple) (outcome.state.getD resolved.aggregate) outcome.slicesMoved
    | .combination c =>
      let state := c.evaluate fun child => (s.cells.entry child).state
      let slicesMoved := c.children.any fun child => (s.cells.entry child).sliceChanged
      pure (s.settle i (.combination c) state slicesMoved)

/-- Gives each of the listed conditions that is relevant its turn. -/
def run (e : Event) (verdicts : Array Verdict) (relevant : Fin n → Bool) :
    List (Fin n) → Sweep n → Logged Fault (Sweep n)
  | [], s => pure s
  | i :: rest, s =>
    if relevant i then do
      let s ← s.turn e verdicts i
      run e verdicts relevant rest s
    else run e verdicts relevant rest s

end Sweep

namespace Graph

variable {n : Nat}

/-- A board that shows the current states and no changes. -/
def newBoard (g : Graph n) : Board :=
  ⟨(g.nodes.toList.map fun node => { state := node.aggregate }).toArray⟩

/-- One pass over the relevant conditions. The graph must be resolved and the board made for it. -/
def pass (g : Graph n) (e : Event) (verdicts : Array Verdict) (board : Board)
    (relevant : Fin n → Bool) : Logged Fault (Graph n × Board) :=
  if g.isResolved then
    if h : board.cells.size = n then do
      let cells : Table n Cell := ⟨board.cells, h⟩
      let cleared := cells.map fun cell => { state := cell.state }
      let s ← Sweep.run e verdicts relevant g.order { nodes := g.nodes, cells := cleared }
      return ({ g with nodes := s.nodes }, ⟨s.cells.toArray⟩)
    else Logged.fail .boardSize
  else Logged.fail .unresolvedPass

/-- A pass over every condition. -/
def evaluate (g : Graph n) (e : Event) (verdicts : Array Verdict) (board : Board) :
    Logged Fault (Graph n × Board) :=
  g.pass e verdicts board fun _ => true

/-- A pass over the conditions that a mask marks. The mask must be made for the graph. -/
def evaluateRelevant (g : Graph n) (e : Event) (verdicts : Array Verdict) (board : Board)
    (mask : Array Bool) : Logged Fault (Graph n × Board) :=
  if h : mask.size = n then
    let marks : Table n Bool := ⟨mask, h⟩
    g.pass e verdicts board marks.entry
  else Logged.fail .maskSize

/-- Some of the listed matchers matched. They are asked in order, up to the first that did. -/
def anyMatched (verdicts : Array Verdict) : List Nat → Except Fault Bool
  | [] => .ok false
  | m :: rest => do
    let verdict ← readAt verdicts m
    if verdict.isMatched then return true else anyMatched verdicts rest

/-- Marks the conditions that some matched matcher can influence. -/
def relevance (g : Graph n) (verdicts : Array Verdict) : Except Fault (Array Bool) := do
  let marks ← g.nodes.toList.mapM fun node => anyMatched verdicts node.used.toList
  return marks.toArray

end Graph

end EventConditions
