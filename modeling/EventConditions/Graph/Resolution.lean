import EventConditions.NameIndex
import EventConditions.Node

/-!
# Resolving conditions

Resolving turns configured conditions into nodes whose rules address matchers and other conditions
by index. It walks depth-first: the children of a combination are settled, in the order they are
listed, before the combination itself, so `Progress.order` lists every condition behind the ones it
depends on.

The conditions from the outermost one down to the one at hand form the *path*. A child that is on
the path closes a cycle, and one that is not makes the path longer; since a path holds each
condition at most once, the walk ends.
-/

namespace EventConditions

variable {n : Nat}

/-- How far resolving has come: the nodes, and those finished so far, dependencies first. -/
structure Progress (n : Nat) where
  nodes : Table n (Node n)
  order : List (Fin n) := []

/-- Records what resolving the condition at `i` gave. -/
def Progress.finish (p : Progress n) (i : Fin n) (resolved : Resolved n) : Progress n where
  nodes := p.nodes.put i { p.nodes.entry i with resolved? := some resolved }
  order := p.order ++ [i]

/-- What conditions are resolved against. -/
structure Resolver where
  /-- One condition per node, in index order. -/
  conditions : List Condition
  conditionIndex : NameIndex
  matcherIndex : NameIndex
  /-- How many slices each simple condition may hold. -/
  maxSlices : Nat

/-- A combination of settled children: it uses what they use, and starts in the state that theirs
give. -/
def Resolved.combination (operator : Operator) (children : List (Fin n × Resolved n)) :
    Resolved n where
  rule := .combination { operator, children := children.map (·.1) }
  used := children.foldl (fun used child => used.union child.2.used) {}
  aggregate := combine operator (children.map (·.2.aggregate))

/-- How many conditions are not on the path. -/
def offPath (path : List (Fin n)) : Nat :=
  (List.finRange n).countP fun i => i ∉ path

theorem offPath_cons_lt {path : List (Fin n)} {i : Fin n} (h : i ∉ path) :
    offPath (i :: path) < offPath path := by
  have strict (l : List (Fin n)) (hi : i ∈ l) :
      l.countP (fun j => j ∉ i :: path) < l.countP (fun j => j ∉ path) := by
    induction l with
    | nil => simp at hi
    | cons j rest ih =>
      have mono : rest.countP (fun j => j ∉ i :: path) ≤ rest.countP (fun j => j ∉ path) :=
        List.countP_mono_left fun k _ hk => by simp_all
      by_cases hj : j = i
      · subst hj
        simp only [List.countP_cons]
        simp [h]
        simp at mono
        omega
      · have hi : i ∈ rest := by simpa [Ne.symm hj] using hi
        have := ih hi
        simp only [List.countP_cons]
        by_cases hp : j ∈ path <;> simp_all
  exact strict _ (List.mem_finRange i)

namespace Resolver

/-- The index of a matcher that a condition names. -/
def matcher (r : Resolver) (condition : String) : Option String → Logged Error (Option Nat)
  | none => pure none
  | some name =>
    match r.matcherIndex.get? name with
    | some i => pure (some i)
    | none => do
      Logged.log .warn s!"condition {condition} references unknown matcher {name}"
      Logged.fail (Error.via { cause := .unknownMatcher name } condition)

/-- Resolves a simple condition. -/
def simple (r : Resolver) (name : String) (spec : SimpleSpec) : Logged Error (Resolved n) := do
  let start ← r.matcher name spec.start
  let stop ← r.matcher name spec.stop
  let stopAll ← r.matcher name spec.stopAll
  let s : Simple := {
    start, stop, stopAll
    countNesting := spec.countNesting
    dimensions := spec.dimensions
    initial := spec.initial
    maxSlices := r.maxSlices }
  return { rule := .simple s, used := .ofList s.matchers, aggregate := spec.initial.state }

/-- Settles the children of a combination in order, with `settle` for one that is not on the path.
The first that is unknown, closes a cycle or fails ends it. -/
def settleChildren (r : Resolver) (name : String) (path : List (Fin n))
    (settle : (child : Fin n) → child ∉ path → Progress n →
      Logged Fault (Progress n × Except Error (Resolved n))) :
    List String → Progress n →
      Logged Fault (Progress n × Except Error (List (Fin n × Resolved n)))
  | [], p => pure (p, .ok [])
  | childName :: rest, p =>
    match r.conditionIndex.get? childName with
    | none => do
      Logged.log .warn s!"condition {name} references unknown condition {childName}"
      return (p, .error (Error.via { cause := .unknownCondition childName } name))
    | some index =>
      if inside : index < n then
        let child : Fin n := ⟨index, inside⟩
        if onPath : child ∈ path then do
          Logged.log .warn s!"cycle detected: {name} depends on {childName}"
          return (p, .error (Error.via { cause := .dependencyCycle name } childName))
        else do
          let (p, settled) ← settle child onPath p
          match settled with
          | .error e => return (p, .error (e.via name))
          | .ok resolved =>
            let (p, others) ← settleChildren r name path settle rest p
            return (p, others.map ((child, resolved) :: ·))
      else Logged.fail .outOfBounds

/-- Settles the condition at `i`, which is reached along `path` and not on it. One that is resolved
already stays as it is. -/
def settle (r : Resolver) (conditions : Table n Condition) (path : List (Fin n)) (i : Fin n)
    (_ : i ∉ path) (p : Progress n) :
    Logged Fault (Progress n × Except Error (Resolved n)) :=
  match (p.nodes.entry i).resolved? with
  | some resolved => pure (p, .ok resolved)
  | none => do
    let condition := conditions.entry i
    let (p, outcome) ←
      match condition.spec.defect?, condition.spec with
      | some defect, _ =>
        pure (p, .error { cause := .invalidCondition condition.name defect.message })
      | none, .simple spec => do
        let outcome ← (r.simple condition.name spec).attempt
        pure (p, outcome)
      | none, .combination operator children => do
        let (p, outcome) ←
          r.settleChildren condition.name (i :: path)
            (fun child off p => r.settle conditions (i :: path) child off p) children p
        pure (p, outcome.map (Resolved.combination operator))
    match outcome with
    | .error e => return (p, .error e)
    | .ok resolved => do
      Logged.log .trace s!"initialized condition {condition.name} at {i.val}"
      return (p.finish i resolved, .ok resolved)
termination_by offPath path
decreasing_by exact offPath_cons_lt (by assumption)

/-- Settles conditions one after the other, up to the first that fails. -/
def settleAll (r : Resolver) (conditions : Table n Condition) :
    List (Fin n) → Progress n → Logged Fault (Progress n × Except Error Unit)
  | [], p => pure (p, .ok ())
  | i :: rest, p => do
    let (p, outcome) ← r.settle conditions [] i (List.not_mem_nil) p
    match outcome with
    | .error e => return (p, .error e)
    | .ok _ => r.settleAll conditions rest p

/-- What is said of a node whose name is not that of its condition. -/
def misfitText (node : String) (slot : Nat) (condition : String) : String :=
  s!"node {node} at slot {slot} does not match descriptor {condition}"

/-- The first thing that keeps nodes and conditions, counted from `slot` on, from belonging
together: another name, or an index that is not the node's position. -/
def misfit? (r : Resolver) (slot : Nat) : List (Node n) → List Condition → Option Error
  | node :: nodes, condition :: conditions =>
    if node.name ≠ condition.name then
      some { cause := .inconsistent (misfitText node.name slot condition.name) }
    else if node.index ≠ slot ∨ r.conditionIndex.get? condition.name ≠ some slot then
      some { cause := .duplicateCondition condition.name }
    else r.misfit? (slot + 1) nodes conditions
  | _, _ => none

/-- The conditions as one per node, if they belong to the nodes. -/
def layout (r : Resolver) (nodes : Table n (Node n)) : Except Error (Table n Condition) :=
  if h : r.conditions.toArray.size = n then
    match r.misfit? 0 nodes.toList r.conditions with
    | some e => .error e
    | none => .ok ⟨r.conditions.toArray, h⟩
  else .error { cause := .sizeMismatch n r.conditions.length }

/-- Settles every node that is not resolved yet. Those finished before a failure stay resolved. -/
def advance (r : Resolver) (nodes : Table n (Node n)) :
    Logged Fault (Progress n × Except Error Unit) :=
  match r.layout nodes with
  | .error e => pure ({ nodes }, .error e)
  | .ok conditions => r.settleAll conditions (List.finRange n) { nodes }

/-- Settles every node and gives the order in which they were finished. After a failure no node is
resolved. -/
def run (r : Resolver) (nodes : Table n (Node n)) :
    Logged Fault (Table n (Node n) × Except Error (List (Fin n))) := do
  let (p, outcome) ← r.advance nodes
  match outcome with
  | .ok () => return (p.nodes, .ok p.order)
  | .error e => do
    Logged.log .warn s!"condition initialization failed: {e.message}"
    return (p.nodes.map Node.reset, .error e)

end Resolver

/-- An order that several attempts at resolving the same nodes add to. -/
structure Schedule where
  /-- How many nodes it is for. -/
  size : Nat
  /-- The nodes finished so far, dependencies first. -/
  order : List Nat := []

/-- Settles every node that is not resolved yet and adds those it finished to the schedule, also
when it fails. A schedule for another number of nodes is refused. -/
def Resolver.resume (r : Resolver) (nodes : Table n (Node n)) (schedule : Schedule) :
    Logged Fault (Table n (Node n) × Schedule × Except Error Unit) :=
  if schedule.size = n then do
    let (p, outcome) ← r.advance nodes
    return (p.nodes, { schedule with order := schedule.order ++ p.order.map Fin.val }, outcome)
  else pure (nodes, schedule, .error { cause := .sizeMismatch n schedule.size })

end EventConditions
