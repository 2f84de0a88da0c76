import EventConditions.Graph.Resolution

/-!
# Condition graphs

A graph holds the conditions of one configuration as nodes, addressed by index, and the order in
which they are evaluated. It is made unresolved and then resolved against the names of the matchers.
Resolving again starts from scratch; only the requests for slice reports are kept.
-/

namespace EventConditions

/-- The `n` conditions of a configuration. -/
structure Graph (n : Nat) where
  nodes : Table n (Node n)
  /-- The resolved conditions, each behind those it depends on. -/
  order : List (Fin n) := []
  /-- How many slices each simple condition may hold. -/
  maxSlices : Nat := 800

/-- An index below `n`; any other one is a fault. -/
def within (n i : Nat) : Except Fault (Fin n) :=
  if h : i < n then .ok ⟨i, h⟩ else .error .outOfBounds

namespace Graph

variable {n : Nat}

/-- Unresolved nodes for the given conditions, in their order. -/
def freshNodes (conditions : List Condition) :
    Table conditions.length (Node conditions.length) :=
  ⟨(conditions.mapIdx fun i c => { name := c.name, index := i }).toArray, by simp⟩

/-- The unresolved graph of the given conditions. The first repeated name is refused. -/
def ofConditions (conditions : List Condition) (maxSlices : Nat) :
    Logged Error (Graph conditions.length) :=
  match firstRepeated? [] (conditions.map Condition.name) with
  | some name => do
    Logged.log .warn s!"duplicate condition {name}"
    Logged.fail { cause := .duplicateCondition name }
  | none => pure { nodes := freshNodes conditions, maxSlices }

@[simp] theorem entry_freshNodes (conditions : List Condition) (i : Fin conditions.length) :
    (freshNodes conditions).entry i = { name := conditions[i].name, index := i.val } := by
  simp [freshNodes, Table.entry]

/-- A graph is made of conditions with distinct names, and of no others. -/
theorem ofConditions_eq_ok_iff {conditions : List Condition} {maxSlices : Nat}
    {g : Graph conditions.length} : (ofConditions conditions maxSlices).result = .ok g ↔
      (conditions.map Condition.name).Nodup ∧ g = { nodes := freshNodes conditions, maxSlices } := by
  rw [ofConditions, ← firstRepeated?_nil_eq_none_iff]
  cases firstRepeated? [] (conditions.map Condition.name) with
  | some name => simp
  | none => simp [eq_comm]

/-- The index of each condition's name. -/
def names (g : Graph n) : NameIndex :=
  .ofNames (g.nodes.toList.map Node.name)

/-- The index of the condition of the given name. -/
def indexOf? (g : Graph n) (name : String) : Option (Fin n) :=
  match g.names.get? name with
  | some i => if h : i < n then some ⟨i, h⟩ else none
  | none => none

/-- Every condition is resolved. -/
def isResolved (g : Graph n) : Bool :=
  g.nodes.toList.all Node.isResolved

/-- Resolves the graph against the given conditions and matchers, from scratch. After a failure no
condition is resolved. -/
def resolve (g : Graph n) (conditions : List Condition) (matchers : NameIndex) :
    Logged Fault (Graph n × Except Error Unit) := do
  let resolver : Resolver := {
    conditions
    conditionIndex := g.names
    matcherIndex := matchers
    maxSlices := g.maxSlices }
  let (nodes, outcome) ← resolver.run (g.nodes.map Node.reset)
  match outcome with
  | .ok order => do
    Logged.log .debug s!"initialized {n} conditions"
    return ({ g with nodes, order }, .ok ())
  | .error e => return ({ g with nodes, order := [] }, .error e)

/-- The resolved graph of the given conditions. -/
def build (conditions : List Condition) (matchers : NameIndex) (maxSlices : Nat) :
    Logged Fault (Except Error (Graph conditions.length)) := do
  match ← (ofConditions conditions maxSlices).attempt with
  | .error e => return .error e
  | .ok g => do
    let (g, outcome) ← g.resolve conditions matchers
    return outcome.map fun () => g

end Graph

end EventConditions
