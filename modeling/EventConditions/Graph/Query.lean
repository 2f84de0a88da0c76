import EventConditions.Graph.Basic

/-!
# Queries

A query asks what a condition's state would be for given slices, and changes nothing. The children
of a combination are asked in the order listed, before the combination itself, and all answers are
kept for the time of the query, so a condition that several others share is answered once.

As in resolving, the conditions from the one that the query is about down to the one at hand form a
path that does not come back to itself.
-/

namespace EventConditions

/-- The keys to ask with. -/
structure Query where
  /-- Keys for single conditions. -/
  keys : List (String × Key) := []
  /-- The key for all other conditions. -/
  shared : Option Key := none

/-- The key that a condition is asked with. -/
def Query.keyFor (q : Query) (condition : String) : Option Key :=
  q.keys.lookup condition <|> q.shared

/-- Sets the key of one condition. -/
def Query.withKey (q : Query) (condition : String) (key : Key) : Query :=
  { q with keys := (condition, key) :: q.keys }

namespace Graph

variable {n : Nat}

/-- The answers found so far. -/
abbrev Memo (n : Nat) :=
  Table n (Option State)

/-- Asks children in order, with `ask` for one that is not on the path. -/
def askChildren (name : String) (path : List (Fin n))
    (ask : (child : Fin n) → path.contains child = false → Memo n →
      Except Fault (State × Memo n)) :
    List (Fin n) → Memo n → Except Fault (List State × Memo n)
  | [], memo => .ok ([], memo)
  | child :: rest, memo =>
    if off : path.contains child = false then do
      let (state, memo) ← ask child off memo
      let (states, memo) ← askChildren name path ask rest memo
      return (state :: states, memo)
    else .error (.endlessQuery name)

/-- Asks the condition at `i`, which is reached along `path` and not on it. One that was asked
before is not asked again. -/
def ask (g : Graph n) (q : Query) (path : List (Fin n)) (i : Fin n)
    (_ : path.contains i = false) (memo : Memo n) : Except Fault (State × Memo n) :=
  match memo.entry i with
  | some state => .ok (state, memo)
  | none => do
    let node := g.nodes.entry i
    let (state, memo) ←
      match node.resolved? with
      | none => .error (.unresolvedQuery node.name)
      | some resolved =>
        match resolved.rule with
        | .simple simple => .ok (simple.query (q.keyFor node.name) resolved.aggregate, memo)
        | .combination c => do
          let (states, memo) ← askChildren node.name (i :: path)
            (fun child off memo => g.ask q (i :: path) child off memo) c.children memo
          .ok (combine c.operator states, memo)
    return (state, memo.put i (some state))
termination_by offPath path
decreasing_by exact offPath_cons_lt (by simp_all)

/-- The state of a condition for the given keys. A condition that is not resolved has none, which is
a fault. -/
def query (g : Graph n) (i : Fin n) (q : Query) : Except Fault State :=
  (g.ask q [] i rfl (Table.fill n none)).map Prod.fst

end Graph

end EventConditions
