import EventConditions.Graph.Basic

/-!
# Requests for slice reports

A request reaches a node and what it depends on. It is passed on from node to node, and stops at a
node that was reached before, whether by this request or an earlier one.
-/

namespace EventConditions

namespace Graph

variable {n : Nat}

/-- Asks one node for slice reports. -/
def mark (nodes : Table n (Node n)) (i : Fin n) : Table n (Node n) :=
  nodes.put i ((nodes.entry i).setSliced true)

/-- How many nodes are not asked yet. -/
def unmarked (nodes : Table n (Node n)) : Nat :=
  nodes.toList.countP fun node => !node.sliced

theorem unmarked_mark_lt {nodes : Table n (Node n)} {i : Fin n}
    (h : ¬ (nodes.entry i).sliced = true) : unmarked (mark nodes i) < unmarked nodes := by
  have inside : i.val < nodes.toList.length := by simp
  have unsliced : nodes.toList[i.val].sliced = false := by simpa [Table.entry] using h
  have some : 0 < nodes.toList.countP fun node => !node.sliced :=
    List.countP_pos_iff.2 ⟨_, List.getElem_mem inside, by rw [unsliced]; rfl⟩
  have count := List.countP_set (p := fun node : Node n => !node.sliced)
    (a := (nodes.entry i).setSliced true) (h := inside)
  simp only [unsliced, Node.setSliced, Bool.or_true, Bool.not_true, Bool.not_false,
    Bool.false_eq_true, if_true, if_false] at count
  simp only [unmarked, mark, Table.put, Vector.toList_set, Node.setSliced, Bool.or_true, count]
  omega

/-- Asks the pending nodes, and the children of those that were not asked before. -/
def spread (nodes : Table n (Node n)) : List (Fin n) → Table n (Node n)
  | [] => nodes
  | i :: pending =>
    if (nodes.entry i).sliced then spread nodes pending
    else spread (mark nodes i) ((nodes.entry i).children ++ pending)
termination_by pending => (unmarked nodes, pending.length)
decreasing_by
  · exact Prod.Lex.right _ (by simp)
  · exact Prod.Lex.left _ _ (unmarked_mark_lt (by assumption))

variable {nodes : Table n (Node n)} {i : Fin n} {pending : List (Fin n)}

@[simp] theorem spread_nil (nodes : Table n (Node n)) : spread nodes [] = nodes := by
  rw [spread]

theorem spread_of_sliced (h : (nodes.entry i).sliced = true) :
    spread nodes (i :: pending) = spread nodes pending := by
  rw [spread, if_pos h]

theorem spread_of_unsliced (h : (nodes.entry i).sliced = false) :
    spread nodes (i :: pending) =
      spread (mark nodes i) ((nodes.entry i).children ++ pending) := by
  rw [spread, if_neg (by simp [h])]

/-- Asks for slice reports of a condition and of all it depends on. -/
def slice (g : Graph n) (i : Fin n) : Graph n :=
  { g with nodes := spread (mark g.nodes i) (g.nodes.entry i).children }

/-- Asks for slice reports of the condition at an index. Asking for none changes nothing. -/
def setSliced (g : Graph n) (index : Nat) (on : Bool) : Except Fault (Graph n) := do
  let i ← within n index
  return if on then g.slice i else g

end Graph

end EventConditions
