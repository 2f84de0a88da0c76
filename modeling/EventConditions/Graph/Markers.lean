import EventConditions.Graph.Resolution

/-!
# Resolving with markers

`Resolver.settle` is told the path to the condition at hand. A walk can also keep the path itself,
by a marker on each condition that is being settled: it marks the condition at hand, sees a cycle
where a child is marked, and takes the mark back when the condition is finished. A failure leaves
the conditions marked down to where it was met, so it is followed by clearing all markers, and the
markers can be kept from one attempt to the next together with the schedule. `Resolver.resumeMarked`
resolves in that way.

The marks on the path are never taken back further down, which is what `Marked` says. So the
conditions that can still be marked get fewer from step to step, and the walk ends whatever is
marked at first.
-/

namespace EventConditions

variable {n : Nat}

/-- The marked conditions, those of `base` among them. -/
abbrev Marked (base : List (Fin n)) : Type :=
  { marked : List (Fin n) // base ⊆ marked }

/-- No condition is marked but those of `base`. -/
def Marked.only (base : List (Fin n)) : Marked base :=
  ⟨base, List.Subset.refl base⟩

/-- Takes back the mark on the condition at `i`. -/
def unmark (marked : List (Fin n)) (i : Fin n) : List (Fin n) :=
  marked.filter (· ≠ i)

theorem unmark_subset (marked : List (Fin n)) (i : Fin n) : unmark marked i ⊆ marked :=
  fun _ h => (List.mem_filter.1 h).1

theorem unmark_eq_self {marked : List (Fin n)} {i : Fin n} (h : i ∉ marked) :
    unmark marked i = marked := by
  refine List.filter_eq_self.2 fun j hj => ?_
  have hne : j ≠ i := by
    rintro rfl
    exact h hj
  simpa using hne

/-- Marks that were set before the one on `i` outlast it. -/
theorem unmark_mono {marked : List (Fin n)} {i : Fin n} (marks : Marked (i :: marked)) :
    unmark marked i ⊆ unmark marks.val i :=
  List.filter_subset _ (List.Subset.trans (List.subset_cons_self i marked) marks.property)

/-- Settling a condition that was not marked takes back no mark. -/
theorem subset_of_unmarked {base : List (Fin n)} (marks : Marked base) {child : Fin n}
    (off : child ∉ marks.val) (marks' : Marked (unmark marks.val child)) : base ⊆ marks'.val := by
  refine List.Subset.trans marks.property fun j hj => marks'.property ?_
  rwa [unmark_eq_self off]

/-- The more conditions are on a path, the fewer are not. -/
theorem offPath_le_of_subset {path path' : List (Fin n)} (h : path ⊆ path') :
    offPath path' ≤ offPath path :=
  List.countP_mono_left fun i _ hi => by
    simp only [decide_eq_true_eq] at hi ⊢
    exact fun hmem => hi (h hmem)

namespace Resolver

/-- Settles the children of a combination in order, with `settle` for one that is not marked. -/
def settleChildrenMarked (r : Resolver) (name : String) (base : List (Fin n))
    (settle : (marked : Marked base) → (child : Fin n) → child ∉ marked.val → Progress n →
      Logged Fault (Marked base × Progress n × Except Error (Resolved n))) :
    List String → Marked base → Progress n →
      Logged Fault (Marked base × Progress n × Except Error (List (Fin n × Resolved n)))
  | [], marked, p => pure (marked, p, .ok [])
  | childName :: rest, marked, p =>
    match r.conditionIndex.get? childName with
    | none => do
      Logged.log .warn s!"condition {name} references unknown condition {childName}"
      return (marked, p, .error (Error.via { cause := .unknownCondition childName } name))
    | some index =>
      if inside : index < n then
        let child : Fin n := ⟨index, inside⟩
        if hit : marked.val.contains child then do
          Logged.log .warn s!"cycle detected: {name} depends on {childName}"
          return (marked, p, .error (Error.via { cause := .dependencyCycle name } childName))
        else do
          have off : child ∉ marked.val := fun h => hit (List.contains_iff_mem.2 h)
          let (marked, p, settled) ← settle marked child off p
          match settled with
          | .error e => return (marked, p, .error (e.via name))
          | .ok resolved =>
            let (marked, p, others) ← settleChildrenMarked r name base settle rest marked p
            return (marked, p, others.map ((child, resolved) :: ·))
      else Logged.fail .outOfBounds

/-- Ends settling the condition at `i`. If that succeeded, the condition is finished and no longer
marked. -/
def finishMarked (name : String) {marked : List (Fin n)} {i : Fin n} (marks : Marked (i :: marked))
    (p : Progress n) : Except Error (Resolved n) →
      Logged Fault (Marked (unmark marked i) × Progress n × Except Error (Resolved n))
  | .error e =>
    pure (⟨marks.val, List.Subset.trans (unmark_mono marks) (unmark_subset _ i)⟩, p, .error e)
  | .ok resolved => do
    Logged.log .trace s!"initialized condition {name} at {i.val}"
    return (⟨unmark marks.val i, unmark_mono marks⟩, p.finish i resolved, .ok resolved)

/-- Settles the condition at `i`, which it marks until it is finished. -/
def settleMarked (r : Resolver) (conditions : Table n Condition) (marked : List (Fin n)) (i : Fin n)
    (p : Progress n) :
    Logged Fault (Marked (unmark marked i) × Progress n × Except Error (Resolved n)) :=
  match (p.nodes.entry i).resolved? with
  | some resolved => pure (⟨marked, unmark_subset marked i⟩, p, .ok resolved)
  | none => do
    let condition := conditions.entry i
    let now : Marked (i :: marked) := .only (i :: marked)
    let (marks, p, outcome) ←
      match condition.spec.defect?, condition.spec with
      | some defect, _ =>
        pure (now, p, .error { cause := .invalidCondition condition.name defect.message })
      | none, .simple spec => do
        let outcome ← (r.simple condition.name spec).attempt
        pure (now, p, outcome)
      | none, .combination operator children => do
        let (marks, p, outcome) ←
          r.settleChildrenMarked condition.name (i :: marked)
            (fun marks child off p => do
              let (marks', p, settled) ← r.settleMarked conditions marks.val child p
              return (⟨marks'.val, subset_of_unmarked marks off marks'⟩, p, settled))
            children now p
        pure (marks, p, outcome.map (Resolved.combination operator))
    finishMarked condition.name marks p outcome
termination_by offPath (i :: marked)
decreasing_by exact Nat.lt_of_lt_of_le (offPath_cons_lt off) (offPath_le_of_subset marks.property)

/-- Settles conditions one after the other, up to the first that fails. -/
def settleAllMarked (r : Resolver) (conditions : Table n Condition) :
    List (Fin n) → List (Fin n) → Progress n →
      Logged Fault (List (Fin n) × Progress n × Except Error Unit)
  | [], marked, p => pure (marked, p, .ok ())
  | i :: rest, marked, p => do
    let (marks, p, outcome) ← r.settleMarked conditions marked i p
    match outcome with
    | .error e => return (marks.val, p, .error e)
    | .ok _ => r.settleAllMarked conditions rest marks.val p

end Resolver

/-- What is kept from one attempt to the next: the schedule, and the conditions that are marked. -/
structure Scratch (n : Nat) where
  schedule : Schedule
  marked : List (Fin n) := []

namespace Resolver

/-- Settles every node that is not resolved yet, and clears the markers if it fails. -/
def resumeMarked (r : Resolver) (nodes : Table n (Node n)) (scratch : Scratch n) :
    Logged Fault (Table n (Node n) × Scratch n × Except Error Unit) :=
  if scratch.schedule.size = n then
    match r.layout nodes with
    | .error e => pure (nodes, scratch, .error e)
    | .ok conditions => do
      let (marked, p, outcome) ←
        r.settleAllMarked conditions (List.finRange n) scratch.marked { nodes }
      let schedule :=
        { scratch.schedule with order := scratch.schedule.order ++ p.order.map Fin.val }
      match outcome with
      | .error e => return (p.nodes, { schedule, marked := [] }, .error e)
      | .ok () => return (p.nodes, { schedule, marked }, .ok ())
  else pure (nodes, scratch, .error { cause := .sizeMismatch n scratch.schedule.size })

end Resolver

end EventConditions
