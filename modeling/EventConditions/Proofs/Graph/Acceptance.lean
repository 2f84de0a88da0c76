import Mathlib.Order.RelClasses
import EventConditions.Proofs.Graph.Coherence
import EventConditions.Proofs.Resolution.Acceptance

/-!
# Which conditions make a graph

Building a graph never ends in a fault. It succeeds exactly for conditions with distinct names that
can be resolved (`Graph.build_accepts_iff`): resolving those is settled by the walk, and an order
with children first shows that the conditions of a resolved graph have no cycle.
-/

namespace EventConditions

namespace Graph

variable {n : Nat}

/-- In a graph that was resolved no condition depends on itself: the order has children first. -/
theorem ResolvedBy.acyclic {g : Graph n} {r : Resolver} {conditions : Table n Condition}
    (h : g.ResolvedBy r conditions) : r.Acyclic conditions := by
  have hchild : ∀ {i j}, r.DependsOn conditions i j → j ∈ (g.nodes.entry i).children := by
    rintro i j ⟨name, hname, hget⟩
    obtain ⟨x, hx, hgives⟩ := h.gives i
    rw [Node.children, hx]
    show j ∈ x.rule.children
    cases hgives with
    | simple hspec _ _ =>
      rw [hspec] at hname
      exact absurd hname List.not_mem_nil
    | combination hspec _ hf =>
      rw [hspec] at hname
      obtain ⟨child, hmem, hget', -⟩ := Resolver.exists_found hf hname
      obtain rfl : child.1 = j := Fin.ext (Option.some.inj (hget'.symm.trans hget))
      exact List.mem_map_of_mem hmem
  -- going down from a condition to one it depends on goes back in the order
  have hacc : ∀ i, Acc (fun j i => r.DependsOn conditions i j) i := fun i =>
    h.ordered.induction (fun i ih => .intro i fun j hj => ih j (hchild hj)) i
  intro i hcycle
  have hback : Relation.TransGen (fun j i => r.DependsOn conditions i j) i i :=
    Relation.transGen_swap.2 hcycle
  exact (WellFounded.intro hacc).transGen.asymmetric i i hback hback

/-- Resolving a graph against the conditions it was made of finds each by its name. -/
theorem indexes_of_fresh {conditions : List Condition} {maxSlices : Nat}
    {g : Graph conditions.length} (h : (ofConditions conditions maxSlices).result = .ok g)
    (matchers : NameIndex) :
    (g.resolver conditions matchers).Indexes (conditionTable conditions) := by
  intro name i
  rw [entry_conditionTable]
  exact get?_names_of_fresh h name i

/-- The conditions can be resolved with the given matchers. -/
structure Resolvable (conditions : List Condition) (matchers : NameIndex) : Prop where
  wellFormed : ∀ c ∈ conditions, c.spec.defect? = none
  matchers : ∀ c ∈ conditions, ∀ name ∈ c.spec.matchers, matchers.get? name ≠ none
  children : ∀ c ∈ conditions, ∀ name ∈ c.spec.children, name ∈ conditions.map Condition.name
  acyclic : ∀ name, ¬ Relation.TransGen (Lists conditions) name name

/-- What can be resolved is wired and has no cycle, whatever the resolver's other parts. -/
theorem resolvable_iff {conditions : List Condition} {matchers : NameIndex} {maxSlices : Nat}
    {g : Graph conditions.length} (h : (ofConditions conditions maxSlices).result = .ok g) :
    Resolvable conditions matchers ↔
      (∀ i, (g.resolver conditions matchers).Wired ((conditionTable conditions).entry i).spec) ∧
        (g.resolver conditions matchers).Acyclic (conditionTable conditions) := by
  have hindexes := indexes_of_fresh h matchers
  have hknown : ∀ name, (g.resolver conditions matchers).conditionIndex.get? name ≠ none ↔
      name ∈ conditions.map Condition.name := by
    obtain ⟨-, rfl⟩ := ofConditions_eq_ok_iff.1 h
    have hnames : (freshNodes conditions).toList.map Node.name = conditions.map Condition.name := by
      apply List.ext_getElem <;> simp [freshNodes]
    intro name
    rw [resolver, names, hnames, ne_eq, NameIndex.get?_ofNames_eq_none_iff, not_not]
  have hacyclic := hindexes.acyclic_iff (resolver_inside g conditions matchers)
  rw [toList_conditionTable] at hacyclic
  constructor
  · intro hres
    have hwired : ∀ i, (g.resolver conditions matchers).Wired
        ((conditionTable conditions).entry i).spec := by
      intro i
      rw [entry_conditionTable]
      have hmem : conditions[i] ∈ conditions := List.getElem_mem i.isLt
      exact ⟨hres.wellFormed _ hmem, hres.matchers _ hmem,
        fun name hname => (hknown name).2 (hres.children _ hmem name hname)⟩
    exact ⟨hwired, (hacyclic fun i => (hwired i).children).2 hres.acyclic⟩
  · rintro ⟨hwired, hnocycle⟩
    have hwired' : ∀ c ∈ conditions, (g.resolver conditions matchers).Wired c.spec := by
      intro c hc
      obtain ⟨k, hk, rfl⟩ := List.getElem_of_mem hc
      have := hwired ⟨k, hk⟩
      rwa [entry_conditionTable] at this
    exact ⟨fun c hc => (hwired' c hc).wellFormed, fun c hc => (hwired' c hc).matchers,
      fun c hc name hname => (hknown name).1 ((hwired' c hc).children name hname),
      (hacyclic fun i => (hwired i).children).1 hnocycle⟩

/-- Building a graph never ends in a fault. -/
theorem exists_build (conditions : List Condition) (matchers : NameIndex) (maxSlices : Nat) :
    ∃ outcome, (build conditions matchers maxSlices).result = .ok outcome := by
  rw [build, Logged.result_bind_of_ok (Logged.result_attempt _)]
  cases (ofConditions conditions maxSlices).result with
  | error e => exact ⟨_, rfl⟩
  | ok g =>
    obtain ⟨g', o, hres, -⟩ := g.resolve_spec conditions matchers
    exact ⟨_, Logged.result_bind_of_ok hres _⟩

/-- A graph is built exactly of conditions with distinct names that can be resolved. -/
theorem build_accepts_iff {conditions : List Condition} {matchers : NameIndex} {maxSlices : Nat} :
    (∃ g, (build conditions matchers maxSlices).result = .ok (.ok g)) ↔
      (conditions.map Condition.name).Nodup ∧ Resolvable conditions matchers := by
  constructor
  · rintro ⟨g, hg⟩
    obtain ⟨g₀, hmade, hby⟩ := resolvedBy_of_build hg
    refine ⟨(ofConditions_eq_ok_iff.1 hmade).1, (resolvable_iff hmade).2 ⟨fun i => ?_, hby.acyclic⟩⟩
    obtain ⟨x, -, hgives⟩ := hby.gives i
    exact hgives.wired
  · rintro ⟨hnodup, hresolvable⟩
    have hmade : (ofConditions conditions maxSlices).result =
        .ok { nodes := freshNodes conditions, maxSlices } :=
      ofConditions_eq_ok_iff.2 ⟨hnodup, rfl⟩
    obtain ⟨hwired, hacyclic⟩ := (resolvable_iff hmade).1 hresolvable
    obtain ⟨p, hp⟩ := Resolver.advance_settles (resolver_inside _ conditions matchers)
      (layout_of_fresh hmade matchers) hwired hacyclic
    exact ⟨_, build_eq_ok_iff.2 ⟨_, hmade, resolve_of_advance hp⟩⟩

end Graph

end EventConditions
