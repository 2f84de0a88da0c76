import EventConditions.Proofs.Graph.Shape
import EventConditions.Proofs.Resolution.Progress

/-!
# Resolved graphs

Resolving a graph always comes to an end, with or without an error. After an error no node is
resolved; otherwise all are, each as resolving its condition gives, in an order with children first
(`Graph.resolve_spec`). From that follow the two facts about resolved nodes that passes rely on: a
node uses exactly the matchers that simple conditions below it read, and a combination starts in the
state that the states of its children give.
-/

namespace EventConditions

variable {n : Nat}

namespace Graph

/-- What the graph resolves conditions with. -/
def resolver (g : Graph n) (conditions : List Condition) (matchers : NameIndex) : Resolver where
  conditions
  conditionIndex := g.names
  matcherIndex := matchers
  maxSlices := g.maxSlices

/-- The nodes are numbered in order and have distinct names, and the name index gives each name's
number. -/
structure Named (g : Graph n) : Prop where
  index : ∀ k, (g.nodes.entry k).index = k.val
  distinct : ∀ j k, (g.nodes.entry j).name = (g.nodes.entry k).name → j = k
  slot : ∀ name k, g.names.get? name = some k ↔ ∃ h : k < n, (g.nodes.entry ⟨k, h⟩).name = name

/-- The names of the nodes by position. -/
theorem getElem?_names {g : Graph n} {name : String} {k : Nat} :
    (g.nodes.toList.map Node.name)[k]? = some name ↔
      ∃ h : k < n, (g.nodes.entry ⟨k, h⟩).name = name := by
  rw [List.getElem?_map, Option.map_eq_some_iff]
  constructor
  · rintro ⟨node, hnode, rfl⟩
    obtain ⟨h, rfl⟩ := Table.getElem?_toList_eq_some_iff.1 hnode
    exact ⟨h, rfl⟩
  · rintro ⟨h, rfl⟩
    exact ⟨_, Table.getElem?_toList_eq_some_iff.2 ⟨h, rfl⟩, rfl⟩

/-- A name that has a number is that of the node with the number. -/
theorem name_of_get?_names {g : Graph n} {name : String} {k : Nat}
    (h : g.names.get? name = some k) : ∃ h : k < n, (g.nodes.entry ⟨k, h⟩).name = name :=
  getElem?_names.1 (NameIndex.getElem?_of_get?_ofNames h)

/-- Names that have numbers are those of the nodes with these numbers. -/
theorem names_of_get?_names {g : Graph n} {names : List String} {children : List (Fin n)}
    (h : names.map g.names.get? = children.map fun c => some c.val) :
    names = children.map fun c => (g.nodes.entry c).name := by
  induction names generalizing children with
  | nil => rw [List.map_eq_nil_iff.1 h.symm, List.map_nil]
  | cons name rest ih =>
    cases children with
    | nil => exact nomatch h
    | cons child others =>
      obtain ⟨hget, hrest⟩ := List.cons.inj h
      obtain ⟨_, hname⟩ := name_of_get?_names hget
      rw [List.map_cons, ← ih hrest, ← hname]

theorem resolver_inside (g : Graph n) (conditions : List Condition) (matchers : NameIndex) :
    (g.resolver conditions matchers).Inside n := by
  intro name index h
  exact (name_of_get?_names h).1

/-- Distinct names and numbers in order are all that it takes. -/
theorem Named.of_nodup {g : Graph n} (hindex : ∀ k, (g.nodes.entry k).index = k.val)
    (h : (g.nodes.toList.map Node.name).Nodup) : g.Named where
  index := hindex
  distinct j k hjk := by
    have hj : (g.nodes.toList.map Node.name)[j.val]? = some (g.nodes.entry k).name :=
      getElem?_names.2 ⟨j.isLt, hjk⟩
    have hk : (g.nodes.toList.map Node.name)[k.val]? = some (g.nodes.entry k).name :=
      getElem?_names.2 ⟨k.isLt, rfl⟩
    have hlt : j.val < (g.nodes.toList.map Node.name).length := by simp
    exact Fin.ext ((List.getElem?_inj hlt h).1 (hj.trans hk.symm))
  slot _ _ := (NameIndex.get?_ofNames_eq_some_iff h).trans getElem?_names

/-- The name index is that of the names. -/
theorem names_congr {g g' : Graph n}
    (h : ∀ i, (g'.nodes.entry i).name = (g.nodes.entry i).name) : g'.names = g.names := by
  unfold names
  rw [Table.toList_eq_map_entry, Table.toList_eq_map_entry, List.map_map, List.map_map]
  exact congrArg NameIndex.ofNames (List.map_congr_left fun i _ => h i)

/-- How nodes are named and numbered is told by their names and indices. -/
theorem Named.congr {g g' : Graph n} (hg : g.Named)
    (hname : ∀ i, (g'.nodes.entry i).name = (g.nodes.entry i).name)
    (hindex : ∀ i, (g'.nodes.entry i).index = (g.nodes.entry i).index) : g'.Named where
  index k := (hindex k).trans (hg.index k)
  distinct j k hjk := by
    rw [hname, hname] at hjk
    exact hg.distinct j k hjk
  slot name k := by
    rw [names_congr hname, hg.slot]
    simp only [hname]

/-- The graph as resolving the given conditions leaves it. -/
structure ResolvedBy (g : Graph n) (r : Resolver) (conditions : Table n Condition) : Prop where
  ordered : g.Ordered
  gives : ∀ i, ∃ x, (g.nodes.entry i).resolved? = some x ∧
    r.Gives g.nodes (conditions.entry i) x

/-- Resolving ends as settling all the nodes from scratch does, and keeps what that gave unless it
failed. -/
theorem resolve_of_advance {g : Graph n} {conditions : List Condition} {matchers : NameIndex}
    {p : Progress n} {o : Except Error Unit}
    (h : ((g.resolver conditions matchers).advance (g.nodes.map Node.reset)).result = .ok (p, o)) :
    (g.resolve conditions matchers).result =
      match o with
      | .ok () => .ok ({ g with nodes := p.nodes, order := p.order }, .ok ())
      | .error e => .ok ({ g with nodes := p.nodes.map Node.reset, order := [] }, .error e) := by
  have hrun : ((g.resolver conditions matchers).run (g.nodes.map Node.reset)).result =
      match o with
      | .ok () => .ok (p.nodes, .ok p.order)
      | .error e => .ok (p.nodes.map Node.reset, .error e) := by
    rw [Resolver.run, Logged.result_bind_of_ok h]
    cases o <;> rfl
  cases o with
  | ok u => exact Logged.result_bind_of_ok hrun _
  | error e => exact Logged.result_bind_of_ok hrun _

/-- Resolving always ends, changes nothing of the nodes but their being resolved, and either
resolves all of them or none. -/
theorem resolve_spec (g : Graph n) (conditions : List Condition) (matchers : NameIndex) :
    ∃ g' o, (g.resolve conditions matchers).result = .ok (g', o) ∧ g'.maxSlices = g.maxSlices ∧
      (∀ i, (g'.nodes.entry i).reset = (g.nodes.entry i).reset) ∧
      match o with
      | .ok () => ∃ table, (g.resolver conditions matchers).layout (g.nodes.map Node.reset)
          = .ok table ∧ g'.ResolvedBy (g.resolver conditions matchers) table
      | .error _ => g'.order = [] ∧ ∀ i, (g'.nodes.entry i).resolved? = none := by
  obtain ⟨p, o, hadvance, hp⟩ := Resolver.advance_leaves
    (resolver_inside g conditions matchers) (g.nodes.map Node.reset)
  have hres := resolve_of_advance hadvance
  -- the walk starts from the reset nodes, and keeps all of a node but its being resolved
  have hreset : ∀ i, (p.nodes.entry i).reset = (g.nodes.entry i).reset := by
    intro i
    rcases hp with ⟨_, -, rfl, -⟩ | ⟨table, -, hleaves, -⟩
    · rw [Table.entry_map]
      rfl
    · rw [hleaves.grows.reset i, Table.entry_map]
      rfl
  cases o with
  | error e =>
    refine ⟨_, _, hres, rfl, ?_, rfl, ?_⟩
    · intro i
      rw [Table.entry_map]
      exact hreset i
    · intro i
      rw [Table.entry_map]
      rfl
  | ok u =>
    rcases hp with ⟨_, -, -, ho⟩ | ⟨table, hlayout, hleaves, hall⟩
    · cases ho
    · have hstart : ∀ i, ((g.nodes.map Node.reset).entry i).resolved? = none := by
        intro i
        rw [Table.entry_map]
        rfl
      have hmem : ∀ i, i ∈ p.order := fun i =>
        (hleaves.sound.mem_order i).2 ⟨hstart i, hall rfl i⟩
      refine ⟨_, _, hres, rfl, hreset, table, hlayout, ⟨?_, ?_⟩, ?_⟩
      · exact (List.perm_ext_iff_of_nodup hleaves.sound.nodup (List.nodup_finRange n)).2
          fun i => by simp [hmem i]
      · exact fun before i after ho c hc =>
          hleaves.sound.children before i after ho c hc (hstart c)
      · exact fun i => hleaves.sound.gives i (hmem i)

end Graph

/-! ## What a resolved node is -/

/-- The rule is the one specified, with names replaced by indices: matchers by those of `matchers`,
children, as often and in the order listed, by those of `names`. -/
inductive Rule.Renders (names matchers : NameIndex) (maxSlices : Nat) : Spec → Rule n → Prop
  | simple {spec : SimpleSpec} {s : Simple} :
      spec.start.map matchers.get? = s.start.map some →
      spec.stop.map matchers.get? = s.stop.map some →
      spec.stopAll.map matchers.get? = s.stopAll.map some →
      s.countNesting = spec.countNesting → s.dimensions = spec.dimensions →
      s.initial = spec.initial → s.maxSlices = maxSlices →
      Renders names matchers maxSlices (.simple spec) (.simple s)
  | combination {operator childNames} {children : List (Fin n)} :
      childNames.map names.get? = children.map (fun c => some c.val) →
      Renders names matchers maxSlices (.combination operator childNames)
        (.combination { operator, children })

namespace Resolver

variable {r : Resolver} {nodes : Table n (Node n)} {condition : Condition} {x : Resolved n}

/-- Found children have the names looked for. -/
theorem get?_of_found {names : List String} {children : List (Fin n × Resolved n)}
    (h : List.Forall₂ (r.Found nodes) names children) :
    names.map r.conditionIndex.get? = (children.map (·.1)).map (fun c => some c.val) := by
  induction h with
  | nil => rfl
  | cons hf _ ih => rw [List.map_cons, List.map_cons, List.map_cons, ih, hf.1]

/-- Resolving gives the rule that the condition specifies. -/
theorem Gives.renders (h : r.Gives nodes condition x) :
    x.rule.Renders r.conditionIndex r.matcherIndex r.maxSlices condition.spec := by
  cases h with
  | simple hspec _ hs =>
    obtain ⟨start, stop, stopAll, hstart, hstop, hstopAll, rfl⟩ := simple_eq_ok_iff.1 hs
    rw [hspec]
    exact .simple hstart hstop hstopAll rfl rfl rfl rfl
  | combination hspec _ hf =>
    rw [hspec]
    exact .combination (get?_of_found hf)

/-- What the children of a combination use together. -/
theorem mem_usedBy_iff {children : List (Fin n × Resolved n)} {s : IndexSet} {m : Nat} :
    m ∈ children.foldl (fun used child => used.union child.2.used) s ↔
      m ∈ s ∨ ∃ child ∈ children, m ∈ child.2.used := by
  induction children generalizing s with
  | nil => simp
  | cons child rest ih =>
    rw [List.foldl_cons, ih, IndexSet.mem_union]
    simp [or_assoc]

/-- A node uses what its own rule reads and what its children use. -/
theorem Gives.mem_used_iff (h : r.Gives nodes condition x) {m : Nat} :
    m ∈ x.used ↔ m ∈ x.rule.reads ∨ ∃ c ∈ x.rule.children, m ∈ (nodes.entry c).used := by
  cases h with
  | simple _ _ hs =>
    obtain ⟨start, stop, stopAll, -, -, -, rfl⟩ := simple_eq_ok_iff.1 hs
    simp [Rule.reads, Rule.children, Simple.matchers]
  | @combination _ _ children _ _ hf =>
    have hused : ∀ child ∈ children, (nodes.entry child.1).used = child.2.used := by
      intro child hchild
      rw [Node.used, resolved_of_found hf hchild]
    have hread : ∀ {c : Combination (Fin n)}, m ∉ Rule.reads (.combination c) := List.not_mem_nil
    rw [Resolved.combination, mem_usedBy_iff]
    constructor
    · rintro (h | ⟨child, hchild, h⟩)
      · cases h
      · exact .inr ⟨child.1, List.mem_map_of_mem hchild, by rwa [hused child hchild]⟩
    · rintro (h | ⟨c, hc, h⟩)
      · exact absurd h hread
      · obtain ⟨child, hchild, rfl⟩ := List.mem_map.1 hc
        exact .inr ⟨child, hchild, by rwa [hused child hchild] at h⟩

/-- A combination starts in the state that its children give. -/
theorem Gives.aggregate_combination (h : r.Gives nodes condition x) {c : Combination (Fin n)}
    (hc : x.rule = .combination c) :
    x.aggregate = c.evaluate fun child => (nodes.entry child).aggregate := by
  cases h with
  | simple _ _ hs =>
    obtain ⟨_, _, _, -, -, -, rfl⟩ := simple_eq_ok_iff.1 hs
    cases hc
  | combination _ _ hf =>
    cases hc
    refine congrArg (combine _) ?_
    rw [List.map_map]
    refine List.map_congr_left fun child hchild => ?_
    rw [Function.comp_apply, Node.aggregate_of_resolved (resolved_of_found hf hchild)]

end Resolver

namespace Graph

variable {g : Graph n} {r : Resolver} {conditions : Table n Condition}

theorem isResolved_iff : g.isResolved = true ↔ ∀ i, (g.nodes.entry i).resolved? ≠ none := by
  rw [Graph.isResolved, Table.toList_eq_map_entry, List.all_map, List.all_eq_true]
  simp [Node.isResolved, Option.isSome_iff_ne_none]

/-- The conditions reached from one are that one and those reached from its children. -/
theorem reaches_iff {i j : Fin n} :
    g.Reaches i j ↔ j = i ∨ ∃ c ∈ (g.nodes.entry i).children, g.Reaches c j := by
  rw [Reaches, Relation.ReflTransGen.cases_head_iff, eq_comm]

/-- A simple condition depends on no other. -/
theorem reaches_iff_of_simple {i j : Fin n} {s : Simple}
    (hs : (g.nodes.entry i).simple? = some s) : g.Reaches i j ↔ j = i := by
  rw [reaches_iff, Node.children_of_simple hs]
  simp

/-- If every node uses what it reads itself and what its children use, it uses exactly what the
nodes reached from it read. -/
theorem Ordered.mem_used_iff (h : g.Ordered)
    (hused : ∀ i m, m ∈ (g.nodes.entry i).used ↔ m ∈ (g.nodes.entry i).reads ∨
      ∃ c ∈ (g.nodes.entry i).children, m ∈ (g.nodes.entry c).used) (i : Fin n) (m : Nat) :
    m ∈ (g.nodes.entry i).used ↔ ∃ j, g.Reaches i j ∧ m ∈ (g.nodes.entry j).reads := by
  refine h.induction (P := fun i => m ∈ (g.nodes.entry i).used ↔
    ∃ j, g.Reaches i j ∧ m ∈ (g.nodes.entry j).reads) (fun i ih => ?_) i
  rw [hused]
  constructor
  · rintro (hread | ⟨c, hc, hm⟩)
    · exact ⟨i, .refl, hread⟩
    · obtain ⟨j, hj, hread⟩ := (ih c hc).1 hm
      exact ⟨j, reaches_iff.2 (.inr ⟨c, hc, hj⟩), hread⟩
  · rintro ⟨j, hj, hread⟩
    rcases reaches_iff.1 hj with rfl | ⟨c, hc, hj⟩
    · exact .inl hread
    · exact .inr ⟨c, hc, (ih c hc).2 ⟨j, hj, hread⟩⟩

/-- In a graph that was just resolved, a node uses exactly what the nodes reached from it read. -/
theorem ResolvedBy.mem_used_iff (h : g.ResolvedBy r conditions) (i : Fin n) (m : Nat) :
    m ∈ (g.nodes.entry i).used ↔ ∃ j, g.Reaches i j ∧ m ∈ (g.nodes.entry j).reads := by
  refine h.ordered.mem_used_iff (fun i m => ?_) i m
  obtain ⟨x, hx, hgives⟩ := h.gives i
  simp only [Node.used, Node.reads, Node.children, hx]
  exact hgives.mem_used_iff

end Graph

end EventConditions
