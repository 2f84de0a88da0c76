import EventConditions.Proofs.Graph.Resolved

/-!
# The invariant of graphs

Whatever is done with a graph from its making on, its nodes stay numbered and named as they were
made, and it is resolved as a whole or not at all. A resolved graph stands for the conditions that
it was last resolved by: rules are theirs with names replaced by indices, the order has children
first, and the matchers of a node are those that simple conditions below it read.

`Graph.Reached` is any history of resolving, passes and requests for slice reports, in which passes
are given any event, verdicts, board and mask. The invariant is one of outlines, so passes and
requests keep it; resolving establishes it anew.
-/

namespace EventConditions

variable {n : Nat}

namespace Graph

/-- The graphs that `g₀` may become, each with the conditions and matchers of the latest resolving
that succeeded. -/
inductive Reached (g₀ : Graph n) : Graph n → Option (List Condition × NameIndex) → Prop
  | fresh : Reached g₀ g₀ none
  | resolved {g g' latest conditions matchers} : Reached g₀ g latest →
      (g.resolve conditions matchers).result = .ok (g', .ok ()) →
      Reached g₀ g' (some (conditions, matchers))
  | refused {g g' latest conditions matchers error} : Reached g₀ g latest →
      (g.resolve conditions matchers).result = .ok (g', .error error) → Reached g₀ g' latest
  | evaluate {g g' latest event verdicts board board'} : Reached g₀ g latest →
      (g.evaluate event verdicts board).result = .ok (g', board') → Reached g₀ g' latest
  | evaluateRelevant {g g' latest event verdicts board board' mask} : Reached g₀ g latest →
      (g.evaluateRelevant event verdicts board mask).result = .ok (g', board') →
      Reached g₀ g' latest
  | setSliced {g g' latest index on} : Reached g₀ g latest → g.setSliced index on = .ok g' →
      Reached g₀ g' latest

/-- The node at `i` stands for its condition among the given ones: it has the condition's name and
rule, and uses what the nodes reached from it read. -/
def Represents (g : Graph n) (maxSlices : Nat) (conditions : List Condition)
    (matchers : NameIndex) (i : Fin n) : Prop :=
  ∃ condition x, conditions[i.val]? = some condition ∧
    condition.name = (g.nodes.entry i).name ∧ (g.nodes.entry i).resolved? = some x ∧
    x.rule.Renders g.names matchers maxSlices condition.spec ∧
    ∀ m, m ∈ (g.nodes.entry i).used ↔ ∃ j, g.Reaches i j ∧ m ∈ (g.nodes.entry j).reads

/-- No node is resolved, and none is to be evaluated. -/
def Unresolved (g : Graph n) : Prop :=
  g.order = [] ∧ ∀ i, (g.nodes.entry i).resolved? = none

/-! ## Graphs of the same outline -/

section Outline

variable {g g' : Graph n} (h : g'.outline = g.outline)
include h

theorem order_eq_of_outline : g'.order = g.order := by
  show g'.outline.order = g.outline.order
  rw [h]

theorem maxSlices_eq_of_outline : g'.maxSlices = g.maxSlices := by
  show g'.outline.maxSlices = g.outline.maxSlices
  rw [h]

theorem outline_entry_eq_of_outline (i : Fin n) :
    (g'.nodes.entry i).outline = (g.nodes.entry i).outline := by
  rw [← entry_outline, ← entry_outline, h]

/-- What can be told from a node's outline is the same of both graphs' nodes. -/
theorem entry_eq_of_outline {α : Type} {f : Node n → α} (hf : ∀ node, f node.outline = f node)
    (i : Fin n) : f (g'.nodes.entry i) = f (g.nodes.entry i) := by
  rw [← hf, outline_entry_eq_of_outline h i, hf]

theorem names_eq_of_outline : g'.names = g.names :=
  names_congr (entry_eq_of_outline h Node.name_outline)

theorem reaches_eq_of_outline : g'.Reaches = g.Reaches := by
  funext i j
  simp only [Reaches, entry_eq_of_outline h Node.children_outline]

theorem isResolved_eq_of_outline : g'.isResolved = g.isResolved := by
  rw [isResolved, isResolved, Table.toList_eq_map_entry, Table.toList_eq_map_entry, List.all_map,
    List.all_map]
  exact congrArg _ (funext (entry_eq_of_outline h Node.isResolved_outline))

theorem Named.of_outline (hg : g.Named) : g'.Named :=
  hg.congr (entry_eq_of_outline h Node.name_outline) (entry_eq_of_outline h Node.index_outline)

theorem Ordered.of_outline (hg : g.Ordered) : g'.Ordered where
  perm := order_eq_of_outline h ▸ hg.perm
  children before i after ho c hc := by
    rw [order_eq_of_outline h] at ho
    rw [entry_eq_of_outline h Node.children_outline] at hc
    exact hg.children before i after ho c hc

theorem Unresolved.of_outline (hg : g.Unresolved) : g'.Unresolved := by
  refine ⟨(order_eq_of_outline h).trans hg.1, fun i => ?_⟩
  have := entry_eq_of_outline h Node.isResolved_outline i
  rw [Node.isResolved, Node.isResolved, hg.2 i] at this
  simpa using this

end Outline

end Graph

/-- A rule is specified by what it is apart from the slices it holds. -/
theorem Rule.renders_blank {names matchers : NameIndex} {maxSlices : Nat} {spec : Spec}
    {rule rule' : Rule n} (h : rule'.blank = rule.blank)
    (hr : rule.Renders names matchers maxSlices spec) :
    rule'.Renders names matchers maxSlices spec := by
  cases hr with
  | @simple spec s hstart hstop hstopAll hnest hdim hinit hmax =>
    cases rule' with
    | combination c => cases h
    | simple s' =>
      have hs : { s' with slices := {} } = { s with slices := ({} : Slices) } :=
        Rule.simple.inj h
      obtain ⟨start, stop, stopAll, nest, dim, init, max, slices⟩ := s
      obtain ⟨start', stop', stopAll', nest', dim', init', max', slices'⟩ := s'
      cases hs
      exact .simple hstart hstop hstopAll hnest hdim hinit hmax
  | combination hc =>
    cases rule' with
    | simple s => cases h
    | combination c =>
      cases h
      exact .combination hc

namespace Graph

/-- Nodes go on standing for their conditions in a graph of the same outline. -/
theorem Represents.of_outline {g g' : Graph n} (h : g'.outline = g.outline) {maxSlices : Nat}
    {conditions : List Condition} {matchers : NameIndex} {i : Fin n}
    (hg : g.Represents maxSlices conditions matchers i) :
    g'.Represents maxSlices conditions matchers i := by
  obtain ⟨condition, x, hcond, hname, hx, hrule, hused⟩ := hg
  have houtline := congrArg Node.resolved? (outline_entry_eq_of_outline h i)
  rw [Node.outline, Node.outline, hx] at houtline
  obtain ⟨x', hx', hblank⟩ := Option.map_eq_some_iff.1 houtline
  refine ⟨condition, x', hcond, ?_, hx', ?_, fun m => ?_⟩
  · rw [entry_eq_of_outline h Node.name_outline, hname]
  · rw [names_eq_of_outline h]
    exact Rule.renders_blank (congrArg Resolved.rule hblank) hrule
  · rw [entry_eq_of_outline h Node.used_outline, reaches_eq_of_outline h, hused m]
    simp only [entry_eq_of_outline h Node.reads_outline]

/-! ## Every history keeps the invariant -/

/-- The invariant, with the conditions and matchers the graph was last resolved by. -/
structure Invariant (maxSlices : Nat) (g : Graph n) (latest : Option (List Condition × NameIndex)) :
    Prop where
  named : g.Named
  limit : g.maxSlices = maxSlices
  resolved : g.Unresolved ∨ g.Ordered ∧ ∃ conditions matchers,
    latest = some (conditions, matchers) ∧ ∀ i, g.Represents maxSlices conditions matchers i

variable {maxSlices : Nat}

theorem Invariant.of_outline {g g' : Graph n} {latest : Option (List Condition × NameIndex)}
    (h : g'.outline = g.outline) (hg : Invariant maxSlices g latest) :
    Invariant maxSlices g' latest where
  named := hg.named.of_outline h
  limit := (maxSlices_eq_of_outline h).trans hg.limit
  resolved := by
    rcases hg.resolved with hu | ⟨ho, conditions, matchers, hl, hr⟩
    · exact .inl (hu.of_outline h)
    · exact .inr ⟨ho.of_outline h, conditions, matchers, hl, fun i => (hr i).of_outline h⟩

/-- A graph that was just made satisfies the invariant. -/
theorem Invariant.of_fresh {conditions : List Condition} {g : Graph conditions.length}
    (h : (ofConditions conditions maxSlices).result = .ok g) : Invariant maxSlices g none := by
  obtain ⟨hnodup, rfl⟩ := ofConditions_eq_ok_iff.1 h
  have hnames : (freshNodes conditions).toList.map Node.name = conditions.map Condition.name := by
    apply List.ext_getElem <;> simp [freshNodes]
  refine ⟨.of_nodup (fun k => ?_) ?_, rfl, .inl ⟨rfl, fun i => ?_⟩⟩
  · rw [entry_freshNodes]
  · rw [hnames]
    exact hnodup
  · rw [entry_freshNodes]

/-- Resolving, with or without an error, leaves the invariant. -/
theorem Invariant.of_resolve {g g' : Graph n} {latest : Option (List Condition × NameIndex)}
    (hg : Invariant maxSlices g latest) {conditions : List Condition} {matchers : NameIndex}
    {outcome : Except Error Unit} (h : (g.resolve conditions matchers).result = .ok (g', outcome)) :
    Invariant maxSlices g' (match outcome with
      | .ok () => some (conditions, matchers)
      | .error _ => latest) := by
  obtain ⟨g₁, o, hres, hlimit, hreset, hspec⟩ := g.resolve_spec conditions matchers
  cases hres.symm.trans h
  have hname : ∀ i, (g'.nodes.entry i).name = (g.nodes.entry i).name := fun i =>
    Node.name_eq_of_reset (hreset i)
  have hindex : ∀ i, (g'.nodes.entry i).index = (g.nodes.entry i).index := fun i =>
    Node.index_eq_of_reset (hreset i)
  refine ⟨hg.named.congr hname hindex, hlimit.trans hg.limit, ?_⟩
  cases outcome with
  | error e => exact .inl hspec
  | ok u =>
    obtain ⟨table, hlayout, hby⟩ := hspec
    obtain ⟨hlist, hfit⟩ := Resolver.layout_eq_ok_iff.1 hlayout
    refine .inr ⟨hby.ordered, conditions, matchers, rfl, fun i => ?_⟩
    obtain ⟨x, hx, hgives⟩ := hby.gives i
    refine ⟨table.entry i, x, ?_, ?_, hx, ?_, fun m => ?_⟩
    · show (g.resolver conditions matchers).conditions[i.val]? = _
      rw [hlist]
      exact Table.getElem?_toList_eq_some_iff.2 ⟨i.isLt, rfl⟩
    · rw [hname, ← (hfit i).1, Table.entry_map]
      rfl
    · rw [names_congr hname, ← hg.limit]
      exact hgives.renders
    · exact hby.mem_used_iff i m

/-- Every graph that can be reached satisfies the invariant. -/
theorem Reached.invariant {g₀ g : Graph n} {latest : Option (List Condition × NameIndex)}
    (h : Reached g₀ g latest) (h₀ : Invariant maxSlices g₀ none) :
    Invariant maxSlices g latest := by
  induction h with
  | fresh => exact h₀
  | resolved _ hres ih => exact ih.of_resolve hres
  | refused _ hres ih => exact ih.of_resolve hres
  | evaluate _ hres ih => exact ih.of_outline (outline_pass hres)
  | evaluateRelevant _ hres ih =>
    obtain ⟨_, hpass⟩ := evaluateRelevant_eq_ok_iff.1 hres
    exact ih.of_outline (outline_pass hpass)
  | setSliced _ hres ih => exact ih.of_outline (outline_setSliced hres)

/-- A graph that is resolved has its conditions in order. -/
theorem Invariant.ordered {g : Graph n} {latest : Option (List Condition × NameIndex)}
    (h : Invariant maxSlices g latest) (hall : g.isResolved = true) : g.Ordered := by
  rcases h.resolved with ⟨horder, hnone⟩ | ⟨hordered, -⟩
  · -- no node is left
    have hempty : ∀ i : Fin n, False := fun i => isResolved_iff.1 hall i (hnone i)
    have hlist : List.finRange n = [] := List.eq_nil_iff_forall_not_mem.2 fun i _ => hempty i
    exact ⟨by rw [horder, hlist], fun _ i _ _ => (hempty i).elim⟩
  · exact hordered

/-- Every condition uses the matchers that the conditions reached from it read. -/
theorem Invariant.mem_used_of_reaches {g : Graph n} {latest : Option (List Condition × NameIndex)}
    (h : Invariant maxSlices g latest) {i j : Fin n} (hreach : g.Reaches i j) {m : Nat}
    (hm : m ∈ (g.nodes.entry j).reads) : m ∈ (g.nodes.entry i).used := by
  rcases h.resolved with ⟨-, hnone⟩ | ⟨-, _, _, -, hrep⟩
  · rw [Node.reads, hnone j] at hm
    exact absurd hm List.not_mem_nil
  · obtain ⟨_, _, -, -, -, -, hused⟩ := hrep i
    exact (hused m).2 ⟨j, hreach, hm⟩

/-- Every condition uses the matchers that it reads itself. -/
theorem Invariant.mem_used {g : Graph n} {latest : Option (List Condition × NameIndex)}
    (h : Invariant maxSlices g latest) {i : Fin n} {m : Nat} (hm : m ∈ (g.nodes.entry i).reads) :
    m ∈ (g.nodes.entry i).used :=
  h.mem_used_of_reaches .refl hm

/-- **The invariant of every graph.** Over any history from its making on, a graph keeps its names
and numbers. It is resolved as a whole or not at all. If it is resolved, each condition has its turn
once and behind those it reads, and stands for the one it was last resolved by. -/
theorem reached_wellFormed {conditions₀ : List Condition} {g₀ g : Graph conditions₀.length}
    {latest : Option (List Condition × NameIndex)}
    (h₀ : (ofConditions conditions₀ maxSlices).result = .ok g₀) (h : Reached g₀ g latest) :
    g.Named ∧
    (g.isResolved = true ∨ g.order = [] ∧ ∀ i, (g.nodes.entry i).resolved? = none ∧
      (g.nodes.entry i).aggregate = .unknown ∧ (g.nodes.entry i).used = {}) ∧
    (g.isResolved = true → g.Ordered ∧ ∀ i, ∃ conditions matchers,
      latest = some (conditions, matchers) ∧ g.Represents maxSlices conditions matchers i) := by
  obtain ⟨hnamed, -, hresolved⟩ := h.invariant (.of_fresh h₀)
  refine ⟨hnamed, ?_, fun hall => ?_⟩
  · rcases hresolved with ⟨horder, hnone⟩ | ⟨-, conditions, matchers, -, hrep⟩
    · refine .inr ⟨horder, fun i => ⟨hnone i, ?_, ?_⟩⟩
      · rw [Node.aggregate, hnone i]
      · rw [Node.used, hnone i]
    · refine .inl (isResolved_iff.2 fun i => ?_)
      obtain ⟨_, x, -, -, hx, -⟩ := hrep i
      rw [hx]
      simp
  · rcases hresolved with ⟨horder, hnone⟩ | ⟨hordered, conditions, matchers, hlatest, hrep⟩
    · -- a graph with both properties has no node
      have hempty : ∀ i : Fin conditions₀.length, False := fun i =>
        isResolved_iff.1 hall i (hnone i)
      have hlen : List.finRange conditions₀.length = [] :=
        List.eq_nil_iff_forall_not_mem.2 fun i _ => hempty i
      refine ⟨⟨?_, fun _ i _ _ => (hempty i).elim⟩, fun i => (hempty i).elim⟩
      rw [horder, hlen]
    · exact ⟨hordered, fun i => ⟨conditions, matchers, hlatest, hrep i⟩⟩

/-- Two conditions, listed with the dependent one first. -/
def idleBusy : List Condition :=
  [⟨"idle", .combination .not ["busy"]⟩, ⟨"busy", .simple { start := some "begin" }⟩]

/-- Their graph before it is resolved. -/
def idleBusyFresh : Graph 2 where
  nodes := #v[{ name := "idle", index := 0 }, { name := "busy", index := 1 }]

/-- Their graph once resolved, in the given states and holding the given slices. -/
def idleBusyIn (idle busy : State) (slices : Slices) : Graph 2 where
  nodes := #v[
    { name := "idle"
      index := 0
      resolved? := some {
        rule := .combination { operator := .not, children := [1] }
        used := ⟨[0]⟩
        aggregate := idle } },
    { name := "busy"
      index := 1
      resolved? := some {
        rule := .simple { start := some 0, slices }
        used := ⟨[0]⟩
        aggregate := busy } }]
  order := [1, 0]

theorem reached_wellFormed_idleBusy :
    let matchers : NameIndex := ⟨[("begin", 0)]⟩
    let g := idleBusyIn .fails .holds ⟨[(.whole, 1)]⟩
    (ofConditions idleBusy 800).result = .ok idleBusyFresh ∧
      Reached idleBusyFresh g (some (idleBusy, matchers)) ∧ g.Named ∧ g.isResolved = true ∧
      g.Ordered ∧ ∀ i, g.Represents 800 idleBusy matchers i := by
  intro matchers g
  have hmade : (ofConditions idleBusy 800).result = .ok idleBusyFresh := rfl
  -- refused for want of a matcher, then resolved, then fed the event that starts `busy`
  have hrefused : (idleBusyFresh.resolve idleBusy {}).result = .ok (idleBusyFresh, .error
      { cause := .unknownMatcher "begin", origin := some { frames := ["busy", "idle"] } }) := by
    with_unfolding_all rfl
  have hresolved : (idleBusyFresh.resolve idleBusy matchers).result =
      .ok (idleBusyIn .unknown .unknown {}, .ok ()) := by
    with_unfolding_all rfl
  have hevent : ((idleBusyIn .unknown .unknown {}).evaluate { tag := 7 } #[.matched]
      (.blank 2)).result = .ok (g, ⟨#[⟨.fails, true, false⟩, ⟨.holds, true, false⟩]⟩) := by
    with_unfolding_all rfl
  have hreached : Reached idleBusyFresh g (some (idleBusy, matchers)) :=
    .evaluate (.resolved (.refused .fresh hrefused) hresolved) hevent
  have hall : g.isResolved = true := rfl
  obtain ⟨hnamed, -, hrest⟩ := reached_wellFormed hmade hreached
  refine ⟨hmade, hreached, hnamed, hall, (hrest hall).1, fun i => ?_⟩
  obtain ⟨conditions, matchers', hlatest, hrep⟩ := (hrest hall).2 i
  cases hlatest
  exact hrep

end Graph

end EventConditions
