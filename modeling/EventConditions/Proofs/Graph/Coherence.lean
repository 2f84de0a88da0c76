import EventConditions.Proofs.Graph.Representation
import EventConditions.Proofs.Graph.Sweep

/-!
# Coherent graphs

A graph is coherent when every combination is in the state that its operator makes of the states of
its children, and every node uses what it reads itself and what its children use. A graph that was
just built is coherent; requests for slice reports and passes over all conditions keep it so, and a
board that showed its states shows them afterwards as well. So what a pass reads on the board of a
child is always the state of that child's node, which is what a pass that leaves some conditions out
relies on.
-/

namespace EventConditions

variable {n : Nat}

namespace Graph

/-- Every combination is in the state that its children give, and uses what they use. -/
structure Coherent (g : Graph n) : Prop where
  ordered : g.Ordered
  resolved : ∀ i, (g.nodes.entry i).resolved? ≠ none
  used : ∀ i m, m ∈ (g.nodes.entry i).used ↔ m ∈ (g.nodes.entry i).reads ∨
    ∃ c ∈ (g.nodes.entry i).children, m ∈ (g.nodes.entry c).used
  combined : ∀ i x c, (g.nodes.entry i).resolved? = some x → x.rule = .combination c →
    x.aggregate = c.evaluate fun child => (g.nodes.entry child).aggregate

/-- The verdicts have an entry for every matcher in use. -/
def Covers (g : Graph n) (verdicts : Array Verdict) : Prop :=
  ∀ i, ∀ m ∈ (g.nodes.entry i).used, m < verdicts.size

/-- The nodes and cells that a pass starts from when the board shows the graph. -/
def opening (g : Graph n) : Sweep n where
  nodes := g.nodes
  cells := g.nodes.map fun node => { state := node.aggregate }

end Graph

/-- The board shows the state of every condition of the graph. -/
structure Board.Shows (b : Board) (g : Graph n) : Prop where
  size : b.cells.size = n
  state : ∀ i, (Table.entry ⟨b.cells, size⟩ i).state = (g.nodes.entry i).aggregate

namespace Graph

/-! ## Fresh boards and built graphs -/

/-- A new board shows its graph. -/
theorem newBoard_shows (g : Graph n) : g.newBoard.Shows g where
  size := by simp [newBoard]
  state i := by simp [newBoard, Table.entry]

/-- Building is making a graph and resolving it. -/
theorem build_eq_ok_iff {conditions : List Condition} {matchers : NameIndex} {maxSlices : Nat}
    {g : Graph conditions.length} :
    (build conditions matchers maxSlices).result = .ok (.ok g) ↔
      ∃ g₀, (ofConditions conditions maxSlices).result = .ok g₀ ∧
        (g₀.resolve conditions matchers).result = .ok (g, .ok ()) := by
  rw [build, Logged.result_bind_of_ok (Logged.result_attempt _)]
  cases (ofConditions conditions maxSlices).result with
  | error e => simp
  | ok g₀ =>
    dsimp only
    rw [Logged.result_bind_eq_ok_iff]
    constructor
    · rintro ⟨⟨g', outcome⟩, hres, hout⟩
      cases outcome with
      | error e => cases hout
      | ok u =>
        cases hout
        exact ⟨g₀, rfl, hres⟩
    · rintro ⟨_, hg₀, hres⟩
      cases hg₀
      exact ⟨_, hres, rfl⟩

/-- A graph as resolving leaves it is coherent. -/
theorem ResolvedBy.coherent {g : Graph n} {r : Resolver} {conditions : Table n Condition}
    (h : g.ResolvedBy r conditions) : g.Coherent where
  ordered := h.ordered
  resolved i := by
    obtain ⟨x, hx, -⟩ := h.gives i
    rw [hx]
    simp
  used i m := by
    obtain ⟨x, hx, hgives⟩ := h.gives i
    simp only [Node.used, Node.reads, Node.children, hx]
    exact hgives.mem_used_iff
  combined i x c hx hrule := by
    obtain ⟨x', hx', hgives⟩ := h.gives i
    cases hx.symm.trans hx'
    exact hgives.aggregate_combination hrule

/-- The conditions by index. -/
def conditionTable (conditions : List Condition) : Table conditions.length Condition :=
  ⟨conditions.toArray, List.size_toArray⟩

@[simp] theorem toList_conditionTable (conditions : List Condition) :
    (conditionTable conditions).toList = conditions := by
  simp [conditionTable]

@[simp] theorem entry_conditionTable (conditions : List Condition) (i : Fin conditions.length) :
    (conditionTable conditions).entry i = conditions.get i := by
  simp [conditionTable, Table.entry]

/-- In a graph that was just made a name has the position of the condition that it names. -/
theorem get?_names_of_fresh {conditions : List Condition} {maxSlices : Nat}
    {g : Graph conditions.length} (h : (ofConditions conditions maxSlices).result = .ok g)
    (name : String) (i : Fin conditions.length) :
    g.names.get? name = some i.val ↔ (conditions.get i).name = name := by
  have hnamed := (Invariant.of_fresh h).named
  obtain ⟨-, rfl⟩ := ofConditions_eq_ok_iff.1 h
  rw [hnamed.slot]
  simp

/-- Resolving a graph against the conditions it was made of takes each for its own node. -/
theorem layout_of_fresh {conditions : List Condition} {maxSlices : Nat}
    {g : Graph conditions.length} (h : (ofConditions conditions maxSlices).result = .ok g)
    (matchers : NameIndex) :
    (g.resolver conditions matchers).layout (g.nodes.map Node.reset)
      = .ok (conditionTable conditions) := by
  have hget := get?_names_of_fresh h
  obtain ⟨-, rfl⟩ := ofConditions_eq_ok_iff.1 h
  refine Resolver.layout_eq_ok_iff.2 ⟨(toList_conditionTable conditions).symm, fun i => ?_⟩
  rw [entry_conditionTable, Table.entry_map, entry_freshNodes]
  exact ⟨rfl, rfl, (hget _ i).2 rfl⟩

/-- A graph that was just built is as resolving its conditions leaves it. -/
theorem resolvedBy_of_build {conditions : List Condition} {matchers : NameIndex} {maxSlices : Nat}
    {g : Graph conditions.length}
    (h : (build conditions matchers maxSlices).result = .ok (.ok g)) :
    ∃ g₀, (ofConditions conditions maxSlices).result = .ok g₀ ∧
      g.ResolvedBy (g₀.resolver conditions matchers) (conditionTable conditions) := by
  obtain ⟨g₀, hmade, hres⟩ := build_eq_ok_iff.1 h
  obtain ⟨g', o, hres', -, -, hspec⟩ := g₀.resolve_spec conditions matchers
  obtain ⟨rfl, rfl⟩ := Prod.mk.inj (Except.ok.inj (hres'.symm.trans hres))
  obtain ⟨table, hlayout, hby⟩ := hspec
  obtain rfl : conditionTable conditions = table :=
    Except.ok.inj ((layout_of_fresh hmade matchers).symm.trans hlayout)
  exact ⟨g₀, hmade, hby⟩

/-- A graph that was just built is coherent. -/
theorem coherent_of_build {conditions : List Condition} {matchers : NameIndex} {maxSlices : Nat}
    {g : Graph conditions.length}
    (h : (build conditions matchers maxSlices).result = .ok (.ok g)) : g.Coherent := by
  obtain ⟨_, -, hby⟩ := resolvedBy_of_build h
  exact hby.coherent

/-- In a graph as resolving leaves it, a simple condition holds no slice and is in its initial
state. -/
theorem ResolvedBy.starts {g : Graph n} {r : Resolver} {conditions : Table n Condition}
    (h : g.ResolvedBy r conditions) {i : Fin n} {s : Simple}
    (hs : (g.nodes.entry i).simple? = some s) :
    s.slices = {} ∧ (g.nodes.entry i).aggregate = s.initial.state ∧
      ∃ spec, (conditions.entry i).spec = .simple spec ∧ s.initial = spec.initial := by
  obtain ⟨x, hx, hrule⟩ := Node.simple?_eq_some_iff.1 hs
  obtain ⟨x', hx', hgives⟩ := h.gives i
  obtain rfl := Option.some.inj (hx.symm.trans hx')
  cases hgives with
  | simple hspec _ hs =>
    obtain ⟨_, _, _, -, -, -, rfl⟩ := Resolver.simple_eq_ok_iff.1 hs
    obtain rfl := Rule.simple.inj hrule
    exact ⟨rfl, Node.aggregate_of_resolved hx, _, hspec, rfl⟩
  | combination _ _ _ => exact nomatch hrule

/-- In a graph that was just built a simple condition holds no slice and is in its initial state. -/
theorem starts_of_build {conditions : List Condition} {matchers : NameIndex} {maxSlices : Nat}
    {g : Graph conditions.length}
    (h : (build conditions matchers maxSlices).result = .ok (.ok g)) {i : Fin conditions.length}
    {s : Simple} (hs : (g.nodes.entry i).simple? = some s) :
    s.slices = {} ∧ ∃ spec, (conditions.get i).spec = .simple spec ∧
      (g.nodes.entry i).aggregate = spec.initial.state := by
  obtain ⟨_, -, hby⟩ := resolvedBy_of_build h
  obtain ⟨hnone, hstate, spec, hspec, hinitial⟩ := hby.starts hs
  rw [entry_conditionTable] at hspec
  exact ⟨hnone, spec, hspec, hinitial ▸ hstate⟩

/-! ## Requests for slice reports -/

theorem aggregate_slice (g : Graph n) (i j : Fin n) :
    ((g.slice i).nodes.entry j).aggregate = (g.nodes.entry j).aggregate := by
  rw [Node.aggregate, Node.aggregate, resolved?_slice]

/-- Of two graphs with the same outline, the second is coherent once its combinations are in the
states that their children give. -/
theorem Coherent.of_outline {g g' : Graph n} (h : g.Coherent) (houtline : g'.outline = g.outline)
    (hcombined : ∀ i x c, (g'.nodes.entry i).resolved? = some x → x.rule = .combination c →
      x.aggregate = c.evaluate fun child => (g'.nodes.entry child).aggregate) : g'.Coherent where
  ordered := h.ordered.of_outline houtline
  resolved i := by
    have hresolved := h.resolved i
    rw [← Option.isSome_iff_ne_none] at hresolved ⊢
    exact (entry_eq_of_outline houtline Node.isResolved_outline i).trans hresolved
  used i m := by
    rw [entry_eq_of_outline houtline Node.used_outline,
      entry_eq_of_outline houtline Node.reads_outline,
      entry_eq_of_outline houtline Node.children_outline]
    simp only [entry_eq_of_outline houtline Node.used_outline]
    exact h.used i m
  combined := hcombined

/-- Verdicts that cover a graph cover those of the same outline. -/
theorem Covers.of_outline {g g' : Graph n} {verdicts : Array Verdict} (h : g.Covers verdicts)
    (houtline : g'.outline = g.outline) : g'.Covers verdicts := by
  intro i m hm
  rw [entry_eq_of_outline houtline Node.used_outline] at hm
  exact h i m hm

/-- A request keeps a graph coherent. -/
theorem Coherent.slice {g : Graph n} (h : g.Coherent) (i : Fin n) : (g.slice i).Coherent := by
  refine h.of_outline (outline_slice g i) fun j x c hx hrule => ?_
  rw [resolved?_slice] at hx
  simp only [aggregate_slice]
  exact h.combined j x c hx hrule

end Graph

/-- A request changes nothing that a board shows. -/
theorem Board.Shows.slice {b : Board} {g : Graph n} (h : b.Shows g) (i : Fin n) :
    b.Shows (g.slice i) where
  size := h.size
  state j := by
    rw [Graph.aggregate_slice]
    exact h.state j

/-! ## Passes over all conditions -/

namespace Sweep

variable {e : Event} {verdicts : Array Verdict}

@[simp] theorem aggregate_settle_self (s : Sweep n) (i : Fin n) (rule : Rule n) (state : State)
    (moved : Bool) : ((s.settle i rule state moved).nodes.entry i).aggregate = state := by
  rw [node_settle_self]
  rfl

@[simp] theorem state_settle_self (s : Sweep n) (i : Fin n) (rule : Rule n) (state : State)
    (moved : Bool) : ((s.settle i rule state moved).cells.entry i).state = state := by
  rw [cell_settle_self]

/-- A condition that had its turn is shown in its state. -/
theorem Turned.shows {s₀ s : Sweep n} {i : Fin n} (h : Turned e verdicts s₀ s i) :
    (s.cells.entry i).state = (s.nodes.entry i).aggregate := by
  cases h with
  | simple _ _ _ hs =>
    rw [hs.1, hs.2, aggregate_settle_self, state_settle_self]
  | combination _ _ hs =>
    rw [hs.1, hs.2, aggregate_settle_self, state_settle_self]

/-- A condition that had its turn is shown as changed if its state is another one than before. -/
theorem Turned.changed_eq {s₀ s : Sweep n} {i : Fin n} (h : Turned e verdicts s₀ s i) :
    (s.cells.entry i).changed = ((s.nodes.entry i).aggregate != (s₀.nodes.entry i).aggregate) := by
  cases h with
  | simple _ _ _ hs =>
    rw [hs.1, hs.2, aggregate_settle_self, cell_settle_self]
  | combination _ _ hs =>
    rw [hs.1, hs.2, aggregate_settle_self, cell_settle_self]

/-- A combination that had its turn is in the state that the cells of its children give. -/
theorem Turned.combined {s₀ s : Sweep n} {i : Fin n} (h : Turned e verdicts s₀ s i)
    {x : Resolved n} {c : Combination (Fin n)} (hx : (s.nodes.entry i).resolved? = some x)
    (hrule : x.rule = .combination c) :
    x.aggregate = c.evaluate fun child => (s.cells.entry child).state := by
  cases h with
  | simple _ _ _ hs =>
    rw [hs.1, node_settle_self] at hx
    cases hx
    cases hrule
  | combination _ _ hs =>
    rw [hs.1, node_settle_self] at hx
    cases hx
    cases hrule
    rfl

end Sweep

namespace Graph

variable {g : Graph n} {e : Event} {verdicts : Array Verdict}

/-- A combination is in the state that joins those of its children. -/
theorem Coherent.aggregate_combination (hg : g.Coherent) {i : Fin n} {x : Resolved n}
    {c : Combination (Fin n)} (hx : (g.nodes.entry i).resolved? = some x)
    (hrule : x.rule = .combination c) :
    (g.nodes.entry i).aggregate = c.evaluate fun child => (g.nodes.entry child).aggregate := by
  rw [Node.aggregate_of_resolved hx]
  exact hg.combined i x c hx hrule

theorem Coherent.isResolved (h : g.Coherent) : g.isResolved = true :=
  isResolved_iff.2 h.resolved

/-- In a coherent graph that the verdicts cover, every condition is ready for its turn. -/
theorem Coherent.ready (h : g.Coherent) (hcovers : g.Covers verdicts) (i : Fin n) :
    Sweep.Ready e verdicts g.opening i :=
  .of_reads (h.resolved i) fun m hm => hcovers i m ((h.used i m).2 (.inl hm))

/-- A pass with a board that shows the graph starts from its opening. -/
theorem pass_eq_ok_of_shows {board : Board} {relevant : Fin n → Bool} {s : Sweep n}
    (hg : g.isResolved = true) (hboard : board.Shows g)
    (hrun : (Sweep.run e verdicts relevant g.order g.opening).result = .ok s) :
    (g.pass e verdicts board relevant).result =
      .ok ({ g with nodes := s.nodes }, ⟨s.cells.toArray⟩) := by
  refine pass_eq_ok_iff.2 ⟨hg, hboard.size, s, ?_, rfl, rfl⟩
  have hcells : Table.map (fun cell => ({ state := cell.state } : Cell)) ⟨board.cells, hboard.size⟩
      = g.opening.cells := by
    refine Table.ext_entry fun i => ?_
    rw [opening, Table.entry_map, Table.entry_map, hboard.state]
  rw [hcells]
  exact hrun

/-- Where every condition had its turn, children were done when a combination read their cells. -/
theorem Coherent.of_turned (h : g.Coherent) {g' : Graph n} {s : Sweep n}
    (houtline : g'.outline = g.outline) (hnodes : g'.nodes = s.nodes)
    (hturned : ∀ i, Sweep.Turned e verdicts g.opening s i) : g'.Coherent := by
  refine h.of_outline houtline fun i x c hx hrule => ?_
  rw [hnodes] at hx ⊢
  rw [(hturned i).combined hx hrule]
  simp only [(hturned _).shows]

/-- A pass over all conditions leaves a coherent graph, which the board shows. -/
theorem Coherent.of_swept (h : g.Coherent) {board board' : Board} {g' : Graph n} {s : Sweep n}
    (hpass : (g.pass e verdicts board fun _ => true).result = .ok (g', board'))
    (hnodes : g'.nodes = s.nodes) (hcells : board'.cells = s.cells.toArray)
    (hs : Sweep.Swept e verdicts (fun _ => true) g.opening g.order s) :
    g'.Coherent ∧ board'.Shows g' := by
  have hturned : ∀ i, Sweep.Turned e verdicts g.opening s i := fun i =>
    hs.turned i (h.ordered.mem_order i) rfl
  refine ⟨h.of_turned (outline_pass hpass) hnodes hturned, ⟨?_, fun i => ?_⟩⟩
  · rw [hcells]
    exact s.cells.size_toArray
  · have hcell : Table.entry ⟨board'.cells, by rw [hcells]; exact s.cells.size_toArray⟩ i
        = s.cells.entry i := by
      simp [Table.entry, hcells]
    rw [hcell, hnodes, (hturned i).shows]

end Graph

end EventConditions
